import Mathlib.Data.List.Basic
import TypedConfig.Proofs.Document.Mending.Series

/-!
Mending a value in which reading breaks off, by induction on the number of containers that may still
be opened.  A field gets the name, the colon or the value that it lacks; a name goes on with a
hyphen where it would otherwise be the unit of the number in front of it.
-/

namespace TypedConfig.Document

open Token (Quieter Stops)

/-- A name as it is read in front of a text. -/
inductive NameAt : List Char → List Char → Prop
  | quoted {token rest : List Char} :
      Token.quoted (token ++ rest) = .closed token rest → NameAt token rest
  | bare {token rest : List Char} :
      isBareName token = true → Stops Token.isIdentifierChar rest → NameAt token rest

section Names

variable {token rest other before text : List Char}

theorem NameAt.begins (h : NameAt token rest) : Begins token := by
  cases h with
  | quoted hclosed =>
      obtain ⟨more, rfl⟩ := Token.cons_of_closed hclosed
      exact begins_quote more
  | bare hname _ =>
      obtain ⟨c, more, rfl, hstart, -⟩ := cons_of_isBareName hname
      exact begins_of_isWordChar (isWordChar_of_isIdentifierStart hstart)

theorem NameAt.takes (h : NameAt token rest) : Takes readName token rest := by
  intro before
  cases h with
  | quoted hclosed =>
      obtain ⟨more, rfl⟩ := Token.cons_of_closed hclosed
      have hdigits : Token.digits ('"' :: more ++ rest) = [] := rfl
      have hpast : (Cursor.behind before ('"' :: more ++ rest)).past ('"' :: more) rest
          = .behind (before ++ '"' :: more) rest := past_behind before ('"' :: more) rest
      simp only [readName, Cursor.behind, hdigits, hclosed] at hpast ⊢
      rw [hpast]
      exact ⟨_, rfl⟩
  | bare hname hstops =>
      have hspell : spellName (String.ofList token).toList = token := by
        rw [String.toList_ofList, spellName, if_pos hname]
      have hread := readName_spelled (String.ofList token) hstops (Text.Place.start.afterAll before)
      rw [hspell] at hread
      simp only [Cursor.behind, Text.Place.afterAll_append, hread]
      exact ⟨_, rfl⟩

theorem stops_of_identifier (h : Token.identifier text = some (token, rest)) :
    Stops Token.isIdentifierChar rest := by
  cases text with
  | nil => cases h
  | cons c more =>
      simp only [Token.identifier, Option.ite_none_right_eq_some, Option.some.injEq,
        Prod.mk.injEq] at h
      obtain ⟨-, -, rfl⟩ := h
      exact Token.stops_dropWhile _ _

theorem nameAt_of_found {name : Identifier} {next : Cursor}
    (h : readName (.behind before text) = .found name next) : ∃ token rest,
      text = token ++ rest ∧ next = .behind (before ++ token) rest ∧ NameAt token rest := by
  unfold readName at h
  split at h
  · cases h
  · split at h
    · rename_i token rest hclosed
      have hcut : token ++ rest = text :=
        Token.quoted_lossless (congrArg Token.Quoted.split? hclosed)
      cases h
      subst hcut
      exact ⟨token, rest, rfl, past_behind _ _ _, .quoted hclosed⟩
    · cases h
    · split at h
      · rename_i token rest hidentifier
        have hcut : token ++ rest = text := Token.identifier_lossless hidentifier
        cases h
        subst hcut
        have hname : isBareName token = true := by
          simp [isBareName, (identifier_alone hidentifier).1]
        exact ⟨token, rest, rfl, past_behind _ _ _, .bare hname (stops_of_identifier hidentifier)⟩
      · cases h

/-- The name is read in front of every text that does not go on as a word, and does not go on what
stands in front of it more than the text `text` does. -/
def Names (text token : List Char) : Prop :=
  ∀ other, Stops Token.isWordChar other → NameAt token other ∧ Quieter text (token ++ other)

theorem names_of_closed (h : ∀ rest, Token.quoted (token ++ rest) = .closed token rest)
    (text : List Char) : Names text token := by
  intro other _
  obtain ⟨more, rfl⟩ := Token.cons_of_closed (h other)
  exact ⟨.quoted (h other), (atEdge_quote _).quieter text⟩

theorem head_of_bare (h : isBareName token = true) :
    ∃ c more, token = c :: more ∧ Token.isGap c = false ∧ c.isDigit = false := by
  obtain ⟨c, more, rfl, hstart, -⟩ := cons_of_isBareName h
  refine ⟨c, more, rfl, ?_, isDigit_of_isIdentifierStart hstart⟩
  by_contra hgap
  have hword := Token.isWordChar_of_isGap (Bool.not_eq_false _ ▸ hgap)
  simp [isWordChar_of_isIdentifierStart hstart] at hword

theorem names_of_bare (h : isBareName token = true) (hrest : Stops Token.isWordChar rest) :
    Names (token ++ rest) token := fun _ hother =>
  ⟨.bare h (stops_identifier_of_word hother), Token.quieter_of_word (head_of_bare h) hrest hother⟩

theorem NameAt.names (h : NameAt token rest) (hrest : Stops Token.isWordChar rest) :
    Names (token ++ rest) token := by
  cases h with
  | quoted hclosed => exact names_of_closed (Token.quoted_token hclosed) _
  | bare hname _ => exact names_of_bare hname hrest

end Names

section Fields

variable {value : Cursor → Reading Node} {token first second piece follow : List Char}

theorem takes_field (hname : NameAt token (first ++ ':' :: (second ++ (piece ++ follow))))
    (hfirst : Layout first) (hsecond : Layout second) (hsolid : Solid (piece ++ follow))
    (hvalue : Takes value piece follow) :
    Takes (readField value) (token ++ first ++ ':' :: second ++ piece) follow := by
  intro before
  obtain ⟨name, hread⟩ := hname.takes before
  obtain ⟨node, hnode⟩ := hvalue (before ++ token ++ first ++ [':'] ++ second)
  have hassoc : token ++ first ++ ':' :: second ++ piece ++ follow
      = token ++ (first ++ ':' :: (second ++ (piece ++ follow))) := by simp
  have hnext : before ++ (token ++ first ++ ':' :: second ++ piece)
      = before ++ token ++ first ++ [':'] ++ second ++ piece := by simp
  have hcolon : Solid (':' :: (second ++ (piece ++ follow))) := solid_cons (by decide) (by decide)
  rw [hassoc, hnext, readField, hread, Reading.andThen_found, Cursor.pastLayout_append hfirst,
    Cursor.pastLayout_solid hcolon, readMark_behind, Reading.andThen_found,
    Cursor.pastLayout_append hsecond, Cursor.pastLayout_solid hsolid, hnode,
    Reading.require_found, Reading.andThen_found]
  exact ⟨_, rfl⟩

theorem stops_layout_colon (h : Layout first) (rest : List Char) :
    Stops Token.isWordChar (first ++ ':' :: rest) :=
  (h.atEdge (atEdge_cons (by decide) (by decide))).stops_word

theorem readField_steady (hsound : Sound value Style.accepted.Written) (hsteady : Steady value) :
    Steady (readField value) := by
  intro before piece rest field h other hquiet
  obtain ⟨token, first, second, text, htext, hname, hfirst, hsecond, hsolid, hread, -⟩ :=
    readField_found h
  obtain ⟨part, left, rfl, hcursor, hpart, -⟩ := hsound hread
  obtain ⟨name, follow, hfollow, hnext, hat⟩ := nameAt_of_found hname
  rw [htext] at hfollow
  obtain ⟨rfl, rfl⟩ := taken_unique hfollow hnext
  have hwhole : piece ++ rest = token ++ first ++ ':' :: second ++ part ++ left := by simp [htext]
  obtain ⟨rfl, rfl⟩ := taken_unique hwhole (by simpa using hcursor)
  rw [← List.append_assoc before _ part] at hread
  obtain ⟨-, htakes⟩ := hsteady hread hquiet
  obtain ⟨hagain, hquiet⟩ := hat.names (stops_layout_colon hfirst _)
    (first ++ ':' :: (second ++ (part ++ other))) (stops_layout_colon hfirst _)
  refine ⟨?_, takes_field hagain hfirst (hsecond.layout (by simp [hpart]))
    (solid_append hpart hsolid other) htakes⟩
  simpa using hquiet

end Fields

section Nodes

variable {limit levels : Nat}

/-- A text that no bracket begins. -/
def Plain (text : List Char) : Prop :=
  ∀ c ∈ text.head?, c ≠ '\x7b' ∧ c ≠ '['

theorem readNode_plain {text : List Char} (h : Plain text) (before : List Char) :
    readNode limit levels (.behind before text) = readLiteral (.behind before text) := by
  cases text with
  | nil => cases levels <;> rfl
  | cons c more => exact readNode_literal (h c rfl) _

theorem plain_append {piece : List Char} (hne : piece ≠ []) (h : Plain piece) (rest : List Char) :
    Plain (piece ++ rest) := by
  obtain ⟨c, more, rfl⟩ := List.exists_cons_of_ne_nil hne
  exact h

theorem takes_plain {piece rest : List Char} (hne : piece ≠ []) (hplain : Plain piece)
    (h : Takes readLiteral piece rest) : Takes (readNode limit levels) piece rest := by
  intro before
  rw [readNode_plain (plain_append hne hplain rest)]
  exact h before

theorem array_container (limit levels : Nat) :
    Container (readNode limit (levels + 1)) (readNode limit levels) .value '[' ']'
      .closingBracket := by
  refine ⟨⟨'[', [], rfl, by decide, by decide, by decide⟩, ?_, closes_bracket limit levels, ?_⟩
  · intro rest
    exact atEdge_cons (by decide) (by decide)
  · intro before rest
    refine ⟨fun items next => .array items ((Cursor.behind before ('[' :: rest)).spanTo next), ?_⟩
    change (readArray (readNode limit levels) (.behind before ('[' :: rest)) rest).map _ = _
    rw [readArray, past_behind]
    cases readInside (readNode limit levels) .value ']' .closingBracket
      (.behind (before ++ ['[']) rest) <;> rfl

theorem dictionary_container (limit levels : Nat) :
    Container (readNode limit (levels + 1)) (readField (readNode limit levels)) .fieldName '\x7b'
      '\x7d' .closingBrace := by
  refine ⟨⟨'\x7b', [], rfl, by decide, by decide, by decide⟩, ?_, closes_brace _, ?_⟩
  · intro rest
    exact atEdge_cons (by decide) (by decide)
  · intro before rest
    refine ⟨fun fields next =>
      .dictionary fields ((Cursor.behind before ('\x7b' :: rest)).spanTo next), ?_⟩
    change (readDictionary (readNode limit levels) (.behind before ('\x7b' :: rest)) rest).map _ = _
    rw [readDictionary, past_behind]
    cases readInside (readField (readNode limit levels)) .fieldName '\x7d' .closingBrace
      (.behind (before ++ ['\x7b']) rest) <;> rfl

theorem plain_or_opens (text : List Char) :
    Plain text ∨ '\x7b' ∈ text.head? ∨ '[' ∈ text.head? := by
  cases text with
  | nil => exact .inl (by simp [Plain])
  | cons c more =>
      by_cases hbrace : c = '\x7b'
      · exact .inr (.inl (by simp [hbrace]))
      · by_cases hbracket : c = '['
        · exact .inr (.inr (by simp [hbracket]))
        · refine .inl ?_
          rintro d ⟨⟩
          exact ⟨hbrace, hbracket⟩

theorem readNode_zero {text : List Char} (h : '\x7b' ∈ text.head? ∨ '[' ∈ text.head?)
    (before : List Char) : readNode limit 0 (.behind before text)
      = .fault (.nesting limit) (.behind before text) := by
  rcases h with hbrace | hbracket
  · obtain ⟨more, rfl⟩ := List.head?_eq_some_iff.mp hbrace
    rfl
  · obtain ⟨more, rfl⟩ := List.head?_eq_some_iff.mp hbracket
    rfl

theorem readNode_plain_steady {before piece rest other : List Char} {node : Node}
    (hplain : Plain piece) (hquiet : Token.Quieter rest other)
    (h : readNode limit levels (.behind before (piece ++ rest))
      = .found node (.behind (before ++ piece) rest)) :
    Token.Quieter (piece ++ rest) (piece ++ other) ∧ Takes (readNode limit levels) piece other := by
  obtain ⟨token, left, htext, hcursor, hne, -⟩ := readNode_sound limit levels h
  obtain ⟨rfl, rfl⟩ := taken_unique htext hcursor
  rw [readNode_plain (plain_append hne hplain rest)] at h
  obtain ⟨hagain, htakes⟩ := readLiteral_steady h hquiet
  exact ⟨hagain, takes_plain hne hplain htakes⟩

theorem readNode_steady (limit levels : Nat) : Steady (readNode limit levels) := by
  induction levels with
  | zero =>
      intro before piece rest node h other hquiet
      rcases plain_or_opens piece with hplain | hopens
      · exact readNode_plain_steady hplain hquiet h
      · rw [readNode_zero (hopens.imp List.mem_head?_append_of_mem_head?
          List.mem_head?_append_of_mem_head?)] at h
        cases h
  | succ levels ih =>
      intro before piece rest node h other hquiet
      have hsound := readNode_sound limit levels
      rcases plain_or_opens piece with hplain | hbrace | hbracket
      · exact readNode_plain_steady hplain hquiet h
      · exact (dictionary_container limit levels).steady (readField_sound hsound)
          (readField_steady hsound ih) hbrace h other
      · exact (array_container limit levels).steady hsound ih hbracket h other

end Nodes

end TypedConfig.Document
