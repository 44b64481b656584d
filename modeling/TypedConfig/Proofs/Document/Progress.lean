import TypedConfig.Proofs.Document.Soundness

/-!
Progress of the readers.  What a reader finds takes at least one character off the front of the
text, and what it passes over puts none back.  A container is read by the reader of what stands in
it, so whatever that one does, the brackets alone are progress, and once the opening one was read
the container is found or there is a fault.
-/

namespace TypedConfig.Document

/-- What the reader finds takes some of the text. -/
def Advances {α : Type} (reader : Cursor → Reading α) : Prop :=
  ∀ ⦃cursor next : Cursor⦄ ⦃x : α⦄, reader cursor = .found x next →
    next.rest.length < cursor.rest.length

/-- Reads a value; `inner` reads the values that stand in it. -/
def readValue (inner : Cursor → Reading Node) (cursor : Cursor) : Reading Node :=
  match cursor.rest with
  | '\x7b' :: rest =>
    (readDictionary inner cursor rest).map fun (fields, span) => .dictionary fields span
  | '[' :: rest => (readArray inner cursor rest).map fun (items, span) => .array items span
  | _ => readLiteral cursor

section Beginnings

variable {inner : Cursor → Reading Node} {cursor : Cursor} {rest : List Char}

theorem readValue_brace (h : cursor.rest = '\x7b' :: rest) :
    readValue inner cursor = (readDictionary inner cursor rest).map fun (fields, span) =>
      .dictionary fields span := by
  simp only [readValue, h]

theorem readValue_bracket (h : cursor.rest = '[' :: rest) :
    readValue inner cursor = (readArray inner cursor rest).map fun (items, span) =>
      .array items span := by
  simp only [readValue, h]

theorem readValue_literal (hbrace : '\x7b' ∉ cursor.rest.head?)
    (hbracket : '[' ∉ cursor.rest.head?) : readValue inner cursor = readLiteral cursor := by
  unfold readValue
  split
  · rename_i rest hrest
    exact absurd (by rw [hrest]; rfl) hbrace
  · rename_i rest hrest
    exact absurd (by rw [hrest]; rfl) hbracket
  · rfl

end Beginnings

theorem readNode_none (limit : Nat) (cursor : Cursor) :
    readNode limit 0 cursor
      = if '\x7b' ∈ cursor.rest.head? ∨ '[' ∈ cursor.rest.head? then .fault (.nesting limit) cursor
        else readLiteral cursor := by
  unfold readNode
  split
  · rename_i rest hrest
    rw [if_pos (.inl (by rw [hrest]; rfl))]
  · rename_i rest hrest
    rw [if_pos (.inr (by rw [hrest]; rfl))]
  · rename_i hbrace hbracket
    rw [if_neg]
    rintro (hhead | hhead)
    · obtain ⟨rest, hrest⟩ := List.head?_eq_some_iff.mp hhead
      exact hbrace rest hrest
    · obtain ⟨rest, hrest⟩ := List.head?_eq_some_iff.mp hhead
      exact hbracket rest hrest

theorem readNode_succ (limit levels : Nat) :
    readNode limit (levels + 1) = readValue (readNode limit levels) := rfl

section Steps

variable {cursor next : Cursor}

theorem length_pastLayout (cursor : Cursor) :
    cursor.pastLayout.rest.length ≤ cursor.rest.length := by
  have hsplit := congrArg List.length (Token.splitLayout_append false cursor.rest)
  rw [List.length_append] at hsplit
  exact Nat.le.intro ((Nat.add_comm _ _).trans hsplit)

theorem length_readComma (cursor : Cursor) :
    (readComma cursor).2.rest.length ≤ cursor.rest.length := by
  unfold readComma
  split
  · rename_i rest hrest
    rw [hrest]
    exact Nat.le_succ rest.length
  · exact Nat.le_refl _

theorem readMark_found {mark : Char} {expected : Expectation}
    (h : readMark mark expected cursor = .found () next) :
    ∃ rest, cursor.rest = mark :: rest ∧ next = cursor.past [mark] rest := by
  unfold readMark at h
  split at h
  · rename_i c rest hrest
    by_cases hc : c = mark
    · subst hc
      rw [if_pos rfl] at h
      cases h
      exact ⟨rest, hrest, rfl⟩
    · rw [if_neg hc] at h
      cases h
  · cases h

theorem readMark_advances (mark : Char) (expected : Expectation) :
    Advances (readMark mark expected) := by
  intro cursor next _ h
  obtain ⟨rest, hrest, rfl⟩ := readMark_found h
  rw [hrest]
  exact Nat.lt_succ_self rest.length

theorem readMark_ne_missing {mark : Char} {expected : Expectation} {stop : Cursor} :
    readMark mark expected cursor ≠ .missing stop := by
  unfold readMark
  split
  · split <;> simp
  · simp

theorem length_past {token rest left : List Char} (hne : token ≠ []) (h : token ++ left = rest) :
    left.length < rest.length := by
  have hpos := List.length_pos_iff.mpr hne
  rw [← h, List.length_append]
  omega

theorem readName_advances : Advances readName := by
  intro cursor next name h
  unfold readName at h
  split at h
  · cases h
  · split at h
    · rename_i token rest hquoted
      have hcut : token ++ rest = cursor.rest :=
        Token.quoted_lossless (congrArg Token.Quoted.split? hquoted)
      have hstring := Token.string_of_quoted hquoted
      cases h
      exact length_past (Token.opens_string hstring).ne_nil hcut
    · cases h
    · split at h
      · rename_i token rest hidentifier
        have hcut : token ++ rest = cursor.rest := Token.identifier_lossless hidentifier
        cases h
        exact length_past (identifier_alone hidentifier).2 hcut
      · cases h

theorem readLiteral_advances : Advances readLiteral := by
  intro cursor next node h
  unfold readLiteral at h
  split at h
  · cases h
  · split at h
    · rename_i kind token rest hliteral
      have hcut : token ++ rest = cursor.rest := Token.literal_append hliteral
      cases h
      exact length_past (Token.opens_literal hliteral).ne_nil hcut
    · cases h

end Steps

section Series

variable {α : Type} {reader : Cursor → Reading α} {expected unclosed : Expectation} {close : Char}

theorem length_readSeries (hreader : Advances reader) {bound : Nat} {afterComma : Bool}
    {cursor next : Cursor} {xs : List α}
    (h : readSeries reader expected bound afterComma cursor = .found xs next) :
    next.rest.length ≤ cursor.rest.length := by
  induction bound generalizing afterComma cursor next xs with
  | zero =>
      cases h
      exact Nat.le_refl _
  | succ bound ih =>
      have hlayout := length_pastLayout cursor
      simp only [readSeries] at h
      split at h
      · rename_i x behind hread
        have hitem := hreader hread
        have hgap := length_pastLayout behind
        have hcomma := length_readComma behind.pastLayout
        obtain ⟨ys, hrest, -⟩ := Reading.found_of_map h
        have hmore := ih hrest
        omega
      · split at h
        · cases h
        · cases h
          exact hlayout
      · cases h

theorem readInside_advances (hreader : Advances reader) :
    Advances (readInside reader expected close unclosed) := by
  intro cursor next xs h
  obtain ⟨ys, behind, hseries, hmark⟩ := Reading.found_of_andThen h
  obtain ⟨_, hclose, -⟩ := Reading.found_of_map hmark
  exact (readMark_advances close unclosed hclose).trans_le (length_readSeries hreader hseries)

/-- A series ends or is faulty. -/
theorem readSeries_ne_missing {bound : Nat} {afterComma : Bool} {cursor stop : Cursor} :
    readSeries reader expected bound afterComma cursor ≠ .missing stop := by
  intro h
  induction bound generalizing afterComma cursor with
  | zero => cases h
  | succ bound ih =>
      simp only [readSeries] at h
      split at h
      · exact ih (Reading.missing_of_map h)
      · split at h <;> cases h
      · cases h

theorem readInside_ne_missing {cursor stop : Cursor} :
    readInside reader expected close unclosed cursor ≠ .missing stop := by
  intro h
  rcases Reading.missing_of_andThen h with hseries | ⟨xs, next, -, hmark⟩
  · exact readSeries_ne_missing hseries
  · exact readMark_ne_missing (Reading.missing_of_map hmark)

end Series

section Values

variable {value : Cursor → Reading Node} {cursor stop : Cursor} {rest : List Char}

theorem readField_advances (hvalue : Advances value) : Advances (readField value) := by
  intro cursor next field h
  obtain ⟨name, behindName, hname, h⟩ := Reading.found_of_andThen h
  obtain ⟨_, behindColon, hcolon, h⟩ := Reading.found_of_andThen h
  obtain ⟨node, behindValue, hnode, h⟩ := Reading.found_of_andThen h
  have htoken := readName_advances hname
  have hfirst := length_pastLayout behindName
  have hmark := readMark_advances _ _ hcolon
  have hsecond := length_pastLayout behindColon
  have hread := hvalue (Reading.found_of_require hnode)
  cases h
  omega

/-- A field is missing where its name is. -/
theorem readName_missing_of_readField (h : readField value cursor = .missing stop) :
    readName cursor = .missing stop := by
  rcases Reading.missing_of_andThen h with hname | ⟨name, next, -, h⟩
  · exact hname
  · rcases Reading.missing_of_andThen h with hcolon | ⟨_, behindColon, -, h⟩
    · exact absurd hcolon readMark_ne_missing
    · rcases Reading.missing_of_andThen h with hvalue | ⟨node, behindValue, -, h⟩
      · exact absurd hvalue Reading.require_ne_missing
      · cases h

theorem readDictionary_ne_missing : readDictionary value cursor rest ≠ .missing stop := by
  intro h
  rcases Reading.missing_of_andThen h with hinside | ⟨fields, next, -, h⟩
  · exact readInside_ne_missing hinside
  · cases h

theorem readArray_ne_missing : readArray value cursor rest ≠ .missing stop := by
  intro h
  rcases Reading.missing_of_andThen h with hinside | ⟨items, next, -, h⟩
  · exact readInside_ne_missing hinside
  · cases h

theorem length_readDictionary (hvalue : Advances value) {next : Cursor}
    {read : List (Field Node) × Span} (h : readDictionary value cursor rest = .found read next) :
    next.rest.length < rest.length := by
  obtain ⟨fields, behind, hinside, hfound⟩ := Reading.found_of_andThen h
  cases hfound
  exact readInside_advances (readField_advances hvalue) hinside

theorem length_readArray (hvalue : Advances value) {next : Cursor} {read : List Node × Span}
    (h : readArray value cursor rest = .found read next) : next.rest.length < rest.length := by
  obtain ⟨items, behind, hinside, hfound⟩ := Reading.found_of_andThen h
  cases hfound
  exact readInside_advances hvalue hinside

theorem readValue_advances (hvalue : Advances value) : Advances (readValue value) := by
  intro cursor next node h
  unfold readValue at h
  split at h
  · rename_i rest hrest
    obtain ⟨read, hread, -⟩ := Reading.found_of_map h
    rw [hrest]
    exact (length_readDictionary hvalue hread).trans (Nat.lt_succ_self rest.length)
  · rename_i rest hrest
    obtain ⟨read, hread, -⟩ := Reading.found_of_map h
    rw [hrest]
    exact (length_readArray hvalue hread).trans (Nat.lt_succ_self rest.length)
  · exact readLiteral_advances h

theorem readNode_advances (limit levels : Nat) : Advances (readNode limit levels) := by
  induction levels with
  | zero =>
      intro cursor next node h
      rw [readNode_none] at h
      split at h
      · cases h
      · exact readLiteral_advances h
  | succ levels ih =>
      rw [readNode_succ]
      exact readValue_advances ih

end Values

end TypedConfig.Document
