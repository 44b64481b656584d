import TypedConfig.Proofs.Document.Fault
import TypedConfig.Proofs.Document.Progress

/-!
Where a document ends.  Its root ends with its own closing brace, whatever follows, so a text that
ends before that brace is no document.  And a text may go on: readers that have found the end of
what they read do not notice more text behind the last character, when a line feed comes first.
-/

namespace TypedConfig

open Token (AtEdge Stops withRest)

namespace Token

variable {text more : List Char}

/-- Layout that does not reach the end of the text is cut off as before when more text follows. -/
theorem splitLayout_append_of_ne {comment : Bool} (h : (splitLayout comment text).2 ≠ []) :
    splitLayout comment (text ++ more) = withRest more (splitLayout comment text) := by
  induction text generalizing comment with
  | nil => exact absurd rfl h
  | cons c rest ih =>
      rw [List.cons_append]
      unfold splitLayout at h ⊢
      split
      · rename_i hcomment
        rw [if_pos hcomment] at h
        rw [ih h]
        rfl
      · rename_i hcomment
        rw [if_neg hcomment] at h
        split
        · rename_i hblank
          rw [if_pos hblank] at h
          rw [ih h]
          rfl
        · rename_i hblank
          rw [if_neg hblank] at h
          split
          · rename_i hc
            rw [if_pos hc] at h
            rw [ih h]
            rfl
          · rfl

theorem identifier_append (hmore : Stops isIdentifierChar more) (hne : text ≠ []) :
    identifier (text ++ more) = (identifier text).map (withRest more) := by
  obtain ⟨c, rest, rfl⟩ := List.exists_cons_of_ne_nil hne
  simp only [List.cons_append, identifier, takeWhile_append_stops hmore,
    dropWhile_append_stops hmore]
  split <;> rfl

/-- In front of an edge a literal may be followed by more text. -/
theorem literal_extend {kind : LiteralKind} {token rest : List Char} (hedge : AtEdge more)
    (h : literal text = some (kind, token, rest)) :
    literal (text ++ more) = some (kind, token, rest ++ more) := by
  obtain rfl : token ++ rest = text := literal_append h
  rcases literal_cases h with hclosed | ⟨habsent, -⟩
  · rw [literal_of_quoted hclosed] at h
    cases h
    exact literal_of_quoted (quoted_append_of_closed hclosed more)
  · have hne : token ++ rest ≠ [] := by simp [(opens_literal h).ne_nil]
    rw [literal_append_of_edge hedge hne habsent, h]
    rfl

end Token

namespace Cursor

variable {cursor : Cursor} {more : List Char}

/-- The cursor when more text follows the rest. -/
def extend (cursor : Cursor) (more : List Char) : Cursor := ⟨cursor.rest ++ more, cursor.place⟩

@[simp]
theorem extend_rest : (cursor.extend more).rest = cursor.rest ++ more := rfl

theorem past_extend (taken rest : List Char) :
    (cursor.extend more).past taken (rest ++ more) = (cursor.past taken rest).extend more := rfl

theorem extend_head? (h : cursor.rest ≠ []) (more : List Char) :
    (cursor.extend more).rest.head? = cursor.rest.head? := by
  obtain ⟨c, rest, hrest⟩ := List.exists_cons_of_ne_nil h
  rw [extend_rest, hrest]
  rfl

theorem pastLayout_extend (h : cursor.pastLayout.rest ≠ []) :
    (cursor.extend more).pastLayout = cursor.pastLayout.extend more := by
  have hsplit : Token.splitLayout false (cursor.rest ++ more)
      = withRest more (Token.splitLayout false cursor.rest) := Token.splitLayout_append_of_ne h
  simp only [pastLayout, extend_rest, hsplit]
  rfl

end Cursor

namespace Document

/-- More text behind the last character does not change what the reader finds, or, in front of some
text, that it finds nothing. -/
structure Extends {α : Type} (reader : Cursor → Reading α) (more : List Char) : Prop where
  found : ∀ {cursor next : Cursor} {x : α}, reader cursor = .found x next →
    reader (cursor.extend more) = .found x (next.extend more)
  missing : ∀ {cursor stop : Cursor}, cursor.rest ≠ [] → reader cursor = .missing stop →
    ∃ later, reader (cursor.extend more) = .missing later

section Steps

variable {cursor next : Cursor} {more : List Char}

theorem readMark_extend {mark : Char} {expected : Expectation}
    (h : readMark mark expected cursor = .found () next) :
    readMark mark expected (cursor.extend more) = .found () (next.extend more) := by
  obtain ⟨rest, hrest, rfl⟩ := readMark_found h
  simp only [readMark, Cursor.extend_rest, hrest, List.cons_append, if_true]
  rfl

theorem readComma_extend (h : cursor.rest ≠ []) :
    readComma (cursor.extend more)
      = ((readComma cursor).1, (readComma cursor).2.extend more) := by
  obtain ⟨c, rest, hrest⟩ := List.exists_cons_of_ne_nil h
  by_cases hc : c = ','
  · subst hc
    simp only [readComma, Cursor.extend_rest, hrest, List.cons_append]
    rfl
  · simp [readComma, hrest, hc]

theorem ne_nil_of_readMark {mark : Char} {expected : Expectation}
    (h : readMark mark expected cursor = .found () next) : cursor.rest ≠ [] := by
  obtain ⟨rest, hrest, -⟩ := readMark_found h
  simp [hrest]

/-- In front of an edge it is read off the text so far whether digits begin here. -/
theorem digits_extend (hedge : AtEdge more) :
    Token.digits (cursor.extend more).rest = Token.digits cursor.rest :=
  hedge.stops_word.digits_append

theorem identifier_extend (hedge : AtEdge more) (hne : cursor.rest ≠ []) :
    Token.identifier (cursor.extend more).rest
      = (Token.identifier cursor.rest).map (withRest more) :=
  Token.identifier_append (stops_identifier_of_word hedge.stops_word) hne

theorem readName_extend_found {name : Identifier} (hedge : AtEdge more)
    (h : readName cursor = .found name next) :
    readName (cursor.extend more) = .found name (next.extend more) := by
  unfold readName at h ⊢
  rw [digits_extend hedge]
  split at h
  · cases h
  · rename_i hstart
    rw [if_neg hstart]
    split at h
    · rename_i token rest hquoted
      have hagain : Token.quoted (cursor.extend more).rest = .closed token (rest ++ more) :=
        Token.quoted_append_of_closed hquoted more
      rw [hagain]
      cases h
      rfl
    · cases h
    · rename_i habsent
      split at h
      · rename_i token rest hidentifier
        have hne : cursor.rest ≠ [] := by
          intro hnil
          rw [hnil] at hidentifier
          cases hidentifier
        rw [Cursor.extend_rest, Token.quoted_append_of_absent hne habsent, ← Cursor.extend_rest,
          identifier_extend hedge hne, hidentifier]
        cases h
        rfl
      · cases h

theorem readName_extend_missing {stop : Cursor} (hedge : AtEdge more) (hne : cursor.rest ≠ [])
    (h : readName cursor = .missing stop) :
    readName (cursor.extend more) = .missing (cursor.extend more) := by
  unfold readName at h ⊢
  rw [digits_extend hedge]
  split at h
  · cases h
  · rename_i hstart
    rw [if_neg hstart]
    split at h
    · cases h
    · cases h
    · rename_i habsent
      split at h
      · cases h
      · rename_i hidentifier
        rw [Cursor.extend_rest, Token.quoted_append_of_absent hne habsent, ← Cursor.extend_rest,
          identifier_extend hedge hne, hidentifier]
        rfl

theorem readName_extends (hedge : AtEdge more) : Extends readName more where
  found := readName_extend_found hedge
  missing hne h := ⟨_, readName_extend_missing hedge hne h⟩

theorem readLiteral_found {node : Node} (h : readLiteral cursor = .found node next) :
    ∃ kind token rest, Token.literal cursor.rest = some (kind, token, rest) ∧
      next = cursor.past token rest ∧
        node = .literal ⟨kind, String.ofList token, cursor.spanTo next⟩ := by
  unfold readLiteral at h
  split at h
  · cases h
  · split at h
    · rename_i kind token rest hliteral
      cases h
      exact ⟨kind, token, rest, hliteral, rfl, rfl⟩
    · cases h

theorem readLiteral_of_literal {kind : LiteralKind} {token rest : List Char}
    (h : Token.literal cursor.rest = some (kind, token, rest)) :
    readLiteral cursor = .found (.literal ⟨kind, String.ofList token,
      cursor.spanTo (cursor.past token rest)⟩) (cursor.past token rest) := by
  have hcut : token ++ rest = cursor.rest := Token.literal_append h
  have hcases := h
  rw [← hcut] at hcases
  rcases Token.literal_cases hcases with hclosed | ⟨habsent, -⟩
  · rw [hcut] at hclosed
    simp only [readLiteral, hclosed, h]
  · rw [hcut] at habsent
    simp only [readLiteral, habsent, h]

theorem readLiteral_none {stop : Cursor} (h : readLiteral cursor = .missing stop) :
    Token.quoted cursor.rest = .absent ∧ Token.literal cursor.rest = none := by
  unfold readLiteral at h
  split at h
  · cases h
  · rename_i hopen
    split at h
    · cases h
    · rename_i hliteral
      have hstring := Token.firstMatch_eq_none hliteral (.string, Token.string) List.mem_cons_self
      cases hquoted : Token.quoted cursor.rest with
      | absent => exact ⟨rfl, hliteral⟩
      | closed token rest => simp [Token.string_of_quoted hquoted] at hstring
      | unclosed taken rest => exact absurd hquoted (hopen taken rest)

theorem readLiteral_extends (hedge : AtEdge more) : Extends readLiteral more := by
  constructor
  · intro cursor next node h
    obtain ⟨kind, token, rest, hliteral, rfl, rfl⟩ := readLiteral_found h
    have hagain : Token.literal (cursor.extend more).rest = some (kind, token, rest ++ more) :=
      Token.literal_extend hedge hliteral
    exact readLiteral_of_literal hagain
  · intro cursor stop hne h
    obtain ⟨habsent, hliteral⟩ := readLiteral_none h
    unfold readLiteral
    rw [Cursor.extend_rest, Token.quoted_append_of_absent hne habsent,
      Token.literal_append_of_edge hedge hne habsent, hliteral]
    exact ⟨_, rfl⟩

end Steps

section Series

variable {α : Type} {reader : Cursor → Reading α} {expected unclosed : Expectation} {close : Char}
  {more : List Char}

/-- A series that ends in front of some text ends there when more text follows. -/
theorem readSeries_extend (hadvances : Advances reader) (hextends : Extends reader more)
    {bound later : Nat} {afterComma : Bool} {cursor next : Cursor} {xs : List α}
    (hbound : cursor.rest.length < bound) (hlater : (cursor.extend more).rest.length < later)
    (h : readSeries reader expected bound afterComma cursor = .found xs next)
    (hnext : next.rest ≠ []) :
    readSeries reader expected later afterComma (cursor.extend more)
      = .found xs (next.extend more) := by
  induction bound generalizing later afterComma cursor xs with
  | zero => omega
  | succ bound ih =>
      obtain ⟨later, rfl⟩ : ∃ fewer, later = fewer + 1 := ⟨later - 1, by omega⟩
      have hlayout := length_pastLayout cursor
      simp only [readSeries] at h ⊢
      split at h
      · rename_i x behind hread
        have hitem := hadvances hread
        have hgap := length_pastLayout behind
        have hcomma := length_readComma behind.pastLayout
        have hfront : cursor.pastLayout.rest ≠ [] := List.length_pos_iff.mp (by omega)
        obtain ⟨ys, hseries, rfl⟩ := Reading.found_of_map h
        -- the series ends in front of some text, so its things end there too
        have hend := length_readSeries hadvances hseries
        have hpos := List.length_pos_iff.mpr hnext
        have hbehind : behind.pastLayout.rest ≠ [] := List.length_pos_iff.mp (by omega)
        rw [Cursor.pastLayout_extend hfront, hextends.found hread]
        simp only [Cursor.pastLayout_extend hbehind, readComma_extend hbehind]
        rw [ih (by omega) _ hseries]
        · rfl
        · simp only [Cursor.extend_rest, List.length_append] at hlater ⊢
          omega
      · rename_i stop hread
        split at h
        · cases h
        · rename_i hcomma
          cases h
          obtain ⟨stop, hmissing⟩ := hextends.missing hnext hread
          rw [Cursor.pastLayout_extend hnext, hmissing]
          simp only [if_neg hcomma]
      · cases h

theorem readInside_extend (hadvances : Advances reader) (hextends : Extends reader more)
    {cursor next : Cursor} {xs : List α}
    (h : readInside reader expected close unclosed cursor = .found xs next) :
    readInside reader expected close unclosed (cursor.extend more)
      = .found xs (next.extend more) := by
  obtain ⟨ys, behind, hseries, hmark⟩ := Reading.found_of_andThen h
  obtain ⟨_, hclose, rfl⟩ := Reading.found_of_map hmark
  have hagain := readSeries_extend hadvances hextends (Nat.lt_succ_self _) (Nat.lt_succ_self _)
    hseries (ne_nil_of_readMark hclose)
  rw [readInside, hagain, Reading.andThen_found, readMark_extend hclose, Reading.map_found]

end Series

section Values

variable {value : Cursor → Reading Node} {more : List Char}

theorem readField_extends (hedge : AtEdge more) (hadvances : Advances value)
    (hextends : Extends value more) : Extends (readField value) more := by
  constructor
  · intro cursor next field h
    obtain ⟨name, behindName, hname, h⟩ := Reading.found_of_andThen h
    obtain ⟨_, behindColon, hcolon, h⟩ := Reading.found_of_andThen h
    obtain ⟨node, behindValue, hnode, h⟩ := Reading.found_of_andThen h
    have hread := Reading.found_of_require hnode
    have hsome : behindColon.pastLayout.rest ≠ [] := by
      intro hnil
      have hlength := hadvances hread
      rw [hnil] at hlength
      exact Nat.not_lt_zero _ hlength
    cases h
    rw [readField, (readName_extends hedge).found hname, Reading.andThen_found,
      Cursor.pastLayout_extend (ne_nil_of_readMark hcolon), readMark_extend hcolon,
      Reading.andThen_found, Cursor.pastLayout_extend hsome, hextends.found hread]
    rfl
  · intro cursor stop hne h
    obtain ⟨later, hmissing⟩ :=
      (readName_extends hedge).missing hne (readName_missing_of_readField h)
    rw [readField, hmissing]
    exact ⟨later, rfl⟩

theorem readDictionary_extend (hedge : AtEdge more) (hadvances : Advances value)
    (hextends : Extends value more) {cursor next : Cursor} {rest : List Char}
    {read : List (Field Node) × Span} (h : readDictionary value cursor rest = .found read next) :
    readDictionary value (cursor.extend more) (rest ++ more) = .found read (next.extend more) := by
  obtain ⟨fields, behind, hinside, hfound⟩ := Reading.found_of_andThen h
  cases hfound
  rw [readDictionary, Cursor.past_extend, readInside_extend (readField_advances hadvances)
    (readField_extends hedge hadvances hextends) hinside]
  rfl

theorem readArray_extend (hadvances : Advances value) (hextends : Extends value more)
    {cursor next : Cursor} {rest : List Char} {read : List Node × Span}
    (h : readArray value cursor rest = .found read next) :
    readArray value (cursor.extend more) (rest ++ more) = .found read (next.extend more) := by
  obtain ⟨items, behind, hinside, hfound⟩ := Reading.found_of_andThen h
  cases hfound
  rw [readArray, Cursor.past_extend, readInside_extend hadvances hextends hinside]
  rfl

theorem ne_nil_of_advances {α : Type} {reader : Cursor → Reading α} (h : Advances reader)
    {cursor next : Cursor} {x : α} (hread : reader cursor = .found x next) : cursor.rest ≠ [] :=
  List.length_pos_iff.mp (Nat.zero_lt_of_lt (h hread))

theorem readValue_extends (hedge : AtEdge more) (hadvances : Advances value)
    (hextends : Extends value more) : Extends (readValue value) more := by
  constructor
  · intro cursor next node h
    have hhead := Cursor.extend_head? (ne_nil_of_advances (readValue_advances hadvances) h) more
    by_cases hbrace : '\x7b' ∈ cursor.rest.head?
    · obtain ⟨rest, hrest⟩ := List.head?_eq_some_iff.mp hbrace
      have hmore : (cursor.extend more).rest = '\x7b' :: (rest ++ more) := by
        rw [Cursor.extend_rest, hrest, List.cons_append]
      rw [readValue_brace hrest] at h
      obtain ⟨read, hread, rfl⟩ := Reading.found_of_map h
      rw [readValue_brace hmore, readDictionary_extend hedge hadvances hextends hread,
        Reading.map_found]
    · by_cases hbracket : '[' ∈ cursor.rest.head?
      · obtain ⟨rest, hrest⟩ := List.head?_eq_some_iff.mp hbracket
        have hmore : (cursor.extend more).rest = '[' :: (rest ++ more) := by
          rw [Cursor.extend_rest, hrest, List.cons_append]
        rw [readValue_bracket hrest] at h
        obtain ⟨read, hread, rfl⟩ := Reading.found_of_map h
        rw [readValue_bracket hmore, readArray_extend hadvances hextends hread, Reading.map_found]
      · rw [readValue_literal hbrace hbracket] at h
        rw [readValue_literal (hhead ▸ hbrace) (hhead ▸ hbracket)]
        exact (readLiteral_extends hedge).found h
  · intro cursor stop hne h
    have hhead := Cursor.extend_head? hne more
    have hbrace : '\x7b' ∉ cursor.rest.head? := by
      intro hopens
      obtain ⟨rest, hrest⟩ := List.head?_eq_some_iff.mp hopens
      rw [readValue_brace hrest] at h
      exact readDictionary_ne_missing (Reading.missing_of_map h)
    have hbracket : '[' ∉ cursor.rest.head? := by
      intro hopens
      obtain ⟨rest, hrest⟩ := List.head?_eq_some_iff.mp hopens
      rw [readValue_bracket hrest] at h
      exact readArray_ne_missing (Reading.missing_of_map h)
    rw [readValue_literal hbrace hbracket] at h
    rw [readValue_literal (hhead ▸ hbrace) (hhead ▸ hbracket)]
    exact (readLiteral_extends hedge).missing hne h

theorem readNode_none_extends (hedge : AtEdge more) (limit : Nat) :
    Extends (readNode limit 0) more := by
  constructor
  · intro cursor next node h
    have hhead := Cursor.extend_head? (ne_nil_of_advances (readNode_advances limit 0) h) more
    rw [readNode_none] at h ⊢
    rw [hhead]
    split at h
    · cases h
    · rename_i hplain
      rw [if_neg hplain]
      exact (readLiteral_extends hedge).found h
  · intro cursor stop hne h
    have hhead := Cursor.extend_head? hne more
    rw [readNode_none] at h ⊢
    rw [hhead]
    split at h
    · cases h
    · rename_i hplain
      rw [if_neg hplain]
      exact (readLiteral_extends hedge).missing hne h

theorem readNode_extends (hedge : AtEdge more) (limit levels : Nat) :
    Extends (readNode limit levels) more := by
  induction levels with
  | zero => exact readNode_none_extends hedge limit
  | succ levels ih => exact readValue_extends hedge (readNode_advances limit levels) ih

/-- The root is read as before when more text follows. -/
theorem readRoot_extend (hedge : AtEdge more) {levels : Nat} {cursor next : Cursor}
    {document : Document} (h : readRoot (levels + 1) cursor = .found document next) :
    readRoot (levels + 1) (cursor.extend more) = .found document (next.extend more) := by
  obtain ⟨rest, hrest⟩ := readRoot_brace h
  simp only [readRoot, Cursor.extend_rest, hrest, List.cons_append] at h ⊢
  obtain ⟨read, hread, rfl⟩ := Reading.found_of_map h
  rw [readDictionary_extend hedge (readNode_advances _ _) (readNode_extends hedge _ _) hread,
    Reading.map_found]

end Values

section Roots

variable {document : Document}

theorem span_of_readRoot {limit : Nat} {cursor next : Cursor}
    (h : readRoot limit cursor = .found document next) : document.span = cursor.spanTo next := by
  unfold readRoot at h
  split at h
  · split at h
    · cases h
    · obtain ⟨read, hread, rfl⟩ := Reading.found_of_map h
      obtain ⟨fields, behind, -, hfound⟩ := Reading.found_of_andThen hread
      cases hfound
      rfl
  · cases h

/-- Layout to the end of the text. -/
theorem pastLayout_end {layout : List Char} (h : Layout layout ∨ OpenLayout layout)
    (place : Text.Place) : (Cursor.mk layout place).pastLayout.rest = [] := by
  rcases h with hlayout | ⟨front, words, hfront, hwords, rfl⟩
  · have hall : Token.splitLayout false (layout ++ []) = (layout ++ [], []) :=
      hlayout.splitLayout_append
    rw [List.append_nil] at hall
    simp [Cursor.pastLayout, hall, Cursor.past]
  · have hblank : Text.isBlank '#' = false := by decide
    simp [Cursor.pastLayout, hfront.splitLayout_append, Cursor.past, Token.splitLayout, hblank,
      splitLayout_open hwords]

/-- Where the root of an accepted text stands. -/
theorem readRoot_of_parse {text : String} (h : parse text = .ok document) :
    ∃ lead body trail, text.toList = lead ++ ('\x7b' :: body ++ trail) ∧ Layout lead ∧
      LayoutBefore trail [] ∧
        readRoot nestingLimit (.behind lead ('\x7b' :: body ++ trail))
          = .found document (.behind (lead ++ '\x7b' :: body) trail) := by
  obtain ⟨lead, body, trail, htext, hlead, htrail, hroot, hwritten⟩ :=
    root_of_within (within_of_parse h)
  obtain ⟨more, rfl⟩ : ∃ more, body = '\x7b' :: more := by
    cases hwritten
    exact ⟨_, rfl⟩
  exact ⟨lead, more, trail, htext, hlead, htrail, hroot⟩

theorem parse_of_readRoot {lead body trail : List Char} {text : String}
    (htext : text.toList = lead ++ ('\x7b' :: body ++ trail)) (hlead : Layout lead)
    (htrail : Layout trail ∨ OpenLayout trail)
    (h : readRoot nestingLimit (.behind lead ('\x7b' :: body ++ trail))
      = .found document (.behind (lead ++ '\x7b' :: body) trail)) :
    parse text = .ok document := by
  have hstart :
      (Cursor.ofText text.toList).pastLayout = .behind lead ('\x7b' :: body ++ trail) := by
    rw [htext]
    exact Cursor.pastLayout_layout hlead (solid_cons (by decide) (by decide)) .start
  have hend : (Cursor.behind (lead ++ '\x7b' :: body) trail).pastLayout.rest = [] :=
    pastLayout_end htrail _
  rw [parse, ofText, ofTextWithin, hstart, h]
  simp [readEnd, hend, Except.mapError]

/-- Where the root ends does not depend on what follows it. -/
theorem readRoot_again {lead body trail : List Char}
    (h : readRoot nestingLimit (.behind lead ('\x7b' :: body ++ trail))
      = .found document (.behind (lead ++ '\x7b' :: body) trail)) (other : List Char) :
    ∃ longer, readRoot nestingLimit (.behind lead ('\x7b' :: body ++ other))
      = .found longer (.behind (lead ++ '\x7b' :: body) other) := by
  have hread := map_root_behind nestingLimit lead (body ++ trail)
  rw [← List.cons_append, h, Reading.map_found] at hread
  have hsound := readNode_sound nestingLimit 127
  obtain ⟨inside, left, hinside, hnext, htakes⟩ := (dictionary_container nestingLimit 127).again
    (readField_sound hsound) (readField_steady hsound (readNode_steady _ _)) hread.symm
  change body ++ trail = inside ++ '\x7d' :: left at hinside
  have hwhole : '\x7b' :: body ++ trail = '\x7b' :: (inside ++ ['\x7d']) ++ left := by
    simp [hinside]
  obtain ⟨hpiece, -⟩ := taken_unique hwhole hnext
  obtain ⟨node, hnode⟩ := htakes other lead
  have hmap := map_root_behind nestingLimit lead (body ++ other)
  rw [← hpiece] at hnode
  obtain ⟨longer, hroot, -⟩ := Reading.found_of_map (hmap.trans hnode)
  exact ⟨longer, hroot⟩

/-- No text that ends before the root of an accepted text does is accepted. -/
theorem parse_cut {text : String} (h : parse text = .ok document) {front back : List Char}
    (htext : text.toList = front ++ back) (hcut : Text.byteLength front < document.span.stop) :
    ∃ error, parse (String.ofList front) = .error error := by
  cases hfront : parse (String.ofList front) with
  | error error => exact ⟨error, rfl⟩
  | ok shorter =>
      exfalso
      obtain ⟨lead, body, trail, hsplit, hlead, -, hread⟩ := readRoot_of_parse hfront
      obtain ⟨next, cursor, hroot, -⟩ := reading_of_parse h
      rw [String.toList_ofList] at hsplit
      have hwhole : text.toList = lead ++ ('\x7b' :: body ++ (trail ++ back)) := by
        simp [htext, hsplit]
      have hstart : (Cursor.behind [] text.toList).pastLayout
          = .behind lead ('\x7b' :: body ++ (trail ++ back)) := by
        rw [hwhole]
        exact Cursor.pastLayout_layout hlead (solid_cons (by decide) (by decide)) .start
      obtain ⟨longer, hlonger⟩ := readRoot_again hread (trail ++ back)
      rw [hstart, hlonger] at hroot
      cases hroot
      have hstop : document.span.stop = Text.byteLength (lead ++ '\x7b' :: body) := by
        rw [span_of_readRoot hlonger]
        simp [Cursor.spanTo, Span.between, Cursor.behind, Text.Place.start_afterAll]
      have hle := Text.byteLength_le_append (lead ++ '\x7b' :: body) trail
      rw [hstop, hsplit, ← List.append_assoc] at hcut
      exact absurd hcut (Nat.not_lt.mpr hle)

/-- Behind an accepted text and a line feed more layout may stand. -/
theorem parse_append {text : String} (h : parse text = .ok document) {layout : List Char}
    (hlayout : Layout layout ∨ OpenLayout layout) :
    parse (text ++ "\n" ++ String.ofList layout) = .ok document := by
  obtain ⟨lead, body, trail, htext, hlead, htrail, hread⟩ := readRoot_of_parse h
  have hedge : AtEdge ('\n' :: layout) := atEdge_cons (by decide) (by decide)
  have hagain := readRoot_extend hedge hread
  have hmore : Layout (trail ++ '\n' :: layout) ∨ OpenLayout (trail ++ '\n' :: layout) := by
    rw [← List.singleton_append, ← List.append_assoc]
    exact hlayout.imp htrail.append_newline.append htrail.append_newline.append_open
  have hwhole : (text ++ "\n" ++ String.ofList layout).toList
      = lead ++ ('\x7b' :: body ++ (trail ++ '\n' :: layout)) := by
    simp [String.toList_append, htext]
  apply parse_of_readRoot hwhole hlead hmore
  rw [← List.append_assoc]
  exact hagain

end Roots

end Document

/-- A text that is cut before the end of its root is refused, and one that is followed by a line
feed and layout is the same document. -/
theorem Document.parse_extent {text : String} {document : Document}
    (h : Document.parse text = .ok document) :
    (∀ front back, text.toList = front ++ back → Text.byteLength front < document.span.stop →
      ∃ error, Document.parse (String.ofList front) = .error error) ∧
    ∀ layout, Layout layout ∨ OpenLayout layout →
      Document.parse (text ++ "\n" ++ String.ofList layout) = .ok document :=
  ⟨fun _ _ htext hcut => Document.parse_cut h htext hcut,
    fun _ hlayout => Document.parse_append h hlayout⟩

theorem commented_extent : ∃ document, Document.parse "\x7ba: [1]\x7d #x" = .ok document ∧
    (∃ error, Document.parse "\x7ba: [1]" = .error error) ∧
      Document.parse "\x7ba: [1]\x7d #x\n\t#y" = .ok document := by
  have hparse : Document.parse "\x7ba: [1]\x7d #x" = .ok
      ⟨[⟨⟨"a", ⟨1, 2, 1, 2⟩⟩, .array [.literal ⟨.integer, "1", ⟨5, 6, 1, 6⟩⟩] ⟨4, 7, 1, 5⟩,
        ⟨1, 7, 1, 2⟩⟩], ⟨0, 8, 1, 1⟩⟩ := rfl
  obtain ⟨hcut, hmore⟩ := Document.parse_extent hparse
  refine ⟨_, hparse, hcut "\x7ba: [1]".toList "\x7d #x".toList rfl (by decide), ?_⟩
  exact hmore "\t#y".toList (.inr ⟨['\t'], ['y'], Layout.nil.blank (by decide), by decide, rfl⟩)

end TypedConfig
