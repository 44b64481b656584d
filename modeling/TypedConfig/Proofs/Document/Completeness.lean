import TypedConfig.Error
import TypedConfig.Proofs.Document.Grammar

/-!
Reading what was written.  However a careful writer lays a tree out, reading the text gives the tree
back, spans apart.  The reader of a node needs to know only that an edge follows, and layout, a
comma, a colon and the brackets all make one.
-/

namespace TypedConfig

/-- The span of what was not read from any text. -/
def Span.none : Span := ⟨0, 0, 0, 0⟩

mutual

/-- A tree without its spans. -/
def Node.bare : Node → Node
  | .dictionary fields _ => .dictionary (bareFields fields) .none
  | .array items _ => .array (bareItems items) .none
  | .literal leaf => .literal ⟨leaf.kind, leaf.text, .none⟩

def bareFields : List (Field Node) → List (Field Node)
  | [] => []
  | ⟨name, value, _⟩ :: rest => ⟨⟨name.name, .none⟩, value.bare, .none⟩ :: bareFields rest

def bareItems : List Node → List Node
  | [] => []
  | item :: rest => item.bare :: bareItems rest

end

def Field.bare (field : Field Node) : Field Node :=
  ⟨⟨field.name.name, .none⟩, field.value.bare, .none⟩

theorem bareFields_eq_map (fields : List (Field Node)) :
    bareFields fields = fields.map Field.bare := by
  induction fields with
  | nil => rfl
  | cons field rest ih => rw [bareFields, ih]; rfl

theorem bareItems_eq_map (items : List Node) : bareItems items = items.map Node.bare := by
  induction items with
  | nil => rfl
  | cons item rest ih => rw [bareItems, ih]; rfl

/-- A style whose texts are read as they were meant: siblings are as far apart as a careful writer
sets them, names are read back, and literals are whole tokens. -/
structure Style.Legible (style : Style) : Prop where
  between : ∀ gap, style.between gap → Style.careful.between gap
  begins : ∀ name token, style.name name token → Begins token
  name : ∀ name token, style.name name token → ∀ rest place,
    Token.Stops Token.isIdentifierChar rest → Document.readName ⟨token ++ rest, place⟩
      = .found ⟨name, .between place (place.afterAll token)⟩ ⟨rest, place.afterAll token⟩
  literal : ∀ kind token, style.literal kind token → Token.IsToken kind token

namespace Document

section Reads

variable {α : Type} {reader : Cursor → Reading α} {erase : α → α}
  {item : α → List Char → List Char → Prop} {xs : List α} {expected : Expectation} {close : Char}

/-- In front of an edge the reader reads the whole piece, as `x` up to what `erase` erases. -/
def Reads (reader : Cursor → Reading α) (erase : α → α) (x : α) (piece : List Char) : Prop :=
  ∀ rest place, Token.AtEdge rest →
    ∃ y, reader ⟨piece ++ rest, place⟩ = .found y ⟨rest, place.afterAll piece⟩ ∧ erase y = erase x

/-- A bracket that closes a container, before which the reader of what it contains gives up. -/
structure Closes (reader : Cursor → Reading α) (close : Char) : Prop where
  begins : Begins [close]
  gap : Token.isGap close = false
  word : Token.isWordChar close = false
  missing : ∀ rest place, ∃ stop, reader ⟨close :: rest, place⟩ = .missing stop

theorem Closes.atEdge (h : Closes reader close) (rest : List Char) : Token.AtEdge (close :: rest) :=
  atEdge_cons h.gap h.word

/-- The end of a series: layout, and the closing bracket. -/
theorem readSeries_end (expected : Expectation) (hclose : Closes reader close) {lead : List Char}
    (hlead : Layout lead) (bound : Nat) (rest : List Char) (place : Text.Place) :
    readSeries reader expected (bound + 1) false ⟨lead ++ close :: rest, place⟩
      = .found [] ⟨close :: rest, place.afterAll lead⟩ := by
  obtain ⟨stop, hstop⟩ := hclose.missing rest (place.afterAll lead)
  have hsolid : Solid (close :: rest) := (hclose.begins.append rest).solid
  simp [readSeries, Cursor.pastLayout_layout hlead hsolid, hstop]

/-- One step of a series: layout, a thing, and what is left to the following steps. -/
theorem readSeries_step {lead piece follow : List Char} {x : α} (hlead : Layout lead)
    (hbegins : Begins piece) (hreads : Reads reader erase x piece) (hedge : Token.AtEdge follow)
    (bound : Nat) (afterComma : Bool) (place : Text.Place) :
    ∃ y, erase y = erase x ∧
      readSeries reader expected (bound + 1) afterComma ⟨lead ++ (piece ++ follow), place⟩
        = (readSeries reader expected bound
            (readComma (Cursor.mk follow (place.afterAll (lead ++ piece))).pastLayout).1
            (readComma (Cursor.mk follow (place.afterAll (lead ++ piece))).pastLayout).2).map
              (y :: ·) := by
  obtain ⟨y, hread, hsame⟩ := hreads follow (place.afterAll lead) hedge
  refine ⟨y, hsame, ?_⟩
  have hsolid : Solid (piece ++ follow) := (hbegins.append follow).solid
  rw [Text.Place.afterAll_append]
  simp [readSeries, Cursor.pastLayout_layout hlead hsolid, hread]

/-- Everything between two siblings is passed before the second of them. -/
theorem readComma_between {gap text : List Char} (hgap : Style.careful.between gap)
    (htext : Begins text) (place : Text.Place) :
    ∃ lead afterComma passed, Layout lead ∧
      readComma (Cursor.mk (gap ++ text) place).pastLayout
        = (afterComma, ⟨lead ++ text, place.afterAll passed⟩) ∧ passed ++ lead = gap := by
  obtain ⟨first, second, hfirst, hsecond, rfl | ⟨rfl, -⟩⟩ := hgap
  · refine ⟨second, true, first ++ [','], hsecond, ?_, by simp⟩
    have hsolid : Solid (',' :: (second ++ text)) := solid_cons (by decide) (by decide)
    rw [List.append_assoc, List.cons_append, Cursor.pastLayout_layout hfirst hsolid,
      Text.Place.afterAll_append]
    rfl
  · refine ⟨[], false, first ++ second, .nil, ?_, by simp⟩
    rw [Cursor.pastLayout_layout (hfirst.append hsecond) htext.solid, readComma_none htext.not_comma]
    rfl

theorem atEdge_between {gap : List Char} (hgap : Style.careful.between gap) (text : List Char) :
    Token.AtEdge (gap ++ text) := by
  obtain ⟨first, second, hfirst, hsecond, rfl | ⟨rfl, hbreak⟩⟩ := hgap
  · rw [List.append_assoc]
    exact hfirst.atEdge (atEdge_cons (by decide) (by decide))
  · exact (hfirst.append hsecond).atEdge_of_break hbreak

/-- A written series is read up to the bracket behind it. -/
theorem readSeries_written {style : Style} (hstyle : style.Legible) (expected : Expectation)
    (hclose : Closes reader close) {before body : List Char}
    (h : Style.Series style item xs before body)
    (hitem : ∀ x ∈ xs, ∀ before piece, item x before piece →
      Begins piece ∧ Reads reader erase x piece)
    {lead trail : List Char} (hlead : Layout lead) (htrail : Layout trail) {bound : Nat}
    (hbound : xs.length < bound) (afterComma : Bool) (rest : List Char) (place : Text.Place) :
    ∃ ys, ys.map erase = xs.map erase ∧
      readSeries reader expected bound afterComma
          ⟨lead ++ (body ++ (trail ++ close :: rest)), place⟩
        = .found ys ⟨close :: rest, place.afterAll (lead ++ (body ++ trail))⟩ := by
  induction h generalizing lead bound afterComma place with
  | @last x before piece hx =>
      obtain ⟨bound, rfl⟩ : ∃ more, bound = more + 2 := ⟨bound - 2, by simp at hbound; omega⟩
      obtain ⟨hbegins, hreads⟩ := hitem x List.mem_cons_self before piece hx
      have hedge : Token.AtEdge (trail ++ close :: rest) := htrail.atEdge (hclose.atEdge rest)
      have hsolid : Begins (close :: rest) := hclose.begins.append rest
      obtain ⟨y, hsame, hstep⟩ :=
        readSeries_step hlead hbegins hreads hedge (bound + 1) afterComma place
      refine ⟨[y], by simp [hsame], ?_⟩
      rw [hstep, Cursor.pastLayout_layout htrail hsolid.solid, readComma_none hsolid.not_comma]
      have hend := readSeries_end expected hclose .nil bound rest
        ((place.afterAll (lead ++ piece)).afterAll trail)
      rw [List.nil_append] at hend
      rw [hend]
      simp [Text.Place.afterAll_append]
  | @next x xs before piece gap body hx hgap hmore ih =>
      obtain ⟨bound, rfl⟩ : ∃ more, bound = more + 1 := ⟨bound - 1, by omega⟩
      obtain ⟨hbegins, hreads⟩ := hitem x List.mem_cons_self before piece hx
      have hitems : ∀ x ∈ xs, ∀ before piece, item x before piece →
          Begins piece ∧ Reads reader erase x piece :=
        fun x hx => hitem x (List.mem_cons_of_mem _ hx)
      have hbody : Begins (body ++ (trail ++ close :: rest)) :=
        (hmore.begins fun x hx before piece h => (hitems x hx before piece h).1).append _
      have hbetween : Style.careful.between gap := hstyle.between gap hgap
      obtain ⟨y, hsame, hstep⟩ := readSeries_step hlead hbegins hreads
        (atEdge_between hbetween (body ++ (trail ++ close :: rest))) bound afterComma place
      obtain ⟨next, comma, passed, hnext, hcomma, hpassed⟩ :=
        readComma_between hbetween hbody (place.afterAll (lead ++ piece))
      obtain ⟨ys, hsames, hread⟩ := ih hitems hnext (by simp at hbound; omega) comma
        ((place.afterAll (lead ++ piece)).afterAll passed)
      refine ⟨y :: ys, by simp [hsame, hsames], ?_⟩
      have hassoc : lead ++ (piece ++ gap ++ body ++ (trail ++ close :: rest))
          = lead ++ (piece ++ (gap ++ (body ++ (trail ++ close :: rest)))) := by simp
      rw [hassoc, hstep, hcomma, hread, ← hpassed]
      simp [Text.Place.afterAll_append]

/-- What is written inside a container is read, and its closing bracket. -/
theorem readInside_written {style : Style} (hstyle : style.Legible) (expected : Expectation)
    (hclose : Closes reader close) {before body : List Char}
    (h : Style.Inside style item xs before body)
    (hitem : ∀ x ∈ xs, ∀ before piece, item x before piece →
      Begins piece ∧ Reads reader erase x piece)
    (unclosed : Expectation) (rest : List Char) (place : Text.Place) :
    ∃ ys, ys.map erase = xs.map erase ∧
      readInside reader expected close unclosed ⟨body ++ close :: rest, place⟩
        = .found ys ⟨rest, place.afterAll (body ++ [close])⟩ := by
  have hmark : ∀ place, readMark close unclosed ⟨close :: rest, place⟩
      = .found () ⟨rest, place.afterAll [close]⟩ := by
    intro place
    simp [readMark, Cursor.past]
  cases h with
  | empty hlayout =>
      refine ⟨[], rfl, ?_⟩
      unfold readInside
      rw [readSeries_end expected hclose hlayout]
      simp [hmark, Text.Place.afterAll_append]
  | @filled _ _ lead body trail hlead hseries htrail =>
      have hbegins : ∀ x ∈ xs, ∀ before piece, item x before piece → Begins piece :=
        fun x hx before piece h => (hitem x hx before piece h).1
      have hlength := hseries.length_le hbegins
      have hassoc : lead ++ body ++ trail ++ close :: rest
          = lead ++ (body ++ (trail ++ close :: rest)) := by simp
      have hbound : xs.length < (lead ++ (body ++ (trail ++ close :: rest))).length + 1 := by
        simp only [List.length_append]
        omega
      obtain ⟨ys, hsame, hread⟩ :=
        readSeries_written hstyle expected hclose hseries hitem hlead htrail hbound false rest place
      refine ⟨ys, hsame, ?_⟩
      unfold readInside
      rw [hassoc, hread]
      simp [hmark, Text.Place.afterAll_append]

end Reads

theorem stops_identifier_of_word {text : List Char} (h : Token.Stops Token.isWordChar text) :
    Token.Stops Token.isIdentifierChar text := by
  intro c hc
  have hword := h c hc
  simp only [Token.isWordChar, Bool.or_eq_false_iff] at hword
  simp [Token.isIdentifierChar, hword]

theorem isDigit_of_isIdentifierStart {c : Char} (h : Token.isIdentifierStart c = true) :
    c.isDigit = false := by
  simp only [Token.isIdentifierStart, Bool.or_eq_true, beq_iff_eq] at h
  rcases h with halpha | rfl
  · exact isDigit_of_isAlpha halpha
  · rfl

theorem isWordChar_of_isIdentifierStart {c : Char} (h : Token.isIdentifierStart c = true) :
    Token.isWordChar c = true := by
  simp only [Token.isIdentifierStart, Bool.or_eq_true] at h
  rcases h with halpha | hline <;> simp_all [Token.isWordChar, Char.isAlphanum]

theorem cons_of_isBareName {name : List Char} (h : isBareName name = true) :
    ∃ c more, name = c :: more ∧ Token.isIdentifierStart c = true ∧
      ∀ d ∈ more, Token.isIdentifierChar d = true := by
  cases name with
  | nil => simp [isBareName, Token.identifier] at h
  | cons c more =>
      simp only [isBareName, Token.identifier, beq_iff_eq, Option.ite_none_right_eq_some,
        Option.some.injEq, Prod.mk.injEq, List.cons.injEq, true_and] at h
      obtain ⟨hstart, htake, -⟩ := h
      exact ⟨c, more, rfl, hstart, List.takeWhile_eq_self_iff.mp htake⟩

theorem begins_quoted (text : List Char) : Begins (Token.quote text) :=
  ⟨'"', _, rfl, by decide, by decide, by decide⟩

theorem begins_spellName (name : List Char) : Begins (spellName name) := by
  unfold spellName
  split
  · rename_i hname
    obtain ⟨c, more, rfl, hstart, -⟩ := cons_of_isBareName hname
    exact begins_of_isWordChar (isWordChar_of_isIdentifierStart hstart)
  · exact begins_quoted name

theorem readName_quoted (name : String) (rest : List Char) (place : Text.Place) :
    readName ⟨Token.quote name.toList ++ rest, place⟩
      = .found ⟨name, .between place (place.afterAll (Token.quote name.toList))⟩
          ⟨rest, place.afterAll (Token.quote name.toList)⟩ := by
  have hdigits : Token.digits (Token.quote name.toList ++ rest) = [] := rfl
  simp [readName, hdigits, Token.quoted_quote, Token.decodeString_quote, Cursor.past, Cursor.spanTo]

theorem readName_spelled (name : String) {rest : List Char}
    (hrest : Token.Stops Token.isIdentifierChar rest) (place : Text.Place) :
    readName ⟨spellName name.toList ++ rest, place⟩
      = .found ⟨name, .between place (place.afterAll (spellName name.toList))⟩
          ⟨rest, place.afterAll (spellName name.toList)⟩ := by
  unfold spellName
  split
  · rename_i hname
    obtain ⟨c, more, hcons, hstart, hmore⟩ := cons_of_isBareName hname
    have hidentifier : Token.identifier (name.toList ++ rest) = some (name.toList, rest) := by
      simp [hcons, Token.identifier, hstart, Token.takeWhile_run hmore hrest,
        Token.dropWhile_run hmore hrest]
    have hdigits : Token.digits (name.toList ++ rest) = [] := by
      simp [hcons, Token.digits, isDigit_of_isIdentifierStart hstart]
    have hquote : Token.quoted (name.toList ++ rest) = .absent := by
      have hhead : c ∈ (name.toList ++ rest).head? := by simp [hcons]
      apply Token.quoted_eq_absent_of_head hhead
      rintro rfl
      exact absurd hstart (by decide)
    simp [readName, hdigits, hquote, hidentifier, Cursor.past, Cursor.spanTo]
  · exact readName_quoted name rest place

/-- A value that begins neither as a dictionary nor as an array is read as a literal. -/
theorem readNode_literal {limit levels : Nat} {c : Char} {rest : List Char}
    (hc : c ≠ '\x7b' ∧ c ≠ '[') (place : Text.Place) :
    readNode limit levels ⟨c :: rest, place⟩ = readLiteral ⟨c :: rest, place⟩ := by
  cases levels <;> simp [readNode, hc]

theorem not_bracket_of_head {c : Char} (h : c = '"' ∨ Token.isWordChar c = true) :
    c ≠ '\x7b' ∧ c ≠ '[' := by
  constructor <;> rintro rfl <;> rcases h with h | h <;> exact absurd h (by decide)

theorem literal_eq_none {c : Char} {rest : List Char} (hquote : c ≠ '"')
    (hword : Token.isWordChar c = false) : Token.literal (c :: rest) = none := by
  cases hliteral : Token.literal (c :: rest) with
  | none => rfl
  | some found =>
      obtain ⟨kind, token, left⟩ := found
      obtain ⟨d, more, rfl, hd⟩ := Token.opens_literal hliteral
      cases Token.literal_append hliteral
      rcases hd with hd | hd
      · exact absurd hd hquote
      · simp [hword] at hd

theorem readLiteral_missing {c : Char} {rest : List Char} (hquote : c ≠ '"')
    (hword : Token.isWordChar c = false) (place : Text.Place) :
    ∃ stop, readLiteral ⟨c :: rest, place⟩ = .missing stop := by
  have habsent : Token.quoted (c :: rest) = .absent := Token.quoted_eq_absent_of_head rfl hquote
  simp only [readLiteral, habsent, literal_eq_none hquote hword]
  exact ⟨_, rfl⟩

theorem closes_bracket (limit levels : Nat) : Closes (readNode limit levels) ']' := by
  refine ⟨⟨']', [], rfl, by decide, by decide, by decide⟩, by decide, by decide, ?_⟩
  intro rest place
  rw [readNode_literal ⟨by decide, by decide⟩]
  exact readLiteral_missing (by decide) (by decide) place

theorem closes_brace (value : Cursor → Reading Node) : Closes (readField value) '\x7d' := by
  refine ⟨⟨'\x7d', [], rfl, by decide, by decide, by decide⟩, by decide, by decide, ?_⟩
  intro rest place
  exact ⟨_, rfl⟩

theorem nesting_le_of_mem_items {items : List Node} {node : Node} (h : node ∈ items) :
    node.nesting ≤ Node.itemNesting items := by
  induction items with
  | nil => cases h
  | cons item rest ih =>
      rw [Node.itemNesting]
      rcases List.mem_cons.mp h with rfl | hrest
      · exact Nat.le_max_left _ _
      · exact (ih hrest).trans (Nat.le_max_right _ _)

theorem nesting_le_of_mem_fields {fields : List (Field Node)} {field : Field Node}
    (h : field ∈ fields) : field.value.nesting ≤ Node.fieldNesting fields := by
  induction fields with
  | nil => cases h
  | cons first rest ih =>
      rw [Node.fieldNesting]
      rcases List.mem_cons.mp h with rfl | hrest
      · exact Nat.le_max_left _ _
      · exact (ih hrest).trans (Nat.le_max_right _ _)

theorem begins_token {kind : LiteralKind} {token : List Char} (h : Token.IsToken kind token) :
    Begins token := by
  obtain ⟨c, more, rfl, rfl | hc⟩ := h.opens
  · exact ⟨'"', more, rfl, by decide, by decide, by decide⟩
  · exact begins_of_isWordChar hc

theorem careful_legible : Style.careful.Legible where
  between _ h := h
  begins name token h := by
    rw [h]
    exact begins_spellName name.toList
  name name token h rest place hrest := by
    rw [h]
    exact readName_spelled name hrest place
  literal _ _ h := h

theorem quoting_legible : Style.quoting.Legible where
  between gap h := by
    obtain ⟨first, second, hfirst, hsecond, hgap⟩ := h
    exact ⟨first, second, hfirst, hsecond, .inl hgap⟩
  begins name token h := by
    rw [h]
    exact begins_quoted name.toList
  name name token h rest place _ := by
    rw [h]
    exact readName_quoted name rest place
  literal _ _ h := h

section Legible

variable {style : Style} (hstyle : style.Legible)

include hstyle

/-- A written field is read, if its value is. -/
theorem readField_written {value : Cursor → Reading Node} {field : Field Node}
    {before text : List Char} (h : style.FieldWritten field before text)
    (hvalue : ∀ before piece, style.Written field.value before piece →
      Begins piece ∧ Reads value Node.bare field.value piece) :
    Begins text ∧ Reads (readField value) Field.bare field text := by
  cases h with
  | @field _ _ token first second piece hname _ hfirst hsecond hwritten _ =>
      obtain ⟨hbegins, hreads⟩ := hvalue _ _ hwritten
      have htoken : Begins token := hstyle.begins _ _ hname
      refine ⟨((htoken.append _).append _).append _, ?_⟩
      intro rest place hedge
      have hassoc : token ++ first ++ ':' :: second ++ piece ++ rest
          = token ++ (first ++ ':' :: (second ++ (piece ++ rest))) := by simp
      have hcolon : Token.AtEdge (':' :: (second ++ (piece ++ rest))) :=
        atEdge_cons (by decide) (by decide)
      have hstop := stops_identifier_of_word (hfirst.atEdge hcolon).stops_word
      have hsolid : Solid (':' :: (second ++ (piece ++ rest))) := solid_cons (by decide) (by decide)
      obtain ⟨y, hread, hsame⟩ := hreads rest
        (((place.afterAll token).afterAll first |>.afterAll [':']).afterAll second) hedge
      refine ⟨⟨⟨field.name.name, .between place (place.afterAll token)⟩, y,
        .between place (place.afterAll (token ++ first ++ ':' :: second ++ piece))⟩, ?_, ?_⟩
      · rw [hassoc]
        unfold readField
        rw [hstyle.name _ _ hname _ _ hstop]
        simp only [Reading.andThen_found, Cursor.pastLayout_layout hfirst hsolid, readMark, if_true,
          Cursor.past, Cursor.pastLayout_layout hsecond (hbegins.append rest).solid, hread,
          Reading.require_found, Cursor.spanTo]
        simp [Text.Place.afterAll_append]
      · simp [Field.bare, hsame]

omit hstyle in
theorem readNode_token (limit levels : Nat) {leaf : Literal}
    (h : Token.IsToken leaf.kind leaf.text.toList) :
    Begins leaf.text.toList ∧
      Reads (readNode limit levels) Node.bare (.literal leaf) leaf.text.toList := by
  refine ⟨begins_token h, ?_⟩
  intro rest place hedge
  obtain ⟨c, more, hcons, hc⟩ := h.opens
  have hread := readLiteral_token h hedge place
  refine ⟨.literal ⟨leaf.kind, leaf.text, .between place (place.afterAll leaf.text.toList)⟩, ?_, rfl⟩
  rw [hcons, List.cons_append] at hread ⊢
  rw [readNode_literal (not_bracket_of_head hc), hread, ← hcons, String.ofList_toList]

theorem readNode_array (limit levels : Nat) {items : List Node} (span : Span)
    {before body : List Char} (h : Style.Inside style style.Written items before body)
    (hitem : ∀ x ∈ items, ∀ before piece, style.Written x before piece →
      Begins piece ∧ Reads (readNode limit levels) Node.bare x piece) :
    Begins ('[' :: (body ++ [']'])) ∧
      Reads (readNode limit (levels + 1)) Node.bare (.array items span)
        ('[' :: (body ++ [']'])) := by
  refine ⟨⟨'[', _, rfl, by decide, by decide, by decide⟩, ?_⟩
  intro rest place _
  obtain ⟨ys, hsame, hread⟩ :=
    readInside_written hstyle .value (closes_bracket limit levels) h hitem
    .closingBracket rest (place.afterAll ['['])
  refine ⟨.array ys (.between place (place.afterAll ('[' :: (body ++ [']'])))), ?_, ?_⟩
  · have hassoc : '[' :: (body ++ [']']) ++ rest = '[' :: (body ++ ']' :: rest) := by simp
    rw [hassoc]
    simp only [readNode, readArray, Cursor.past, hread, Reading.andThen_found, Reading.map_found,
      Cursor.spanTo]
    rfl
  · simp [Node.bare, bareItems_eq_map, hsame]

theorem readNode_dictionary (limit levels : Nat) {fields : List (Field Node)} (span : Span)
    {before body : List Char} (h : Style.Inside style style.FieldWritten fields before body)
    (hfield : ∀ x ∈ fields, ∀ before piece, style.FieldWritten x before piece →
      Begins piece ∧ Reads (readField (readNode limit levels)) Field.bare x piece) :
    Begins ('\x7b' :: (body ++ ['\x7d'])) ∧
      Reads (readNode limit (levels + 1)) Node.bare (.dictionary fields span)
        ('\x7b' :: (body ++ ['\x7d'])) := by
  refine ⟨⟨'\x7b', _, rfl, by decide, by decide, by decide⟩, ?_⟩
  intro rest place _
  obtain ⟨ys, hsame, hread⟩ := readInside_written hstyle .fieldName (closes_brace _) h hfield
    .closingBrace rest (place.afterAll ['\x7b'])
  refine ⟨.dictionary ys (.between place (place.afterAll ('\x7b' :: (body ++ ['\x7d'])))), ?_, ?_⟩
  · have hassoc : '\x7b' :: (body ++ ['\x7d']) ++ rest = '\x7b' :: (body ++ '\x7d' :: rest) := by
      simp
    rw [hassoc]
    simp only [readNode, readDictionary, Cursor.past, hread, Reading.andThen_found,
      Reading.map_found, Cursor.spanTo]
    rfl
  · simp [Node.bare, bareFields_eq_map, hsame]

/-- What is written in a legible style is read as long as no more containers are open at once than
may be. -/
theorem readNode_legible (limit : Nat) {levels : Nat} {node : Node} {before piece : List Char}
    (h : style.Written node before piece) (hnesting : node.nesting ≤ levels) :
    Begins piece ∧ Reads (readNode limit levels) Node.bare node piece := by
  induction levels generalizing node before piece with
  | zero =>
      cases h with
      | literal htoken _ => exact readNode_token limit 0 (hstyle.literal _ _ htoken)
      | array _ _ => simp [Node.nesting] at hnesting
      | dictionary _ _ => simp [Node.nesting] at hnesting
  | succ levels ih =>
      cases h with
      | literal htoken _ => exact readNode_token limit (levels + 1) (hstyle.literal _ _ htoken)
      | array hinside _ =>
          rw [Node.nesting] at hnesting
          apply readNode_array hstyle limit levels _ hinside
          intro item hitem before piece hwritten
          have hle := nesting_le_of_mem_items hitem
          exact ih hwritten (by omega)
      | dictionary hinside _ =>
          rw [Node.nesting] at hnesting
          apply readNode_dictionary hstyle limit levels _ hinside
          intro field hfield before piece hwritten
          have hle := nesting_le_of_mem_fields hfield
          apply readField_written hstyle hwritten
          intro before piece hvalue
          exact ih hvalue (by omega)

end Legible

/-- A written node is read as long as no more containers are open at once than may be. -/
theorem readNode_written (limit : Nat) {levels : Nat} {node : Node} {before piece : List Char}
    (h : Style.careful.Written node before piece) (hnesting : node.nesting ≤ levels) :
    Begins piece ∧ Reads (readNode limit levels) Node.bare node piece :=
  readNode_legible careful_legible limit h hnesting

end Document

/-- Whatever layout a careful writer chooses, reading the text of a tree gives the tree back, spans
apart, as long as no more containers are open at once than may be. -/
theorem Document.parse_written (tree : Document) {lead body trail : List Char}
    (hwritten : Style.careful.Written tree.root lead body) (hnesting : tree.root.nesting ≤ 128)
    (hlead : Layout lead) (htrail : Layout trail) :
    ∃ document, Document.parse (String.ofList (lead ++ body ++ trail)) = .ok document ∧
      document.root.bare = tree.root.bare := by
  obtain ⟨hbegins, hreads⟩ := Document.readNode_written 128 hwritten hnesting
  have hedge : Token.AtEdge (trail ++ []) := htrail.atEdge Token.atEdge_nil
  obtain ⟨node, hread, hsame⟩ := hreads (trail ++ []) (Text.Place.start.afterAll lead) hedge
  obtain ⟨rest, rfl⟩ : ∃ rest, body = '\x7b' :: rest := by
    cases hwritten
    exact ⟨_, rfl⟩
  rw [List.cons_append, ← Document.map_root_readRoot] at hread
  obtain ⟨document, hroot, rfl⟩ := Reading.found_of_map hread
  refine ⟨document, ?_, hsame⟩
  have hassoc : lead ++ '\x7b' :: rest ++ trail
      = lead ++ ('\x7b' :: (rest ++ (trail ++ []))) := by simp
  have hsolid : Solid ('\x7b' :: (rest ++ (trail ++ []))) := solid_cons (by decide) (by decide)
  have hover : Solid [] := by simp [Solid]
  simp only [parse, ofText, ofTextWithin, nestingLimit, String.toList_ofList, hassoc, Cursor.ofText,
    Cursor.pastLayout_layout hlead hsolid, hroot, Reading.andThen_found,
    Cursor.pastLayout_layout htrail hover]
  rfl

/-- A document with a bare name, a quoted one and an array. -/
def timeouts : Document :=
  ⟨[⟨⟨"a", .none⟩, .literal ⟨.integer, "1", .none⟩, .none⟩,
    ⟨⟨"b c", .none⟩,
      .array [.literal ⟨.float, "1.5 F", .none⟩, .literal ⟨.boolean, "on", .none⟩] .none, .none⟩],
    .none⟩

theorem timeouts_parse : ∃ document,
    Document.parse "\n\x7ba:1 #x\n\"b c\" :[1.5 F, on]\x7d " = .ok document ∧
      document.root.bare = timeouts.root.bare := by
  have hspace : Layout [' '] := Layout.nil.blank (by decide)
  have hline : Layout ['\n'] := Layout.nil.blank (by decide)
  have hcomment : Layout (' ' :: '#' :: (['x'] ++ '\n' :: [])) :=
    (Layout.nil.comment (by decide)).blank (by decide)
  have hinteger : Token.IsToken .integer "1".toList :=
    ⟨Token.integer, by simp [Token.alternatives], by decide⟩
  have hfloat : Token.IsToken .float "1.5 F".toList :=
    ⟨Token.float, by simp [Token.alternatives], by decide⟩
  have hboolean : Token.IsToken .boolean "on".toList :=
    ⟨Token.boolean, by simp [Token.alternatives], by decide⟩
  obtain ⟨first, hfirst, hfirstText⟩ : ∃ text, (∀ before, Style.careful.FieldWritten
      ⟨⟨"a", .none⟩, .literal ⟨.integer, "1", .none⟩, .none⟩ before text) ∧
      text = "a:1".toList :=
    ⟨_, fun before => .field rfl trivial .nil .nil (.literal hinteger trivial) trivial, rfl⟩
  obtain ⟨items, hitems, hitemsText⟩ : ∃ text, (∀ before, Style.careful.Written
      (.array [.literal ⟨.float, "1.5 F", .none⟩, .literal ⟨.boolean, "on", .none⟩] .none) before
      text) ∧ text = "[1.5 F, on]".toList :=
    ⟨_, fun before => .array (.filled .nil (.next (.literal hfloat trivial)
      ⟨[], [' '], .nil, hspace, .inl rfl⟩ (.last (.literal hboolean trivial))) .nil) trivial, rfl⟩
  obtain ⟨second, hsecond, hsecondText⟩ : ∃ text, (∀ before, Style.careful.FieldWritten
      ⟨⟨"b c", .none⟩,
        .array [.literal ⟨.float, "1.5 F", .none⟩, .literal ⟨.boolean, "on", .none⟩] .none, .none⟩
      before text) ∧ text = "\"b c\" :".toList ++ items :=
    ⟨_, fun before => .field rfl trivial hspace .nil (hitems _) trivial, rfl⟩
  have hbetween : Style.careful.between (' ' :: '#' :: (['x'] ++ '\n' :: [])) :=
    ⟨_, [], hcomment, .nil, .inr ⟨rfl, '#', by decide, by decide⟩⟩
  have hroot : Style.careful.Written timeouts.root ['\n'] _ :=
    .dictionary (.filled .nil (.next (hfirst _) hbetween (.last (hsecond _))) .nil) trivial
  have hparse := Document.parse_written timeouts hroot (by decide) hline hspace
  rw [hfirstText, hsecondText, hitemsText] at hparse
  exact hparse

end TypedConfig
