import TypedConfig.Proofs.Document.Layout
import TypedConfig.Proofs.Token.Whole

/-!
The grammar of documents: which texts a tree may be written as.  A derivation relates a node to the
text of the node and to the text before it, so that it can also say which spans the tree carries.
What a style leaves open is how siblings are set apart, how names are written, which texts are
literals, and whether spans matter.
-/

namespace TypedConfig

/-- The open points of the grammar. -/
structure Style where
  /-- What stands between two siblings. -/
  between : List Char → Prop
  /-- How a name is written. -/
  name : String → List Char → Prop
  /-- What a literal of some kind is. -/
  literal : LiteralKind → List Char → Prop
  /-- The span of what is written as the last text behind the first. -/
  span : Span → List Char → List Char → Prop

namespace Style

variable {α : Type}

/-- One or more siblings with what stands between them. -/
inductive Series (style : Style) (item : α → List Char → List Char → Prop) :
    List α → List Char → List Char → Prop where
  | last {x : α} {before piece : List Char} :
      item x before piece → Series style item [x] before piece
  | next {x : α} {xs : List α} {before piece gap rest : List Char} :
      item x before piece → style.between gap →
        Series style item xs (before ++ piece ++ gap) rest →
          Series style item (x :: xs) before (piece ++ gap ++ rest)

/-- What stands between the brackets of a container. -/
inductive Inside (style : Style) (item : α → List Char → List Char → Prop) :
    List α → List Char → List Char → Prop where
  | empty {before layout : List Char} : Layout layout → Inside style item [] before layout
  | filled {xs : List α} {before lead body trail : List Char} :
      Layout lead → Series style item xs (before ++ lead) body → Layout trail →
        Inside style item xs before (lead ++ body ++ trail)

mutual

/-- A node and the text it is written as. -/
inductive Written (style : Style) : Node → List Char → List Char → Prop where
  | literal {leaf : Literal} {before : List Char} :
      style.literal leaf.kind leaf.text.toList → style.span leaf.span before leaf.text.toList →
        Written style (.literal leaf) before leaf.text.toList
  | array {items : List Node} {span : Span} {before body : List Char} :
      Inside style (Written style) items (before ++ ['[']) body →
        style.span span before ('[' :: (body ++ [']'])) →
          Written style (.array items span) before ('[' :: (body ++ [']']))
  | dictionary {fields : List (Field Node)} {span : Span} {before body : List Char} :
      Inside style (FieldWritten style) fields (before ++ ['\x7b']) body →
        style.span span before ('\x7b' :: (body ++ ['\x7d'])) →
          Written style (.dictionary fields span) before ('\x7b' :: (body ++ ['\x7d']))

/-- A field and the text it is written as. -/
inductive FieldWritten (style : Style) : Field Node → List Char → List Char → Prop where
  | field {field : Field Node} {before token first second piece : List Char} :
      style.name field.name.name token → style.span field.name.span before token →
        Layout first → Layout second →
          Written style field.value (before ++ (token ++ first ++ ':' :: second)) piece →
            style.span field.span before (token ++ first ++ ':' :: second ++ piece) →
              FieldWritten style field before (token ++ first ++ ':' :: second ++ piece)

end

end Style

/-- Whether a name can be written bare. -/
def isBareName (name : List Char) : Bool :=
  Token.identifier name == some (name, [])

/-- A name as it is written: bare if it can be. -/
def spellName (name : List Char) : List Char :=
  if isBareName name then name else Token.quote name

/-- The style of a careful writer: siblings are set apart by a comma or by some layout other than
spaces and tabs, and every literal is a whole token. -/
def Style.careful : Style where
  between gap :=
    ∃ first second, Layout first ∧ Layout second ∧
      (gap = first ++ ',' :: second ∨
        gap = first ++ second ∧ ∃ c ∈ gap, Token.isGap c = false)
  name name token := token = spellName name.toList
  literal := Token.IsToken
  span _ _ _ := True

/-- The style of a writer who quotes every name and sets siblings apart by commas. -/
def Style.quoting : Style where
  between gap := ∃ first second, Layout first ∧ Layout second ∧ gap = first ++ ',' :: second
  name name token := token = Token.quote name.toList
  literal := Token.IsToken
  span _ _ _ := True

/-- The style of all accepted texts: siblings need not be set apart, and spans are those of the
text. -/
def Style.accepted : Style where
  between gap :=
    ∃ first second, Layout first ∧ Layout second ∧
      (gap = first ++ ',' :: second ∨ gap = first ++ second)
  name name token :=
    Token.identifier token = some (token, []) ∧ name.toList = token ∨
      Token.string token = some (token, []) ∧ name.toList = Literal.decodeString token
  literal kind token := ∃ rest, Token.literal (token ++ rest) = some (kind, token, rest)
  span span before piece :=
    span = .between (Text.Place.start.afterAll before) (Text.Place.start.afterAll (before ++ piece))

/-- A text that neither layout nor a comma begins, as no node and no name does. -/
def Begins (piece : List Char) : Prop :=
  ∃ c more, piece = c :: more ∧ Text.isBlank c = false ∧ c ≠ '#' ∧ c ≠ ','

theorem Begins.append {piece : List Char} (h : Begins piece) (rest : List Char) :
    Begins (piece ++ rest) := by
  obtain ⟨c, more, rfl, hc⟩ := h
  exact ⟨c, more ++ rest, rfl, hc⟩

theorem Begins.solid {piece : List Char} (h : Begins piece) : Solid piece := by
  obtain ⟨c, more, rfl, hblank, hcomment, -⟩ := h
  exact solid_cons hblank hcomment

theorem Begins.length_pos {piece : List Char} (h : Begins piece) : 0 < piece.length := by
  obtain ⟨c, more, rfl, -⟩ := h
  exact Nat.succ_pos _

theorem Begins.not_comma {piece : List Char} (h : Begins piece) : ',' ∉ piece.head? := by
  obtain ⟨c, more, rfl, -, -, hc⟩ := h
  rintro ⟨⟩
  exact hc rfl

theorem begins_of_isWordChar {c : Char} {more : List Char} (h : Token.isWordChar c = true) :
    Begins (c :: more) := by
  refine ⟨c, more, rfl, isBlank_of_isWordChar h, ?_, ?_⟩
  · rintro rfl
    exact absurd h (by decide)
  · rintro rfl
    exact absurd h (by decide)

namespace Style

variable {α : Type} {style : Style} {item : α → List Char → List Char → Prop} {xs : List α}
  {before body : List Char}

theorem Series.begins (hitem : ∀ x ∈ xs, ∀ before piece, item x before piece → Begins piece)
    (h : Series style item xs before body) : Begins body := by
  cases h with
  | last hx => exact hitem _ List.mem_cons_self _ _ hx
  | next hx _ _ => exact ((hitem _ List.mem_cons_self _ _ hx).append _).append _

theorem Series.length_le (hitem : ∀ x ∈ xs, ∀ before piece, item x before piece → Begins piece)
    (h : Series style item xs before body) : xs.length ≤ body.length := by
  induction h with
  | last hx => exact (hitem _ List.mem_cons_self _ _ hx).length_pos
  | next hx _ _ ih =>
      have hpiece := (hitem _ List.mem_cons_self _ _ hx).length_pos
      have hrest := ih fun x hx => hitem x (List.mem_cons_of_mem _ hx)
      simp only [List.length_cons, List.length_append]
      omega

/-- Each thing of a series is written somewhere. -/
theorem Series.written_of_mem (h : Series style item xs before body) :
    ∀ x ∈ xs, ∃ before piece, item x before piece := by
  induction h with
  | @last x before piece hx => exact List.forall_mem_singleton.mpr ⟨before, piece, hx⟩
  | @next x xs before piece gap rest hx _ _ ih =>
      exact List.forall_mem_cons.mpr ⟨⟨before, piece, hx⟩, ih⟩

theorem Inside.written_of_mem (h : Inside style item xs before body) :
    ∀ x ∈ xs, ∃ before piece, item x before piece := by
  cases h with
  | empty _ => exact List.forall_mem_nil _
  | filled _ hseries _ => exact hseries.written_of_mem

end Style

end TypedConfig

/-!
How readings are put together, and how the root is read.
-/

namespace TypedConfig.Reading

variable {α β : Type} {reading : Reading α} {value : α} {next : Cursor}

@[simp]
theorem andThen_found (step : α → Cursor → Reading β) :
    (Reading.found value next).andThen step = step value next := rfl

@[simp]
theorem map_found (f : α → β) : (Reading.found value next).map f = .found (f value) next := rfl

@[simp]
theorem require_found (expected : Expectation) :
    (Reading.found value next).require expected = .found value next := rfl

theorem found_of_andThen {step : α → Cursor → Reading β} {result : β}
    (h : reading.andThen step = .found result next) :
    ∃ value cursor, reading = .found value cursor ∧ step value cursor = .found result next := by
  cases reading with
  | found value cursor => exact ⟨value, cursor, rfl, h⟩
  | missing cursor => cases h
  | fault expected cursor => cases h

theorem found_of_map {f : α → β} {result : β} (h : reading.map f = .found result next) :
    ∃ value, reading = .found value next ∧ f value = result := by
  obtain ⟨value, cursor, hreading, hstep⟩ := found_of_andThen h
  cases hstep
  exact ⟨value, hreading, rfl⟩

theorem found_of_require {expected : Expectation}
    (h : reading.require expected = .found value next) : reading = .found value next := by
  cases reading with
  | found value cursor => exact h
  | missing cursor => cases h
  | fault expected cursor => exact h

theorem missing_of_andThen {step : α → Cursor → Reading β} {stop : Cursor}
    (h : reading.andThen step = .missing stop) :
    reading = .missing stop ∨
      ∃ value cursor, reading = .found value cursor ∧ step value cursor = .missing stop := by
  cases reading with
  | found value cursor => exact .inr ⟨value, cursor, rfl, h⟩
  | missing cursor =>
      cases h
      exact .inl rfl
  | fault expected cursor => cases h

theorem missing_of_map {f : α → β} {stop : Cursor} (h : reading.map f = .missing stop) :
    reading = .missing stop := by
  rcases missing_of_andThen h with hmissing | ⟨value, cursor, -, hfound⟩
  · exact hmissing
  · cases hfound

theorem require_ne_missing {expected : Expectation} {stop : Cursor} :
    reading.require expected ≠ .missing stop := by
  cases reading <;> simp [require]

end TypedConfig.Reading

namespace TypedConfig.Document

theorem readComma_none {text : List Char} (h : ',' ∉ text.head?) (place : Text.Place) :
    readComma ⟨text, place⟩ = (false, ⟨text, place⟩) := by
  unfold readComma
  split
  · rename_i rest htext
    change text = ',' :: rest at htext
    simp [htext] at h
  · rfl

/-- The root is read as any dictionary is. -/
theorem map_root_readRoot (limit : Nat) (rest : List Char) (place : Text.Place) :
    (readRoot limit ⟨'\x7b' :: rest, place⟩).map Document.root
      = readNode limit limit ⟨'\x7b' :: rest, place⟩ := by
  cases limit with
  | zero => rfl
  | succ levels =>
      simp only [readRoot, readNode]
      generalize readDictionary (readNode (levels + 1) levels) _ rest = reading
      cases reading <;> rfl

end TypedConfig.Document
