import Mathlib.Logic.Relation
import TypedConfig.Proofs.Document.Parts
import TypedConfig.Proofs.Document.Placement
import TypedConfig.Session

/-!
The JSON form of a document is lossless.  Reading the form of a tree gives the tree back, whatever
members were put into its records besides; without one of the members of a record nothing is read.
-/

namespace TypedConfig

/-- The numbers of a span fit into its JSON form. -/
structure Span.Fits (span : Span) : Prop where
  start : span.start < offsetBound
  stop : span.stop < offsetBound
  line : span.line < lineBound
  column : span.column < lineBound

instance (span : Span) : Decidable span.Fits :=
  decidable_of_iff (span.start < offsetBound ∧ span.stop < offsetBound ∧ span.line < lineBound ∧
      span.column < lineBound)
    ⟨fun ⟨hstart, hstop, hline, hcolumn⟩ => ⟨hstart, hstop, hline, hcolumn⟩,
      fun ⟨hstart, hstop, hline, hcolumn⟩ => ⟨hstart, hstop, hline, hcolumn⟩⟩

/-- All spans of a tree fit. -/
inductive SpanTree.Fits : SpanTree → Prop where
  | node {span : Span} {children : List SpanTree} :
      span.Fits → (∀ child ∈ children, Fits child) → Fits (.node span children)

def Document.Fits (document : Document) : Prop := document.root.spans.Fits

theorem Span.ofJson?_toJson {span : Span} (h : span.Fits) :
    Span.ofJson? span.toJson = some span := by
  simp [toJson, ofJson?, Json.parts?, Json.natBelow?, h.start, h.stop, h.line,
    h.column]

theorem Identifier.ofJson?_toJson {name : Identifier} (h : name.span.Fits) :
    Identifier.ofJson? name.toJson = some name := by
  simp [toJson, ofJson?, Json.parts?, Json.text?, Span.ofJson?_toJson h]

theorem LiteralKind.ofJson?_toJson (kind : LiteralKind) :
    LiteralKind.ofJson? kind.toJson = some kind := by
  cases kind with
  | duration form => cases form <;> rfl
  | _ => rfl

theorem Literal.ofJson?_toJson {leaf : Literal} (h : leaf.span.Fits) :
    Literal.ofJson? leaf.toJson = some leaf := by
  simp [toJson, ofJson?, Json.parts?, Json.text?, LiteralKind.ofJson?_toJson,
    Span.ofJson?_toJson h]

def Field.toJson (field : Field Node) : Json :=
  .object [("name", field.name.toJson), ("value", field.value.toJson), ("span", field.span.toJson)]

/-- What reads each form of a list reads the list. -/
theorem mapM_map_eq_some {α β : Type} {form : α → β} {read : β → Option α} {xs : List α}
    (h : ∀ x ∈ xs, read (form x) = some x) : (xs.map form).mapM read = some xs := by
  induction xs with
  | nil => rfl
  | cons x rest ih =>
      obtain ⟨hx, hrest⟩ := List.forall_mem_cons.mp h
      simp [hx, ih hrest]

namespace Node

theorem fieldsToJson_eq_map (fields : List (Field Node)) :
    fieldsToJson fields = fields.map Field.toJson := by
  induction fields with
  | nil => rfl
  | cons field rest ih =>
      rw [fieldsToJson, ih]
      rfl

theorem itemsToJson_eq_map (items : List Node) : itemsToJson items = items.map Node.toJson := by
  induction items with
  | nil => rfl
  | cons item rest ih =>
      rw [itemsToJson, ih]
      rfl

theorem fieldOfJson?_toJson {field : Field Node} (hname : field.name.span.Fits)
    (hspan : field.span.Fits) (hvalue : ofJson? field.value.toJson = some field.value) :
    fieldOfJson? field.toJson = some field := by
  simp [Field.toJson, fieldOfJson?, valueMember?, hvalue,
    Identifier.ofJson?_toJson hname, Span.ofJson?_toJson hspan]

theorem dictionaryOfJson?_toJson {fields : List (Field Node)} {span : Span} (hspan : span.Fits)
    (hfields : ∀ field ∈ fields, fieldOfJson? field.toJson = some field) :
    dictionaryOfJson? (dictionaryJson (fieldsToJson fields) span) = some (fields, span) := by
  have hread := mapM_map_eq_some hfields
  rw [← fieldsToJson_eq_map, ← fieldsOfJson?_eq_mapM] at hread
  simp [dictionaryJson, dictionaryOfJson?, fieldsMember?, hread,
    Span.ofJson?_toJson hspan]

theorem arrayOfJson?_toJson {items : List Node} {span : Span} (hspan : span.Fits)
    (hitems : ∀ item ∈ items, ofJson? item.toJson = some item) :
    arrayOfJson? (.object [("items", .array (itemsToJson items)), ("span", span.toJson)])
      = some (items, span) := by
  have hread := mapM_map_eq_some hitems
  rw [← itemsToJson_eq_map, ← itemsOfJson?_eq_mapM] at hread
  simp [arrayOfJson?, itemsMember?, hread, Span.ofJson?_toJson hspan]

/-- The form of a field is read back where that of its value is. -/
theorem fieldOfJson?_of_fits {field : Field Node} (h : field.spans.Fits)
    (hvalue : field.value.spans.Fits → ofJson? field.value.toJson = some field.value) :
    fieldOfJson? field.toJson = some field := by
  obtain ⟨hspan, hchildren⟩ := h
  obtain ⟨⟨hname, -⟩, hrest⟩ := List.forall_mem_cons.mp hchildren
  exact fieldOfJson?_toJson hname hspan (hvalue (List.forall_mem_singleton.mp hrest))

theorem ofJson?_toJson {node : Node} (h : node.spans.Fits) : ofJson? node.toJson = some node := by
  induction node with
  | dictionary fields span ih =>
      rw [spans, fieldSpans_eq_map] at h
      obtain ⟨hspan, hfields⟩ := h
      have hread : dictionaryOfJson? _ = _ := dictionaryOfJson?_toJson hspan fun field hfield =>
        fieldOfJson?_of_fits (hfields _ (List.mem_map_of_mem hfield)) (ih field hfield)
      simp [toJson, ofJson?, hread]
  | array items span ih =>
      rw [spans, itemSpans_eq_map] at h
      obtain ⟨hspan, hitems⟩ := h
      have hread := arrayOfJson?_toJson hspan fun item hitem =>
        ih item hitem (hitems _ (List.mem_map_of_mem hitem))
      simp [toJson, ofJson?, hread]
  | literal leaf =>
      obtain ⟨hspan, -⟩ := h
      simp [toJson, ofJson?, Literal.ofJson?_toJson hspan]

end Node

namespace Document

variable {document : Document} {json : Json}

/-- The form of a document is read back. -/
theorem ofJson?_toJson (h : document.Fits) : Document.ofJson? document.toJson = some document := by
  have hroot := Node.ofJson?_toJson h
  simp only [Document.root, Node.toJson, Node.ofJson?, if_true, Option.map_eq_some_iff] at hroot
  obtain ⟨⟨fields, span⟩, hread, hsame⟩ := hroot
  cases hsame
  simp [toJson, ofJson?, Json.parts?, hread]

/-- Unknown members make no difference, however many there are and wherever they are. -/
theorem ofJson?_of_adds
    (h : Relation.ReflTransGen (Part.Edited Part.Adds .document) document.toJson json) :
    Document.ofJson? json = Document.ofJson? document.toJson := by
  induction h with
  | refl => rfl
  | tail _ hedit ih => exact (Part.read_of_adds hedit).trans ih

end Document

/-- The JSON form of a document whose spans fit is lossless.  It is read back, so that different
documents have different forms.  Members of unknown names may be added to any of its records, one
after another and at any depth: the same document is read, and binding it is binding the document
itself.  But without one of its own members, wherever this is missing, nothing is read. -/
theorem Document.toJson_lossless {document : Document} (h : document.Fits) :
    Document.ofJson? document.toJson = some document ∧
    (∀ other : Document, other.Fits → other.toJson = document.toJson → other = document) ∧
    ∀ json, Relation.ReflTransGen (Part.Edited Part.Adds .document) document.toJson json →
      Document.ofJson? json = some document ∧
      (∀ schema goal, (Unopened.tree json).load (.ok schema) goal
        = (document.reach schema goal).mapError .config) ∧
      ∀ less, Part.Edited Part.Drops .document json less → Document.ofJson? less = none := by
  have hback := Document.ofJson?_toJson h
  refine ⟨hback, ?_, ?_⟩
  · intro other hother hsame
    have hread := Document.ofJson?_toJson hother
    rw [hsame, hback] at hread
    exact (Option.some.inj hread).symm
  · intro json hadds
    have hread := (Document.ofJson?_of_adds hadds).trans hback
    refine ⟨hread, ?_, fun less hdrops => Part.read_of_drops hdrops⟩
    intro schema goal
    simp only [Unopened.load, Unopened.document, hread]
    rfl

/-- A document with one field, whose value is a list of one duration. -/
def delaysTree : Document :=
  ⟨[⟨⟨"delays", ⟨2, 8, 1, 3⟩⟩,
      .array [.literal ⟨.duration .iso8601, "PT1S", ⟨11, 15, 1, 12⟩⟩] ⟨10, 16, 1, 11⟩,
      ⟨2, 16, 1, 3⟩⟩], ⟨0, 18, 1, 1⟩⟩

/-- The form of `delaysTree` with some other members in the span of the name of its field. -/
def delaysForm (members : List (String × Json)) : Json :=
  .object [("root", .object [
    ("fields", .array [.object [
      ("name", .object [("name", .string "delays"), ("span", .object members)]),
      ("value", (Node.array [.literal ⟨.duration .iso8601, "PT1S", ⟨11, 15, 1, 12⟩⟩]
        ⟨10, 16, 1, 11⟩).toJson),
      ("span", (⟨2, 16, 1, 3⟩ : Span).toJson)]]),
    ("span", (⟨0, 18, 1, 1⟩ : Span).toJson)])]

theorem delaysForm_edited {edit : Part → List (String × Json) → List (String × Json) → Prop}
    {old new : List (String × Json)} (h : edit .span old new) :
    Part.Edited edit .document (delaysForm old) (delaysForm new) := by
  -- The way down to the span: the root, its only field, and the name of that field.
  refine @Part.Edited.member edit .document .dictionary "root" _ _ [] _ (by decide) (by decide) ?_
  refine @Part.Edited.member edit .dictionary .fields "fields" _ _ [] _ (by decide) (by decide) ?_
  refine @Part.Edited.element edit .fields .field _ _ [] _ rfl ?_
  refine @Part.Edited.member edit .field .name "name" _ _ [] _ (by decide) (by decide) ?_
  refine @Part.Edited.member edit .name .span "span" _ _ [("name", .string "delays")] _ (by decide)
    (by decide) ?_
  exact .record (by decide) h

theorem delaysTree_lossless : delaysTree.Fits ∧
    (Document.ofJson? delaysTree.toJson).isSome = true ∧
    Document.ofJson? (delaysForm [("file", .null), ("start", .integer 2), ("end", .integer 8),
      ("line", .integer 1), ("column", .integer 3), ("length", .integer 6)]) = some delaysTree ∧
    Document.ofJson? (delaysForm [("file", .null), ("start", .integer 2), ("end", .integer 8),
      ("line", .integer 1), ("length", .integer 6)]) = none := by
  have hname : (SpanTree.node ⟨2, 8, 1, 3⟩ []).Fits := .node (by decide) (List.forall_mem_nil _)
  have hleaf : (SpanTree.node ⟨11, 15, 1, 12⟩ []).Fits := .node (by decide) (List.forall_mem_nil _)
  have hitems : (SpanTree.node ⟨10, 16, 1, 11⟩ [.node ⟨11, 15, 1, 12⟩ []]).Fits :=
    .node (by decide) (List.forall_mem_singleton.mpr hleaf)
  have hfield : (SpanTree.node ⟨2, 16, 1, 3⟩ [.node ⟨2, 8, 1, 3⟩ [],
      .node ⟨10, 16, 1, 11⟩ [.node ⟨11, 15, 1, 12⟩ []]]).Fits :=
    .node (by decide) (List.forall_mem_cons.mpr ⟨hname, List.forall_mem_singleton.mpr hitems⟩)
  have hfits : delaysTree.Fits := .node (by decide) (List.forall_mem_singleton.mpr hfield)
  obtain ⟨hback, -, hedits⟩ := Document.toJson_lossless hfits
  let own : List (String × Json) :=
    [("start", .integer 2), ("end", .integer 8), ("line", .integer 1), ("column", .integer 3)]
  have hform : delaysTree.toJson = delaysForm own := rfl
  have hfirst : Part.Edited Part.Adds .document (delaysForm own)
      (delaysForm (own ++ [("length", .integer 6)])) :=
    delaysForm_edited (@Part.Adds.unknown .span "length" _ own [] (by decide))
  have hsecond : Part.Edited Part.Adds .document (delaysForm (own ++ [("length", .integer 6)]))
      (delaysForm (("file", .null) :: (own ++ [("length", .integer 6)]))) :=
    delaysForm_edited (@Part.Adds.unknown .span "file" _ [] _ (by decide))
  have hadds := Relation.ReflTransGen.tail (.single hfirst) hsecond
  obtain ⟨hread, -, hdrops⟩ := hedits _ (hform ▸ hadds)
  refine ⟨hfits, by rw [hback]; rfl, hread, hdrops _ ?_⟩
  exact delaysForm_edited (@Part.Drops.known .span "column" _ (by decide))

end TypedConfig
