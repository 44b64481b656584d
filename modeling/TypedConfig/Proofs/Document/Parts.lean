import TypedConfig.Document.Json
import TypedConfig.Entries

/-!
The parts of the JSON form of a document, and edits inside it.  The form is made of records, of
lists, of nodes that name one of three alternatives, and of leaves.  A record is put together from
what its members are read as, and from nothing else.  So an edit of one record anywhere in the form
changes the reading of the whole only as far as it changes the reading of the record.
-/

namespace TypedConfig

namespace Json

def items? : Json → Option (List Json)
  | .array items => some items
  | _ => none

/-- What the member of a name is read as. -/
def memberAs {α : Type} (name : String) (read : Json → Option α) (members : List (String × Json)) :
    Option α :=
  (members.lookup name).bind read

end Json

namespace Node

def fieldsOf? (json : Json) : Option (List (Field Node)) := json.items?.bind fieldsOfJson?

def itemsOf? (json : Json) : Option (List Node) := json.items?.bind itemsOfJson?

theorem fieldsMember?_eq (members : List (String × Json)) :
    fieldsMember? members = Json.memberAs "fields" fieldsOf? members := by
  induction members with
  | nil => rfl
  | cons entry rest ih =>
      obtain ⟨key, value⟩ := entry
      unfold fieldsMember? Json.memberAs
      rw [Entries.lookup_entry]
      split
      · cases value <;> rfl
      · exact ih

theorem itemsMember?_eq (members : List (String × Json)) :
    itemsMember? members = Json.memberAs "items" itemsOf? members := by
  induction members with
  | nil => rfl
  | cons entry rest ih =>
      obtain ⟨key, value⟩ := entry
      unfold itemsMember? Json.memberAs
      rw [Entries.lookup_entry]
      split
      · cases value <;> rfl
      · exact ih

theorem valueMember?_eq (members : List (String × Json)) :
    valueMember? members = Json.memberAs "value" ofJson? members := by
  induction members with
  | nil => rfl
  | cons entry rest ih =>
      obtain ⟨key, value⟩ := entry
      rw [valueMember?, Json.memberAs, Entries.lookup_entry]
      split
      · rfl
      · exact ih

theorem fieldsOfJson?_eq_mapM (fields : List Json) :
    fieldsOfJson? fields = fields.mapM fieldOfJson? := by
  induction fields with
  | nil => rfl
  | cons field rest ih => rw [fieldsOfJson?, List.mapM_cons, ih]

theorem itemsOfJson?_eq_mapM (items : List Json) : itemsOfJson? items = items.mapM ofJson? := by
  induction items with
  | nil => rfl
  | cons item rest ih => rw [itemsOfJson?, List.mapM_cons, ih]

end Node

/-- The parts of the JSON form of a document. -/
inductive Part where
  | document
  | dictionary
  | field
  | name
  | array
  | literal
  | span
  | node
  | fields
  | items
  | kind
  | text
  | offset
  | line
deriving DecidableEq, Repr

namespace Part

/-- The members of a record, each with what it is.  Other parts have none. -/
def members : Part → List (String × Part)
  | .document => [("root", .dictionary)]
  | .dictionary => [("fields", .fields), ("span", .span)]
  | .field => [("name", .name), ("value", .node), ("span", .span)]
  | .name => [("name", .text), ("span", .span)]
  | .array => [("items", .items), ("span", .span)]
  | .literal => [("kind", .kind), ("text", .text), ("span", .span)]
  | .span => [("start", .offset), ("end", .offset), ("line", .line), ("column", .line)]
  | _ => []

def names (part : Part) : List String := part.members.map Prod.fst

/-- The alternatives of a node. -/
def alternatives : Part → List (String × Part)
  | .node => [("Dictionary", .dictionary), ("Array", .array), ("Literal", .literal)]
  | _ => []

/-- What a list is a list of. -/
def element? : Part → Option Part
  | .fields => some .field
  | .items => some .node
  | _ => none

/-- What a part is read as. -/
abbrev Content : Part → Type
  | .document => Document
  | .dictionary => List (Field Node) × Span
  | .field => Field Node
  | .name => Identifier
  | .array => List Node × Span
  | .literal => Literal
  | .span => Span
  | .node => Node
  | .fields => List (Field Node)
  | .items => List Node
  | .kind => LiteralKind
  | .text => String
  | .offset => Nat
  | .line => Nat

def read : (part : Part) → Json → Option part.Content
  | .document => Document.ofJson?
  | .dictionary => Node.dictionaryOfJson?
  | .field => Node.fieldOfJson?
  | .name => Identifier.ofJson?
  | .array => Node.arrayOfJson?
  | .literal => Literal.ofJson?
  | .span => Span.ofJson?
  | .node => Node.ofJson?
  | .fields => Node.fieldsOf?
  | .items => Node.itemsOf?
  | .kind => LiteralKind.ofJson?
  | .text => Json.text?
  | .offset => Json.natBelow? offsetBound
  | .line => Json.natBelow? lineBound

/-- Puts a record together from its members. -/
def assemble : (part : Part) → ((name : String) → (inner : Part) → Option inner.Content) →
    Option part.Content
  | .document, get => (get "root" .dictionary).map fun root => ⟨root.1, root.2⟩
  | .dictionary, get => do pure (← get "fields" .fields, ← get "span" .span)
  | .field, get => do pure ⟨← get "name" .name, ← get "value" .node, ← get "span" .span⟩
  | .name, get => do pure ⟨← get "name" .text, ← get "span" .span⟩
  | .array, get => do pure (← get "items" .items, ← get "span" .span)
  | .literal, get => do pure ⟨← get "kind" .kind, ← get "text" .text, ← get "span" .span⟩
  | .span, get => do
    pure ⟨← get "start" .offset, ← get "end" .offset, ← get "line" .line, ← get "column" .line⟩
  | _, _ => none

/-- A record is read member by member. -/
theorem read_object {part : Part} (hpart : part.members ≠ []) (members : List (String × Json)) :
    part.read (.object members)
      = part.assemble fun name inner => Json.memberAs name inner.read members := by
  cases part with
  | document =>
      simp only [read, assemble, Json.memberAs, Document.ofJson?, Json.parts?, List.mapM_cons,
        List.mapM_nil]
      cases members.lookup "root" <;> rfl
  | dictionary =>
      rw [read, Node.dictionaryOfJson?, Node.fieldsMember?_eq]
      rfl
  | field =>
      rw [read, Node.fieldOfJson?, Node.valueMember?_eq]
      rfl
  | name =>
      simp only [read, assemble, Json.memberAs, Identifier.ofJson?, Json.parts?, List.mapM_cons,
        List.mapM_nil]
      cases members.lookup "name" <;> cases members.lookup "span" <;> simp
  | array =>
      rw [read, Node.arrayOfJson?, Node.itemsMember?_eq]
      rfl
  | literal =>
      simp only [read, assemble, Json.memberAs, Literal.ofJson?, Json.parts?, List.mapM_cons,
        List.mapM_nil]
      cases members.lookup "kind" <;> cases members.lookup "text" <;>
        cases members.lookup "span" <;> simp
  | span =>
      simp only [read, assemble, Json.memberAs, Span.ofJson?, Json.parts?, List.mapM_cons,
        List.mapM_nil]
      cases members.lookup "start" <;> cases members.lookup "end" <;>
        cases members.lookup "line" <;> cases members.lookup "column" <;> simp
  | _ => exact absurd rfl hpart

variable {part : Part} {get other : (name : String) → (inner : Part) → Option inner.Content}

/-- Only its members count for a record. -/
theorem assemble_congr
    (h : ∀ name inner, (name, inner) ∈ part.members → get name inner = other name inner) :
    part.assemble get = part.assemble other := by
  cases part <;> simp_all [assemble, members]

/-- Each of its members counts for a record. -/
theorem assemble_eq_none {name : String} {inner : Part} (hmember : (name, inner) ∈ part.members)
    (h : get name inner = none) : part.assemble get = none := by
  cases part <;>
    simp only [members, List.mem_cons, List.not_mem_nil, Prod.mk.injEq, or_false] at hmember
  case document =>
      obtain ⟨rfl, rfl⟩ := hmember
      simp [assemble, h]
  case dictionary | name | array =>
      rcases hmember with ⟨rfl, rfl⟩ | ⟨rfl, rfl⟩ <;> simp [assemble, h]
  case field | literal =>
      rcases hmember with ⟨rfl, rfl⟩ | ⟨rfl, rfl⟩ | ⟨rfl, rfl⟩ <;> simp [assemble, h]
  case span =>
      rcases hmember with ⟨rfl, rfl⟩ | ⟨rfl, rfl⟩ | ⟨rfl, rfl⟩ | ⟨rfl, rfl⟩ <;> simp [assemble, h]

theorem member_unique {name : String} {inner found : Part} (h : (name, inner) ∈ part.members)
    (hfound : (name, found) ∈ part.members) : found = inner := by
  cases part <;> simp [members] at h hfound <;> grind

/-- A node is read as the alternative that it names. -/
theorem read_alternative {name : String} {inner : Part} (h : (name, inner) ∈ part.alternatives) :
    ∃ wrap : inner.Content → part.Content, ∀ content,
      part.read (.object [(name, content)]) = (inner.read content).map wrap := by
  cases part <;>
    simp only [alternatives, List.not_mem_nil, List.mem_cons, Prod.mk.injEq, or_false] at h
  rcases h with ⟨rfl, rfl⟩ | ⟨rfl, rfl⟩ | ⟨rfl, rfl⟩
  · exact ⟨fun content => .dictionary content.1 content.2, fun content => by
      simp only [read, Node.ofJson?, if_true]⟩
  · exact ⟨fun content => .array content.1 content.2, fun content => by
      simp [read, Node.ofJson?]⟩
  · exact ⟨.literal, fun content => by simp [read, Node.ofJson?]⟩

/-- A list is read item by item. -/
theorem read_elements {inner : Part} (h : part.element? = some inner) :
    ∃ wrap : List inner.Content → part.Content, ∀ elements,
      part.read (.array elements) = (elements.mapM inner.read).map wrap := by
  cases part <;> cases h
  case fields =>
      refine ⟨id, fun elements => ?_⟩
      rw [Option.map_id]
      exact Node.fieldsOfJson?_eq_mapM elements
  case items =>
      refine ⟨id, fun elements => ?_⟩
      rw [Option.map_id]
      exact Node.itemsOfJson?_eq_mapM elements

/-- An edit of one record somewhere inside a part, given by the members of the record before and
after.  A member is edited where it is read, which is where its name comes first. -/
inductive Edited (edit : Part → List (String × Json) → List (String × Json) → Prop) :
    Part → Json → Json → Prop where
  | record {part : Part} {members edited : List (String × Json)} :
      part.members ≠ [] → edit part members edited →
        Edited edit part (.object members) (.object edited)
  | member {part inner : Part} {name : String} {old new : Json}
      {before after : List (String × Json)} :
      (name, inner) ∈ part.members → name ∉ before.map Prod.fst → Edited edit inner old new →
        Edited edit part (.object (before ++ (name, old) :: after))
          (.object (before ++ (name, new) :: after))
  | alternative {part inner : Part} {name : String} {old new : Json} :
      (name, inner) ∈ part.alternatives → Edited edit inner old new →
        Edited edit part (.object [(name, old)]) (.object [(name, new)])
  | element {part inner : Part} {old new : Json} {before after : List Json} :
      part.element? = some inner → Edited edit inner old new →
        Edited edit part (.array (before ++ old :: after)) (.array (before ++ new :: after))

section Edits

variable {edit : Part → List (String × Json) → List (String × Json) → Prop} {old new : Json}

theorem memberAs_first {α : Type} {read : Json → Option α} {name : String} {value : Json}
    {before after : List (String × Json)} (h : name ∉ before.map Prod.fst) :
    Json.memberAs name read (before ++ (name, value) :: after) = read value := by
  simp [Json.memberAs, List.lookup_append, Entries.lookup_eq_none_iff.mpr h]

theorem memberAs_other {α : Type} {read : Json → Option α} {name other : String} {value : Json}
    {before after : List (String × Json)} (h : name ≠ other) :
    Json.memberAs other read (before ++ (name, value) :: after)
      = Json.memberAs other read (before ++ after) := by
  simp [Json.memberAs, List.lookup_append, h]

/-- An edit that no record shows does not show in the whole. -/
theorem Edited.read_eq (hedit : ∀ part members edited, part.members ≠ [] →
      edit part members edited → part.read (.object edited) = part.read (.object members))
    (h : Edited edit part old new) : part.read new = part.read old := by
  induction h with
  | record hpart hrecord => exact hedit _ _ _ hpart hrecord
  | @member part inner name old new before after hmember hfirst _ ih =>
      have hpart := List.ne_nil_of_mem hmember
      rw [read_object hpart, read_object hpart]
      -- Of some members with one name only the first is read, and that is the edited one.
      refine assemble_congr fun other found hfound => ?_
      by_cases hother : name = other
      · subst hother
        obtain rfl := member_unique hmember hfound
        rw [memberAs_first hfirst, memberAs_first hfirst, ih]
      · rw [memberAs_other hother, memberAs_other hother]
  | alternative hname _ ih =>
      obtain ⟨wrap, hwrap⟩ := read_alternative hname
      rw [hwrap, hwrap, ih]
  | element helement _ ih =>
      obtain ⟨wrap, hwrap⟩ := read_elements helement
      rw [hwrap, hwrap, List.mapM_append, List.mapM_append, List.mapM_cons, List.mapM_cons, ih]

/-- An edit that spoils the record spoils the whole. -/
theorem Edited.read_eq_none (hedit : ∀ part members edited, part.members ≠ [] →
      edit part members edited → part.read (.object edited) = none)
    (h : Edited edit part old new) : part.read new = none := by
  induction h with
  | record hpart hrecord => exact hedit _ _ _ hpart hrecord
  | member hmember hfirst _ ih =>
      rw [read_object (List.ne_nil_of_mem hmember)]
      exact assemble_eq_none hmember ((memberAs_first hfirst).trans ih)
  | alternative hname _ ih =>
      obtain ⟨wrap, hwrap⟩ := read_alternative hname
      rw [hwrap, ih]
      rfl
  | element helement _ ih =>
      obtain ⟨wrap, hwrap⟩ := read_elements helement
      rw [hwrap, List.mapM_append, List.mapM_cons, ih]
      simp

end Edits

/-- Puts a member under a name that the record does not have among its members. -/
inductive Adds : Part → List (String × Json) → List (String × Json) → Prop where
  | unknown {part : Part} {name : String} {value : Json} {before after : List (String × Json)} :
      name ∉ part.names → Adds part (before ++ after) (before ++ (name, value) :: after)

/-- Takes one of its members out of a record. -/
inductive Drops : Part → List (String × Json) → List (String × Json) → Prop where
  | known {part : Part} {name : String} {members : List (String × Json)} :
      name ∈ part.names → Drops part members (members.filter fun member => member.1 != name)

/-- An unknown member makes no difference, wherever it is. -/
theorem read_of_adds {old new : Json} (h : Edited Adds part old new) :
    part.read new = part.read old := by
  refine h.read_eq ?_
  rintro part _ _ hpart ⟨hname⟩
  rw [read_object hpart, read_object hpart]
  refine assemble_congr fun other inner hother => memberAs_other ?_
  rintro rfl
  exact hname (List.mem_map_of_mem hother)

/-- Without one of its members no record is read, and nothing that it is in. -/
theorem read_of_drops {old new : Json} (h : Edited Drops part old new) : part.read new = none := by
  refine h.read_eq_none ?_
  rintro part members _ hpart ⟨hname⟩
  obtain ⟨⟨key, inner⟩, hmember, rfl⟩ := List.mem_map.mp hname
  rw [read_object hpart]
  refine assemble_eq_none hmember ?_
  have hgone : (members.filter fun member => member.1 != key).lookup key = none := by
    rw [Entries.lookup_eq_none_iff]
    simp [Entries.keys]
  rw [Json.memberAs, hgone]
  rfl

end Part

end TypedConfig
