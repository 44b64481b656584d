import TypedConfig.Proofs.Apart
import TypedConfig.Proofs.Rules

/-!
Where the parts of a document end up.  Each part of the value of a document is what the node at its
place was bound to, under the name of the field or entry that the node is the value of, and as a
type that the object types on the way declare.
-/

namespace TypedConfig

/-- Wrapping hides nothing. -/
theorem Ty.wrap_injective (type : Ty) : Function.Injective type.wrap := by
  induction type with
  | option inner ih =>
      intro first second h
      exact ih (Bound.present.inj h)
  | box inner ih =>
      intro first second h
      exact ih (Bound.boxed.inj h)
  | scalar _ => exact fun _ _ h => h
  | list _ => exact fun _ _ h => h
  | map _ _ => exact fun _ _ h => h
  | object _ => exact fun _ _ h => h

/-- A type mentions what it mentions inside its wrappers. -/
theorem Ty.Mentions.of_core {type : Ty} {id : Nat} (h : type.core.Mentions id) :
    type.Mentions id := by
  induction type with
  | option inner ih => exact ih h
  | box inner ih => exact ih h
  | scalar _ => exact h
  | list _ => exact h
  | map _ _ => exact h
  | object _ => exact h

namespace Direct

variable {table : Declarations} {type : Ty} {key : Option String} {span : Span} {value : Bound}

/-- What is passed to the call of a field is what the field is bound to. -/
theorem node_of_call {id : Nat} (hcore : type.core = .object id) {fields : List (Field Node)}
    {calls : List (Call Bound)}
    (h : node table type key (.dictionary fields span)
      = .ok (type.wrap (.object id (keyCalls (table.object id) key ++ calls))))
    {field : Field Node} {acceptance : Acceptance}
    (haccepts : (table.object id).accepts? table field.name.name = some acceptance)
    (hcall : (field, acceptance.call field.name.name value) ∈ fields.zip calls) :
    node table acceptance.type (some field.name.name) field.value = .ok value := by
  obtain ⟨-, made, hmade, heq⟩ := (node_object_eq_ok_iff hcore).mp h
  have hcalls := (Bound.object.inj (type.wrap_injective heq)).2
  rw [List.append_cancel_left hcalls] at hcall
  obtain ⟨other, found, hother, hfound, hsame⟩ := call_eq_ok_iff.mp (List.forall₂_zip hmade hcall)
  cases haccepts.symm.trans hother
  cases acceptance <;> cases hsame <;> exact hfound

/-- What a map holds under a name is what the last field of the name is bound to. -/
theorem node_of_entry {kind : MapKind} {element : Ty} (hcore : type.core = .map kind element)
    {fields : List (Field Node)} {entries : List (String × Bound)}
    (h : node table type key (.dictionary fields span) = .ok (type.wrap (.map entries)))
    {field : Field Node}
    (hlast : (fields.filter fun other => other.name.name == field.name.name).getLast? = some field)
    (hget : entries.lookup field.name.name = some value) :
    node table element (some field.name.name) field.value = .ok value := by
  obtain ⟨made, hmade, heq⟩ := (node_map_eq_ok_iff hcore).mp h
  obtain ⟨rfl, hput⟩ := entries_eq_map hmade
  have hmem : field ∈ fields := (List.mem_filter.mp (List.mem_of_getLast? hlast)).1
  obtain ⟨bound, hbound, hentry⟩ := entry_eq_ok_iff.mp (hput field hmem)
  rw [Bound.map.inj (type.wrap_injective heq),
    Entries.lookup_ofList_map fun other hother => putBy_name (hput other hother), hlast,
    Option.map_some, hentry] at hget
  cases hget
  exact hbound

/-- What stands in a list is what the item at its place is bound to. -/
theorem node_of_item {element : Ty} (hcore : type.core = .list element) {items : List Node}
    {found : List Bound}
    (h : node table type key (.array items span) = .ok (type.wrap (.list found))) {item : Node}
    (hitem : (item, value) ∈ items.zip found) : node table element none item = .ok value := by
  obtain ⟨made, hmade, heq⟩ := (node_list_eq_ok_iff hcore).mp h
  rw [Bound.list.inj (type.wrap_injective heq)] at hitem
  exact List.forall₂_zip hmade hitem

end Direct

/-- The parts of the value `whole` of a tree, each with the node that it comes from, the type it
has, and the name of the field or entry that the node is the value of.  Of two fields of a map with
one name the last is there. -/
inductive Declarations.Becomes (table : Declarations) (root : Ty) (tree : Node) (whole : Bound) :
    Ty → Option String → Node → Bound → Prop
  | root : Becomes table root tree whole root none tree whole
  | field {type : Ty} {key : Option String} {fields : List (Field Node)} {span : Span} {id : Nat}
      {calls : List (Call Bound)} {field : Field Node} {acceptance : Acceptance} {value : Bound} :
      Becomes table root tree whole type key (.dictionary fields span)
          (type.wrap (.object id (Direct.keyCalls (table.object id) key ++ calls))) →
        type.core = .object id →
          (table.object id).accepts? table field.name.name = some acceptance →
            (field, acceptance.call field.name.name value) ∈ fields.zip calls →
              Becomes table root tree whole acceptance.type (some field.name.name) field.value value
  | member {type element : Ty} {key : Option String} {fields : List (Field Node)} {span : Span}
      {kind : MapKind} {entries : List (String × Bound)} {field : Field Node} {value : Bound} :
      Becomes table root tree whole type key (.dictionary fields span) (type.wrap (.map entries)) →
        type.core = .map kind element →
          (fields.filter fun other => other.name.name == field.name.name).getLast? = some field →
            entries.lookup field.name.name = some value →
              Becomes table root tree whole element (some field.name.name) field.value value
  | item {type element : Ty} {key : Option String} {items : List Node} {span : Span}
      {found : List Bound} {item : Node} {value : Bound} :
      Becomes table root tree whole type key (.array items span) (type.wrap (.list found)) →
        type.core = .list element → (item, value) ∈ items.zip found →
          Becomes table root tree whole element none item value

namespace Declarations

variable {table : Declarations} {root : Ty} {tree : Node} {whole : Bound}

/-- What an object type accepts mentions what can be reached from it. -/
theorem Reaches.accepted {owner id : Nat} (h : table.Reaches root owner) {name : String}
    {acceptance : Acceptance}
    (haccepts : (table.object owner).accepts? table name = some acceptance)
    (hmentions : acceptance.type.Mentions id) : table.Reaches root id := by
  unfold ObjectType.accepts? at haccepts
  split at haccepts
  · rename_i slot hslot
    cases haccepts
    exact .field h (List.mem_of_find?_eq_some hslot) hmentions
  · obtain ⟨type, htype, rfl⟩ := Option.map_eq_some_iff.mp haccepts
    exact .extension h (List.mem_of_find?_eq_some htype) hmentions

/-- A part of the value of a tree is what the node at its place is bound to, and the object types of
its type can be reached from the root. -/
theorem Becomes.conversion (hwhole : Direct.node table root none tree = .ok whole) {type : Ty}
    {key : Option String} {node : Node} {value : Bound}
    (h : table.Becomes root tree whole type key node value) :
    Direct.node table type key node = .ok value ∧
      ∀ id, type.Mentions id → table.Reaches root id := by
  induction h with
  | root => exact ⟨hwhole, fun id hid => .root hid⟩
  | field _ hcore haccepts hcall ih =>
      obtain ⟨hnode, hreaches⟩ := ih
      have howner := hreaches _ (Derivation.mentions_of_core hcore)
      exact ⟨Direct.node_of_call hcore hnode haccepts hcall,
        fun other hother => howner.accepted haccepts hother⟩
  | member _ hcore hlast hget ih =>
      obtain ⟨hnode, hreaches⟩ := ih
      exact ⟨Direct.node_of_entry hcore hnode hlast hget,
        fun other hother => hreaches other (.of_core (by rw [hcore]; exact hother))⟩
  | item _ hcore hitem ih =>
      obtain ⟨hnode, hreaches⟩ := ih
      exact ⟨Direct.node_of_item hcore hnode hitem,
        fun other hother => hreaches other (.of_core (by rw [hcore]; exact hother))⟩

end Declarations

end TypedConfig
