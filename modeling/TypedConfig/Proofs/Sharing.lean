import TypedConfig.Proofs.Binding
import TypedConfig.Proofs.Rules

/-!
The references of a schema.  A descriptor is referred to as the root, as what a field or an
extension takes, or as what the elements of a list or map are.  Every reference leads to a
descriptor of the type at its place, and all references to one object type lead to the same
descriptor: this is what closes the cycles of types that contain themselves.
-/

namespace TypedConfig

/-- A descriptor is referred to somewhere in a schema, as one of a type. -/
inductive Schema.Refers (schema : Schema) (root : Ty) : DescriptorId → Ty → Prop
  | root : Refers schema root schema.root root
  | field {id : DescriptorId} {shape : ObjectShape} {entry : Entry} :
      schema.descriptors[id]? = some (.object shape) → entry ∈ shape.fields →
        Refers schema root entry.descriptor entry.type
  | extension {id : DescriptorId} {shape : ObjectShape} {entry : Entry} :
      schema.descriptors[id]? = some (.object shape) → entry ∈ shape.extensions →
        Refers schema root entry.descriptor entry.type
  | item {id below : DescriptorId} {type element : Ty} :
      schema.descriptors[id]? = some (.list type element below) →
        Refers schema root below element
  | member {id below : DescriptorId} {type element : Ty} :
      schema.descriptors[id]? = some (.map type element below) →
        Refers schema root below element

/-- A descriptor of a type is named as the type is. -/
theorem Descriptor.Fits.name_eq {table : Declarations} {type : Ty} {descriptor : Descriptor}
    (h : descriptor.Fits table type) : descriptor.type.name table = type.name table := by
  unfold Descriptor.Fits at h
  split at h
  · rw [h, Descriptor.type]
  · obtain ⟨below, rfl⟩ := h
    rfl
  · obtain ⟨below, rfl⟩ := h
    rfl
  · rename_i id hcore
    rw [← Ty.name_core table type, hcore]
    split at h
    · rw [h, Descriptor.type]
    · obtain ⟨shape, rfl, rfl⟩ := h
      rfl
  · exact h.elim

/-- A schema without loose ends: every reference is in range and leads to a descriptor of the type
at its place, every descriptor lists what its type declares, and every object type has one
descriptor. -/
structure Schema.Closed (schema : Schema) (root : Ty) : Prop where
  refers : ∀ {id : DescriptorId} {type : Ty}, schema.Refers root id type →
    ∃ descriptor, schema.descriptors[id]? = some descriptor ∧ descriptor.Fits schema.table type ∧
      descriptor.type.name schema.table = type.name schema.table
  lists : ∀ {id : DescriptorId} {descriptor : Descriptor},
    schema.descriptors[id]? = some descriptor → descriptor.Fits schema.table descriptor.type ∧
      descriptor.Faithful schema.table schema.Describes
  shared : ∀ {first second : DescriptorId} {type other : Ty} {object : Nat},
    schema.Refers root first type → schema.Refers root second other →
      type.core = .object object → other.core = .object object → first = second

section Finished

variable {table : Declarations} {arena : Arena} {descriptors : List Descriptor} {top : DescriptorId}
  {root : Ty}

/-- What a reference of the finished schema leads to stood for its type in the arena already. -/
theorem Schema.Refers.holds (hwf : arena.WellFormed table []) (hroot : arena.Holds top root)
    (hslots : arena.slots.toList = descriptors.map some) {id : DescriptorId} {type : Ty}
    (h : Schema.Refers ⟨table, descriptors.toArray, top⟩ root id type) : arena.Holds id type := by
  cases h with
  | root => exact hroot
  | field hshape hentry =>
      have hfaithful := hwf.faithful (Arena.slot_of_descriptor hslots hshape)
      obtain ⟨slot, -, -, htype, hholds⟩ := exists_left_of_forall₂ hfaithful.fields hentry
      exact htype ▸ hholds
  | extension hshape hentry =>
      have hfaithful := hwf.faithful (Arena.slot_of_descriptor hslots hshape)
      obtain ⟨extension, -, htype, -, hholds⟩ := exists_left_of_forall₂ hfaithful.extensions hentry
      exact htype ▸ hholds
  | item hlist => exact hwf.faithful (Arena.slot_of_descriptor hslots hlist)
  | member hmap => exact hwf.faithful (Arena.slot_of_descriptor hslots hmap)

theorem Arena.WellFormed.closed (hwf : arena.WellFormed table []) (hroot : arena.Holds top root)
    (hslots : arena.slots.toList = descriptors.map some) :
    Schema.Closed ⟨table, descriptors.toArray, top⟩ root := by
  constructor
  · intro id type hrefers
    obtain ⟨descriptor, hdescriptor, hfits⟩ := (hrefers.holds hwf hroot hslots).describes hwf hslots
    exact ⟨descriptor, hdescriptor, hfits, hfits.name_eq⟩
  · intro id descriptor hdescriptor
    have hslot := Arena.slot_of_descriptor hslots hdescriptor
    exact ⟨hwf.typed hslot, (hwf.faithful hslot).mono fun _ _ hbelow => hbelow.describes hwf hslots⟩
  · intro first second type other object hfirst hsecond htype hother
    have hfound := hfirst.holds hwf hroot hslots
    have hfound' := hsecond.holds hwf hroot hslots
    simp only [Arena.Holds, htype] at hfound
    simp only [Arena.Holds, hother] at hfound'
    exact Option.some.inj (hfound.symm.trans hfound')

end Finished

/-- Deriving a schema that succeeds gives one without loose ends, and deriving never fails on a slot
that was left vacant. -/
theorem Schema.derive_closed (table : Declarations) (root : Ty) :
    (∀ schema, Schema.derive table root = .ok schema →
      schema.table = table ∧ schema.Closed root) ∧
    ∀ name slot, Schema.derive table root ≠ .error ⟨name, .incomplete slot⟩ := by
  constructor
  · intro schema h
    have hderived := Schema.derived table root
    rw [h] at hderived
    cases hderived with
    | finished hwf hholds hslots => exact ⟨rfl, hwf.closed hholds hslots⟩
  · intro name slot h
    obtain ⟨id, -, -, hbreaks⟩ := Schema.derive_blamed h
    exact hbreaks

/-- A type that contains itself through wrappers, a list, a map and as an extension has one
descriptor, to which all of these refer. -/
theorem selfContaining_closed : ∃ schema,
    Schema.derive selfContaining (.option (.object 0)) = .ok schema ∧
      schema.Closed (.option (.object 0)) ∧ schema.root = 0 ∧
      (schema.descriptor 0).children = [0, 1, 2] ∧ (schema.descriptor 1).children = [0] ∧
      (schema.descriptor 2).children = [0] := by
  refine ⟨_, rfl, ?_, rfl, rfl, rfl, rfl⟩
  exact ((Schema.derive_closed selfContaining (.option (.object 0))).1 _ rfl).2

end TypedConfig
