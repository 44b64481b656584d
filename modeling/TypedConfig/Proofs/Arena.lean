import Mathlib.Data.List.Forall2
import TypedConfig.Binding.Direct

/-!
What an arena says about the types of its slots.  While a schema is under construction some object
types have a slot that is not filled yet; everything that is filled already describes its type, and
a type that has a slot keeps it.
-/

namespace TypedConfig

/-- Whether a descriptor is one of a type, as far as it can be told without looking at the
descriptors below it.  Wrappers show in the type of a scalar or a container and nowhere else. -/
def Descriptor.Fits (table : Declarations) (type : Ty) (descriptor : Descriptor) : Prop :=
  match type.core with
  | .scalar _ => descriptor = .scalar type
  | .list element => ∃ below, descriptor = .list type element below
  | .map _ element => ∃ below, descriptor = .map type element below
  | .object id =>
    if (table.object id).isEmpty then descriptor = .scalar (.object id)
    else ∃ shape, descriptor = .object shape ∧ shape.object = id
  | _ => False

/-- A descriptor of some type is one of the type that it keeps. -/
theorem Descriptor.Fits.self {table : Declarations} {type : Ty} {descriptor : Descriptor}
    (h : descriptor.Fits table type) : descriptor.Fits table descriptor.type := by
  unfold Descriptor.Fits at h
  split at h
  · rename_i scalarType hcore
    subst h
    simp [Descriptor.Fits, Descriptor.type, hcore]
  · rename_i element hcore
    obtain ⟨below, rfl⟩ := h
    simp [Descriptor.Fits, Descriptor.type, hcore]
  · rename_i kind element hcore
    obtain ⟨below, rfl⟩ := h
    simp [Descriptor.Fits, Descriptor.type, hcore]
  · split at h
    · rename_i hempty
      subst h
      simp [Descriptor.Fits, Descriptor.type, Ty.core, hempty]
    · rename_i hfull
      obtain ⟨shape, rfl, rfl⟩ := h
      simp [Descriptor.Fits, Descriptor.type, Ty.core, hfull]
  · exact h.elim

/-- An entry of a shape belongs to a declared field; `holds` tells which descriptors stand for which
types. -/
def Entry.OfField (holds : DescriptorId → Ty → Prop) (slot : FieldSlot) (entry : Entry) : Prop :=
  entry.name = slot.name ∧ entry.type = slot.type ∧ holds entry.descriptor slot.type

/-- An entry of a shape belongs to a declared extension. -/
def Entry.OfExtension (table : Declarations) (holds : DescriptorId → Ty → Prop) (type : Ty)
    (entry : Entry) : Prop :=
  entry.type = type ∧ ObjectType.extensionNameOf? table type = some entry.name ∧
    holds entry.descriptor type

theorem exists_right_of_forall₂ {α β : Type} {relation : α → β → Prop} {xs : List α} {ys : List β}
    (h : List.Forall₂ relation xs ys) {x : α} (hx : x ∈ xs) : ∃ y ∈ ys, relation x y := by
  induction h with
  | nil => exact absurd hx List.not_mem_nil
  | @cons first second _ _ hfirst _ ih =>
      rcases List.mem_cons.mp hx with rfl | hrest
      · exact ⟨second, List.mem_cons_self, hfirst⟩
      · obtain ⟨y, hy, hrelation⟩ := ih hrest
        exact ⟨y, List.mem_cons_of_mem _ hy, hrelation⟩

theorem exists_left_of_forall₂ {α β : Type} {relation : α → β → Prop} {xs : List α} {ys : List β}
    (h : List.Forall₂ relation xs ys) {y : β} (hy : y ∈ ys) : ∃ x ∈ xs, relation x y :=
  exists_right_of_forall₂ h.flip hy

/-- A shape lists what its object type declares, in order, and the declarations passed all checks.
-/
structure ObjectShape.Faithful (table : Declarations) (holds : DescriptorId → Ty → Prop)
    (shape : ObjectShape) : Prop where
  fields : List.Forall₂ (Entry.OfField holds) (table.object shape.object).fields shape.fields
  collections : ∀ slot ∈ (table.object shape.object).fields, slot.collection = true →
    slot.type.isCollection = true
  keys : (table.object shape.object).keys ≤ 1
  hasKey : shape.hasKey = ((table.object shape.object).keys == 1)
  extensions : List.Forall₂ (Entry.OfExtension table holds)
    (table.object shape.object).extensions shape.extensions
  names : shape.acceptedNames.Nodup

/-- The descriptors right below a descriptor stand for the types they should. -/
def Descriptor.Faithful (table : Declarations) (holds : DescriptorId → Ty → Prop) :
    Descriptor → Prop
  | .scalar _ => True
  | .object shape => shape.Faithful table holds
  | .list _ element below => holds below element
  | .map _ element below => holds below element

theorem Entry.OfField.mono {holds holds' : DescriptorId → Ty → Prop}
    (hholds : ∀ id type, holds id type → holds' id type) {slot : FieldSlot} {entry : Entry}
    (h : entry.OfField holds slot) : entry.OfField holds' slot :=
  ⟨h.1, h.2.1, hholds _ _ h.2.2⟩

theorem Entry.OfExtension.mono {table : Declarations} {holds holds' : DescriptorId → Ty → Prop}
    (hholds : ∀ id type, holds id type → holds' id type) {type : Ty} {entry : Entry}
    (h : entry.OfExtension table holds type) : entry.OfExtension table holds' type :=
  ⟨h.1, h.2.1, hholds _ _ h.2.2⟩

theorem Entry.OfField.names_eq {holds : DescriptorId → Ty → Prop} {slots : List FieldSlot}
    {entries : List Entry} (h : List.Forall₂ (Entry.OfField holds) slots entries) :
    slots.map FieldSlot.name = entries.map Entry.name := by
  induction h with
  | nil => rfl
  | cons hentry _ ih => rw [List.map_cons, List.map_cons, ih, hentry.1]

theorem Entry.OfExtension.names_eq {table : Declarations} {holds : DescriptorId → Ty → Prop}
    {types : List Ty} {entries : List Entry}
    (h : List.Forall₂ (Entry.OfExtension table holds) types entries) :
    types.filterMap (ObjectType.extensionNameOf? table) = entries.map Entry.name := by
  induction h with
  | nil => rfl
  | cons hentry _ ih => rw [List.filterMap_cons_some hentry.2.1, List.map_cons, ih]

/-- A shape accepts the names that its object type accepts. -/
theorem ObjectShape.Faithful.acceptedNames_eq {table : Declarations}
    {holds : DescriptorId → Ty → Prop} {shape : ObjectShape} (h : shape.Faithful table holds) :
    (table.object shape.object).acceptedNames table = shape.acceptedNames := by
  rw [ObjectType.acceptedNames, ObjectShape.acceptedNames, Entry.OfField.names_eq h.fields,
    Entry.OfExtension.names_eq h.extensions]

theorem Descriptor.Faithful.mono {table : Declarations} {holds holds' : DescriptorId → Ty → Prop}
    (hholds : ∀ id type, holds id type → holds' id type) {descriptor : Descriptor}
    (h : descriptor.Faithful table holds) : descriptor.Faithful table holds' := by
  cases descriptor with
  | scalar type => trivial
  | object shape =>
      exact ⟨h.fields.imp fun _ _ => Entry.OfField.mono hholds, h.collections, h.keys, h.hasKey,
        h.extensions.imp fun _ _ => Entry.OfExtension.mono hholds, h.names⟩
  | list type element below => exact hholds _ _ h
  | map type element below => exact hholds _ _ h

namespace Arena

/-- The slot `id` stands for a type: object types and scalar types are found by their names, a list
or map by what is in the slot. -/
def Holds (arena : Arena) (id : DescriptorId) (type : Ty) : Prop :=
  match type.core with
  | .scalar _ => arena.find? type = some id
  | .list element => ∃ below, arena.slots[id]? = some (some (.list type element below))
  | .map _ element => ∃ below, arena.slots[id]? = some (some (.map type element below))
  | .object object => arena.find? (.object object) = some id
  | _ => False

/-- A later arena keeps all slots, filled or not, and all registered types. -/
structure Extends (arena later : Arena) : Prop where
  slots : ∀ {id : DescriptorId} {slot : Option Descriptor},
    arena.slots[id]? = some slot → later.slots[id]? = some slot
  found : ∀ {type : Ty} {id : DescriptorId}, arena.find? type = some id → later.find? type = some id

theorem Extends.refl (arena : Arena) : arena.Extends arena := ⟨id, id⟩

theorem Extends.trans {first second third : Arena} (hfirst : first.Extends second)
    (hsecond : second.Extends third) : first.Extends third :=
  ⟨fun h => hsecond.slots (hfirst.slots h), fun h => hsecond.found (hfirst.found h)⟩

theorem Holds.extend {arena later : Arena} (hextends : arena.Extends later) {id : DescriptorId}
    {type : Ty} (h : arena.Holds id type) : later.Holds id type := by
  unfold Holds at h ⊢
  split at h
  · exact hextends.found h
  · exact h.imp fun _ hslot => hextends.slots hslot
  · exact h.imp fun _ hslot => hextends.slots hslot
  · exact hextends.found h
  · exact h

/-- The invariant of a schema under construction, in which the types of `pending` have a slot that
is still to be filled. -/
structure WellFormed (table : Declarations) (pending : List Ty) (arena : Arena) : Prop where
  registered : ∀ {type : Ty} {id : DescriptorId}, arena.find? type = some id →
    (∃ descriptor, arena.slots[id]? = some (some descriptor) ∧ descriptor.Fits table type) ∨
      (type ∈ pending ∧ arena.slots[id]? = some none)
  vacant : ∀ {id : DescriptorId}, arena.slots[id]? = some none →
    ∃ type ∈ pending, arena.find? type = some id
  reserved : ∀ {type : Ty}, type ∈ pending → ∃ id, arena.find? type = some id
  faithful : ∀ {id : DescriptorId} {descriptor : Descriptor},
    arena.slots[id]? = some (some descriptor) → descriptor.Faithful table arena.Holds
  typed : ∀ {id : DescriptorId} {descriptor : Descriptor},
    arena.slots[id]? = some (some descriptor) → descriptor.Fits table descriptor.type
  distinct : ∀ {first second : Ty} {id : DescriptorId},
    arena.find? first = some id → arena.find? second = some id → first = second

theorem empty_wellFormed (table : Declarations) : empty.WellFormed table [] := by
  constructor <;> simp [empty, find?]

theorem WellFormed.lt_size {table : Declarations} {pending : List Ty} {arena : Arena}
    (hwf : arena.WellFormed table pending) {type : Ty} {id : DescriptorId}
    (h : arena.find? type = some id) : id < arena.slots.size := by
  rcases hwf.registered h with ⟨descriptor, hslot, -⟩ | ⟨-, hslot⟩
  · exact (Array.getElem?_eq_some_iff.mp hslot).1
  · exact (Array.getElem?_eq_some_iff.mp hslot).1

section Reserve

variable {table : Declarations} {pending : List Ty} {arena : Arena} {type : Ty}

theorem find?_reserve (arena : Arena) (type other : Ty) :
    (arena.reserve type).2.find? other
      = if type = other then some arena.slots.size else arena.find? other :=
  Entries.lookup_entry other (type, arena.slots.size) arena.registry

theorem slots_reserve (arena : Arena) (type : Ty) (id : DescriptorId) :
    (arena.reserve type).2.slots[id]?
      = if id = arena.slots.size then some none else arena.slots[id]? := by
  simp [reserve, Array.getElem?_push]

theorem reserve_extends (hnew : arena.find? type = none) :
    arena.Extends (arena.reserve type).2 := by
  constructor
  · intro id slot h
    have hne : id ≠ arena.slots.size :=
      Nat.ne_of_lt (Array.getElem?_eq_some_iff.mp h).1
    rw [slots_reserve, if_neg hne, h]
  · intro other id h
    have hne : type ≠ other := by
      rintro rfl
      simp [hnew] at h
    rw [find?_reserve, if_neg hne, h]

/-- Reserving a slot makes its type a pending one. -/
theorem WellFormed.reserve (hwf : arena.WellFormed table pending)
    (hnew : arena.find? type = none) :
    (arena.reserve type).2.WellFormed table (type :: pending) := by
  have hextends := reserve_extends hnew
  constructor
  case registered =>
    intro other id h
    rw [find?_reserve] at h
    split at h
    · rename_i heq
      cases h
      exact .inr ⟨heq ▸ List.mem_cons_self, by rw [slots_reserve, if_pos rfl]⟩
    · rcases hwf.registered h with ⟨descriptor, hslot, hfits⟩ | ⟨hmem, hslot⟩
      · exact .inl ⟨descriptor, hextends.slots hslot, hfits⟩
      · exact .inr ⟨List.mem_cons_of_mem _ hmem, hextends.slots hslot⟩
  case vacant =>
    intro id h
    rw [slots_reserve] at h
    split at h
    · rename_i heq
      exact ⟨type, List.mem_cons_self, by rw [find?_reserve, if_pos rfl, heq]⟩
    · obtain ⟨other, hmem, hfound⟩ := hwf.vacant h
      exact ⟨other, List.mem_cons_of_mem _ hmem, hextends.found hfound⟩
  case reserved =>
    intro other h
    rcases List.mem_cons.mp h with rfl | hmem
    · exact ⟨_, by rw [find?_reserve, if_pos rfl]⟩
    · obtain ⟨id, hfound⟩ := hwf.reserved hmem
      exact ⟨id, hextends.found hfound⟩
  case faithful =>
    intro id descriptor h
    rw [slots_reserve] at h
    split at h
    · simp at h
    · exact (hwf.faithful h).mono fun _ _ => Holds.extend hextends
  case typed =>
    intro id descriptor h
    rw [slots_reserve] at h
    split at h
    · simp at h
    · exact hwf.typed h
  case distinct =>
    intro first second id hfirst hsecond
    rw [find?_reserve] at hfirst hsecond
    split at hfirst <;> split at hsecond
    · rename_i heq heq'
      exact heq.symm.trans heq'
    · cases hfirst
      exact absurd (hwf.lt_size hsecond) (Nat.lt_irrefl _)
    · cases hsecond
      exact absurd (hwf.lt_size hfirst) (Nat.lt_irrefl _)
    · exact hwf.distinct hfirst hsecond

end Reserve

section Fill

variable {table : Declarations} {pending : List Ty} {arena : Arena} {type : Ty}
  {slot : DescriptorId} {descriptor : Descriptor}

theorem slots_fill_self (hslot : arena.slots[slot]? = some none) :
    (arena.fill slot descriptor).slots[slot]? = some (some descriptor) := by
  have hlt := (Array.getElem?_eq_some_iff.mp hslot).1
  simp [fill, hlt]

theorem slots_fill_of_ne {id : DescriptorId} (hne : id ≠ slot) :
    (arena.fill slot descriptor).slots[id]? = arena.slots[id]? := by
  simp [fill, Ne.symm hne]

theorem Holds.fill (hslot : arena.slots[slot]? = some none) {id : DescriptorId} {type : Ty}
    (h : arena.Holds id type) : (arena.fill slot descriptor).Holds id type := by
  have hkeep : ∀ {filled}, arena.slots[id]? = some (some filled) →
      (arena.fill slot descriptor).slots[id]? = some (some filled) := by
    intro filled hfilled
    have hne : id ≠ slot := by
      rintro rfl
      simp [hslot] at hfilled
    rw [slots_fill_of_ne hne, hfilled]
  unfold Holds at h ⊢
  split at h
  · exact h
  · exact h.imp fun _ => hkeep
  · exact h.imp fun _ => hkeep
  · exact h
  · exact h

/-- Filling the slot of a pending type with a descriptor of this type completes it. -/
theorem WellFormed.fill (hwf : arena.WellFormed table (type :: pending))
    (hfound : arena.find? type = some slot) (hslot : arena.slots[slot]? = some none)
    (hfits : descriptor.Fits table type)
    (hfaithful : descriptor.Faithful table arena.Holds) :
    (arena.fill slot descriptor).WellFormed table pending := by
  have hself : (arena.fill slot descriptor).slots[slot]? = some (some descriptor) :=
    slots_fill_self hslot
  constructor
  case registered =>
    intro other id h
    have hother : arena.find? other = some id := h
    by_cases heq : id = slot
    · subst heq
      rw [hwf.distinct hother hfound]
      exact .inl ⟨descriptor, hself, hfits⟩
    · rw [slots_fill_of_ne heq]
      rcases hwf.registered hother with hfilled | ⟨hmem, hvacant⟩
      · exact .inl hfilled
      · rcases List.mem_cons.mp hmem with rfl | hmem
        · exact absurd (Option.some.inj (hother.symm.trans hfound)) heq
        · exact .inr ⟨hmem, hvacant⟩
  case vacant =>
    intro id h
    have hne : id ≠ slot := by
      rintro rfl
      simp [hself] at h
    rw [slots_fill_of_ne hne] at h
    obtain ⟨other, hmem, hother⟩ := hwf.vacant h
    rcases List.mem_cons.mp hmem with rfl | hmem
    · exact absurd (Option.some.inj (hother.symm.trans hfound)) hne
    · exact ⟨other, hmem, hother⟩
  case reserved =>
    exact fun hmem => hwf.reserved (List.mem_cons_of_mem _ hmem)
  case faithful =>
    intro id filled h
    by_cases heq : id = slot
    · subst heq
      rw [hself] at h
      cases h
      exact hfaithful.mono fun _ _ => Holds.fill hslot
    · rw [slots_fill_of_ne heq] at h
      exact (hwf.faithful h).mono fun _ _ => Holds.fill hslot
  case typed =>
    intro id filled h
    by_cases heq : id = slot
    · subst heq
      rw [hself] at h
      cases h
      exact hfits.self
    · rw [slots_fill_of_ne heq] at h
      exact hwf.typed h
  case distinct =>
    exact fun hfirst hsecond => hwf.distinct hfirst hsecond

/-- A type that had no slot: once one is reserved for it, and filled after further steps, the type
is found, and nothing that stood before has changed. -/
theorem fill_of_reserve {later : Arena} (hnew : arena.find? type = none)
    (hextends : (arena.reserve type).2.Extends later)
    (hwf : later.WellFormed table (type :: pending)) (hfits : descriptor.Fits table type)
    (hfaithful : descriptor.Faithful table later.Holds) :
    arena.Extends (later.fill arena.slots.size descriptor) ∧
      (later.fill arena.slots.size descriptor).WellFormed table pending ∧
      (later.fill arena.slots.size descriptor).find? type = some arena.slots.size := by
  have hfound : later.find? type = some arena.slots.size := by
    apply hextends.found
    rw [find?_reserve, if_pos rfl]
  have hslot : later.slots[arena.slots.size]? = some none := by
    apply hextends.slots
    rw [slots_reserve, if_pos rfl]
  refine ⟨⟨?_, ?_⟩, hwf.fill hfound hslot hfits hfaithful, hfound⟩
  · intro id slot h
    have hne : id ≠ arena.slots.size :=
      Nat.ne_of_lt (Array.getElem?_eq_some_iff.mp h).1
    rw [slots_fill_of_ne hne]
    exact ((reserve_extends hnew).trans hextends).slots h
  · exact fun h => ((reserve_extends hnew).trans hextends).found h

end Fill

section Push

variable {table : Declarations} {pending : List Ty} {arena : Arena} {descriptor : Descriptor}

theorem slots_push (arena : Arena) (descriptor : Descriptor) (id : DescriptorId) :
    (arena.push descriptor).2.slots[id]?
      = if id = arena.slots.size then some (some descriptor) else arena.slots[id]? := by
  simp [push, Array.getElem?_push]

theorem push_extends (arena : Arena) (descriptor : Descriptor) :
    arena.Extends (arena.push descriptor).2 := by
  constructor
  · intro id slot h
    have hne : id ≠ arena.slots.size :=
      Nat.ne_of_lt (Array.getElem?_eq_some_iff.mp h).1
    rw [slots_push, if_neg hne, h]
  · exact id

theorem WellFormed.push (hwf : arena.WellFormed table pending)
    (hfits : descriptor.Fits table descriptor.type)
    (hfaithful : descriptor.Faithful table arena.Holds) :
    (arena.push descriptor).2.WellFormed table pending := by
  have hextends := push_extends arena descriptor
  constructor
  case registered =>
    intro type id h
    exact (hwf.registered h).imp
      (fun ⟨filled, hslot, hfits⟩ => ⟨filled, hextends.slots hslot, hfits⟩)
      (fun ⟨hmem, hslot⟩ => ⟨hmem, hextends.slots hslot⟩)
  case vacant =>
    intro id h
    rw [slots_push] at h
    split at h
    · simp at h
    · exact hwf.vacant h
  case reserved =>
    exact hwf.reserved
  case faithful =>
    intro id filled h
    rw [slots_push] at h
    split at h
    · cases h
      exact hfaithful.mono fun _ _ => Holds.extend hextends
    · exact (hwf.faithful h).mono fun _ _ => Holds.extend hextends
  case typed =>
    intro id filled h
    rw [slots_push] at h
    split at h
    · cases h
      exact hfits
    · exact hwf.typed h
  case distinct =>
    exact hwf.distinct

end Push

end Arena

end TypedConfig
