import Mathlib.Algebra.BigOperators.Group.Finset.Basic
import Mathlib.Algebra.GroupWithZero.Nat
import Mathlib.Logic.Relation
import TypedConfig.Proofs.Instances

/-!
Derived schemas are minimal.  They have one descriptor for each object type that can be reached, one
for each expression of a scalar type that occurs, and one for each occurrence of a list or a map in
the declarations that can be reached; and all of them can be reached from the root.

The derivation is followed with a ledger.  It says what the slots of the arena are accounted for by,
and from which slots they can be reached: those that a step answers with are owed a reference, which
the descriptor pays that is filled in later.
-/

namespace TypedConfig

/-!
Derivations end.  The declarations may refer to one another in circles, but an object type that is
met again has its slot already, so the object types under construction at one time are all different
ones of the table.  The bound that counts them is therefore never used up: it does not matter how
large it is, nor what would be done at its end.
-/

namespace Derivation

/-- Derives an object type as `object` does, except that `stop` takes over when the bound is used
up. -/
def objectOr (stop : Nat → Derivation DescriptorId) (table : Declarations) :
    Nat → Nat → Derivation DescriptorId
  | 0, id => stop id
  | bound + 1, id => fun arena =>
    match arena.find? (.object id) with
    | some slot => .ok (slot, arena)
    | none => do
      let (slot, arena) := arena.reserve (.object id)
      let (descriptor, arena) ← shape table (objectOr stop table bound) id arena
      .ok (slot, arena.fill slot descriptor)

variable {α β : Type} {table : Declarations} {pending : List Ty}

/-- Two steps do the same to every well-formed arena. -/
def Agrees (table : Declarations) (pending : List Ty) (step other : Derivation α) : Prop :=
  ∀ arena : Arena, arena.WellFormed table pending → step arena = other arena

theorem Agrees.andThen {step other : Derivation α} {next next' : α → Derivation β}
    {post : α → Arena → Prop} (hagrees : Agrees table pending step other)
    (hstep : Ensures table pending (fun _ => True) step post)
    (hnext : ∀ answer, Agrees table pending (next answer) (next' answer)) :
    Agrees table pending (step >>= next) (other >>= next') := by
  intro arena hwf
  simp only [bind, StateT.bind, ← hagrees arena hwf]
  cases hrun : step arena with
  | error fault => rfl
  | ok result =>
      obtain ⟨-, hwf', -⟩ := hstep arena result.2 result.1 hwf trivial hrun
      exact hnext result.1 result.2 hwf'

/-- What is done afterwards with the answer is not looked at. -/
theorem Agrees.bind {step other : Derivation α} (hagrees : Agrees table pending step other)
    (next : α → Derivation β) : Agrees table pending (step >>= next) (other >>= next) := by
  intro arena hwf
  simp only [Bind.bind, StateT.bind, hagrees arena hwf]

theorem Agrees.check {broken : Prop} [Decidable broken] {fault : SchemaFault}
    {next next' : Unit → Derivation α} (hnext : Agrees table pending (next ()) (next' ())) :
    Agrees table pending (if broken then throw fault >>= next else next ())
      (if broken then throw fault >>= next' else next' ()) := by
  split
  · exact fun arena _ => rfl
  · exact hnext

theorem Agrees.lifted {result : Except SchemaFault α} {next next' : α → Derivation β}
    (hnext : ∀ found, Agrees table pending (next found) (next' found)) :
    Agrees table pending ((liftM result : Derivation α) >>= next)
      ((liftM result : Derivation α) >>= next') := by
  cases result with
  | error fault => exact fun arena _ => rfl
  | ok found => exact hnext found

section Steps

variable {object other : Nat → Derivation DescriptorId}

theorem type_agrees (hagrees : ∀ id, Agrees table pending (object id) (other id))
    (inner whole : Ty) :
    Agrees table pending (type object whole inner) (type other whole inner) := by
  induction inner generalizing whole with
  | scalar scalarType => exact fun arena _ => rfl
  | list element ih => exact (ih element).bind _
  | map kind element ih => exact (ih element).bind _
  | option inner ih => exact ih whole
  | box inner ih => exact ih whole
  | object id => exact hagrees id

variable (hobject : ∀ id, Ensures table pending (fun _ => True) (object id)
    fun slot arena => arena.Holds slot (.object id))
  (hagrees : ∀ id, Agrees table pending (object id) (other id))

include hobject hagrees

theorem fields_agrees (owner : String) (slots : List FieldSlot) (done : List Entry) :
    Agrees table pending (fields table object owner done slots)
      (fields table other owner done slots) := by
  induction slots generalizing done with
  | nil => exact fun arena _ => rfl
  | cons slot rest ih =>
      rw [fields, fields]
      refine .check (.check ?_)
      exact .andThen (type_agrees hagrees slot.type slot.type)
        (type_ensures hobject slot.type slot.type rfl) fun id => ih _

theorem extensions_agrees (owner : String) (fields : List Entry) (types : List Ty)
    (done : List Entry) :
    Agrees table pending (extensions table object owner fields done types)
      (extensions table other owner fields done types) := by
  induction types generalizing done with
  | nil => exact fun arena _ => rfl
  | cons extension rest ih =>
      rw [extensions, extensions]
      refine .lifted fun target => .check ?_
      exact .andThen (hagrees target.1) (hobject target.1) fun id => ih _

theorem shape_agrees (id : Nat) :
    Agrees table pending (shape table object id) (shape table other id) := by
  rw [shape, shape]
  cases (table.object id).isEmpty with
  | true => exact fun arena _ => rfl
  | false =>
      have hfields := fields_ensures hobject (table.object id).name (table.object id).fields [] []
      refine .andThen (fields_agrees hobject hagrees _ _ _)
        (hfields.strengthen fun _ _ => ⟨.nil, by simp, List.nodup_nil⟩) fun fields => .check ?_
      exact (extensions_agrees hobject hagrees _ _ _ _).bind _

end Steps

/-- An object type that declares nothing has no types below it. -/
theorem shape_of_isEmpty {id : Nat} (h : (table.object id).isEmpty = true)
    (object : Nat → Derivation DescriptorId) :
    shape table object id = pure (.scalar (.object id)) := by
  rw [shape, h]
  rfl

/-- Where there is room for all object types, two bounds do not differ. -/
theorem objectOr_agrees (stop : Nat → Derivation DescriptorId) {bound other : Nat}
    (hroom : Room table bound pending) (hother : Room table other pending) (id : Nat) :
    Agrees table pending (object table bound id) (objectOr stop table other id) := by
  induction bound generalizing pending other id with
  | zero => exact absurd rfl hroom.bound_ne_zero
  | succ bound ih =>
      intro arena hwf
      cases other with
      | zero => exact absurd rfl hother.bound_ne_zero
      | succ other =>
          rw [object, objectOr]
          cases hnew : arena.find? (.object id) with
          | some slot => simp only [hnew]
          | none =>
              -- Only types of the table have types below them, and each of these that is pending
              -- takes one step of both bounds.
              have hshape : shape table (object table bound) id (arena.reserve (.object id)).2
                  = shape table (objectOr stop table other) id (arena.reserve (.object id)).2 := by
                cases hempty : (table.object id).isEmpty with
                | true => rw [shape_of_isEmpty hempty, shape_of_isEmpty hempty]
                | false =>
                    have hlt := object_lt_length hempty
                    have hbelow := hroom.reserve hwf hnew hlt
                    exact shape_agrees (object_ensures hbelow)
                      (ih hbelow (hother.reserve hwf hnew hlt)) id _ (hwf.reserve hnew)
              simp only [hnew, hshape]

end Derivation

/-- Derives the schema of a root type with some bound on the object types under construction; `stop`
takes over when it is used up. -/
def Schema.deriveOr (stop : Nat → Derivation DescriptorId) (bound : Nat) (table : Declarations)
    (root : Ty) : Except SchemaFault Schema := do
  let (id, arena) ← Derivation.type (Derivation.objectOr stop table bound) root root Arena.empty
  let descriptors ← Arena.complete 0 arena.slots.toList
  pure ⟨table, descriptors.toArray, id⟩

/-- No bound that is greater than the number of declarations is ever used up. -/
theorem Schema.deriveOr_eq (stop : Nat → Derivation DescriptorId) {bound : Nat}
    {table : Declarations} (h : table.objects.length < bound) (root : Ty) :
    deriveOr stop bound table root = derive table root := by
  have hroom : ∀ {bound : Nat}, table.objects.length < bound → Derivation.Room table bound [] :=
    fun hlt => ⟨[], rfl, List.nodup_nil, by simp, by simpa using hlt⟩
  have hagrees := Derivation.objectOr_agrees stop (hroom (Nat.lt_succ_self _)) (hroom h)
  rw [deriveOr, derive,
    Derivation.type_agrees hagrees root root Arena.empty (Arena.empty_wellFormed table)]

/-!
What is counted, and the ledger.
-/

/-- The occurrences of lists and maps in a type expression. -/
def Ty.containers : Ty → Nat
  | .scalar _ => 0
  | .list element => element.containers + 1
  | .map _ element => element.containers + 1
  | .option inner => inner.containers
  | .box inner => inner.containers
  | .object _ => 0

/-- The occurrences of lists and maps in the fields of an object type. -/
def ObjectType.containers (object : ObjectType) : Nat :=
  (object.fields.map fun slot => slot.type.containers).sum

/-- The types that occur below a root type: it itself, the types of the fields of object types that
can be reached, and the types of the elements of lists and maps that occur. -/
inductive Declarations.Occurs (table : Declarations) (root : Ty) : Ty → Prop
  | root : Occurs table root root
  | field {owner : Nat} {slot : FieldSlot} : table.Reaches root owner →
      slot ∈ (table.object owner).fields → Occurs table root slot.type
  | item {type element : Ty} : Occurs table root type → type.core = .list element →
      Occurs table root element
  | member {type element : Ty} {kind : MapKind} : Occurs table root type →
      type.core = .map kind element → Occurs table root element

/-- The descriptors that a descriptor refers to, as its fields, its extensions or its elements. -/
def Descriptor.links : Descriptor → List DescriptorId
  | .scalar _ => []
  | .object shape => (shape.fields ++ shape.extensions).map Entry.descriptor
  | .list _ _ below => [below]
  | .map _ _ below => [below]

/-- The descriptor at one place refers to the one at another. -/
def Schema.Links (schema : Schema) (id below : DescriptorId) : Prop :=
  ∃ descriptor, schema.descriptors[id]? = some descriptor ∧ below ∈ descriptor.links

/-- A schema without superfluous descriptors: there are as many as there are object types to be
reached, expressions of scalar types that occur, and occurrences of lists and maps, and each one can
be reached from the root. -/
structure Schema.Minimal (schema : Schema) (root : Ty) : Prop where
  counted : ∃ (objects : Finset Nat) (scalars : Finset Ty),
    (∀ id, id ∈ objects ↔ schema.table.Reaches root id) ∧
    (∀ type, type ∈ scalars ↔
      schema.table.Occurs root type ∧ ∃ scalar, type.core = .scalar scalar) ∧
    schema.descriptors.size = objects.card + scalars.card +
      (root.containers + ∑ id ∈ objects, (schema.table.object id).containers)
  reached : ∀ id < schema.descriptors.size, Relation.ReflTransGen schema.Links schema.root id

section Occurrences

variable {table : Declarations} {root : Ty}

/-- What an occurring type mentions can be reached. -/
theorem Declarations.Occurs.reaches {type : Ty} (h : table.Occurs root type) {id : Nat}
    (hmentions : type.Mentions id) : table.Reaches root id := by
  induction h with
  | root => exact .root hmentions
  | field howner hslot => exact .field howner hslot hmentions
  | item _ hcore ih => exact ih (.of_core (hcore ▸ hmentions))
  | member _ hcore ih => exact ih (.of_core (hcore ▸ hmentions))

/-- In a finished arena every type that occurs below the type of some slot has a slot. -/
theorem Arena.WellFormed.holds_of_occurs {arena : Arena} (hwf : arena.WellFormed table [])
    {top : DescriptorId} (hroot : arena.Holds top root) {type : Ty} (h : table.Occurs root type) :
    ∃ id, arena.Holds id type := by
  induction h with
  | root => exact ⟨top, hroot⟩
  | @field owner slot howner hslot =>
      obtain ⟨id, hid⟩ := hwf.found_of_reaches hroot howner
      rcases hwf.shape_of_found hid with hempty | ⟨shape, hshape, rfl⟩
      · simp only [ObjectType.isEmpty, Bool.and_eq_true, List.isEmpty_iff] at hempty
        simp [hempty.1.1] at hslot
      · obtain ⟨entry, -, hentry⟩ := exists_right_of_forall₂ (hwf.faithful hshape).fields hslot
        exact ⟨entry.descriptor, hentry.2.2⟩
  | item _ hcore ih =>
      obtain ⟨id, hholds⟩ := ih
      simp only [Arena.Holds, hcore] at hholds
      obtain ⟨below, hslot⟩ := hholds
      exact ⟨below, hwf.faithful hslot⟩
  | member _ hcore ih =>
      obtain ⟨id, hholds⟩ := ih
      simp only [Arena.Holds, hcore] at hholds
      obtain ⟨below, hslot⟩ := hholds
      exact ⟨below, hwf.faithful hslot⟩

end Occurrences

/-- The types that are registered when a type is derived: the object types that can be reached, and
the expressions of scalar types that occur. -/
inductive Declarations.Registers (table : Declarations) (root : Ty) : Ty → Prop
  | object {id : Nat} : table.Reaches root id → Registers table root (.object id)
  | scalar {type : Ty} {scalar : ScalarType} : table.Occurs root type → type.core = .scalar scalar →
      Registers table root type

/-- The lists and maps that get slots on account of a registered type. -/
def Ty.declaredContainers (table : Declarations) : Ty → Nat
  | .object id => (table.object id).containers
  | _ => 0

theorem Ty.declaredContainers_of_core {table : Declarations} {type : Ty} {scalar : ScalarType}
    (h : type.core = .scalar scalar) : type.declaredContainers table = 0 := by
  cases type with
  | object id => cases h
  | _ => rfl

/-- The slots that some registered types account for: one for each, and those of its containers. -/
def Declarations.weight (table : Declarations) (types : List Ty) : Nat :=
  (types.map fun type => 1 + type.declaredContainers table).sum

namespace Arena

def types (arena : Arena) : List Ty := arena.registry.map Prod.fst

/-- The descriptor in one slot refers to another slot. -/
def Links (arena : Arena) (id below : DescriptorId) : Prop :=
  ∃ descriptor, arena.slots[id]? = some (some descriptor) ∧ below ∈ descriptor.links

/-- The ledger of a schema under construction.  Every slot can be reached from one of `owed`, and
besides the slots that the registered types account for there are `balance` others; the balance is
negative while lists and maps of object types under construction are still to come. -/
structure Ledger (table : Declarations) (root : Ty) (owed : List DescriptorId) (balance : Int)
    (arena : Arena) : Prop where
  registers : ∀ type ∈ arena.types, table.Registers root type
  distinct : arena.types.Nodup
  accounted : (arena.slots.size : Int) = table.weight arena.types + balance
  covered : ∀ id < arena.slots.size, ∃ top ∈ owed, Relation.ReflTransGen arena.Links top id

theorem find?_eq_none_iff {arena : Arena} {type : Ty} :
    arena.find? type = none ↔ type ∉ arena.types :=
  Entries.lookup_eq_none_iff

/-- What can be reached from a slot can still be reached in a later arena. -/
theorem Extends.path {arena later : Arena} (h : arena.Extends later) {id below : DescriptorId}
    (hpath : Relation.ReflTransGen arena.Links id below) :
    Relation.ReflTransGen later.Links id below := by
  refine Relation.ReflTransGen.mono ?_ _ _ hpath
  rintro first second ⟨descriptor, hslot, hlink⟩
  exact ⟨descriptor, h.slots hslot, hlink⟩

variable {table : Declarations} {root : Ty} {owed : List DescriptorId} {balance : Int}
  {arena : Arena}

theorem empty_ledger : empty.Ledger table root [] 0 := by
  constructor <;> simp [empty, types, Declarations.weight]

theorem Ledger.mono (h : arena.Ledger table root owed balance) {owed' : List DescriptorId}
    (howed : owed ⊆ owed') : arena.Ledger table root owed' balance :=
  { h with covered := fun id hid => (h.covered id hid).imp fun _ htop =>
      ⟨howed htop.1, htop.2⟩ }

/-- A type that is registered anew is owed a reference, and its lists and maps are still to come. -/
theorem Ledger.reserve (h : arena.Ledger table root owed balance) {type : Ty}
    (hnew : arena.find? type = none) (htype : table.Registers root type) :
    (arena.reserve type).2.Ledger table root (arena.slots.size :: owed)
      (balance - type.declaredContainers table) := by
  constructor
  · exact List.forall_mem_cons.mpr ⟨htype, h.registers⟩
  · exact List.nodup_cons.mpr ⟨find?_eq_none_iff.mp hnew, h.distinct⟩
  · have haccounted := h.accounted
    simp only [Arena.reserve, types, Declarations.weight, Array.size_push, List.map_cons,
      List.sum_cons] at haccounted ⊢
    omega
  · intro id hid
    simp only [Arena.reserve, Array.size_push] at hid
    rcases Nat.lt_succ_iff_lt_or_eq.mp hid with hlt | rfl
    · obtain ⟨top, htop, hpath⟩ := h.covered id hlt
      exact ⟨top, List.mem_cons_of_mem _ htop, (reserve_extends hnew).path hpath⟩
    · exact ⟨_, List.mem_cons_self, .refl⟩

/-- A descriptor that fills a slot pays for all that it refers to. -/
theorem Ledger.fill {slot : DescriptorId} {descriptor : Descriptor}
    (h : arena.Ledger table root (descriptor.links ++ owed) balance)
    (hslot : arena.slots[slot]? = some none) (howed : slot ∈ owed) :
    (arena.fill slot descriptor).Ledger table root owed balance := by
  -- The slot was vacant, so no reference leads out of it that filling could take away.
  have hkeep : ∀ id below, arena.Links id below → (arena.fill slot descriptor).Links id below := by
    rintro id below ⟨other, hother, hbelow⟩
    have hne : id ≠ slot := by
      rintro rfl
      simp [hslot] at hother
    exact ⟨other, (slots_fill_of_ne hne).trans hother, hbelow⟩
  refine ⟨h.registers, h.distinct, ?_, ?_⟩
  · simpa [Arena.fill, types] using h.accounted
  · intro id hid
    obtain ⟨top, htop, hpath⟩ := h.covered id (by simpa [Arena.fill] using hid)
    have hpath' := Relation.ReflTransGen.mono hkeep _ _ hpath
    rcases List.mem_append.mp htop with hbelow | htop
    · exact ⟨slot, howed, .head ⟨descriptor, slots_fill_self hslot, hbelow⟩ hpath'⟩
    · exact ⟨top, htop, hpath'⟩

/-- A new list or map is owed a reference, and pays for its elements. -/
theorem Ledger.push {descriptor : Descriptor}
    (h : arena.Ledger table root (descriptor.links ++ owed) balance) :
    (arena.push descriptor).2.Ledger table root (arena.slots.size :: owed) (balance + 1) := by
  refine ⟨h.registers, h.distinct, ?_, ?_⟩
  · have haccounted := h.accounted
    simp only [Arena.push, types, Array.size_push] at haccounted ⊢
    omega
  · intro id hid
    simp only [Arena.push, Array.size_push] at hid
    rcases Nat.lt_succ_iff_lt_or_eq.mp hid with hlt | rfl
    · obtain ⟨top, htop, hpath⟩ := h.covered id hlt
      have hpath' := (push_extends arena descriptor).path hpath
      rcases List.mem_append.mp htop with hbelow | htop
      · have hself : (arena.push descriptor).2.slots[arena.slots.size]? = some (some descriptor) :=
          (slots_push arena descriptor _).trans (if_pos rfl)
        exact ⟨_, List.mem_cons_self, .head ⟨descriptor, hself, hbelow⟩ hpath'⟩
      · exact ⟨top, List.mem_cons_of_mem _ htop, hpath'⟩
    · exact ⟨_, List.mem_cons_self, .refl⟩

end Arena

namespace Derivation

variable {table : Declarations} {root : Ty} {pending : List Ty}

theorem scalar_ledger {type : Ty} {scalarType : ScalarType} (hcore : type.core = .scalar scalarType)
    (hoccurs : table.Occurs root type) {owed : List DescriptorId} {balance : Int}
    {arena later : Arena} {id : DescriptorId} (h : arena.Ledger table root owed balance)
    (hrun : scalar type arena = .ok (id, later)) :
    later.Ledger table root (id :: owed) balance := by
  cases hfind : arena.find? type with
  | some found =>
      simp only [scalar, hfind, Except.ok.injEq, Prod.mk.injEq] at hrun
      obtain ⟨rfl, rfl⟩ := hrun
      exact h.mono (List.subset_cons_self _ _)
  | none =>
      simp only [scalar, hfind, Except.ok.injEq, Prod.mk.injEq] at hrun
      obtain ⟨rfl, rfl⟩ := hrun
      have hreserved := h.reserve hfind (.scalar hoccurs hcore)
      rw [Ty.declaredContainers_of_core hcore, Int.natCast_zero, Int.sub_zero] at hreserved
      have hvacant : (arena.reserve type).2.slots[arena.slots.size]? = some none :=
        (Arena.slots_reserve arena type _).trans (if_pos rfl)
      exact hreserved.fill hvacant List.mem_cons_self

theorem push_ledger {type element : Ty} {below : DescriptorId} {descriptor : Descriptor}
    (hdescriptor : descriptor = .list type element below ∨ descriptor = .map type element below)
    (hfits : descriptor.Fits table type) (owed : List DescriptorId) (balance : Int) :
    Ensures table pending
      (fun arena => arena.Holds below element ∧
        arena.Ledger table root (below :: owed) balance)
      (push descriptor) fun id arena => arena.Holds id type ∧
        arena.Ledger table root (id :: owed) (balance + 1) := by
  rintro arena later id hwf ⟨hbelow, hledger⟩ hrun
  obtain ⟨hextends, hwf', hholds⟩ :=
    push_ensures hdescriptor hfits arena later id hwf hbelow hrun
  refine ⟨hextends, hwf', hholds, ?_⟩
  have hlinks : descriptor.links ++ owed = below :: owed := by
    rcases hdescriptor with rfl | rfl <;> rfl
  cases hrun
  exact Arena.Ledger.push (hlinks ▸ hledger)

section Steps

/-- Deriving an object type that can be reached balances the ledger: the type accounts for all the
slots that were added. -/
def Balances (table : Declarations) (root : Ty) (pending : List Ty)
    (object : Nat → Derivation DescriptorId) : Prop :=
  ∀ id, table.Reaches root id → ∀ (owed : List DescriptorId) (balance : Int),
    Ensures table pending (Arena.Ledger table root owed balance) (object id) fun slot arena =>
      arena.Holds slot (.object id) ∧ arena.Ledger table root (slot :: owed) balance

variable {object : Nat → Derivation DescriptorId} (hobject : Balances table root pending object)

include hobject

theorem type_ledger (inner whole : Ty) (hcore : whole.core = inner.core)
    (hoccurs : table.Occurs root whole) (owed : List DescriptorId) (balance : Int) :
    Ensures table pending (Arena.Ledger table root owed balance) (type object whole inner)
      fun slot arena => arena.Holds slot whole ∧
        arena.Ledger table root (slot :: owed) (balance + inner.containers) := by
  induction inner generalizing whole owed balance with
  | scalar scalarType =>
      intro arena later id hwf hledger hrun
      obtain ⟨hextends, hwf', hholds⟩ := scalar_ensures hcore arena later id hwf trivial hrun
      refine ⟨hextends, hwf', hholds, ?_⟩
      simpa [Ty.containers] using scalar_ledger hcore hoccurs hledger hrun
  | list element ih =>
      refine .andThen (ih element rfl (.item hoccurs hcore) owed balance) fun below => ?_
      rw [Ty.containers, Int.natCast_add, ← Int.add_assoc]
      exact push_ledger (.inl rfl) (by simp [Descriptor.Fits, hcore, Ty.core]) owed _
  | map kind element ih =>
      refine .andThen (ih element rfl (.member hoccurs hcore) owed balance) fun below => ?_
      rw [Ty.containers, Int.natCast_add, ← Int.add_assoc]
      exact push_ledger (.inr rfl) (by simp [Descriptor.Fits, hcore, Ty.core]) owed _
  | option inner ih => exact ih whole hcore hoccurs owed balance
  | box inner ih => exact ih whole hcore hoccurs owed balance
  | object id =>
      intro arena later slot hwf hledger hrun
      have hreaches := hoccurs.reaches (mentions_of_core hcore)
      obtain ⟨hextends, hwf', hholds, hledger'⟩ :=
        hobject id hreaches owed balance arena later slot hwf hledger hrun
      refine ⟨hextends, hwf', ?_, by simpa [Ty.containers] using hledger'⟩
      simpa [Arena.Holds, hcore, Ty.core] using hholds

theorem fields_ledger (owner : String) (slots : List FieldSlot)
    (hslots : ∀ slot ∈ slots, table.Occurs root slot.type) (done : List Entry)
    (owed : List DescriptorId) (balance : Int) :
    Ensures table pending (Arena.Ledger table root (done.map Entry.descriptor ++ owed) balance)
      (fields table object owner done slots) fun entries =>
        Arena.Ledger table root (entries.map Entry.descriptor ++ owed)
          (balance + (slots.map fun slot => slot.type.containers).sum) := by
  induction slots generalizing done balance with
  | nil => exact .answer fun arena h => by simpa using h
  | cons slot rest ih =>
      obtain ⟨hslot, hrest⟩ := List.forall_mem_cons.mp hslots
      rw [fields]
      refine .check fun _ => .check fun _ => ?_
      refine .andThen (type_ledger hobject slot.type slot.type rfl hslot _ balance) fun id => ?_
      have hmore := ih hrest (done ++ [⟨slot.name, slot.type, id⟩]) (balance + slot.type.containers)
      rw [List.map_cons, List.sum_cons, Int.natCast_add, ← Int.add_assoc]
      exact hmore.strengthen fun arena hpre => hpre.2.mono (by simp)

theorem extensions_ledger (owner : String) (fields : List Entry) (types : List Ty)
    (htypes : ∀ type ∈ types, ∀ id, type.core = .object id → table.Reaches root id)
    (done : List Entry) (owed : List DescriptorId) (balance : Int) :
    Ensures table pending (Arena.Ledger table root (done.map Entry.descriptor ++ owed) balance)
      (extensions table object owner fields done types) fun entries =>
        Arena.Ledger table root (entries.map Entry.descriptor ++ owed) balance := by
  induction types generalizing done with
  | nil => exact .answer fun arena h => h
  | cons extension rest ih =>
      obtain ⟨hextension, hrest⟩ := List.forall_mem_cons.mp htypes
      rw [extensions]
      refine .lifted fun target htarget => .check fun _ => ?_
      have hreaches := hextension target.1 (extensionTarget_eq_ok htarget).1
      refine .andThen (hobject target.1 hreaches _ balance) fun id => ?_
      have hmore := ih hrest (done ++ [⟨target.2, extension, id⟩])
      exact hmore.strengthen fun arena hpre => hpre.2.mono (by simp)

end Steps

theorem shape_ledger {object : Nat → Derivation DescriptorId} {id : Nat}
    (hobject : (table.object id).isEmpty = false → Balances table root pending object)
    (hid : table.Reaches root id) (owed : List DescriptorId) (balance : Int) :
    Ensures table pending (Arena.Ledger table root owed balance) (shape table object id)
      fun descriptor => Arena.Ledger table root (descriptor.links ++ owed)
        (balance + (table.object id).containers) := by
  cases hempty : (table.object id).isEmpty with
  | true =>
      rw [shape_of_isEmpty hempty]
      refine .answer fun arena hledger => ?_
      simp only [ObjectType.isEmpty, Bool.and_eq_true, List.isEmpty_iff] at hempty
      simpa [ObjectType.containers, hempty.1.1, Descriptor.links] using hledger
  | false =>
      rw [shape, hempty]
      have hfields := fields_ledger (hobject hempty) (table.object id).name
        (table.object id).fields (fun slot hslot => .field hid hslot) [] owed balance
      refine .andThen hfields fun fields => .check fun _ => ?_
      have hextensions := extensions_ledger (hobject hempty) (table.object id).name fields
        (table.object id).extensions
        (fun type htype other hcore => .extension hid htype (mentions_of_core hcore)) []
        (fields.map Entry.descriptor ++ owed) (balance + (table.object id).containers)
      refine .andThen hextensions fun extensions => .answer fun arena hledger => ?_
      refine hledger.mono ?_
      simp [Descriptor.links]

theorem object_ledger {bound : Nat} (hroom : Room table bound pending) :
    Balances table root pending (object table bound) := by
  induction bound generalizing pending with
  | zero => exact absurd rfl hroom.bound_ne_zero
  | succ bound ih =>
      intro id hid owed balance arena later slot hwf hledger hrun
      obtain ⟨hextends, hwf', hholds⟩ :=
        object_ensures hroom id arena later slot hwf trivial hrun
      refine ⟨hextends, hwf', hholds, ?_⟩
      cases hfind : arena.find? (.object id) with
      | some found =>
          simp only [object, hfind, Except.ok.injEq, Prod.mk.injEq] at hrun
          obtain ⟨rfl, rfl⟩ := hrun
          exact hledger.mono (List.subset_cons_self _ _)
      | none =>
          rw [object_of_new bound hfind] at hrun
          cases hshape : shape table (object table bound) id (arena.reserve (.object id)).2 with
          | error fault => simp [hshape, Except.map] at hrun
          | ok result =>
              obtain ⟨descriptor, halfway⟩ := result
              simp only [hshape, Except.map, Except.ok.injEq, Prod.mk.injEq] at hrun
              obtain ⟨rfl, rfl⟩ := hrun
              have hobject := fun hfull => ih (hroom.reserve hwf hfind (object_lt_length hfull))
              -- The balance drops by the containers of the fields when the slot is reserved, and
              -- the walk over the fields brings them back.
              obtain ⟨hkept, -, hledger'⟩ := shape_ledger hobject hid _ _ _ _ _
                (hwf.reserve hfind) (hledger.reserve hfind (.object hid)) hshape
              have hvacant : halfway.slots[arena.slots.size]? = some none :=
                hkept.slots ((Arena.slots_reserve arena _ _).trans (if_pos rfl))
              simpa [Ty.declaredContainers] using hledger'.fill hvacant List.mem_cons_self

end Derivation

/-- The place of an object type in the table. -/
def Ty.objectId? : Ty → Option Nat
  | .object id => some id
  | _ => none

theorem Ty.objectId?_eq_some {type : Ty} {id : Nat} :
    type.objectId? = some id ↔ type = .object id := by
  cases type <;> simp [objectId?]

/-- Object types account for themselves and for their lists and maps, all others for themselves. -/
theorem Declarations.weight_eq (table : Declarations) (types : List Ty) :
    table.weight types = (types.filterMap Ty.objectId?).length
      + (types.filter fun type => type.objectId?.isNone).length
      + ((types.filterMap Ty.objectId?).map fun id => (table.object id).containers).sum := by
  unfold weight
  induction types with
  | nil => rfl
  | cons type rest ih =>
      rw [List.map_cons, List.sum_cons, ih]
      cases hid : type.objectId? with
      | some id =>
          obtain rfl := Ty.objectId?_eq_some.mp hid
          simp only [List.filterMap_cons_some hid, List.filter_cons, hid, Option.isNone_some,
            Bool.false_eq_true, if_false, List.length_cons, List.map_cons, List.sum_cons,
            Ty.declaredContainers]
          omega
      | none =>
          have hnone : type.declaredContainers table = 0 := by
            cases type with
            | object id => cases hid
            | _ => rfl
          simp only [List.filterMap_cons_none hid, List.filter_cons, hid, Option.isNone_none, if_true,
            List.length_cons, hnone]
          omega

/-- Types that are registered, each once, are counted by the object types and the scalar types. -/
theorem Declarations.counted_of_registers {table : Declarations} {root : Ty} {types : List Ty}
    (hnodup : types.Nodup) (hregisters : ∀ type, type ∈ types ↔ table.Registers root type) :
    ∃ (objects : Finset Nat) (scalars : Finset Ty),
      (∀ id, id ∈ objects ↔ table.Reaches root id) ∧
      (∀ type, type ∈ scalars ↔ table.Occurs root type ∧ ∃ scalar, type.core = .scalar scalar) ∧
      table.weight types
        = objects.card + scalars.card + ∑ id ∈ objects, (table.object id).containers := by
  have hobjects : (types.filterMap Ty.objectId?).Nodup := by
    refine hnodup.filterMap ?_
    intro first second id hfirst hsecond
    rw [Ty.objectId?_eq_some.mp hfirst, Ty.objectId?_eq_some.mp hsecond]
  have hscalars : (types.filter fun type => type.objectId?.isNone).Nodup := hnodup.filter _
  refine ⟨(types.filterMap Ty.objectId?).toFinset,
    (types.filter fun type => type.objectId?.isNone).toFinset, ?_, ?_, ?_⟩
  · intro id
    simp only [List.mem_toFinset, List.mem_filterMap, Ty.objectId?_eq_some, exists_eq_right,
      hregisters]
    constructor
    · rintro (hid | ⟨-, hcore⟩)
      · exact hid
      · cases hcore
    · exact .object
  · intro type
    simp only [List.mem_toFinset, List.mem_filter, Option.isNone_iff_eq_none, hregisters]
    constructor
    · rintro ⟨_ | ⟨hoccurs, hcore⟩, hnone⟩
      · cases hnone
      · exact ⟨hoccurs, _, hcore⟩
    · rintro ⟨hoccurs, scalar, hcore⟩
      refine ⟨.scalar hoccurs hcore, ?_⟩
      cases type with
      | object id => cases hcore
      | _ => rfl
  · rw [table.weight_eq, List.toFinset_card_of_nodup hobjects, List.toFinset_card_of_nodup hscalars,
      List.sum_toFinset _ hobjects]

namespace Arena

variable {table : Declarations} {root : Ty} {arena : Arena} {top : DescriptorId}

/-- The registered types of a finished arena are the object types that can be reached and the
expressions of scalar types that occur. -/
theorem WellFormed.registers_iff (hwf : arena.WellFormed table []) (hroot : arena.Holds top root)
    {owed : List DescriptorId} {balance : Int} (hledger : arena.Ledger table root owed balance)
    (type : Ty) : type ∈ arena.types ↔ table.Registers root type := by
  constructor
  · exact hledger.registers type
  · intro hregisters
    have hfound : ∃ slot, arena.find? type = some slot := by
      cases hregisters with
      | object hid => exact hwf.found_of_reaches hroot hid
      | scalar hoccurs hcore =>
          obtain ⟨slot, hholds⟩ := hwf.holds_of_occurs hroot hoccurs
          exact ⟨slot, by simpa [Holds, hcore] using hholds⟩
    by_contra hnot
    obtain ⟨slot, hslot⟩ := hfound
    simp [find?_eq_none_iff.mpr hnot] at hslot

theorem descriptor_of_slot {descriptors : List Descriptor}
    (hslots : arena.slots.toList = descriptors.map some) {id : DescriptorId} {descriptor : Descriptor}
    (h : arena.slots[id]? = some (some descriptor)) :
    descriptors.toArray[id]? = some descriptor := by
  rw [← Array.getElem?_toList, hslots, List.getElem?_map] at h
  simpa using h

/-- The ledger of a finished arena shows that the schema made of it is minimal. -/
theorem WellFormed.minimal (hwf : arena.WellFormed table []) (hroot : arena.Holds top root)
    (hledger : arena.Ledger table root [top] root.containers) {descriptors : List Descriptor}
    (hslots : arena.slots.toList = descriptors.map some) :
    Schema.Minimal ⟨table, descriptors.toArray, top⟩ root := by
  have hsize : arena.slots.size = descriptors.length := by
    simpa using congrArg List.length hslots
  constructor
  · obtain ⟨objects, scalars, hobjects, hscalars, hweight⟩ :=
      Declarations.counted_of_registers hledger.distinct (hwf.registers_iff hroot hledger)
    refine ⟨objects, scalars, hobjects, hscalars, ?_⟩
    have haccounted := hledger.accounted
    simp only [List.size_toArray, ← hsize]
    omega
  · intro id hid
    obtain ⟨first, hfirst, hpath⟩ := hledger.covered id (by simpa [hsize] using hid)
    rw [List.mem_singleton.mp hfirst] at hpath
    refine Relation.ReflTransGen.mono ?_ _ _ hpath
    rintro first second ⟨descriptor, hslot, hlink⟩
    exact ⟨descriptor, descriptor_of_slot hslots hslot, hlink⟩

end Arena

/-- A schema that was derived is made of the arena that the walk over the declarations left behind.
-/
theorem Schema.run_of_derive {table : Declarations} {root : Ty} {schema : Schema}
    (h : Schema.derive table root = .ok schema) :
    ∃ (id : DescriptorId) (arena : Arena) (descriptors : List Descriptor),
      Derivation.type (Derivation.object table (table.objects.length + 1)) root root Arena.empty
        = .ok (id, arena) ∧
      arena.slots.toList = descriptors.map some ∧ schema = ⟨table, descriptors.toArray, id⟩ := by
  unfold Schema.derive at h
  cases hrun : Derivation.type (Derivation.object table (table.objects.length + 1)) root root
      Arena.empty with
  | error fault => simp [hrun, bind, Except.bind] at h
  | ok result =>
      cases hslots : Arena.complete 0 result.2.slots.toList with
      | error fault => simp [hrun, hslots, bind, Except.bind] at h
      | ok descriptors =>
          simp only [hrun, hslots, bind, Except.bind, pure, Except.pure, Except.ok.injEq] at h
          exact ⟨result.1, result.2, descriptors, rfl, Arena.complete_eq_ok hslots, h.symm⟩

/-- Deriving a schema ends: no bound that is greater than the number of declarations is used up.  If
it succeeds, the schema is minimal. -/
theorem Schema.derive_minimal (table : Declarations) (root : Ty) :
    (∀ stop bound, table.objects.length < bound →
      Schema.deriveOr stop bound table root = Schema.derive table root) ∧
    ∀ schema, Schema.derive table root = .ok schema → schema.table = table ∧ schema.Minimal root := by
  refine ⟨fun stop bound h => Schema.deriveOr_eq stop h root, ?_⟩
  intro schema h
  obtain ⟨id, arena, descriptors, hrun, hslots, rfl⟩ := Schema.run_of_derive h
  have hroom : Derivation.Room table (table.objects.length + 1) [] :=
    ⟨[], rfl, List.nodup_nil, by simp, by simp⟩
  obtain ⟨-, hwf, hholds, hledger⟩ :=
    Derivation.type_ledger (Derivation.object_ledger hroom) root root rfl .root [] 0 _ _ _
      (Arena.empty_wellFormed table) Arena.empty_ledger hrun
  rw [Int.zero_add] at hledger
  exact ⟨rfl, hwf.minimal hholds hledger hslots⟩

/-- Two object types that refer to each other, one through a list in a map and one as an extension.
They take integers, bare and wrapped. -/
def serviceTable : Declarations :=
  ⟨[⟨"Service", some "service",
      [⟨"port", .scalar .int, false⟩, ⟨"spare", .option (.scalar .int), false⟩,
        ⟨"links", .map .sorted (.list (.box (.object 1))), true⟩], 0, []⟩,
    ⟨"Link", none, [⟨"port", .scalar .int, false⟩, ⟨"ports", .list (.option (.scalar .int)), true⟩], 1,
      [.object 0]⟩,
    ⟨"Unused", none, [⟨"name", .scalar .string, false⟩], 0, []⟩]⟩

/-- There is a descriptor for the list at the root, for each of two object types, for an integer and
for an optional one, for a map and for two lists; a bound of four is never used up. -/
theorem serviceTable_minimal : ∃ schema,
    Schema.derive serviceTable (.list (.object 0)) = .ok schema ∧
      (∀ stop, Schema.deriveOr stop 4 serviceTable (.list (.object 0)) = .ok schema) ∧
      schema.Minimal (.list (.object 0)) ∧ schema.descriptors.size = 2 + 2 + (1 + 3) := by
  obtain ⟨hbound, hminimal⟩ := Schema.derive_minimal serviceTable (.list (.object 0))
  refine ⟨_, rfl, ?_, (hminimal _ rfl).2, rfl⟩
  exact fun stop => hbound stop 4 (by decide)

end TypedConfig
