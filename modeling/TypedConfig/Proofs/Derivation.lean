import Mathlib.Data.Fintype.Card
import TypedConfig.Proofs.Arena

/-!
Derived schemas are faithful: every descriptor stands for the type expression at its place.  Each
step of a derivation that succeeds keeps the arena well-formed, extends it, and answers with a slot
that stands for the type it was asked for; an object type that is met again while its own slot is
pending is answered with this slot.
-/

namespace TypedConfig

namespace Derivation

variable {α β : Type} {table : Declarations} {pending : List Ty}

/-- What holds after a step that succeeds, if `pre` held of the arena before it. -/
def Ensures (table : Declarations) (pending : List Ty) (pre : Arena → Prop) (step : Derivation α)
    (post : α → Arena → Prop) : Prop :=
  ∀ (arena later : Arena) (answer : α), arena.WellFormed table pending → pre arena →
    step arena = .ok (answer, later) →
      arena.Extends later ∧ later.WellFormed table pending ∧ post answer later

theorem Ensures.answer {pre : Arena → Prop} {post : α → Arena → Prop} {answer : α}
    (h : ∀ arena, pre arena → post answer arena) :
    Ensures table pending pre (pure answer) post := by
  intro arena later found hwf hpre hrun
  cases hrun
  exact ⟨.refl arena, hwf, h arena hpre⟩

theorem Ensures.andThen {pre : Arena → Prop} {middle : α → Arena → Prop}
    {post : β → Arena → Prop} {step : Derivation α} {next : α → Derivation β}
    (hstep : Ensures table pending pre step middle)
    (hnext : ∀ answer, Ensures table pending (middle answer) (next answer) post) :
    Ensures table pending pre (step >>= next) post := by
  intro arena later answer hwf hpre hrun
  cases hfirst : step arena with
  | error fault => simp [bind, StateT.bind, Except.bind, hfirst] at hrun
  | ok result =>
      obtain ⟨first, halfway⟩ := result
      simp only [bind, StateT.bind, Except.bind, hfirst] at hrun
      obtain ⟨hextends, hwf', hmiddle⟩ := hstep _ _ _ hwf hpre hfirst
      obtain ⟨hextends', hwf'', hpost⟩ := hnext first _ _ _ hwf' hmiddle hrun
      exact ⟨hextends.trans hextends', hwf'', hpost⟩

/-- What is checked on the way may be used by the steps behind the check. -/
theorem Ensures.check {pre : Arena → Prop} {post : α → Arena → Prop} {broken : Prop}
    [Decidable broken] {fault : SchemaFault} {next : Unit → Derivation α}
    (hnext : ¬broken → Ensures table pending pre (next ()) post) :
    Ensures table pending pre (if broken then throw fault >>= next else next ()) post := by
  split
  · intro arena later answer hwf hpre hrun
    cases hrun
  · rename_i hsound
    exact hnext hsound

/-- What is computed without the arena may be used by the steps behind it. -/
theorem Ensures.lifted {pre : Arena → Prop} {post : β → Arena → Prop}
    {result : Except SchemaFault α} {next : α → Derivation β}
    (hnext : ∀ found, result = .ok found → Ensures table pending pre (next found) post) :
    Ensures table pending pre ((liftM result : Derivation α) >>= next) post := by
  cases result with
  | error fault =>
      intro arena later answer hwf hpre hrun
      cases hrun
  | ok found => exact hnext found rfl

theorem Ensures.strengthen {pre pre' : Arena → Prop} {post : α → Arena → Prop}
    {step : Derivation α} (hpre : ∀ arena, pre' arena → pre arena)
    (hstep : Ensures table pending pre step post) : Ensures table pending pre' step post :=
  fun _ _ _ hwf h hrun => hstep _ _ _ hwf (hpre _ h) hrun

/-- A step keeps every property that extending an arena keeps. -/
theorem Ensures.keep {pre need : Arena → Prop} {post : α → Arena → Prop} {step : Derivation α}
    (hstep : Ensures table pending need step post) (hneed : ∀ arena, pre arena → need arena)
    (hstable : ∀ {arena later : Arena}, arena.Extends later → pre arena → pre later) :
    Ensures table pending pre step fun answer arena => pre arena ∧ post answer arena := by
  intro arena later answer hwf hpre hrun
  obtain ⟨hextends, hwf', hpost⟩ := hstep _ _ _ hwf (hneed arena hpre) hrun
  exact ⟨hextends, hwf', hstable hextends hpre, hpost⟩

theorem scalar_ensures {type : Ty} {scalarType : ScalarType}
    (htype : type.core = .scalar scalarType) :
    Ensures table pending (fun _ => True) (scalar type) fun id arena => arena.Holds id type := by
  intro arena later id hwf _ hrun
  cases hfind : arena.find? type with
  | some found =>
      simp only [scalar, hfind, Except.ok.injEq, Prod.mk.injEq] at hrun
      obtain ⟨rfl, rfl⟩ := hrun
      exact ⟨.refl arena, hwf, by simp [Arena.Holds, htype, hfind]⟩
  | none =>
      simp only [scalar, hfind, Except.ok.injEq, Prod.mk.injEq] at hrun
      obtain ⟨rfl, rfl⟩ := hrun
      have hfits : (Descriptor.scalar type).Fits table type := by
        simp [Descriptor.Fits, htype]
      obtain ⟨hextends, hwf', hfound⟩ :=
        Arena.fill_of_reserve hfind (.refl _) (hwf.reserve hfind) hfits trivial
      refine ⟨hextends, hwf', ?_⟩
      simp only [Arena.Holds, htype]
      exact hfound

theorem push_ensures {type element : Ty} {below : DescriptorId} {descriptor : Descriptor}
    (hdescriptor : descriptor = .list type element below ∨ descriptor = .map type element below)
    (hfits : descriptor.Fits table type) :
    Ensures table pending (fun arena => arena.Holds below element) (push descriptor)
      fun id arena => arena.Holds id type := by
  intro arena later id hwf hbelow hrun
  cases hrun
  have hfaithful : descriptor.Faithful table arena.Holds := by
    rcases hdescriptor with rfl | rfl <;> exact hbelow
  refine ⟨Arena.push_extends arena descriptor, hwf.push hfits.self hfaithful, ?_⟩
  have hslot : (arena.push descriptor).2.slots[(arena.push descriptor).1]? = some (some descriptor) :=
    (Arena.slots_push arena descriptor _).trans (if_pos rfl)
  unfold Descriptor.Fits at hfits
  unfold Arena.Holds
  split at hfits
  · rcases hdescriptor with rfl | rfl <;> simp at hfits
  · obtain ⟨below, rfl⟩ := hfits
    exact ⟨below, hslot⟩
  · obtain ⟨below, rfl⟩ := hfits
    exact ⟨below, hslot⟩
  · split at hfits
    · rcases hdescriptor with rfl | rfl <;> simp at hfits
    · rcases hdescriptor with rfl | rfl <;> simp at hfits
  · exact hfits

theorem type_ensures {object : Nat → Derivation DescriptorId}
    (hobject : ∀ id, Ensures table pending (fun _ => True) (object id)
      fun slot arena => arena.Holds slot (.object id))
    (inner whole : Ty) (hcore : whole.core = inner.core) :
    Ensures table pending (fun _ => True) (type object whole inner)
      fun slot arena => arena.Holds slot whole := by
  induction inner generalizing whole with
  | scalar scalarType => exact scalar_ensures hcore
  | list element ih =>
      refine .andThen (ih element rfl) fun below => ?_
      exact push_ensures (.inl rfl) (by simp [Descriptor.Fits, hcore, Ty.core])
  | map kind element ih =>
      refine .andThen (ih element rfl) fun below => ?_
      exact push_ensures (.inr rfl) (by simp [Descriptor.Fits, hcore, Ty.core])
  | option inner ih => exact ih whole hcore
  | box inner ih => exact ih whole hcore
  | object id =>
      intro arena later slot hwf hpre hrun
      obtain ⟨hextends, hwf', hholds⟩ := hobject id _ _ _ hwf hpre hrun
      exact ⟨hextends, hwf', by simpa [Arena.Holds, hcore, Ty.core] using hholds⟩

/-- The entries of fields that passed their checks. -/
structure FieldsDone (holds : DescriptorId → Ty → Prop) (slots : List FieldSlot)
    (entries : List Entry) : Prop where
  listed : List.Forall₂ (Entry.OfField holds) slots entries
  collections : ∀ slot ∈ slots, slot.collection = true → slot.type.isCollection = true
  names : (entries.map Entry.name).Nodup

theorem FieldsDone.mono {holds holds' : DescriptorId → Ty → Prop}
    (hholds : ∀ id type, holds id type → holds' id type) {slots : List FieldSlot}
    {entries : List Entry} (h : FieldsDone holds slots entries) : FieldsDone holds' slots entries :=
  ⟨h.listed.imp fun _ _ => Entry.OfField.mono hholds, h.collections, h.names⟩

/-- A name that no entry has can be added to distinct names. -/
theorem names_concat {entries : List Entry} {entry : Entry}
    (h : (entries.map Entry.name).Nodup)
    (hfresh : ¬(entries.any fun other => other.name == entry.name) = true) :
    ((entries ++ [entry]).map Entry.name).Nodup := by
  rw [List.map_append, List.nodup_append]
  refine ⟨h, by simp, ?_⟩
  intro name hname other hother heq
  obtain ⟨found, hfound, rfl⟩ := List.mem_map.mp hname
  rw [List.map_singleton, List.mem_singleton] at hother
  exact hfresh (List.any_eq_true.mpr ⟨found, hfound, by simpa [hother] using heq⟩)

theorem FieldsDone.concat {holds : DescriptorId → Ty → Prop} {slots : List FieldSlot}
    {slot : FieldSlot} {entries : List Entry} {entry : Entry} (h : FieldsDone holds slots entries)
    (hentry : entry.OfField holds slot)
    (hfresh : ¬(entries.any fun other => other.name == slot.name) = true)
    (hcollection : ¬(slot.collection && !slot.type.isCollection) = true) :
    FieldsDone holds (slots ++ [slot]) (entries ++ [entry]) := by
  refine ⟨List.rel_append h.listed (.cons hentry .nil), ?_, names_concat h.names (hentry.1 ▸ hfresh)⟩
  intro other hother
  rcases List.mem_append.mp hother with hslots | hslot
  · exact h.collections other hslots
  · rw [List.mem_singleton.mp hslot]
    simpa using hcollection

theorem fields_ensures {object : Nat → Derivation DescriptorId}
    (hobject : ∀ id, Ensures table pending (fun _ => True) (object id)
      fun slot arena => arena.Holds slot (.object id))
    (owner : String) (slots earlier : List FieldSlot) (done : List Entry) :
    Ensures table pending (fun arena => FieldsDone arena.Holds earlier done)
      (fields table object owner done slots)
      fun entries arena => FieldsDone arena.Holds (earlier ++ slots) entries := by
  induction slots generalizing earlier done with
  | nil => exact .answer fun arena h => by simpa using h
  | cons slot rest ih =>
      rw [fields]
      refine .check fun hfresh => .check fun hcollection => ?_
      refine .andThen ((type_ensures hobject slot.type slot.type rfl).keep (fun _ _ => trivial)
        fun hextends => FieldsDone.mono fun _ _ => .extend hextends) fun id => ?_
      rw [List.append_cons earlier]
      refine (ih (earlier ++ [slot]) _).strengthen ?_
      rintro arena ⟨hdone, hholds⟩
      exact hdone.concat ⟨rfl, rfl, hholds⟩ hfresh hcollection

theorem extensionTarget_eq_ok {owner : String} {extension : Ty} {target : Nat} {name : String}
    (h : extensionTarget table owner extension = .ok (target, name)) :
    extension.core = .object target ∧
      ObjectType.extensionNameOf? table extension = some name := by
  unfold extensionTarget at h
  split at h
  · rename_i id hcore
    split at h
    · rename_i found hname
      simp only [Except.ok.injEq, Prod.mk.injEq] at h
      obtain ⟨rfl, rfl⟩ := h
      exact ⟨hcore, by simp [ObjectType.extensionNameOf?, hcore, hname]⟩
    · simp at h
  · simp at h

/-- The entries of extensions that passed their checks, behind the entries of some fields. -/
structure ExtensionsDone (table : Declarations) (holds : DescriptorId → Ty → Prop)
    (fields : List Entry) (types : List Ty) (entries : List Entry) : Prop where
  listed : List.Forall₂ (Entry.OfExtension table holds) types entries
  names : ((fields ++ entries).map Entry.name).Nodup

theorem ExtensionsDone.mono {holds holds' : DescriptorId → Ty → Prop}
    (hholds : ∀ id type, holds id type → holds' id type) {fields : List Entry} {types : List Ty}
    {entries : List Entry} (h : ExtensionsDone table holds fields types entries) :
    ExtensionsDone table holds' fields types entries :=
  ⟨h.listed.imp fun _ _ => Entry.OfExtension.mono hholds, h.names⟩

theorem extensions_ensures {object : Nat → Derivation DescriptorId}
    (hobject : ∀ id, Ensures table pending (fun _ => True) (object id)
      fun slot arena => arena.Holds slot (.object id))
    (owner : String) (fields : List Entry) (types earlier : List Ty) (done : List Entry) :
    Ensures table pending (fun arena => ExtensionsDone table arena.Holds fields earlier done)
      (extensions table object owner fields done types)
      fun entries arena => ExtensionsDone table arena.Holds fields (earlier ++ types) entries := by
  induction types generalizing earlier done with
  | nil => exact .answer fun arena h => by simpa using h
  | cons extension rest ih =>
      rw [extensions]
      refine .lifted fun ⟨target, name⟩ htarget => .check fun hfresh => ?_
      obtain ⟨hcore, hname⟩ := extensionTarget_eq_ok htarget
      refine .andThen ((hobject target).keep (fun _ _ => trivial)
        fun hextends => ExtensionsDone.mono fun _ _ => .extend hextends) fun id => ?_
      rw [List.append_cons earlier]
      refine (ih (earlier ++ [extension]) _).strengthen ?_
      rintro arena ⟨hdone, hholds⟩
      have hextension : arena.Holds id extension := by
        simpa [Arena.Holds, hcore, Ty.core] using hholds
      refine ⟨List.rel_append hdone.listed (.cons ⟨rfl, hname, hextension⟩ .nil), ?_⟩
      rw [← List.append_assoc]
      exact names_concat hdone.names hfresh

theorem shape_ensures {object : Nat → Derivation DescriptorId} (id : Nat)
    (hobject : (table.object id).isEmpty = false → ∀ id,
      Ensures table pending (fun _ => True) (object id) fun slot arena =>
        arena.Holds slot (.object id)) :
    Ensures table pending (fun _ => True) (shape table object id) fun descriptor arena =>
      descriptor.Fits table (.object id) ∧ descriptor.Faithful table arena.Holds := by
  rw [shape]
  cases hempty : (table.object id).isEmpty with
  | true => exact .answer fun arena _ => ⟨by simp [Descriptor.Fits, Ty.core, hempty], trivial⟩
  | false =>
      have hfields := fields_ensures (hobject hempty) (table.object id).name
        (table.object id).fields [] []
      refine .andThen (hfields.strengthen fun _ _ => ⟨.nil, by simp, List.nodup_nil⟩)
        fun fields => .check fun hkeys => ?_
      have hextensions := extensions_ensures (hobject hempty) (table.object id).name fields
        (table.object id).extensions [] []
      refine .andThen (hextensions.keep
        (fun arena hdone => ⟨.nil, by simpa using FieldsDone.names hdone⟩)
        fun hextends => FieldsDone.mono fun _ _ => .extend hextends)
        fun extensions => .answer fun arena hentries => ⟨?_, ?_⟩
      · simp [Descriptor.Fits, Ty.core, hempty]
      · obtain ⟨hfields, hextensions⟩ := hentries
        exact ⟨hfields.listed, hfields.collections, Nat.le_of_not_lt hkeys, rfl,
          hextensions.listed, by simpa [ObjectShape.acceptedNames] using hextensions.names⟩

/-- The pending types are different object types of the table, and there are more steps left than
object types that are not pending. -/
def Room (table : Declarations) (bound : Nat) (pending : List Ty) : Prop :=
  ∃ ids : List Nat, pending = ids.map Ty.object ∧ ids.Nodup ∧
    (∀ id ∈ ids, id < table.objects.length) ∧ table.objects.length < bound + ids.length

theorem Room.bound_ne_zero {bound : Nat} (h : Room table bound pending) : bound ≠ 0 := by
  obtain ⟨ids, -, hnodup, hlt, hroom⟩ := h
  have hsubset : ids ⊆ List.range table.objects.length :=
    fun id hid => List.mem_range.mpr (hlt id hid)
  have hlength := (hnodup.subperm hsubset).length_le
  rw [List.length_range] at hlength
  omega

theorem object_lt_length {id : Nat} (h : (table.object id).isEmpty = false) :
    id < table.objects.length := by
  by_contra hnot
  simp [Declarations.object, List.getD, List.getElem?_eq_none (Nat.le_of_not_lt hnot),
    ObjectType.empty, ObjectType.isEmpty] at h

/-- An object type that has no slot yet leaves room for the types below it. -/
theorem Room.reserve {arena : Arena} {bound id : Nat} (h : Room table (bound + 1) pending)
    (hwf : arena.WellFormed table pending) (hnew : arena.find? (.object id) = none)
    (hlt : id < table.objects.length) : Room table bound (.object id :: pending) := by
  obtain ⟨ids, rfl, hnodup, hids, hroom⟩ := h
  have hfresh : id ∉ ids := by
    intro hmem
    obtain ⟨slot, hslot⟩ := hwf.reserved (List.mem_map_of_mem hmem)
    simp [hnew] at hslot
  refine ⟨id :: ids, rfl, List.nodup_cons.mpr ⟨hfresh, hnodup⟩, ?_, ?_⟩
  · exact List.forall_mem_cons.mpr ⟨hlt, hids⟩
  · simp only [List.length_cons]
    omega

theorem object_of_new {arena : Arena} {id : Nat} (bound : Nat)
    (hnew : arena.find? (.object id) = none) :
    object table (bound + 1) id arena =
      (shape table (object table bound) id (arena.reserve (.object id)).2).map
        fun (descriptor, later) =>
          (arena.slots.size, later.fill arena.slots.size descriptor) := by
  simp only [object, hnew]
  change (shape table (object table bound) id (arena.reserve (.object id)).2 >>= fun result =>
    Except.ok (arena.slots.size, result.2.fill arena.slots.size result.1)) = _
  cases shape table (object table bound) id (arena.reserve (.object id)).2 <;> rfl

theorem object_ensures {bound : Nat} (hroom : Room table bound pending) (id : Nat) :
    Ensures table pending (fun _ => True) (object table bound id)
      fun slot arena => arena.Holds slot (.object id) := by
  induction bound generalizing pending id with
  | zero => exact absurd rfl hroom.bound_ne_zero
  | succ bound ih =>
      intro arena later slot hwf _ hrun
      cases hfind : arena.find? (.object id) with
      | some found =>
          simp only [object, hfind, Except.ok.injEq, Prod.mk.injEq] at hrun
          obtain ⟨rfl, rfl⟩ := hrun
          exact ⟨.refl arena, hwf, by simp [Arena.Holds, Ty.core, hfind]⟩
      | none =>
          rw [object_of_new bound hfind] at hrun
          cases hshape : shape table (object table bound) id (arena.reserve (.object id)).2 with
          | error fault => simp [hshape, Except.map] at hrun
          | ok result =>
              obtain ⟨descriptor, halfway⟩ := result
              simp only [hshape, Except.map, Except.ok.injEq, Prod.mk.injEq] at hrun
              obtain ⟨rfl, rfl⟩ := hrun
              have hobject := fun hfull => ih (hroom.reserve hwf hfind (object_lt_length hfull))
              obtain ⟨hextends, hwf', hfits, hfaithful⟩ :=
                shape_ensures id hobject _ _ _ (hwf.reserve hfind) trivial hshape
              exact Arena.fill_of_reserve hfind hextends hwf' hfits hfaithful

end Derivation

/-- A descriptor of a schema stands for a type: it is one of this type. -/
def Schema.Describes (schema : Schema) (id : DescriptorId) (type : Ty) : Prop :=
  ∃ descriptor, schema.descriptors[id]? = some descriptor ∧ descriptor.Fits schema.table type

/-- The descriptors of a schema stand for the types at their places. -/
def Schema.Faithful (schema : Schema) : Prop :=
  ∀ (id : DescriptorId) (descriptor : Descriptor), schema.descriptors[id]? = some descriptor →
    descriptor.Faithful schema.table schema.Describes

theorem Arena.complete_eq_ok {index : Nat} {slots : List (Option Descriptor)}
    {descriptors : List Descriptor} (h : complete index slots = .ok descriptors) :
    slots = descriptors.map some := by
  induction slots generalizing index descriptors with
  | nil =>
      cases h
      rfl
  | cons slot rest ih =>
      cases slot with
      | none => simp [complete] at h
      | some descriptor =>
          cases hrest : complete (index + 1) rest with
          | error fault => simp [complete, hrest, Except.map] at h
          | ok more =>
              simp only [complete, hrest, Except.map, Except.ok.injEq] at h
              rw [← h, ih hrest, List.map_cons]

/-- What stands for a type in a finished arena stands for it in the schema made of it. -/
theorem Arena.Holds.describes {table : Declarations} {arena : Arena}
    (hwf : arena.WellFormed table []) {descriptors : List Descriptor}
    (hslots : arena.slots.toList = descriptors.map some) {id root : DescriptorId} {type : Ty}
    (h : arena.Holds id type) : Schema.Describes ⟨table, descriptors.toArray, root⟩ id type := by
  have hkeep : ∀ {descriptor : Descriptor}, arena.slots[id]? = some (some descriptor) →
      descriptors.toArray[id]? = some descriptor := by
    intro descriptor hslot
    rw [← Array.getElem?_toList, hslots, List.getElem?_map] at hslot
    simpa using hslot
  have hregistered : ∀ {type : Ty}, arena.find? type = some id →
      Schema.Describes ⟨table, descriptors.toArray, root⟩ id type := by
    intro type hfound
    rcases hwf.registered hfound with ⟨descriptor, hslot, hfits⟩ | ⟨hmem, -⟩
    · exact ⟨descriptor, hkeep hslot, hfits⟩
    · simp at hmem
  unfold Arena.Holds at h
  split at h
  · exact hregistered h
  · rename_i element hcore
    obtain ⟨below, hslot⟩ := h
    exact ⟨_, hkeep hslot, by simp [Descriptor.Fits, hcore]⟩
  · rename_i kind element hcore
    obtain ⟨below, hslot⟩ := h
    exact ⟨_, hkeep hslot, by simp [Descriptor.Fits, hcore]⟩
  · rename_i object hcore
    obtain ⟨descriptor, hslot, hfits⟩ := hregistered h
    exact ⟨descriptor, hslot, by simpa [Descriptor.Fits, hcore, Ty.core] using hfits⟩
  · exact h.elim

theorem Arena.complete_of_filled {slots : List (Option Descriptor)} (h : none ∉ slots)
    (index : Nat) : ∃ descriptors, complete index slots = .ok descriptors := by
  induction slots generalizing index with
  | nil => exact ⟨[], rfl⟩
  | cons slot rest ih =>
      cases slot with
      | none => exact absurd List.mem_cons_self h
      | some descriptor =>
          obtain ⟨more, hmore⟩ := ih (fun hrest => h (List.mem_cons_of_mem _ hrest)) (index + 1)
          exact ⟨descriptor :: more, by rw [complete, hmore]; rfl⟩

/-- An arena without pending types has no vacant slot. -/
theorem Arena.WellFormed.filled {table : Declarations} {arena : Arena}
    (hwf : arena.WellFormed table []) : none ∉ arena.slots.toList := by
  intro hmem
  obtain ⟨id, hid⟩ := List.mem_iff_getElem?.mp hmem
  rw [Array.getElem?_toList] at hid
  obtain ⟨type, hpending, -⟩ := hwf.vacant hid
  simp at hpending

/-- How deriving a schema ends: with the fault at which the walk over the types stopped, or with the
arena that the walk left behind, all of whose slots are filled. -/
inductive Schema.Derived (table : Declarations) (root : Ty) : Except SchemaFault Schema → Prop
  | stopped {fault : SchemaFault} :
      Derivation.type (Derivation.object table (table.objects.length + 1)) root root Arena.empty
          = .error fault → Derived table root (.error fault)
  | finished {arena : Arena} {id : DescriptorId} {descriptors : List Descriptor} :
      arena.WellFormed table [] → arena.Holds id root →
        arena.slots.toList = descriptors.map some →
          Derived table root (.ok ⟨table, descriptors.toArray, id⟩)

theorem Schema.derived (table : Declarations) (root : Ty) :
    Schema.Derived table root (Schema.derive table root) := by
  have hroom : Derivation.Room table (table.objects.length + 1) [] :=
    ⟨[], rfl, List.nodup_nil, by simp, by simp⟩
  unfold Schema.derive
  cases hrun : Derivation.type (Derivation.object table (table.objects.length + 1)) root root
      Arena.empty with
  | error fault =>
      simp only [hrun, bind, Except.bind]
      exact .stopped hrun
  | ok result =>
      obtain ⟨id, arena⟩ := result
      obtain ⟨-, hwf, hholds⟩ := Derivation.type_ensures (Derivation.object_ensures hroom) root root
        rfl _ _ _ (Arena.empty_wellFormed table) trivial hrun
      obtain ⟨descriptors, hslots⟩ := Arena.complete_of_filled hwf.filled 0
      simp only [hrun, hslots, bind, Except.bind, pure, Except.pure]
      exact .finished hwf hholds (Arena.complete_eq_ok hslots)

theorem Arena.slot_of_descriptor {arena : Arena} {descriptors : List Descriptor}
    (hslots : arena.slots.toList = descriptors.map some) {id : DescriptorId} {descriptor : Descriptor}
    (h : descriptors.toArray[id]? = some descriptor) :
    arena.slots[id]? = some (some descriptor) := by
  rw [← Array.getElem?_toList, hslots, List.getElem?_map]
  simpa using h

/-- Derivation leaves no slot pending, and every descriptor in the schema it gives, the root
included, stands for the type expression at its place. -/
theorem Schema.derive_faithful {table : Declarations} {root : Ty} {schema : Schema}
    (h : Schema.derive table root = .ok schema) :
    schema.table = table ∧ schema.Faithful ∧ schema.Describes schema.root root := by
  have hderived := Schema.derived table root
  rw [h] at hderived
  cases hderived with
  | finished hwf hholds hslots =>
      refine ⟨rfl, ?_, hholds.describes hwf hslots⟩
      intro id descriptor hdescriptor
      have hfaithful := hwf.faithful (Arena.slot_of_descriptor hslots hdescriptor)
      exact hfaithful.mono fun _ _ hbelow => hbelow.describes hwf hslots

end TypedConfig
