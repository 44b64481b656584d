import Mathlib.Data.List.Duplicate
import TypedConfig.Proofs.Derivation
import TypedConfig.Record.Catalogue

/-!
The rules of declarations.  A type has a schema exactly when every object type that can be reached
from it keeps to the rules; otherwise the fault names one that does not, and which rule it breaks.
The walk visits each object type once and skips those it has met before.  Nothing hides behind such
a skip: when the walk ends, every type that was met has a filled slot, and a slot is filled only
after all checks.
-/

namespace TypedConfig

/-- An object type occurs in a type expression. -/
def Ty.Mentions : Ty → Nat → Prop
  | .scalar _, _ => False
  | .list element, id => element.Mentions id
  | .map _ element, id => element.Mentions id
  | .option inner, id => inner.Mentions id
  | .box inner, id => inner.Mentions id
  | .object other, id => other = id

/-- The object types that can be reached from a type: those that it mentions, and those that the
fields and the extensions of a reached one mention. -/
inductive Declarations.Reaches (table : Declarations) (root : Ty) : Nat → Prop
  | root {id : Nat} : root.Mentions id → Reaches table root id
  | field {owner id : Nat} {slot : FieldSlot} : Reaches table root owner →
      slot ∈ (table.object owner).fields → slot.type.Mentions id → Reaches table root id
  | extension {owner id : Nat} {type : Ty} : Reaches table root owner →
      type ∈ (table.object owner).extensions → type.Mentions id → Reaches table root id

/-- The rules of declarations: no two fields or extensions are accepted under one name, what is
declared as a collection is one, at most one slot takes the key, and every extension is an object
type with an extension name. -/
structure ObjectType.Sound (table : Declarations) (object : ObjectType) : Prop where
  names : (object.acceptedNames table).Nodup
  collections : ∀ slot ∈ object.fields, slot.collection = true → slot.type.isCollection = true
  keys : object.keys ≤ 1
  extensions : ∀ type ∈ object.extensions, ∃ id name,
    type.core = .object id ∧ (table.object id).extensionName = some name

/-- The fault is there: the object type breaks the rule that the fault is about. -/
def DeclarationFault.Breaks (table : Declarations) (object : ObjectType) :
    DeclarationFault → Prop
  | .repeatedField name => (object.fields.map FieldSlot.name).Duplicate name
  | .notCollection field typeName => ∃ slot ∈ object.fields, slot.name = field ∧
      slot.type.name table = typeName ∧ slot.collection = true ∧ slot.type.isCollection = false
  | .repeatedKey => 1 < object.keys
  | .extensionNotObject typeName => ∃ type ∈ object.extensions, type.name table = typeName ∧
      ∀ id, type.core ≠ .object id
  | .extensionUnnamed typeName => ∃ type ∈ object.extensions, type.name table = typeName ∧
      ∃ id, type.core = .object id ∧ (table.object id).extensionName = none
  | .extensionCollision name => (object.acceptedNames table).Duplicate name
  | .incomplete _ => False

theorem DeclarationFault.Breaks.not_sound {table : Declarations} {object : ObjectType}
    {fault : DeclarationFault} (h : fault.Breaks table object) : ¬object.Sound table := by
  intro hsound
  cases fault with
  | repeatedField name =>
      have hfields := (List.nodup_append.mp hsound.names).1
      exact List.exists_duplicate_iff_not_nodup.mp ⟨name, h⟩ hfields
  | notCollection field typeName =>
      obtain ⟨slot, hslot, -, -, hcollection, hnot⟩ := h
      simp [hsound.collections slot hslot hcollection] at hnot
  | repeatedKey => exact absurd hsound.keys (Nat.not_le_of_lt h)
  | extensionNotObject typeName =>
      obtain ⟨type, htype, -, hnot⟩ := h
      obtain ⟨id, -, hcore, -⟩ := hsound.extensions type htype
      exact hnot id hcore
  | extensionUnnamed typeName =>
      obtain ⟨type, htype, -, id, hcore, hnone⟩ := h
      obtain ⟨other, name, hother, hname⟩ := hsound.extensions type htype
      rw [hcore] at hother
      cases hother
      simp [hname] at hnone
  | extensionCollision name =>
      exact List.exists_duplicate_iff_not_nodup.mp ⟨name, h⟩ hsound.names
  | incomplete slot => exact h

theorem duplicate_append_cons {α : Type} [DecidableEq α] {first rest : List α} {x : α}
    (h : x ∈ first) : (first ++ x :: rest).Duplicate x := by
  rw [List.duplicate_iff_two_le_count, List.count_append, List.count_cons_self]
  have hpos := List.count_pos_iff.mpr h
  omega

theorem ObjectType.extensionNameOf?_eq_some {table : Declarations} {type : Ty} {name : String}
    (h : extensionNameOf? table type = some name) :
    ∃ id, type.core = .object id ∧ (table.object id).extensionName = some name := by
  unfold extensionNameOf? at h
  split at h
  · rename_i id hcore
    exact ⟨id, hcore, h⟩
  · cases h

/-- Nothing is accepted under a name that is not listed. -/
theorem ObjectType.accepts?_eq_none_iff {table : Declarations} {object : ObjectType}
    {name : String} :
    object.accepts? table name = none ↔ name ∉ object.acceptedNames table := by
  rw [acceptedNames, List.mem_append, not_or]
  unfold accepts?
  split
  · rename_i slot hslot
    have hname : slot.name = name := by simpa using List.find?_some hslot
    have hmem : name ∈ object.fields.map FieldSlot.name :=
      hname ▸ List.mem_map_of_mem (List.mem_of_find?_eq_some hslot)
    exact iff_of_false (Option.some_ne_none _) fun hnot => hnot.1 hmem
  · rename_i hfield
    rw [List.find?_eq_none] at hfield
    have hfields : name ∉ object.fields.map FieldSlot.name := by simpa using hfield
    rw [Option.map_eq_none_iff, List.find?_eq_none]
    simp only [hfields, not_false_eq_true, true_and, List.mem_filterMap, beq_iff_eq, not_exists,
      not_and]

namespace Derivation

section Faults

variable {α β : Type} {table : Declarations} {reached : Nat → Prop}

/-- A fault names one of some object types, and that one breaks a rule. -/
def Blamed (table : Declarations) (reached : Nat → Prop) (fault : SchemaFault) : Prop :=
  ∃ id, reached id ∧ fault.typeName = (table.object id).name ∧
    fault.fault.Breaks table (table.object id)

/-- Every fault of a step names one of some object types, and that one breaks a rule. -/
def Blames (table : Declarations) (reached : Nat → Prop) (step : Derivation α) : Prop :=
  ∀ (arena : Arena) (fault : SchemaFault), step arena = .error fault → Blamed table reached fault

theorem Blames.answer (answer : α) : Blames table reached (pure answer) := by
  intro arena fault hrun
  cases hrun

theorem Blames.andThen {step : Derivation α} {next : α → Derivation β}
    (hstep : Blames table reached step)
    (hnext : ∀ (arena later : Arena) (answer : α), step arena = .ok (answer, later) →
      Blames table reached (next answer)) : Blames table reached (step >>= next) := by
  intro arena fault hrun
  cases hfirst : step arena with
  | error first =>
      simp only [bind, StateT.bind, Except.bind, hfirst, Except.error.injEq] at hrun
      exact hrun ▸ hstep arena first hfirst
  | ok result =>
      obtain ⟨answer, later⟩ := result
      simp only [bind, StateT.bind, Except.bind, hfirst] at hrun
      exact hnext arena later answer hfirst later fault hrun

theorem Blames.check {broken : Prop} [Decidable broken] {fault : SchemaFault}
    {next : Unit → Derivation α} (hfault : broken → Blamed table reached fault)
    (hnext : Blames table reached (next ())) :
    Blames table reached (if broken then throw fault >>= next else next ()) := by
  split
  · rename_i hbroken
    intro arena other hrun
    cases hrun
    exact hfault hbroken
  · exact hnext

theorem Blames.lifted {result : Except SchemaFault α} {next : α → Derivation β}
    (hfault : ∀ fault, result = .error fault → Blamed table reached fault)
    (hnext : ∀ found, result = .ok found → Blames table reached (next found)) :
    Blames table reached ((liftM result : Derivation α) >>= next) := by
  cases result with
  | error fault =>
      intro arena other hrun
      cases hrun
      exact hfault fault rfl
  | ok found => exact hnext found rfl

theorem type_blames {object : Nat → Derivation DescriptorId} (inner whole : Ty)
    (hobject : ∀ id, inner.Mentions id → Blames table reached (object id)) :
    Blames table reached (type object whole inner) := by
  induction inner generalizing whole with
  | scalar scalarType =>
      intro arena fault hrun
      cases hfind : arena.find? whole <;> simp [type, scalar, hfind] at hrun
  | list element ih =>
      refine .andThen (ih element hobject) fun _ _ _ _ => ?_
      intro arena fault hrun
      cases hrun
  | map kind element ih =>
      refine .andThen (ih element hobject) fun _ _ _ _ => ?_
      intro arena fault hrun
      cases hrun
  | option inner ih => exact ih whole hobject
  | box inner ih => exact ih whole hobject
  | object id => exact hobject id rfl

/-- The entries of fields are named as the fields are. -/
theorem fields_names {object : Nat → Derivation DescriptorId} {owner : String}
    {slots : List FieldSlot} {done entries : List Entry} {arena later : Arena}
    (h : fields table object owner done slots arena = .ok (entries, later)) :
    entries.map Entry.name = done.map Entry.name ++ slots.map FieldSlot.name := by
  induction slots generalizing done arena with
  | nil =>
      cases h
      simp
  | cons slot rest ih =>
      rw [fields] at h
      split at h
      · cases h
      · split at h
        · cases h
        · cases htype : type object slot.type slot.type arena with
          | error fault => simp [bind, StateT.bind, Except.bind, htype] at h
          | ok result =>
              simp only [bind, StateT.bind, Except.bind, htype] at h
              simpa using ih h

theorem any_name_iff {entries : List Entry} {name : String} :
    (entries.any fun entry => entry.name == name) = true ↔ name ∈ entries.map Entry.name := by
  simp

/-- The part of the fields that is done is named in `done`; what is to come is `slots`. -/
theorem fields_blames {object : Nat → Derivation DescriptorId} {owner : Nat}
    (howner : reached owner) (slots earlier : List FieldSlot) (done : List Entry)
    (hfields : (table.object owner).fields = earlier ++ slots)
    (hdone : done.map Entry.name = earlier.map FieldSlot.name)
    (hobject : ∀ slot ∈ slots, ∀ id, slot.type.Mentions id → Blames table reached (object id)) :
    Blames table reached (fields table object (table.object owner).name done slots) := by
  induction slots generalizing earlier done with
  | nil => exact .answer done
  | cons slot rest ih =>
      obtain ⟨hslot, hrest⟩ := List.forall_mem_cons.mp hobject
      have hmem : slot ∈ (table.object owner).fields := by simp [hfields]
      rw [fields]
      refine .check (fun hrepeated => ⟨owner, howner, rfl, ?_⟩)
        (.check (fun hbroken => ⟨owner, howner, rfl, ?_⟩) ?_)
      · rw [any_name_iff, hdone] at hrepeated
        simp only [DeclarationFault.Breaks, hfields, List.map_append, List.map_cons]
        exact duplicate_append_cons hrepeated
      · have hcollection : slot.collection = true ∧ slot.type.isCollection = false := by
          simpa using hbroken
        exact ⟨slot, hmem, rfl, rfl, hcollection⟩
      · refine .andThen (type_blames slot.type slot.type hslot) fun _ _ id _ => ?_
        exact ih (earlier ++ [slot]) _ (by simp [hfields]) (by simp [hdone]) hrest

theorem extensionTarget_blamed {owner : Nat} (howner : reached owner) {extension : Ty}
    (hmem : extension ∈ (table.object owner).extensions) {fault : SchemaFault}
    (h : extensionTarget table (table.object owner).name extension = .error fault) :
    Blamed table reached fault := by
  unfold extensionTarget at h
  split at h
  · rename_i id hcore
    split at h
    · cases h
    · rename_i hnone
      cases h
      exact ⟨owner, howner, rfl, extension, hmem, rfl, id, hcore, hnone⟩
  · rename_i hcore
    cases h
    exact ⟨owner, howner, rfl, extension, hmem, rfl, hcore⟩

theorem extensions_blames {object : Nat → Derivation DescriptorId} {owner : Nat}
    (howner : reached owner) {fields : List Entry}
    (hfields : fields.map Entry.name = (table.object owner).fields.map FieldSlot.name)
    (types earlier : List Ty) (done : List Entry)
    (htypes : (table.object owner).extensions = earlier ++ types)
    (hdone : done.map Entry.name = earlier.filterMap (ObjectType.extensionNameOf? table))
    (hobject : ∀ type ∈ types, ∀ id, type.core = .object id → Blames table reached (object id)) :
    Blames table reached
      (extensions table object (table.object owner).name fields done types) := by
  induction types generalizing earlier done with
  | nil => exact .answer done
  | cons extension rest ih =>
      obtain ⟨hextension, hrest⟩ := List.forall_mem_cons.mp hobject
      have hmem : extension ∈ (table.object owner).extensions := by simp [htypes]
      rw [extensions]
      refine .lifted (fun fault => extensionTarget_blamed howner hmem) fun found htarget => ?_
      obtain ⟨target, name⟩ := found
      obtain ⟨hcore, hname⟩ := extensionTarget_eq_ok htarget
      refine .check (fun hcollision => ⟨owner, howner, rfl, ?_⟩) ?_
      · rw [any_name_iff, List.map_append, hfields, hdone] at hcollision
        simp only [DeclarationFault.Breaks, ObjectType.acceptedNames, htypes, List.filterMap_append,
          List.filterMap_cons_some hname, ← List.append_assoc]
        exact duplicate_append_cons hcollision
      · refine .andThen (hextension target hcore) fun _ _ id _ => ?_
        exact ih (earlier ++ [extension]) _ (by simp [htypes])
          (by simp [hdone, List.filterMap_cons_some hname]) hrest

end Faults

section Objects

variable {table : Declarations} {root : Ty}

theorem mentions_of_core {type : Ty} {id : Nat} (h : type.core = .object id) :
    type.Mentions id := by
  induction type with
  | option inner ih => exact ih h
  | box inner ih => exact ih h
  | object other =>
      cases h
      rfl
  | scalar _ => cases h
  | list _ => cases h
  | map _ _ => cases h

theorem shape_blames {object : Nat → Derivation DescriptorId}
    (hobject : ∀ id, table.Reaches root id → Blames table (table.Reaches root) (object id))
    {id : Nat} (hid : table.Reaches root id) :
    Blames table (table.Reaches root) (shape table object id) := by
  rw [shape]
  cases (table.object id).isEmpty with
  | true => exact .answer _
  | false =>
      have hfields : Blames table (table.Reaches root)
          (fields table object (table.object id).name [] (table.object id).fields) :=
        fields_blames hid (table.object id).fields [] [] rfl rfl
          fun slot hslot other hmentions => hobject other (.field hid hslot hmentions)
      refine .andThen hfields fun arena later entries hentries => ?_
      have hnames : entries.map Entry.name = (table.object id).fields.map FieldSlot.name := by
        simpa using fields_names hentries
      refine .check (fun hkeys => ⟨id, hid, rfl, hkeys⟩) ?_
      have hextensions : Blames table (table.Reaches root)
          (extensions table object (table.object id).name entries [] (table.object id).extensions) :=
        extensions_blames hid hnames (table.object id).extensions [] [] rfl rfl
          fun type htype other hcore => hobject other (.extension hid htype (mentions_of_core hcore))
      exact .andThen hextensions fun _ _ _ _ => .answer _

theorem object_blames (bound : Nat) {id : Nat} (hid : table.Reaches root id) :
    Blames table (table.Reaches root) (object table bound id) := by
  induction bound generalizing id with
  | zero =>
      intro arena fault hrun
      cases hfind : arena.find? (.object id) <;> simp [object, hfind] at hrun
  | succ bound ih =>
      intro arena fault hrun
      cases hfind : arena.find? (.object id) with
      | some slot => simp [object, hfind] at hrun
      | none =>
          rw [object_of_new bound hfind] at hrun
          cases hshape : shape table (object table bound) id (arena.reserve (.object id)).2 with
          | error other =>
              simp only [hshape, Except.map, Except.error.injEq] at hrun
              exact hrun ▸ shape_blames (fun _ => ih) hid _ _ hshape
          | ok result => simp [hshape, Except.map] at hrun

end Objects

end Derivation

/-- A type without schema: the fault names a reachable object type, and the rule that it breaks. -/
theorem Schema.derive_blamed {table : Declarations} {root : Ty} {fault : SchemaFault}
    (h : Schema.derive table root = .error fault) :
    Derivation.Blamed table (table.Reaches root) fault := by
  have hderived := Schema.derived table root
  rw [h] at hderived
  cases hderived with
  | stopped hrun =>
      refine Derivation.type_blames root root (fun id hid => ?_) Arena.empty fault hrun
      exact Derivation.object_blames _ (.root hid)

theorem ObjectShape.Faithful.sound {table : Declarations} {holds : DescriptorId → Ty → Prop}
    {shape : ObjectShape} (h : shape.Faithful table holds) :
    (table.object shape.object).Sound table := by
  refine ⟨h.acceptedNames_eq ▸ h.names, h.collections, h.keys, ?_⟩
  intro type htype
  obtain ⟨entry, -, hentry⟩ := exists_right_of_forall₂ h.extensions htype
  obtain ⟨id, hcore, hname⟩ := ObjectType.extensionNameOf?_eq_some hentry.2.1
  exact ⟨id, entry.name, hcore, hname⟩

theorem ObjectType.sound_of_isEmpty {table : Declarations} {object : ObjectType}
    (h : object.isEmpty = true) : object.Sound table := by
  simp only [ObjectType.isEmpty, Bool.and_eq_true, List.isEmpty_iff, beq_iff_eq] at h
  obtain ⟨⟨hfields, hkeys⟩, hextensions⟩ := h
  constructor <;> simp [hfields, hkeys, hextensions, ObjectType.acceptedNames]

namespace Arena

variable {table : Declarations} {arena : Arena}

/-- In a finished arena every object type that a type with a slot mentions has a slot. -/
theorem WellFormed.found_of_mentions (hwf : arena.WellFormed table []) (inner : Ty) {whole : Ty}
    (hcore : whole.core = inner.core) {id : DescriptorId} (hholds : arena.Holds id whole)
    {object : Nat} (hmentions : inner.Mentions object) :
    ∃ slot, arena.find? (.object object) = some slot := by
  induction inner generalizing whole id with
  | scalar scalarType => exact hmentions.elim
  | list element ih =>
      simp only [Holds, hcore, Ty.core] at hholds
      obtain ⟨below, hslot⟩ := hholds
      exact ih rfl (hwf.faithful hslot) hmentions
  | map kind element ih =>
      simp only [Holds, hcore, Ty.core] at hholds
      obtain ⟨below, hslot⟩ := hholds
      exact ih rfl (hwf.faithful hslot) hmentions
  | option inner ih => exact ih hcore hholds hmentions
  | box inner ih => exact ih hcore hholds hmentions
  | object other =>
      simp only [Holds, hcore, Ty.core] at hholds
      exact ⟨id, hmentions ▸ hholds⟩

/-- What stands in the slot of an object type of a finished arena: an object type that declares
nothing, or a shape. -/
theorem WellFormed.shape_of_found (hwf : arena.WellFormed table []) {object : Nat}
    {slot : DescriptorId} (h : arena.find? (.object object) = some slot) :
    (table.object object).isEmpty = true ∨
      ∃ shape, arena.slots[slot]? = some (some (.object shape)) ∧ shape.object = object := by
  rcases hwf.registered h with ⟨descriptor, hslot, hfits⟩ | ⟨hpending, -⟩
  · simp only [Descriptor.Fits, Ty.core] at hfits
    split at hfits
    · rename_i hempty
      exact .inl hempty
    · obtain ⟨shape, rfl, hobject⟩ := hfits
      exact .inr ⟨shape, hslot, hobject⟩
  · simp at hpending

theorem WellFormed.sound_of_found (hwf : arena.WellFormed table []) {object : Nat}
    {slot : DescriptorId} (h : arena.find? (.object object) = some slot) :
    (table.object object).Sound table := by
  rcases hwf.shape_of_found h with hempty | ⟨shape, hslot, rfl⟩
  · exact ObjectType.sound_of_isEmpty hempty
  · exact (hwf.faithful hslot).sound

theorem WellFormed.found_of_reaches (hwf : arena.WellFormed table []) {root : Ty}
    {id : DescriptorId} (hroot : arena.Holds id root) {object : Nat}
    (h : table.Reaches root object) : ∃ slot, arena.find? (.object object) = some slot := by
  induction h with
  | root hmentions => exact hwf.found_of_mentions root rfl hroot hmentions
  | @field owner object field _ hfield hmentions ih =>
      obtain ⟨slot, hslot⟩ := ih
      rcases hwf.shape_of_found hslot with hempty | ⟨shape, hshape, rfl⟩
      · simp only [ObjectType.isEmpty, Bool.and_eq_true, List.isEmpty_iff] at hempty
        simp [hempty.1.1] at hfield
      · obtain ⟨entry, -, hentry⟩ := exists_right_of_forall₂ (hwf.faithful hshape).fields hfield
        exact hwf.found_of_mentions field.type rfl hentry.2.2 hmentions
  | @extension owner object type _ htype hmentions ih =>
      obtain ⟨slot, hslot⟩ := ih
      rcases hwf.shape_of_found hslot with hempty | ⟨shape, hshape, rfl⟩
      · simp only [ObjectType.isEmpty, Bool.and_eq_true, List.isEmpty_iff] at hempty
        simp [hempty.2] at htype
      · obtain ⟨entry, -, hentry⟩ := exists_right_of_forall₂ (hwf.faithful hshape).extensions htype
        exact hwf.found_of_mentions type rfl hentry.2.2 hmentions

end Arena

/-- A type with a schema: every reachable object type keeps to the rules. -/
theorem Schema.sound_of_derive {table : Declarations} {root : Ty} {schema : Schema}
    (h : Schema.derive table root = .ok schema) {object : Nat} (hobject : table.Reaches root object) :
    (table.object object).Sound table := by
  have hderived := Schema.derived table root
  rw [h] at hderived
  cases hderived with
  | finished hwf hholds _ =>
      obtain ⟨slot, hslot⟩ := hwf.found_of_reaches hholds hobject
      exact hwf.sound_of_found hslot

/-- A type has no schema exactly when a reachable object type breaks a rule, and then the error is a
schema error that names such an object type. -/
theorem Schema.derive_fails_iff (table : Declarations) (root : Ty) :
    ((∃ fault, Schema.derive table root = .error fault) ↔
      ∃ id, table.Reaches root id ∧ ¬(table.object id).Sound table) ∧
    ∀ fault, Schema.derive table root = .error fault →
      ∃ id message, fault.toError = .invalidSchema (table.object id).name message ∧
        table.Reaches root id ∧ ¬(table.object id).Sound table := by
  constructor
  · constructor
    · rintro ⟨fault, h⟩
      obtain ⟨id, hid, -, hbreaks⟩ := Schema.derive_blamed h
      exact ⟨id, hid, hbreaks.not_sound⟩
    · rintro ⟨id, hid, hbroken⟩
      cases h : Schema.derive table root with
      | error fault => exact ⟨fault, rfl⟩
      | ok schema => exact absurd (Schema.sound_of_derive h hid) hbroken
  · intro fault h
    obtain ⟨id, hid, hname, hbreaks⟩ := Schema.derive_blamed h
    exact ⟨id, fault.fault.message, by rw [SchemaFault.toError, hname], hid, hbreaks.not_sound⟩

/-- A broken declaration behind a cycle: the root is named again before the field that reaches the
type with two fields of one name. -/
def brokenBehindCycle : Declarations :=
  ⟨[⟨"A", none, [⟨"next", .option (.box (.object 1)), false⟩], 0, []⟩,
    ⟨"B", none, [⟨"back", .object 0, false⟩, ⟨"bad", .list (.object 2), true⟩], 0, []⟩,
    ⟨"C", none, [⟨"x", .scalar .int, false⟩, ⟨"x", .scalar .string, false⟩], 0, []⟩]⟩

/-- The records of the catalogue that break a rule, each in another way. -/
def brokenRecords : List (String × DeclarationFault) :=
  [("BadCollection", .notCollection "port" "Integer"), ("TwoKeys", .repeatedKey),
    ("ScalarExtension", .extensionNotObject "Integer"),
    ("UnnamedExtension", .extensionUnnamed "Listener"),
    ("ClaimsFieldName", .extensionCollision "size"),
    ("ClaimsNameTwice", .extensionCollision "member")]

theorem brokenBehindCycle_derive :
    Schema.derive brokenBehindCycle (.object 0) = .error ⟨"C", .repeatedField "x"⟩ ∧
      (∃ id message, (⟨"C", .repeatedField "x"⟩ : SchemaFault).toError
          = .invalidSchema (brokenBehindCycle.object id).name message ∧
        brokenBehindCycle.Reaches (.object 0) id ∧
          ¬(brokenBehindCycle.object id).Sound brokenBehindCycle) ∧
      ∀ broken ∈ brokenRecords, ∃ root,
        Catalogue.find? broken.1 = some root ∧
        Schema.derive (Catalogue.table []) (.object root) = .error ⟨broken.1, broken.2⟩ ∧
        ∃ id, (Catalogue.table []).Reaches (.object root) id ∧
          ¬((Catalogue.table []).object id).Sound (Catalogue.table []) := by
  refine ⟨rfl, (Schema.derive_fails_iff brokenBehindCycle (.object 0)).2 _ rfl, ?_⟩
  intro broken hbroken
  obtain ⟨root, hroot, hfails⟩ : ∃ root, Catalogue.find? broken.1 = some root ∧
      Schema.derive (Catalogue.table []) (.object root) = .error ⟨broken.1, broken.2⟩ := by
    revert broken
    simp only [brokenRecords, List.forall_mem_cons]
    exact ⟨⟨_, rfl, rfl⟩, ⟨_, rfl, rfl⟩, ⟨_, rfl, rfl⟩, ⟨_, rfl, rfl⟩, ⟨_, rfl, rfl⟩,
      ⟨_, rfl, rfl⟩, List.forall_mem_nil _⟩
  exact ⟨root, hroot, hfails,
    (Schema.derive_fails_iff (Catalogue.table []) (.object root)).1.mp ⟨_, hfails⟩⟩

end TypedConfig
