import TypedConfig.Proofs.Binding

/-!
Two tables of object types that differ in the types of their slots alone.  As long as corresponding
types are scalars, lists, maps of one kind, or the same object type, whatever their wrappers are,
the walk over the declarations takes the same course for both.  The slots of their scalars and
containers may be shared differently; only whether an object type has a slot already has a say in
the walk.
-/

namespace TypedConfig

section Results

variable {ε α β γ δ : Type} {strict : Prop} {answers : α → β → Prop}

/-- A result is matched by another: what it answers is answered there too, by something that
corresponds to it.  If the match is strict, they also fail in the same way. -/
def Matched (strict : Prop) (answers : α → β → Prop) (result : Except ε α) (other : Except ε β) :
    Prop :=
  match result with
  | .ok answer => ∃ found, other = .ok found ∧ answers answer found
  | .error fault => strict → other = .error fault

theorem Matched.ok {answer : α} {found : β} (h : answers answer found) :
    Matched strict answers (.ok answer : Except ε α) (.ok found) :=
  ⟨found, rfl, h⟩

theorem Matched.fail {fault : ε} {other : Except ε β} (h : strict → other = .error fault) :
    Matched strict answers (.error fault) other :=
  h

theorem Matched.same (result : Except ε α) : Matched strict Eq result result := by
  cases result with
  | error fault => exact .fail fun _ => rfl
  | ok answer => exact .ok rfl

theorem Matched.bind {result : Except ε α} {other : Except ε β} {next : α → Except ε γ}
    {next' : β → Except ε δ} {answers' : γ → δ → Prop} (h : Matched strict answers result other)
    (hnext : ∀ answer found, answers answer found →
      Matched strict answers' (next answer) (next' found)) :
    Matched strict answers' (result >>= next) (other >>= next') := by
  cases result with
  | error fault => exact .fail fun hstrict => by rw [h hstrict]; rfl
  | ok answer =>
      obtain ⟨found, rfl, hanswer⟩ := h
      exact hnext answer found hanswer

theorem Matched.map {result : Except ε α} {other : Except ε β} {f : α → γ} {g : β → δ}
    {answers' : γ → δ → Prop} (h : Matched strict answers result other)
    (hmade : ∀ answer found, answers answer found → answers' (f answer) (g found)) :
    Matched strict answers' (result.map f) (other.map g) := by
  cases result with
  | error fault => exact .fail fun hstrict => by rw [h hstrict]; rfl
  | ok answer =>
      obtain ⟨found, rfl, hanswer⟩ := h
      exact .ok (hmade answer found hanswer)

theorem Matched.mapError {η : Type} {result : Except ε α} {other : Except ε β} (f : ε → η)
    (h : Matched strict answers result other) :
    Matched strict answers (result.mapError f) (other.mapError f) := by
  cases result with
  | error fault => exact .fail fun hstrict => by rw [h hstrict]; rfl
  | ok answer =>
      obtain ⟨found, rfl, hanswer⟩ := h
      exact .ok hanswer

theorem Matched.mapM {xs : List γ} {f : γ → Except ε α} {g : γ → Except ε β}
    (h : ∀ x ∈ xs, Matched strict answers (f x) (g x)) :
    Matched strict (List.Forall₂ answers) (xs.mapM f) (xs.mapM g) := by
  induction xs with
  | nil => exact .ok .nil
  | cons x rest ih =>
      obtain ⟨hx, hrest⟩ := List.forall_mem_cons.mp h
      rw [List.mapM_cons, List.mapM_cons]
      exact hx.bind fun _ _ hanswer => (ih hrest).bind fun _ _ hmore => .ok (.cons hanswer hmore)

end Results

/-- Two types of one form: scalars, lists, maps of one kind, or an object type. -/
inductive Ty.SameForm (relation : Ty → Ty → Prop) : Ty → Ty → Prop
  | scalar {type other : ScalarType} : relation (.scalar type) (.scalar other) →
      SameForm relation (.scalar type) (.scalar other)
  | list {element other : Ty} : relation element other →
      SameForm relation (.list element) (.list other)
  | map {kind : MapKind} {element other : Ty} : relation element other →
      SameForm relation (.map kind element) (.map kind other)
  | object (id : Nat) : SameForm relation (.object id) (.object id)

/-- A relation of types that keeps their forms, whatever the wrappers are. -/
def Ty.KeepsForm (relation : Ty → Ty → Prop) : Prop :=
  ∀ {type other : Ty}, relation type other → SameForm relation type.core other.core

/-- Two fields that differ in their types alone. -/
structure FieldSlot.Retyped (relation : Ty → Ty → Prop) (slot other : FieldSlot) : Prop where
  name : slot.name = other.name
  type : relation slot.type other.type
  collection : slot.collection = other.collection

/-- Two object types that differ in the types of their slots alone. -/
structure ObjectType.Retyped (relation : Ty → Ty → Prop) (object other : ObjectType) : Prop where
  name : object.name = other.name
  extensionName : object.extensionName = other.extensionName
  fields : List.Forall₂ (FieldSlot.Retyped relation) object.fields other.fields
  keys : object.keys = other.keys
  extensions : List.Forall₂ relation object.extensions other.extensions

/-- Two tables of object types that differ in the types of the slots alone. -/
def Declarations.Retyped (relation : Ty → Ty → Prop) (table other : Declarations) : Prop :=
  List.Forall₂ (ObjectType.Retyped relation) table.objects other.objects

section Tables

variable {relation : Ty → Ty → Prop} {table other : Declarations}

theorem Declarations.Retyped.object (h : table.Retyped relation other) (id : Nat) :
    (table.object id).Retyped relation (other.object id) := by
  unfold Declarations.object
  unfold Declarations.Retyped at h
  generalize table.objects = objects at h ⊢
  generalize other.objects = others at h ⊢
  induction h generalizing id with
  | nil => exact ⟨rfl, rfl, .nil, rfl, .nil⟩
  | cons hobject _ ih =>
      cases id with
      | zero => exact hobject
      | succ id => exact ih id

theorem Ty.KeepsForm.isCollection_eq (hform : KeepsForm relation) {type type' : Ty}
    (h : relation type type') : type.isCollection = type'.isCollection := by
  have hcores := hform h
  unfold Ty.isCollection
  generalize type.core = core at hcores
  generalize type'.core = core' at hcores
  cases hcores <;> rfl

theorem ObjectType.Retyped.isEmpty_eq {object object' : ObjectType}
    (h : object.Retyped relation object') : object.isEmpty = object'.isEmpty := by
  have hlists : ∀ {α : Type} {relation : α → α → Prop} {xs ys : List α},
      List.Forall₂ relation xs ys → xs.isEmpty = ys.isEmpty := by
    intro α relation xs ys h
    cases h <;> rfl
  rw [isEmpty, isEmpty, hlists h.fields, h.keys, hlists h.extensions]

theorem Ty.KeepsForm.extensionNameOf?_eq (hform : KeepsForm relation)
    (htable : table.Retyped relation other)
    {type type' : Ty} (h : relation type type') :
    ObjectType.extensionNameOf? table type = ObjectType.extensionNameOf? other type' := by
  have hcores := hform h
  unfold ObjectType.extensionNameOf?
  generalize type.core = core at hcores
  generalize type'.core = core' at hcores
  cases hcores with
  | object id => exact (htable.object id).extensionName
  | _ => rfl

/-- The retyped object accepts the same names. -/
theorem ObjectType.Retyped.acceptedNames_eq {object object' : ObjectType}
    (h : object.Retyped relation object') (hform : Ty.KeepsForm relation)
    (htable : table.Retyped relation other) :
    object.acceptedNames table = object'.acceptedNames other := by
  have hfields : object.fields.map FieldSlot.name = object'.fields.map FieldSlot.name := by
    rw [← List.forall₂_eq_eq_eq, List.forall₂_map_left_iff, List.forall₂_map_right_iff]
    exact h.fields.imp fun _ _ hslot => hslot.name
  have hextensions : object.extensions.filterMap (ObjectType.extensionNameOf? table)
      = object'.extensions.filterMap (ObjectType.extensionNameOf? other) := by
    have hlists := h.extensions
    generalize object.extensions = types at hlists
    generalize object'.extensions = types' at hlists
    induction hlists with
    | nil => rfl
    | cons htype _ ih =>
        simp only [List.filterMap_cons, hform.extensionNameOf?_eq htable htype, ih]
  rw [ObjectType.acceptedNames, ObjectType.acceptedNames, hfields, hextensions]

/-- A field or an extension that differs in its type alone. -/
inductive Acceptance.Retyped (relation : Ty → Ty → Prop) : Acceptance → Acceptance → Prop
  | field {type other : Ty} : relation type other → Retyped relation (.field type) (.field other)
  | extension {type other : Ty} : relation type other →
      Retyped relation (.extension type) (.extension other)

/-- The retyped object accepts a name in the same way, at the corresponding type. -/
theorem ObjectType.Retyped.accepts?_rel {object object' : ObjectType}
    (h : object.Retyped relation object') (hform : Ty.KeepsForm relation)
    (htable : table.Retyped relation other) (name : String) :
    Option.Rel (Acceptance.Retyped relation) (object.accepts? table name)
      (object'.accepts? other name) := by
  have hfields : Option.Rel (FieldSlot.Retyped relation)
      (object.fields.find? fun slot => slot.name == name)
      (object'.fields.find? fun slot => slot.name == name) :=
    Walk.find?_rel (fun slot slot' hslot => by rw [hslot.name]) h.fields
  have hextensions : Option.Rel relation
      (object.extensions.find? fun type => ObjectType.extensionNameOf? table type == some name)
      (object'.extensions.find? fun type => ObjectType.extensionNameOf? other type == some name) :=
    Walk.find?_rel (fun type type' htype => by rw [hform.extensionNameOf?_eq htable htype])
      h.extensions
  unfold ObjectType.accepts?
  generalize object.fields.find? _ = slot at hfields ⊢
  generalize object'.fields.find? _ = slot' at hfields ⊢
  cases hfields with
  | some hslot => exact .some (.field hslot.type)
  | none =>
      generalize object.extensions.find? _ = type at hextensions ⊢
      generalize object'.extensions.find? _ = type' at hextensions ⊢
      cases hextensions with
      | some htype => exact .some (.extension htype)
      | none => exact .none

end Tables

/-- Two arenas have slots for the same object types. -/
def Arena.SameObjects (arena other : Arena) : Prop :=
  ∀ id, (arena.find? (.object id)).isSome = (other.find? (.object id)).isSome

theorem Arena.SameObjects.found {arena other : Arena} (h : arena.SameObjects other) (id : Nat) :
    (∃ slot slot', arena.find? (.object id) = some slot ∧ other.find? (.object id) = some slot') ∨
      (arena.find? (.object id) = none ∧ other.find? (.object id) = none) := by
  have hid := h id
  cases hfind : arena.find? (.object id) <;> cases hfind' : other.find? (.object id) <;>
    simp_all

theorem Arena.SameObjects.reserve {arena other : Arena} (h : arena.SameObjects other) (id : Nat) :
    (arena.reserve (.object id)).2.SameObjects (other.reserve (.object id)).2 := by
  intro found
  rw [find?_reserve, find?_reserve]
  split
  · rfl
  · exact h found

namespace Derivation

variable {α β γ δ : Type} {strict : Prop} {answers : α → β → Prop}

/-- Two steps match on arenas that have slots for the same object types, and leave such arenas
behind. -/
def Matched (strict : Prop) (answers : α → β → Prop) (step : Derivation α) (other : Derivation β) :
    Prop :=
  ∀ arena arena' : Arena, arena.SameObjects arena' →
    TypedConfig.Matched strict
      (fun result found => answers result.1 found.1 ∧ result.2.SameObjects found.2)
      (step arena) (other arena')

theorem Matched.answer {answer : α} {found : β} (h : answers answer found) :
    Matched strict answers (pure answer) (pure found) :=
  fun _ _ hsame => .ok ⟨h, hsame⟩

theorem Matched.andThen {step : Derivation α} {other : Derivation β} {next : α → Derivation γ}
    {next' : β → Derivation δ} {answers' : γ → δ → Prop} (h : Matched strict answers step other)
    (hnext : ∀ answer found, answers answer found →
      Matched strict answers' (next answer) (next' found)) :
    Matched strict answers' (step >>= next) (other >>= next') := by
  intro arena arena' hsame
  exact (h arena arena' hsame).bind fun result found hresult =>
    hnext result.1 found.1 hresult.1 result.2 found.2 hresult.2

theorem Matched.check {broken broken' : Prop} [Decidable broken] [Decidable broken']
    {fault fault' : SchemaFault} {next : Unit → Derivation α} {next' : Unit → Derivation β}
    (hbroken : broken ↔ broken') (hfault : strict → fault' = fault)
    (hnext : Matched strict answers (next ()) (next' ())) :
    Matched strict answers (if broken then throw fault >>= next else next ())
      (if broken' then throw fault' >>= next' else next' ()) := by
  by_cases h : broken
  · rw [if_pos h, if_pos (hbroken.mp h)]
    exact fun _ _ _ => .fail fun hstrict => by rw [hfault hstrict]; rfl
  · rw [if_neg h, if_neg (mt hbroken.mpr h)]
    exact hnext

theorem Matched.lifted {result : Except SchemaFault α} {found : Except SchemaFault β}
    {next : α → Derivation γ} {next' : β → Derivation δ} {answers' : γ → δ → Prop}
    (h : TypedConfig.Matched strict answers result found)
    (hnext : ∀ answer found, answers answer found →
      Matched strict answers' (next answer) (next' found)) :
    Matched strict answers' ((liftM result : Derivation α) >>= next)
      ((liftM found : Derivation β) >>= next') := by
  cases result with
  | error fault => exact fun _ _ _ => .fail fun hstrict => by rw [h hstrict]; rfl
  | ok answer =>
      obtain ⟨other, rfl, hanswer⟩ := h
      exact hnext answer other hanswer

/-- A scalar type always has a slot, and getting one for it does not touch those of object types. -/
theorem scalar_eq_ok {type : Ty} {scalarType : ScalarType} (hcore : type.core = .scalar scalarType)
    (arena : Arena) : ∃ slot later, scalar type arena = .ok (slot, later) ∧
      ∀ id, later.find? (.object id) = arena.find? (.object id) := by
  unfold scalar
  cases arena.find? type with
  | some slot => exact ⟨slot, arena, rfl, fun _ => rfl⟩
  | none =>
      refine ⟨_, _, rfl, fun id => ?_⟩
      have hne : type ≠ .object id := by
        rintro rfl
        cases hcore
      exact (Arena.find?_reserve arena type _).trans (if_neg hne)

theorem type_core (object : Nat → Derivation DescriptorId) (whole inner : Ty) :
    type object whole inner.core = type object whole inner := by
  induction inner with
  | option inner ih => exact ih
  | box inner ih => exact ih
  | _ => rfl

section Steps

variable {relation : Ty → Ty → Prop} {table other : Declarations}
  {object object' : Nat → Derivation DescriptorId}

theorem type_matched (hform : Ty.KeepsForm relation)
    (hobject : ∀ id, Matched strict (fun _ _ => True) (object id) (object' id)) (inner : Ty)
    {inner' whole whole' : Ty} (hinner : Ty.SameForm relation inner.core inner'.core)
    (hwhole : whole.core = inner.core) (hwhole' : whole'.core = inner'.core) :
    Matched strict (fun _ _ => True) (type object whole inner) (type object' whole' inner') := by
  induction inner generalizing inner' whole whole' with
  | option inner ih => exact ih hinner hwhole hwhole'
  | box inner ih => exact ih hinner hwhole hwhole'
  | scalar scalarType =>
      -- The wrappers of the other type may be different ones, so it is replaced by its core.
      rw [← type_core object' whole' inner']
      generalize inner'.core = core' at hinner hwhole'
      cases hinner with
      | scalar _ =>
          intro arena arena' hsame
          obtain ⟨slot, later, hrun, hkept⟩ := scalar_eq_ok hwhole arena
          obtain ⟨slot', later', hrun', hkept'⟩ := scalar_eq_ok hwhole' arena'
          rw [type, type, hrun, hrun']
          exact .ok ⟨trivial, fun id => by rw [hkept, hkept']; exact hsame id⟩
  | list element ih =>
      rw [← type_core object' whole' inner']
      generalize inner'.core = core' at hinner hwhole'
      cases hinner with
      | list helement =>
          exact (ih (hform helement) rfl rfl).andThen fun _ _ _ _ _ hsame => .ok ⟨trivial, hsame⟩
  | map kind element ih =>
      rw [← type_core object' whole' inner']
      generalize inner'.core = core' at hinner hwhole'
      cases hinner with
      | map helement =>
          exact (ih (hform helement) rfl rfl).andThen fun _ _ _ _ _ hsame => .ok ⟨trivial, hsame⟩
  | object id =>
      rw [← type_core object' whole' inner']
      generalize inner'.core = core' at hinner hwhole'
      cases hinner with
      | object => exact hobject id

/-- Whether a name is taken depends only on the names. -/
theorem any_name_congr {entries entries' : List Entry}
    (h : entries.map Entry.name = entries'.map Entry.name) (name : String) :
    (entries.any fun entry => entry.name == name) = entries'.any fun entry => entry.name == name := by
  have hany := congrArg (List.any · fun other => other == name) h
  simpa [List.any_map, Function.comp_def] using hany

variable (hform : Ty.KeepsForm relation)
  (hnames : strict → ∀ {type type' : Ty}, relation type type' → type'.name other = type.name table)

include hform hnames

theorem fields_matched
    (hobject : ∀ id, Matched strict (fun _ _ => True) (object id) (object' id)) (owner : String)
    {slots slots' : List FieldSlot} (hslots : List.Forall₂ (FieldSlot.Retyped relation) slots slots')
    {done done' : List Entry} (hdone : done.map Entry.name = done'.map Entry.name) :
    Matched strict (fun entries entries' => entries.map Entry.name = entries'.map Entry.name)
      (fields table object owner done slots) (fields other object' owner done' slots') := by
  induction hslots generalizing done done' with
  | nil => exact .answer hdone
  | @cons slot slot' _ _ hslot _ ih =>
      rw [fields, fields]
      refine .check (by rw [any_name_congr hdone, hslot.name]) (fun _ => by rw [hslot.name])
        (.check ?_ (fun hstrict => ?_) ?_)
      · rw [hslot.collection, hform.isCollection_eq hslot.type]
      · rw [hslot.name, hnames hstrict hslot.type]
      · refine .andThen (type_matched hform hobject _ (hform hslot.type) rfl rfl)
          fun id id' _ => ih ?_
        simp [hdone, hslot.name]

theorem extensionTarget_matched (htable : table.Retyped relation other) (owner : String)
    {type type' : Ty} (h : relation type type') :
    TypedConfig.Matched strict Eq (extensionTarget table owner type)
      (extensionTarget other owner type') := by
  have hcores := hform h
  unfold extensionTarget
  generalize type.core = core at hcores
  generalize type'.core = core' at hcores
  cases hcores with
  | object id =>
      dsimp only
      rw [(htable.object id).extensionName]
      cases (other.object id).extensionName with
      | some name => exact .ok rfl
      | none => exact .fail fun hstrict => by rw [hnames hstrict h]
  | _ => exact .fail fun hstrict => by rw [hnames hstrict h]

theorem extensions_matched (htable : table.Retyped relation other)
    (hobject : ∀ id, Matched strict (fun _ _ => True) (object id) (object' id)) (owner : String)
    {fields fields' : List Entry} (hfields : fields.map Entry.name = fields'.map Entry.name)
    {types types' : List Ty} (htypes : List.Forall₂ relation types types')
    {done done' : List Entry} (hdone : done.map Entry.name = done'.map Entry.name) :
    Matched strict (fun _ _ => True) (extensions table object owner fields done types)
      (extensions other object' owner fields' done' types') := by
  induction htypes generalizing done done' with
  | nil => exact .answer trivial
  | @cons type type' _ _ htype _ ih =>
      rw [extensions, extensions]
      refine .lifted (extensionTarget_matched hform hnames htable owner htype) ?_
      rintro target _ rfl
      have htaken : (fields ++ done).map Entry.name = (fields' ++ done').map Entry.name := by
        rw [List.map_append, List.map_append, hfields, hdone]
      refine .check (by rw [any_name_congr htaken]) (fun _ => rfl) ?_
      refine .andThen (hobject target.1) fun id id' _ => ih ?_
      simp [hdone]

theorem shape_matched (htable : table.Retyped relation other)
    (hobject : ∀ id, Matched strict (fun _ _ => True) (object id) (object' id)) (id : Nat) :
    Matched strict (fun _ _ => True) (shape table object id) (shape other object' id) := by
  have hid := htable.object id
  rw [shape, shape, hid.isEmpty_eq]
  cases (other.object id).isEmpty with
  | true => exact .answer trivial
  | false =>
      rw [hid.name]
      refine .andThen (fields_matched hform hnames hobject _ hid.fields rfl)
        fun fields fields' hfields => .check (by rw [hid.keys]) (fun _ => rfl) ?_
      refine .andThen (extensions_matched hform hnames htable hobject _ hfields hid.extensions rfl)
        fun extensions extensions' _ => .answer trivial

theorem object_matched (htable : table.Retyped relation other) (bound id : Nat) :
    Matched strict (fun _ _ => True) (Derivation.object table bound id)
      (Derivation.object other bound id) := by
  induction bound generalizing id with
  | zero =>
      intro arena arena' hsame
      rcases hsame.found id with ⟨slot, slot', hfind, hfind'⟩ | ⟨hnew, hnew'⟩
      · simp only [Derivation.object, hfind, hfind']
        exact .ok ⟨trivial, hsame⟩
      · simp only [Derivation.object, hnew, hnew']
        exact .ok ⟨trivial, hsame.reserve id⟩
  | succ bound ih =>
      intro arena arena' hsame
      rcases hsame.found id with ⟨slot, slot', hfind, hfind'⟩ | ⟨hnew, hnew'⟩
      · simp only [Derivation.object, hfind, hfind']
        exact .ok ⟨trivial, hsame⟩
      · rw [object_of_new bound hnew, object_of_new bound hnew']
        refine (shape_matched hform hnames htable ih id _ _ (hsame.reserve id)).map ?_
        exact fun _ _ hlater => ⟨trivial, hlater.2⟩

end Steps

end Derivation

/-- A type whose walk over the declarations ends without a fault has a schema. -/
theorem Schema.exists_derive_of_run {table : Declarations} {root : Ty}
    {result : DescriptorId × Arena}
    (h : Derivation.type (Derivation.object table (table.objects.length + 1)) root root Arena.empty
      = .ok result) : ∃ schema, Schema.derive table root = .ok schema := by
  have hderived := Schema.derived table root
  cases hderive : Schema.derive table root with
  | ok schema => exact ⟨schema, rfl⟩
  | error fault =>
      rw [hderive] at hderived
      cases hderived with
      | stopped hrun => simp [h] at hrun

theorem Schema.derive_of_fault {table : Declarations} {root : Ty} {fault : SchemaFault}
    (h : Derivation.type (Derivation.object table (table.objects.length + 1)) root root Arena.empty
      = .error fault) : Schema.derive table root = .error fault := by
  unfold Schema.derive
  simp only [h, bind, Except.bind]

/-- If a type has a schema, so has the type that corresponds to it; and if the match is strict, both
lack one for the same fault otherwise. -/
theorem Schema.derive_matched {strict : Prop} {relation : Ty → Ty → Prop}
    {table other : Declarations}
    (hform : Ty.KeepsForm relation) (htable : table.Retyped relation other)
    (hnames : strict → ∀ {type type' : Ty}, relation type type' → type'.name other = type.name table)
    {root root' : Ty} (hroot : relation root root') :
    Matched strict
      (fun schema schema' => derive table root = .ok schema ∧ derive other root' = .ok schema')
      (derive table root) (derive other root') := by
  have hbound : other.objects.length = table.objects.length := htable.length_eq.symm
  have hruns := Derivation.type_matched hform
    (Derivation.object_matched hform hnames htable (table.objects.length + 1)) root (hform hroot) rfl
    rfl Arena.empty Arena.empty fun _ => rfl
  cases hrun : Derivation.type (Derivation.object table (table.objects.length + 1)) root root
      Arena.empty with
  | error fault =>
      rw [hrun] at hruns
      rw [derive_of_fault hrun]
      refine .fail fun hstrict => derive_of_fault ?_
      rw [hbound]
      exact hruns hstrict
  | ok result =>
      rw [hrun] at hruns
      obtain ⟨result', hrun', -⟩ := hruns
      rw [← hbound] at hrun'
      obtain ⟨schema, hschema⟩ := exists_derive_of_run hrun
      obtain ⟨schema', hschema'⟩ := exists_derive_of_run hrun'
      rw [hschema, hschema']
      exact .ok ⟨rfl, rfl⟩

end TypedConfig
