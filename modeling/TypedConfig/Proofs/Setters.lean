import TypedConfig.Proofs.Origin

/-!
The setters of a schema forget the types of what they are called with: any value may be given as the
target, and any value as the argument.  Here the walk calls them that way, and halts when a target
is no instance of the object type to which the setter belongs, or when a dictionary or an array is
refused that was bound already.  Along the schema of a type it never halts.
-/

namespace TypedConfig

/-- A setter: the object type to which it belongs, the type of its argument and the call that it
makes. -/
structure Setter where
  owner : Nat
  type : Ty
  made : Bound → Call Bound

/-- Why a setter fails. -/
inductive SetterFault where
  | foreignTarget
  | refusedArgument (mismatch : Mismatch)

/-- Calls a setter on a target: an instance of its owner, to which the converted argument is set. -/
def Setter.set (table : Declarations) (setter : Setter) (target argument : Value) :
    Except SetterFault Value :=
  match target with
  | .sealed name (.object id) (.object object calls) =>
    if id = setter.owner then
      match setter.type.convert table argument with
      | .ok bound =>
        .ok (.sealed name (.object id) (.object object (calls ++ [setter.made bound])))
      | .error mismatch => .error (.refusedArgument mismatch)
    else .error .foreignTarget
  | _ => .error .foreignTarget

/-- How a walk that calls setters ends early: with an error, or because a setter failed that should
not. -/
inductive Halt where
  | failed (error : ConfigError)
  | foreignTarget
  | refusedContainer

/-- A step of a walk that calls setters. -/
abbrev SetterWalk := StateT Stacks (Except Halt)

namespace SetterWalk

open Steps (bind_apply pure_apply)

/-- A step that calls no setter. -/
def plain {α : Type} (step : Walk α) : SetterWalk α := fun state => (step state).mapError .failed

/-- Calls a setter on the innermost container, with the value of a node. -/
def set (table : Declarations) (setter : Setter) (argument : Value) (node : Node) :
    SetterWalk Unit := fun state =>
  match state.containers with
  | [] => .error .foreignTarget
  | target :: rest =>
    match setter.set table target argument with
    | .ok changed => .ok ((), ⟨state.expected, changed :: rest⟩)
    | .error .foreignTarget => .error .foreignTarget
    | .error (.refusedArgument mismatch) =>
      match node with
      | .literal leaf => .error (.failed (mismatch.toError leaf.span))
      | _ => .error .refusedContainer

/-- Tells an object the name under which its dictionary stands. -/
def setKey (table : Declarations) (shape : ObjectShape) (key : Option String) (node : Node) :
    SetterWalk Unit :=
  match key with
  | some name =>
    if shape.hasKey then
      set table ⟨shape.object, .scalar .string, fun _ => .key name⟩ (.scalar (.string name)) node
    else pure ()
  | none => pure ()

mutual

/-- Visits a node; `key` is the name of the field or entry whose value it is. -/
def visit (schema : Schema) (key : Option String) : Node → SetterWalk Value
  | .dictionary fields span => do
    match ← plain (Walk.openDictionary schema none span) with
    | .object shape =>
      setKey schema.table shape key (.dictionary fields span)
      visitFields schema shape fields
    | .map element descriptor => visitEntries schema element descriptor fields
    plain (Walk.closeContainer span)
  | .array items span => do
    let element ← plain (Walk.openArray schema span)
    visitItems schema element items
    plain Walk.unexpect
    plain (Walk.closeContainer span)
  | .literal leaf => plain (Walk.visit schema key (.literal leaf))

def visitFields (schema : Schema) (shape : ObjectShape) : List (Field Node) → SetterWalk Unit
  | [] => pure ()
  | ⟨name, node, _⟩ :: rest => do
    let (entry, made) ← plain (Walk.resolve shape name)
    plain (Walk.expect entry.descriptor)
    let value ← visit schema (some name.name) node
    plain Walk.unexpect
    set schema.table ⟨shape.object, entry.type, made⟩ value node
    visitFields schema shape rest

def visitEntries (schema : Schema) (element : Ty) (descriptor : DescriptorId) :
    List (Field Node) → SetterWalk Unit
  | [] => pure ()
  | ⟨name, node, span⟩ :: rest => do
    plain (Walk.expect descriptor)
    let value ← visit schema (some name.name) node
    plain Walk.unexpect
    let converted ← plain (Walk.convertAt (element.convertSealed schema.table value) node.span)
    plain (Walk.putEntry name.name converted span)
    visitEntries schema element descriptor rest

def visitItems (schema : Schema) (element : Ty) : List Node → SetterWalk Unit
  | [] => pure ()
  | item :: rest => do
    let value ← visit schema none item
    let converted ← plain (Walk.convertAt (element.convertSealed schema.table value) item.span)
    plain (Walk.appendItem converted item.span)
    visitItems schema element rest

end

variable {α β : Type} {schema : Schema}

/-- Two steps that agree, each followed by steps that agree on what it leaves behind. -/
theorem bind_plain {step : SetterWalk α} {next : α → SetterWalk β} {walk : Walk α}
    {onward : α → Walk β} {state : Stacks} (hstep : step state = plain walk state)
    (hnext : ∀ answer later, walk state = .ok (answer, later) →
      next answer later = plain (onward answer) later) :
    (step >>= next) state = plain (walk >>= onward) state := by
  rw [bind_apply, hstep]
  unfold plain
  rw [bind_apply]
  cases hwalk : walk state with
  | error error => rfl
  | ok result => exact hnext result.1 result.2 hwalk

/-- Calling the setters of a node halts nowhere, wherever a descriptor of a type is expected. -/
def NeverHalts (schema : Schema) (node : Node) : Prop :=
  ∀ (type : Ty) (id : DescriptorId) (key : Option String) (expected : List DescriptorId)
    (containers : List Value), schema.Describes id type →
      visit schema key node ⟨id :: expected, containers⟩
        = plain (Walk.visit schema key node) ⟨id :: expected, containers⟩

theorem setKey_newObject (table : Declarations) (shape : ObjectShape) (key : Option String)
    (node : Node) (expected : List DescriptorId) (containers : List Value) :
    setKey table shape key node ⟨expected, Walk.newObject table shape none :: containers⟩
      = .ok ((), ⟨expected, Walk.newObject table shape key :: containers⟩) := by
  cases key with
  | none => rfl
  | some name =>
      simp only [setKey]
      split
      · rename_i hkey
        simp [set, Setter.set, Walk.newObject, Ty.convert, ScalarType.accept?, hkey]
      · rename_i hkey
        simp [pure_apply, Walk.newObject, hkey]

/-- A visit leaves the stacks as they were, and what it answers is converted to its type, unless the
node is a literal. -/
theorem visit_keeps (hschema : schema.Faithful) {type : Ty} {id : DescriptorId}
    (hdescribes : schema.Describes id type) {key : Option String} {node : Node}
    {expected : List DescriptorId} {containers : List Value} {value : Value} {later : Stacks}
    (h : Walk.visit schema key node ⟨id :: expected, containers⟩ = .ok (value, later)) :
    later = ⟨id :: expected, containers⟩ ∧
      ((∃ content, type.convert schema.table value = .ok content) ∨ ∃ leaf, node = .literal leaf) := by
  have hagrees := Walk.visit_agrees hschema node type id key expected containers hdescribes
  rw [h] at hagrees
  generalize Direct.node schema.table type key node = direct at hagrees
  cases hagrees with
  | @refused leaf _ _ _ => exact ⟨rfl, .inr ⟨leaf, rfl⟩⟩
  | @converted _ _ content hcontent => exact ⟨rfl, .inl ⟨content, hcontent⟩⟩

theorem set_plain {table : Declarations} {type : Ty} {value : Value} {node : Node}
    (hvalue : (∃ content, type.convert table value = .ok content) ∨ ∃ leaf, node = .literal leaf)
    (owner : Nat) (made : Bound → Call Bound) (span : Span) (expected : List DescriptorId)
    (name : String) (calls : List (Call Bound)) (containers : List Value) :
    set table ⟨owner, type, made⟩ value node
        ⟨expected, .sealed name (.object owner) (.object owner calls) :: containers⟩
      = plain (Walk.convertAt (type.convert table value) node.span >>= fun bound =>
          Walk.call (made bound) span)
          ⟨expected, .sealed name (.object owner) (.object owner calls) :: containers⟩ := by
  simp only [set, Setter.set, ↓reduceIte]
  cases hconvert : type.convert table value with
  | ok bound => rfl
  | error mismatch =>
      rcases hvalue with ⟨content, hcontent⟩ | ⟨leaf, rfl⟩
      · simp [hconvert] at hcontent
      · rfl

theorem visitFields_plain (hschema : schema.Faithful) {shape : ObjectShape}
    (hshape : shape.Faithful schema.table schema.Describes) {fields : List (Field Node)}
    (hfields : ∀ field ∈ fields, NeverHalts schema field.value) (expected : List DescriptorId)
    (typeName : String) (calls : List (Call Bound)) (containers : List Value) :
    visitFields schema shape fields
        ⟨expected, .sealed typeName (.object shape.object) (.object shape.object calls) :: containers⟩
      = plain (Walk.visitFields schema shape fields)
        ⟨expected, .sealed typeName (.object shape.object) (.object shape.object calls) :: containers⟩ := by
  induction fields generalizing calls with
  | nil => rfl
  | cons field rest ih =>
      obtain ⟨name, node, span⟩ := field
      obtain ⟨hnode, hrest⟩ := List.forall_mem_cons.mp hfields
      rw [visitFields, Walk.visitFields]
      refine bind_plain rfl fun resolved later hresolved => ?_
      obtain ⟨entry, made⟩ := resolved
      obtain ⟨hdescribes, rfl⟩ := Walk.resolve_describes hshape hresolved
      refine bind_plain rfl fun _ later hexpect => ?_
      cases hexpect
      refine bind_plain (hnode _ _ _ _ _ hdescribes) fun value later hvisit => ?_
      obtain ⟨rfl, hvalue⟩ := visit_keeps hschema hdescribes hvisit
      refine bind_plain rfl fun _ later hunexpect => ?_
      cases hunexpect
      rw [← bind_assoc]
      refine bind_plain (set_plain hvalue _ _ _ _ _ _ _) fun _ later hcall => ?_
      cases hconvert : entry.type.convert schema.table value with
      | error mismatch =>
          rw [hconvert] at hcall
          cases hcall
      | ok bound =>
          rw [hconvert] at hcall
          cases hcall
          exact ih hrest (calls ++ [made bound])

theorem convertAt_keeps {converted : Except Mismatch α} {span : Span} {answer : α}
    {state later : Stacks} (h : Walk.convertAt converted span state = .ok (answer, later)) :
    later = state := by
  cases converted with
  | error mismatch => cases h
  | ok value =>
      cases h
      rfl

theorem visitEntries_plain (hschema : schema.Faithful) {element : Ty} {id : DescriptorId}
    (helement : schema.Describes id element) {fields : List (Field Node)}
    (hfields : ∀ field ∈ fields, NeverHalts schema field.value) (expected : List DescriptorId)
    (done : List (String × Value)) (containers : List Value) :
    visitEntries schema element id fields ⟨expected, .map done :: containers⟩
      = plain (Walk.visitEntries schema element id fields) ⟨expected, .map done :: containers⟩ := by
  induction fields generalizing done with
  | nil => rfl
  | cons field rest ih =>
      obtain ⟨name, node, span⟩ := field
      obtain ⟨hnode, hrest⟩ := List.forall_mem_cons.mp hfields
      rw [visitEntries, Walk.visitEntries]
      refine bind_plain rfl fun _ later hexpect => ?_
      cases hexpect
      refine bind_plain (hnode _ _ _ _ _ helement) fun value later hvisit => ?_
      obtain ⟨rfl, -⟩ := visit_keeps hschema helement hvisit
      refine bind_plain rfl fun _ later hunexpect => ?_
      cases hunexpect
      refine bind_plain rfl fun converted later hconverted => ?_
      cases convertAt_keeps hconverted
      refine bind_plain rfl fun _ later hput => ?_
      cases hput
      exact ih hrest (Entries.put name.name converted done)

theorem visitItems_plain (hschema : schema.Faithful) {element : Ty} {id : DescriptorId}
    (helement : schema.Describes id element) {items : List Node}
    (hitems : ∀ item ∈ items, NeverHalts schema item) (expected : List DescriptorId)
    (done : List Value) (containers : List Value) :
    visitItems schema element items ⟨id :: expected, .list done :: containers⟩
      = plain (Walk.visitItems schema element items) ⟨id :: expected, .list done :: containers⟩ := by
  induction items generalizing done with
  | nil => rfl
  | cons item rest ih =>
      obtain ⟨hitem, hrest⟩ := List.forall_mem_cons.mp hitems
      rw [visitItems, Walk.visitItems]
      refine bind_plain (hitem _ _ _ _ _ helement) fun value later hvisit => ?_
      obtain ⟨rfl, -⟩ := visit_keeps hschema helement hvisit
      refine bind_plain rfl fun converted later hconverted => ?_
      cases convertAt_keeps hconverted
      refine bind_plain rfl fun _ later happend => ?_
      cases happend
      exact ih hrest (done ++ [converted])

theorem visit_array_plain (hschema : schema.Faithful) {items : List Node} (span : Span)
    (hitems : ∀ item ∈ items, NeverHalts schema item) : NeverHalts schema (.array items span) := by
  intro type id key expected containers hdescribes
  obtain ⟨descriptor, hslot, -⟩ := hdescribes
  rw [visit, Walk.visit]
  refine bind_plain rfl fun element later hopen => ?_
  rw [Walk.openArray, bind_apply, Walk.current_apply, Walk.descriptor_eq hslot] at hopen
  cases descriptor with
  | list whole found below =>
      cases hopen
      have helement : schema.Describes below element := hschema id _ hslot
      exact bind_plain (visitItems_plain hschema helement hitems _ _ _) fun _ _ _ => rfl
  | scalar whole => cases hopen
  | object shape => cases hopen
  | map whole found below => cases hopen

theorem visit_dictionary_plain (hschema : schema.Faithful) {fields : List (Field Node)}
    (span : Span) (hfields : ∀ field ∈ fields, NeverHalts schema field.value) :
    NeverHalts schema (.dictionary fields span) := by
  intro type id key expected containers hdescribes
  obtain ⟨descriptor, hslot, -⟩ := hdescribes
  rw [visit, Walk.visit, bind_apply]
  unfold plain
  rw [bind_apply, Walk.openDictionary, Walk.openDictionary, bind_apply, bind_apply,
    Walk.current_apply, Walk.descriptor_eq hslot]
  cases descriptor with
  | object shape =>
      have hshape : shape.Faithful schema.table schema.Describes := hschema id _ hslot
      change (setKey schema.table shape key (.dictionary fields span) >>= fun _ =>
          visitFields schema shape fields >>= fun _ => plain (Walk.closeContainer span))
          ⟨id :: expected, Walk.newObject schema.table shape none :: containers⟩
        = plain (Walk.visitFields schema shape fields >>= fun _ => Walk.closeContainer span)
          ⟨id :: expected, Walk.newObject schema.table shape key :: containers⟩
      rw [bind_apply, setKey_newObject, Walk.newObject_eq hshape key]
      exact bind_plain (visitFields_plain hschema hshape hfields _ _ _ _) fun _ _ _ => rfl
  | map whole element below =>
      have helement : schema.Describes below element := hschema id _ hslot
      exact bind_plain (visitEntries_plain hschema helement hfields _ _ _) fun _ _ _ => rfl
  | scalar whole => rfl
  | list whole found below => rfl

/-- Wherever a descriptor of a type is expected, calling the setters of a node halts nowhere. -/
theorem visit_plain (hschema : schema.Faithful) (node : Node) : NeverHalts schema node := by
  induction node with
  | dictionary fields span ih => exact visit_dictionary_plain hschema span ih
  | array items span ih => exact visit_array_plain hschema span ih
  | literal leaf =>
      intro type id key expected containers _
      rw [visit]

end SetterWalk

/-- The root container of a document, bound along a schema by calling its setters. -/
def Document.setValue (schema : Schema) (document : Document) : Except Halt Value :=
  (SetterWalk.visit schema none document.root ⟨[schema.root], []⟩).map Prod.fst

/-- Binding by calling the setters gives the container or the error that binding gives: no setter
fails otherwise. -/
theorem Document.setValue_eq {table : Declarations} {root : Ty} {schema : Schema}
    (h : Schema.derive table root = .ok schema) (document : Document) :
    document.setValue schema = (document.bindValue schema).mapError .failed := by
  obtain ⟨-, hfaithful, hroot⟩ := Schema.derive_faithful h
  have hplain := SetterWalk.visit_plain hfaithful document.root root schema.root none [] [] hroot
  rw [Document.setValue, hplain, Document.bindValue, SetterWalk.plain]
  cases Walk.visit schema none document.root ⟨[schema.root], []⟩ <;> rfl

/-!
Binding is type-safe, and a type mismatch blames the right place.  Once a document is bound along
the schema of a type, what was bound is of this type.  A value of the wrong type is always what a
literal stands for, met at the very place of the literal; a dictionary or an array is never refused
late.
-/

/-- A mismatch of types blames a literal of a tree: it names the type of what the literal stands for
and the type declared at its place, and points to it. -/
def Declarations.BlamesLiteral (table : Declarations) (root : Ty) (tree : Node)
    (actual expected : String) (position : Position) : Prop :=
  ∃ leaf type given, table.Stands root tree type (.literal leaf) ∧ leaf.value = .ok given ∧
    actual = given.typeName ∧ expected = type.name table ∧ position = leaf.span.position

/-- Whatever the type declared at the place of a node, a mismatch of types in it blames a literal.
-/
theorem Direct.node_blames {table : Declarations} {root : Ty} {tree : Node} (found : Node)
    (type : Ty)
    (key : Option String) (actual expected : String) (position : Position)
    (hplace : table.Stands root tree type found)
    (h : node table type key found = .error (.typeMismatch actual expected position)) :
    table.BlamesLiteral root tree actual expected position := by
  cases node_origin hplace h with
  | @literal type leaf _ hliteral herror =>
      rcases literal_error herror with ⟨fault, hfault⟩ | ⟨given, hvalue, hmismatch⟩
      · cases fault <;> cases hfault
      · cases hmismatch
        exact ⟨leaf, type, given, hliteral, hvalue, rfl, rfl, rfl⟩

/-- What a document is bound to is of the type whose schema it was bound along. -/
theorem Document.converts_of_bindValue {table : Declarations} {root : Ty} {schema : Schema}
    (h : Schema.derive table root = .ok schema) {document : Document} {value : Value}
    (hvalue : document.bindValue schema = .ok value) :
    ∃ content, root.convert table value = .ok content := by
  obtain ⟨rfl, hfaithful, hroot⟩ := Schema.derive_faithful h
  have hagrees := Walk.visit_agrees hfaithful document.root root schema.root none [] [] hroot
  rw [Document.bindValue] at hvalue
  generalize Walk.visit schema none document.root ⟨[schema.root], []⟩ = visited at hagrees hvalue
  generalize Direct.node schema.table root none document.root = direct at hagrees
  cases hagrees with
  | failed error => cases hvalue
  | @converted _ _ content hcontent =>
      cases hvalue
      exact ⟨content, hcontent⟩

/-- Binding along the schema of a type is type-safe: what a document is bound to converts to the
type, no setter fails on its target or on a container that was bound already, and a mismatch of
types blames a literal, with the type of what it stands for and the type declared at its place. -/
theorem Document.bind_typeSafe {table : Declarations} {root : Ty} {schema : Schema}
    (h : Schema.derive table root = .ok schema) (document : Document) :
    (∀ value, document.bindValue schema = .ok value →
      ∃ content, root.convert table value = .ok content) ∧
    document.setValue schema = (document.bindValue schema).mapError .failed ∧
    ∀ actual expected position,
      document.bind schema root = .error (.typeMismatch actual expected position) →
        table.BlamesLiteral root document.root actual expected position := by
  refine ⟨?_, Document.setValue_eq h document, ?_⟩
  · intro value hvalue
    exact Document.converts_of_bindValue h hvalue
  · intro actual expected position hbind
    rw [Document.bind_eq_node h] at hbind
    exact Direct.node_blames document.root root none actual expected position .root hbind

def portTable : Declarations :=
  ⟨[⟨"Server", none, [⟨"ports", .option (.map .sorted (.scalar .int)), true⟩], 0, []⟩]⟩

/-- A document with a truth value among the integers, at line 3 and column 11. -/
def misplacedFlag : Document :=
  let span : Span := ⟨0, 0, 1, 1⟩
  ⟨[⟨⟨"ports", span⟩,
    .dictionary [⟨⟨"http", span⟩, .literal ⟨.integer, "80", span⟩, span⟩,
      ⟨⟨"admin", span⟩, .literal ⟨.boolean, "true", ⟨28, 32, 3, 11⟩⟩, span⟩] span, span⟩], span⟩

theorem misplacedFlag_bind : ∃ schema,
    Schema.derive portTable (.object 0) = .ok schema ∧
      misplacedFlag.bind schema (.object 0) = .error (.typeMismatch "Boolean" "Integer" ⟨3, 11⟩) ∧
      portTable.BlamesLiteral (.object 0) misplacedFlag.root "Boolean" "Integer" ⟨3, 11⟩ :=
  ⟨_, rfl, rfl, (Document.bind_typeSafe rfl misplacedFlag).2.2 _ _ _ rfl⟩

end TypedConfig
