import Mathlib.Data.List.Infix
import TypedConfig.Proofs.Binding

/-!
The visits of a walk.  Here the walk notes every node that it visits, with what encloses the node
and with the stacks at that moment; forgetting the notes gives the walk again.  Whenever a node is
visited, there is one open container for each dictionary and each array around it, and the
descriptors expected are those of the node and of the containers around it.  So a walk never meets
an empty stack, and it leaves the stacks as it found them.
-/

namespace TypedConfig

/-- A container around a node, and which of its fields or items leads to the node. -/
structure Enclosure where
  container : Node
  index : Nat

/-- A visit of a node: what encloses the node, innermost first, and the stacks at that moment. -/
structure Visit where
  enclosing : List Enclosure
  node : Node
  state : Stacks

def Visit.place (visit : Visit) : List Enclosure × Node := (visit.enclosing, visit.node)

namespace Node

mutual

/-- The places of a node and of all nodes in it, in the order of the text. -/
def places (enclosing : List Enclosure) : Node → List (List Enclosure × Node)
  | .dictionary fields span =>
    (enclosing, .dictionary fields span)
      :: fieldPlaces (fun index => ⟨.dictionary fields span, index⟩ :: enclosing) 0 fields
  | .array items span =>
    (enclosing, .array items span)
      :: itemPlaces (fun index => ⟨.array items span, index⟩ :: enclosing) 0 items
  | .literal leaf => [(enclosing, .literal leaf)]

/-- The places in the values of some fields, the first of which has the number `index`. -/
def fieldPlaces (around : Nat → List Enclosure) (index : Nat) :
    List (Field Node) → List (List Enclosure × Node)
  | [] => []
  | ⟨_, value, _⟩ :: rest => places (around index) value ++ fieldPlaces around (index + 1) rest

def itemPlaces (around : Nat → List Enclosure) (index : Nat) :
    List Node → List (List Enclosure × Node)
  | [] => []
  | item :: rest => places (around index) item ++ itemPlaces around (index + 1) rest

end

def isDictionary : Node → Bool
  | .dictionary _ _ => true
  | _ => false

def isArray : Node → Bool
  | .array _ _ => true
  | _ => false

end Node

/-- A step of a walk that notes its visits, also those of a walk that fails later. -/
abbrev NotedWalk := StateT Stacks (ExceptT ConfigError (StateM (List Visit)))

namespace NotedWalk

variable {α β : Type}

/-- A step that visits nothing. -/
def plain (step : Walk α) : NotedWalk α := fun state visits => (step state, visits)

def note (enclosing : List Enclosure) (node : Node) : NotedWalk Unit := fun state visits =>
  (.ok ((), state), visits ++ [⟨enclosing, node, state⟩])

mutual

/-- Visits a node; `key` is the name of the field or entry whose value it is. -/
def visit (schema : Schema) (enclosing : List Enclosure) (key : Option String) :
    Node → NotedWalk Value
  | .dictionary fields span => do
    note enclosing (.dictionary fields span)
    match ← plain (Walk.openDictionary schema key span) with
    | .object shape =>
      visitFields schema (fun index => ⟨.dictionary fields span, index⟩ :: enclosing) shape 0 fields
    | .map element descriptor =>
      visitEntries schema (fun index => ⟨.dictionary fields span, index⟩ :: enclosing) element
        descriptor 0 fields
    plain (Walk.closeContainer span)
  | .array items span => do
    note enclosing (.array items span)
    let element ← plain (Walk.openArray schema span)
    visitItems schema (fun index => ⟨.array items span, index⟩ :: enclosing) element 0 items
    plain Walk.unexpect
    plain (Walk.closeContainer span)
  | .literal leaf => do
    note enclosing (.literal leaf)
    plain (Walk.visit schema key (.literal leaf))

/-- Visits the fields of an object, the first of which has the number `index`. -/
def visitFields (schema : Schema) (around : Nat → List Enclosure) (shape : ObjectShape)
    (index : Nat) : List (Field Node) → NotedWalk Unit
  | [] => pure ()
  | ⟨name, node, span⟩ :: rest => do
    let (entry, made) ← plain (Walk.resolve shape name)
    plain (Walk.expect entry.descriptor)
    let value ← visit schema (around index) (some name.name) node
    plain Walk.unexpect
    let bound ← plain (Walk.convertAt (entry.type.convert schema.table value) node.span)
    plain (Walk.call (made bound) span)
    visitFields schema around shape (index + 1) rest

def visitEntries (schema : Schema) (around : Nat → List Enclosure) (element : Ty)
    (descriptor : DescriptorId) (index : Nat) : List (Field Node) → NotedWalk Unit
  | [] => pure ()
  | ⟨name, node, span⟩ :: rest => do
    plain (Walk.expect descriptor)
    let value ← visit schema (around index) (some name.name) node
    plain Walk.unexpect
    let converted ← plain (Walk.convertAt (element.convertSealed schema.table value) node.span)
    plain (Walk.putEntry name.name converted span)
    visitEntries schema around element descriptor (index + 1) rest

def visitItems (schema : Schema) (around : Nat → List Enclosure) (element : Ty) (index : Nat) :
    List Node → NotedWalk Unit
  | [] => pure ()
  | item :: rest => do
    let value ← visit schema (around index) none item
    let converted ← plain (Walk.convertAt (element.convertSealed schema.table value) item.span)
    plain (Walk.appendItem converted item.span)
    visitItems schema around element (index + 1) rest

end

variable {schema : Schema}

theorem bind_of_ok {step : NotedWalk α} {next : α → NotedWalk β} {state later : Stacks}
    {visits more : List Visit} {answer : α}
    (h : step state visits = (.ok (answer, later), more)) :
    (step >>= next) state visits = next answer later more := by
  simp only [bind, StateT.bind, ExceptT.bind, ExceptT.mk, ExceptT.bindCont, h]

theorem bind_of_error {step : NotedWalk α} {next : α → NotedWalk β} {state : Stacks}
    {visits more : List Visit} {error : ConfigError}
    (h : step state visits = (.error error, more)) :
    (step >>= next) state visits = (.error error, more) := by
  simp only [bind, StateT.bind, ExceptT.bind, ExceptT.mk, ExceptT.bindCont, h]
  rfl

end NotedWalk

/-- The container that is open while a dictionary or an array is bound along a descriptor. -/
inductive Descriptor.Opens : Descriptor → Value → Prop
  | object {shape : ObjectShape} {name : String} {calls : List (Call Bound)} :
      Opens (.object shape) (.sealed name (.object shape.object) (.object shape.object calls))
  | map {type element : Ty} {below : DescriptorId} {entries : List (String × Value)} :
      Opens (.map type element below) (.map entries)
  | list {type element : Ty} {below : DescriptorId} {items : List Value} :
      Opens (.list type element below) (.list items)

/-- One container is open for each of some descriptors, of the kind that the descriptor says. -/
def Schema.OpenAlong (schema : Schema) : List DescriptorId → List Value → Prop :=
  List.Forall₂ fun id container => (schema.descriptor id).Opens container

/-- What a schema expects at the places of a tree: the descriptor of the node at the place and those
of the containers around it, innermost first. -/
inductive Schema.Leads (schema : Schema) (tree : Node) :
    List Enclosure → Node → List DescriptorId → Prop
  | root : Leads schema tree [] tree [schema.root]
  | field {enclosing : List Enclosure} {fields : List (Field Node)} {span : Span} {index : Nat}
      {field : Field Node} {id : DescriptorId} {outer : List DescriptorId} {shape : ObjectShape}
      {entry : Entry} :
      Leads schema tree enclosing (.dictionary fields span) (id :: outer) →
        schema.descriptors[id]? = some (.object shape) → fields[index]? = some field →
          (shape.field? field.name.name).or (shape.extension? field.name.name) = some entry →
            Leads schema tree (⟨.dictionary fields span, index⟩ :: enclosing) field.value
              (entry.descriptor :: id :: outer)
  | member {enclosing : List Enclosure} {fields : List (Field Node)} {span : Span} {index : Nat}
      {field : Field Node} {id below : DescriptorId} {outer : List DescriptorId}
      {type element : Ty} :
      Leads schema tree enclosing (.dictionary fields span) (id :: outer) →
        schema.descriptors[id]? = some (.map type element below) → fields[index]? = some field →
          Leads schema tree (⟨.dictionary fields span, index⟩ :: enclosing) field.value
            (below :: id :: outer)
  | item {enclosing : List Enclosure} {items : List Node} {span : Span} {index : Nat} {item : Node}
      {id below : DescriptorId} {outer : List DescriptorId} {type element : Ty} :
      Leads schema tree enclosing (.array items span) (id :: outer) →
        schema.descriptors[id]? = some (.list type element below) → items[index]? = some item →
          Leads schema tree (⟨.array items span, index⟩ :: enclosing) item (below :: id :: outer)

/-- The discipline of the stacks at a visit: the descriptors expected are that of the node, `id`,
and those of the containers around it, `outer`, one for each field value and each array around the
node; and for each container around it one is open, of the kind that its descriptor says. -/
structure Visit.Disciplined (schema : Schema) (tree : Node) (visit : Visit) (id : DescriptorId)
    (outer : List DescriptorId) : Prop where
  leads : schema.Leads tree visit.enclosing visit.node (id :: outer)
  inRange : ∃ descriptor, schema.descriptors[id]? = some descriptor
  expected : visit.state.expected = id :: outer
  height : visit.state.expected.length
    = 1 + visit.enclosing.countP (fun enclosure => enclosure.container.isDictionary)
      + visit.enclosing.countP (fun enclosure => enclosure.container.isArray)
  containers : schema.OpenAlong outer visit.state.containers
  depth : visit.state.containers.length = visit.enclosing.length

/-- An error that is not about an empty stack. -/
def ConfigError.Balanced (error : ConfigError) : Prop :=
  ∀ expected position, error ≠ .structure "an empty value stack" expected position

theorem ConfigError.balanced_structure {found : String} (hfound : found ≠ "an empty value stack")
    (expected : String) (position : Position) :
    (ConfigError.structure found expected position).Balanced := by
  rintro _ _ heq
  exact hfound (ConfigError.structure.inj heq).1

theorem Mismatch.balanced (mismatch : Mismatch) (span : Span) :
    (mismatch.toError span).Balanced := by
  intro expected position h
  cases h

/-- A literal that cannot be decoded is not about an empty stack. -/
theorem Literal.balanced_of_value {leaf : Literal} {error : ConfigError}
    (h : leaf.value = .error error) : error.Balanced := by
  unfold Literal.value at h
  cases hdecode : Literal.decode leaf with
  | ok given =>
      rw [hdecode] at h
      cases h
  | error fault =>
      rw [hdecode] at h
      cases h
      cases fault <;> simp [DecodeError.toError, ConfigError.Balanced]

section Leads

variable {schema : Schema} {tree node : Node} {enclosing : List Enclosure} {ids : List DescriptorId}

theorem Schema.Leads.length_eq (h : schema.Leads tree enclosing node ids) :
    ids.length = 1 + enclosing.length := by
  induction h with
  | root => rfl
  | field _ _ _ _ ih => simp_all [Nat.add_comm]
  | member _ _ _ ih => simp_all [Nat.add_comm]
  | item _ _ _ ih => simp_all [Nat.add_comm]

/-- Every container around a node is a dictionary or an array. -/
theorem Schema.Leads.countP_add_countP (h : schema.Leads tree enclosing node ids) :
    enclosing.countP (fun enclosure => enclosure.container.isDictionary)
      + enclosing.countP (fun enclosure => enclosure.container.isArray) = enclosing.length := by
  induction h with
  | root => rfl
  | field _ _ _ _ ih => simp [Node.isDictionary, Node.isArray, ← ih]; omega
  | member _ _ _ ih => simp [Node.isDictionary, Node.isArray, ← ih]; omega
  | item _ _ _ ih => simp [Node.isDictionary, Node.isArray, ← ih]; omega

theorem Schema.Leads.disciplined {id : DescriptorId} {outer : List DescriptorId}
    {containers : List Value} (h : schema.Leads tree enclosing node (id :: outer))
    (hdescribes : ∃ type, schema.Describes id type)
    (hopen : schema.OpenAlong outer containers) :
    Visit.Disciplined schema tree ⟨enclosing, node, ⟨id :: outer, containers⟩⟩ id outer := by
  have hlength := h.length_eq
  have hcount := h.countP_add_countP
  obtain ⟨type, descriptor, hdescriptor, -⟩ := hdescribes
  refine ⟨h, ⟨descriptor, hdescriptor⟩, rfl, ?_, hopen, ?_⟩
  · rw [Nat.add_assoc, hcount, ← hlength]
  · rw [← hopen.length_eq]
    simpa [Nat.add_comm] using hlength

end Leads

namespace NotedWalk

variable {α β : Type} {schema : Schema} {tree : Node} {good : Visit → Prop} {state : Stacks}

/-- A noted step does what a step of the walk does.  All visits that it notes are good ones; they
are visits of the given places, up to where the step fails.  What it answers, and the stacks that it
leaves behind, satisfy `post`, and it never fails for an empty stack. -/
def Follows (good : Visit → Prop) (state : Stacks) (places : List (List Enclosure × Node))
    (noted : NotedWalk α) (walk : Walk α) (post : α → Stacks → Prop) : Prop :=
  ∀ visits, ∃ seen, noted state visits = (walk state, visits ++ seen) ∧
    (∀ visit ∈ seen, good visit) ∧
      match walk state with
      | .ok (answer, later) => seen.map Visit.place = places ∧ post answer later
      | .error error => seen.map Visit.place <+: places ∧ error.Balanced

theorem Follows.plain {walk : Walk α} {post : α → Stacks → Prop}
    (h : match walk state with
      | .ok (answer, later) => post answer later
      | .error error => error.Balanced) :
    Follows good state [] (plain walk) walk post := by
  intro visits
  refine ⟨[], by simp [NotedWalk.plain], by simp, ?_⟩
  generalize walk state = result at h ⊢
  match result with
  | .ok (answer, later) => exact ⟨rfl, h⟩
  | .error error => exact ⟨List.prefix_rfl, h⟩

/-- Noting a good visit in front of a step. -/
theorem Follows.note {enclosing : List Enclosure} {node : Node} {noted : Unit → NotedWalk α}
    {walk : Walk α} {places : List (List Enclosure × Node)} {post : α → Stacks → Prop}
    (hgood : good ⟨enclosing, node, state⟩)
    (h : Follows good state places (noted ()) walk post) :
    Follows good state ((enclosing, node) :: places) (note enclosing node >>= noted) walk post := by
  intro visits
  obtain ⟨seen, hrun, hseen, hend⟩ := h (visits ++ [⟨enclosing, node, state⟩])
  refine ⟨⟨enclosing, node, state⟩ :: seen, ?_, List.forall_mem_cons.mpr ⟨hgood, hseen⟩, ?_⟩
  · have hnote : NotedWalk.note enclosing node state visits
        = (.ok ((), state), visits ++ [⟨enclosing, node, state⟩]) := rfl
    rw [bind_of_ok hnote]
    simpa using hrun
  · generalize walk state = result at hend ⊢
    match result with
    | .ok (answer, later) => exact ⟨by simp [hend.1, Visit.place], hend.2⟩
    | .error error => exact ⟨by simpa [Visit.place] using hend.1, hend.2⟩

theorem Follows.bind {first second : List (List Enclosure × Node)} {noted : NotedWalk α}
    {next : α → NotedWalk β} {walk : Walk α} {onward : α → Walk β} {middle : α → Stacks → Prop}
    {post : β → Stacks → Prop} (hnoted : Follows good state first noted walk middle)
    (hnext : ∀ answer later, walk state = .ok (answer, later) → middle answer later →
      Follows good later second (next answer) (onward answer) post) :
    Follows good state (first ++ second) (noted >>= next) (walk >>= onward) post := by
  intro visits
  obtain ⟨seen, hrun, hseen, hend⟩ := hnoted visits
  rw [Steps.bind_apply]
  cases hwalk : walk state with
  | error error =>
      -- Nothing of the second part is visited, so its places only lengthen what might have been.
      rw [hwalk] at hrun hend
      exact ⟨seen, bind_of_error hrun, hseen, hend.1.trans (List.prefix_append _ _), hend.2⟩
  | ok result =>
      obtain ⟨answer, later⟩ := result
      rw [hwalk] at hrun hend
      obtain ⟨more, hrun', hmore, hend'⟩ := hnext answer later hwalk hend.2 (visits ++ seen)
      refine ⟨seen ++ more, ?_, ?_, ?_⟩
      · rw [bind_of_ok hrun, hrun', List.append_assoc]
        rfl
      · intro visit hvisit
        exact (List.mem_append.mp hvisit).elim (hseen visit) (hmore visit)
      · change match onward answer later with
          | .ok (answer, later) => _
          | .error error => _
        generalize onward answer later = result at hend' ⊢
        match result with
        | .ok (answer, later) => exact ⟨by rw [List.map_append, hend.1, hend'.1], hend'.2⟩
        | .error error =>
            exact ⟨by rw [List.map_append, hend.1]; exact List.prefix_append_right_inj _ |>.mpr hend'.1,
              hend'.2⟩

/-- A step that visits nothing, in front of others. -/
theorem Follows.after {places : List (List Enclosure × Node)} {noted : NotedWalk α}
    {next : α → NotedWalk β} {walk : Walk α} {onward : α → Walk β} {middle : α → Stacks → Prop}
    {post : β → Stacks → Prop} (hnoted : Follows good state [] noted walk middle)
    (hnext : ∀ answer later, walk state = .ok (answer, later) → middle answer later →
      Follows good later places (next answer) (onward answer) post) :
    Follows good state places (noted >>= next) (walk >>= onward) post :=
  hnoted.bind hnext

/-- A step that visits nothing and succeeds, in front of others. -/
theorem Follows.step {places : List (List Enclosure × Node)} {next : α → NotedWalk β}
    {walk : Walk α} {onward : α → Walk β} {post : β → Stacks → Prop} {answer : α} {later : Stacks}
    (hwalk : walk state = .ok (answer, later))
    (hnext : Follows good later places (next answer) (onward answer) post) :
    Follows good state places (NotedWalk.plain walk >>= next) (walk >>= onward) post := by
  have hplain : Follows good state [] (NotedWalk.plain walk) walk fun given found =>
      given = answer ∧ found = later := by
    apply Follows.plain
    rw [hwalk]
    exact ⟨rfl, rfl⟩
  refine hplain.after ?_
  rintro _ _ - ⟨rfl, rfl⟩
  exact hnext

/-- Steps that visit nothing, behind others. -/
theorem Follows.before {places : List (List Enclosure × Node)} {noted : NotedWalk α}
    {next : α → NotedWalk β} {walk : Walk α} {onward : α → Walk β} {middle : α → Stacks → Prop}
    {post : β → Stacks → Prop} (hnoted : Follows good state places noted walk middle)
    (hnext : ∀ answer later, walk state = .ok (answer, later) → middle answer later →
      Follows good later [] (next answer) (onward answer) post) :
    Follows good state places (noted >>= next) (walk >>= onward) post := by
  have hbind := hnoted.bind hnext
  rwa [List.append_nil] at hbind

/-- A visit of a place where the stacks are as they should be. -/
def IsDisciplined (schema : Schema) (tree : Node) (visit : Visit) : Prop :=
  ∃ id outer, visit.Disciplined schema tree id outer

/-- Wherever a node stands, visiting it keeps the discipline and leaves the stacks as they were. -/
def KeepsDiscipline (schema : Schema) (tree node : Node) : Prop :=
  ∀ (enclosing : List Enclosure) (key : Option String) (id : DescriptorId)
    (outer : List DescriptorId) (containers : List Value),
      schema.Leads tree enclosing node (id :: outer) → (∃ type, schema.Describes id type) →
        schema.OpenAlong outer containers →
          Follows (IsDisciplined schema tree) ⟨id :: outer, containers⟩ (node.places enclosing)
            (visit schema enclosing key node) (Walk.visit schema key node)
            fun _ later => later = ⟨id :: outer, containers⟩

/-- A conversion fails as a mismatch of types, and changes no stack. -/
theorem convertAt_follows (converted : Except Mismatch α) (span : Span) :
    Follows good state [] (plain (Walk.convertAt converted span)) (Walk.convertAt converted span)
      fun _ later => later = state := by
  apply Follows.plain
  cases converted with
  | error mismatch => exact mismatch.balanced span
  | ok value => rfl

theorem visitItems_follows {id below : DescriptorId} {outer : List DescriptorId}
    {containers done : List Value} {type element : Ty} {items : List Node}
    {around : Nat → List Enclosure} {index : Nat}
    (hslot : schema.descriptors[id]? = some (.list type element below))
    (hbelow : schema.Describes below element)
    (hopen : schema.OpenAlong outer containers)
    (hplaces : ∀ offset item, items[offset]? = some item →
      schema.Leads tree (around (index + offset)) item (below :: id :: outer))
    (hitems : ∀ item ∈ items, KeepsDiscipline schema tree item) :
    Follows (IsDisciplined schema tree) ⟨below :: id :: outer, .list done :: containers⟩
      (Node.itemPlaces around index items) (visitItems schema around element index items)
      (Walk.visitItems schema element items)
      fun _ later => ∃ all, later = ⟨below :: id :: outer, .list all :: containers⟩ := by
  induction items generalizing index done with
  | nil => exact .plain ⟨done, rfl⟩
  | cons item rest ih =>
      obtain ⟨hitem, hrest⟩ := List.forall_mem_cons.mp hitems
      have hopens : (schema.descriptor id).Opens (.list done) := by
        rw [Walk.descriptor_eq hslot]
        exact .list
      rw [visitItems, Walk.visitItems, Node.itemPlaces]
      refine .bind (hitem _ _ _ _ _ (hplaces 0 item rfl) ⟨element, hbelow⟩ (.cons hopens hopen)) ?_
      rintro value _ - rfl
      refine .after (convertAt_follows _ _) ?_
      rintro converted _ - rfl
      refine .step rfl ?_
      -- An item of the rest stands one place further on in the whole array.
      refine ih (fun offset found hfound => ?_) hrest
      rw [Nat.add_right_comm, Nat.add_assoc]
      exact hplaces (offset + 1) found hfound

theorem visitEntries_follows {id below : DescriptorId} {outer : List DescriptorId}
    {containers : List Value} {done : List (String × Value)} {type element : Ty}
    {fields : List (Field Node)} {around : Nat → List Enclosure} {index : Nat}
    (hslot : schema.descriptors[id]? = some (.map type element below))
    (hbelow : schema.Describes below element)
    (hopen : schema.OpenAlong outer containers)
    (hplaces : ∀ offset field, fields[offset]? = some field →
      schema.Leads tree (around (index + offset)) field.value (below :: id :: outer))
    (hfields : ∀ field ∈ fields, KeepsDiscipline schema tree field.value) :
    Follows (IsDisciplined schema tree) ⟨id :: outer, .map done :: containers⟩
      (Node.fieldPlaces around index fields)
      (visitEntries schema around element below index fields)
      (Walk.visitEntries schema element below fields)
      fun _ later => ∃ all, later = ⟨id :: outer, .map all :: containers⟩ := by
  induction fields generalizing index done with
  | nil => exact .plain ⟨done, rfl⟩
  | cons field rest ih =>
      obtain ⟨name, node, span⟩ := field
      obtain ⟨hnode, hrest⟩ := List.forall_mem_cons.mp hfields
      have hopens : (schema.descriptor id).Opens (.map done) := by
        rw [Walk.descriptor_eq hslot]
        exact .map
      rw [visitEntries, Walk.visitEntries, Node.fieldPlaces]
      refine .step rfl ?_
      refine .bind (hnode _ _ _ _ _ (hplaces 0 _ rfl) ⟨element, hbelow⟩ (.cons hopens hopen)) ?_
      rintro value _ - rfl
      refine .step rfl ?_
      refine .after (convertAt_follows _ _) ?_
      rintro converted _ - rfl
      refine .step rfl ?_
      refine ih (fun offset found hfound => ?_) hrest
      rw [Nat.add_right_comm, Nat.add_assoc]
      exact hplaces (offset + 1) found hfound

/-- Resolving a name finds the entry of the field or extension of this name, or fails on the name.
-/
theorem resolve_follows {shape : ObjectShape} (name : Identifier) :
    Follows good state [] (plain (Walk.resolve shape name)) (Walk.resolve shape name)
      fun resolved later => later = state ∧
        (shape.field? name.name).or (shape.extension? name.name) = some resolved.1 := by
  apply Follows.plain
  unfold Walk.resolve
  cases shape.field? name.name with
  | some entry => exact ⟨rfl, rfl⟩
  | none =>
      cases shape.extension? name.name with
      | some entry => exact ⟨rfl, rfl⟩
      | none =>
          intro expected position h
          cases h

theorem visitFields_follows {id : DescriptorId} {outer : List DescriptorId}
    {containers : List Value} {shape : ObjectShape} {typeName : String} {calls : List (Call Bound)}
    {fields : List (Field Node)} {around : Nat → List Enclosure} {index : Nat}
    (hslot : schema.descriptors[id]? = some (.object shape))
    (hshape : shape.Faithful schema.table schema.Describes)
    (hopen : schema.OpenAlong outer containers)
    (hplaces : ∀ offset field entry, fields[offset]? = some field →
      (shape.field? field.name.name).or (shape.extension? field.name.name) = some entry →
        schema.Leads tree (around (index + offset)) field.value (entry.descriptor :: id :: outer))
    (hfields : ∀ field ∈ fields, KeepsDiscipline schema tree field.value) :
    Follows (IsDisciplined schema tree)
      ⟨id :: outer, .sealed typeName (.object shape.object) (.object shape.object calls)
        :: containers⟩
      (Node.fieldPlaces around index fields) (visitFields schema around shape index fields)
      (Walk.visitFields schema shape fields)
      fun _ later => ∃ all, later = ⟨id :: outer,
        .sealed typeName (.object shape.object) (.object shape.object all) :: containers⟩ := by
  induction fields generalizing index calls with
  | nil => exact .plain ⟨calls, rfl⟩
  | cons field rest ih =>
      obtain ⟨name, node, span⟩ := field
      obtain ⟨hnode, hrest⟩ := List.forall_mem_cons.mp hfields
      have hopens : (schema.descriptor id).Opens
          (.sealed typeName (.object shape.object) (.object shape.object calls)) := by
        rw [Walk.descriptor_eq hslot]
        exact .object
      rw [visitFields, Walk.visitFields, Node.fieldPlaces]
      refine .after (resolve_follows name) ?_
      rintro ⟨entry, made⟩ _ hresolve ⟨rfl, hentry⟩
      have hdescribes := (Walk.resolve_describes hshape hresolve).1
      refine .step rfl ?_
      refine .bind (hnode _ _ _ _ _ (hplaces 0 _ entry rfl hentry) ⟨entry.type, hdescribes⟩
        (.cons hopens hopen)) ?_
      rintro value _ - rfl
      refine .step rfl ?_
      refine .after (convertAt_follows _ _) ?_
      rintro bound _ - rfl
      refine .step rfl ?_
      refine ih (fun offset found entry hfound hentry => ?_) hrest
      rw [Nat.add_right_comm, Nat.add_assoc]
      exact hplaces (offset + 1) found entry hfound hentry

/-- Closing a container takes it off and answers it. -/
theorem closeContainer_follows {expected : List DescriptorId} {container : Value}
    {containers : List Value} (span : Span) :
    Follows good ⟨expected, container :: containers⟩ [] (plain (Walk.closeContainer span))
      (Walk.closeContainer span) fun _ later => later = ⟨expected, containers⟩ :=
  .plain rfl

/-- Opening a dictionary puts a container on the others that the expected descriptor opens. -/
theorem openDictionary_follows {id : DescriptorId} {outer : List DescriptorId}
    {containers : List Value} {descriptor : Descriptor}
    (hslot : schema.descriptors[id]? = some descriptor) (key : Option String) (span : Span) :
    Follows good ⟨id :: outer, containers⟩ [] (plain (Walk.openDictionary schema key span))
      (Walk.openDictionary schema key span) fun opened later =>
        match opened with
        | .object shape => descriptor = .object shape ∧ ∃ name calls, later = ⟨id :: outer,
            .sealed name (.object shape.object) (.object shape.object calls) :: containers⟩
        | .map element below => (∃ type, descriptor = .map type element below) ∧
            later = ⟨id :: outer, .map [] :: containers⟩ := by
  apply Follows.plain
  rw [Walk.openDictionary, Steps.bind_apply, Walk.current_apply, Walk.descriptor_eq hslot]
  cases descriptor with
  | object shape => exact ⟨rfl, _, _, rfl⟩
  | map type element below => exact ⟨⟨type, rfl⟩, rfl⟩
  | scalar type => exact ConfigError.balanced_structure (by decide) _ _
  | list type element below => exact ConfigError.balanced_structure (by decide) _ _

/-- Opening an array expects its elements and puts a list on the other containers. -/
theorem openArray_follows {id : DescriptorId} {outer : List DescriptorId}
    {containers : List Value} {descriptor : Descriptor}
    (hslot : schema.descriptors[id]? = some descriptor) (span : Span) :
    Follows good ⟨id :: outer, containers⟩ [] (plain (Walk.openArray schema span))
      (Walk.openArray schema span) fun element later =>
        ∃ type below, descriptor = .list type element below ∧
          later = ⟨below :: id :: outer, .list [] :: containers⟩ := by
  apply Follows.plain
  rw [Walk.openArray, Steps.bind_apply, Walk.current_apply, Walk.descriptor_eq hslot]
  cases descriptor with
  | list type element below => exact ⟨type, below, rfl, rfl⟩
  | scalar type => exact ConfigError.balanced_structure (by decide) _ _
  | object shape => exact ConfigError.balanced_structure (by decide) _ _
  | map type element below => exact ConfigError.balanced_structure (by decide) _ _

theorem visit_dictionary_keeps (hschema : schema.Faithful) {fields : List (Field Node)}
    (span : Span) (hfields : ∀ field ∈ fields, KeepsDiscipline schema tree field.value) :
    KeepsDiscipline schema tree (.dictionary fields span) := by
  intro enclosing key id outer containers hleads hdescribes hopen
  have hgood : IsDisciplined schema tree ⟨enclosing, .dictionary fields span, _⟩ :=
    ⟨id, outer, hleads.disciplined hdescribes hopen⟩
  obtain ⟨type, descriptor, hslot, -⟩ := hdescribes
  have hbelow := hschema id descriptor hslot
  rw [visit, Walk.visit, Node.places]
  refine .note hgood (.after (openDictionary_follows hslot key span) ?_)
  intro opened later _ hopened
  cases opened with
  | object shape =>
      obtain ⟨rfl, name, calls, rfl⟩ := hopened
      refine .before (visitFields_follows hslot hbelow hopen ?_ hfields) ?_
      · intro offset field entry hfield hentry
        exact .field hleads hslot (by rwa [Nat.zero_add]) hentry
      · rintro _ _ - ⟨all, rfl⟩
        exact closeContainer_follows span
  | map element below =>
      obtain ⟨⟨type, rfl⟩, rfl⟩ := hopened
      refine .before (visitEntries_follows hslot hbelow hopen ?_ hfields) ?_
      · intro offset field hfield
        exact .member hleads hslot (by rwa [Nat.zero_add])
      · rintro _ _ - ⟨all, rfl⟩
        exact closeContainer_follows span

theorem visit_array_keeps (hschema : schema.Faithful) {items : List Node} (span : Span)
    (hitems : ∀ item ∈ items, KeepsDiscipline schema tree item) :
    KeepsDiscipline schema tree (.array items span) := by
  intro enclosing key id outer containers hleads hdescribes hopen
  have hgood : IsDisciplined schema tree ⟨enclosing, .array items span, _⟩ :=
    ⟨id, outer, hleads.disciplined hdescribes hopen⟩
  obtain ⟨type, descriptor, hslot, -⟩ := hdescribes
  have hbelow := hschema id descriptor hslot
  rw [visit, Walk.visit, Node.places]
  refine .note hgood (.after (openArray_follows hslot span) ?_)
  rintro element _ - ⟨type, below, rfl, rfl⟩
  refine .before (visitItems_follows hslot hbelow hopen ?_ hitems) ?_
  · intro offset item hitem
    exact .item hleads hslot (by rwa [Nat.zero_add])
  · rintro _ _ - ⟨all, rfl⟩
    refine .step rfl ?_
    exact closeContainer_follows span

theorem visit_literal_keeps (leaf : Literal) : KeepsDiscipline schema tree (.literal leaf) := by
  intro enclosing key id outer containers hleads hdescribes hopen
  have hgood : IsDisciplined schema tree ⟨enclosing, .literal leaf, _⟩ :=
    ⟨id, outer, hleads.disciplined hdescribes hopen⟩
  rw [visit, Node.places]
  refine .note hgood (.plain ?_)
  rw [Walk.visit, Steps.bind_apply, Walk.liftM_apply]
  cases hvalue : leaf.value with
  | error error => exact Literal.balanced_of_value hvalue
  | ok given => rfl

/-- Wherever a node stands, visiting it keeps the discipline. -/
theorem visit_keeps (hschema : schema.Faithful) (node : Node) :
    KeepsDiscipline schema tree node := by
  induction node with
  | dictionary fields span ih => exact visit_dictionary_keeps hschema span ih
  | array items span ih => exact visit_array_keeps hschema span ih
  | literal leaf => exact visit_literal_keeps leaf

end NotedWalk

/-- The visits that are noted while a document is bound along a schema. -/
def Document.visits (schema : Schema) (document : Document) : List Visit :=
  (NotedWalk.visit schema [] none document.root ⟨[schema.root], []⟩ []).2

/-- The discipline of the stacks.  While a document is bound along the schema of a type, whether it
succeeds or not, its nodes are visited in their order, and at every visit one container is open for
each dictionary and array around the node, of the kind that its descriptor says, and one descriptor
more is expected than there are field values and arrays around the node, that of the node on top.
So no error is about an empty stack; and a walk that succeeds visits every node once and leaves the
root alone expected and no container open. -/
theorem Document.visits_disciplined {table : Declarations} {root : Ty} {schema : Schema}
    (h : Schema.derive table root = .ok schema) (document : Document) :
    (NotedWalk.visit schema [] none document.root ⟨[schema.root], []⟩ []).1
        = Walk.visit schema none document.root ⟨[schema.root], []⟩ ∧
    (∀ visit ∈ document.visits schema, ∃ id outer,
      visit.Disciplined schema document.root id outer) ∧
    (document.visits schema).map Visit.place <+: document.root.places [] ∧
    (∀ expected position,
      document.bindValue schema ≠ .error (.structure "an empty value stack" expected position)) ∧
    ∀ value later, Walk.visit schema none document.root ⟨[schema.root], []⟩ = .ok (value, later) →
      later = ⟨[schema.root], []⟩ ∧
        (document.visits schema).map Visit.place = document.root.places [] := by
  obtain ⟨-, hfaithful, hroot⟩ := Schema.derive_faithful h
  obtain ⟨seen, hrun, hgood, hend⟩ := NotedWalk.visit_keeps hfaithful document.root [] none
    schema.root [] [] .root ⟨root, hroot⟩ .nil []
  have hvisits : document.visits schema = seen := congrArg Prod.snd hrun
  rw [hvisits, Document.bindValue]
  refine ⟨congrArg Prod.fst hrun, hgood, ?_⟩
  generalize Walk.visit schema none document.root ⟨[schema.root], []⟩ = result at hend ⊢
  match result with
  | .ok (value, later) =>
      obtain ⟨hplaces, rfl⟩ := hend
      refine ⟨hplaces ▸ List.prefix_rfl, ?_, ?_⟩
      · rintro expected position ⟨⟩
      · rintro _ _ ⟨⟩
        exact ⟨rfl, hplaces⟩
  | .error error =>
      refine ⟨hend.1, ?_, ?_⟩
      · rintro expected position ⟨⟩
        exact hend.2 expected position rfl
      · rintro _ _ ⟨⟩

theorem selfContaining_visits : ∃ schema,
    Schema.derive selfContaining (.option (.object 0)) = .ok schema ∧
      (selfContainingDocument.visits schema).map
          (fun visit => (visit.state.expected, visit.state.containers.length))
        = [([0], 0), ([0, 0], 1), ([1, 0], 1), ([0, 1, 0], 2), ([0, 1, 0], 2), ([2, 0], 1),
          ([0, 2, 0], 2), ([0, 2, 0], 2), ([0, 0], 1)] ∧
      ∀ visit ∈ selfContainingDocument.visits schema, ∃ id outer,
        visit.Disciplined schema selfContainingDocument.root id outer :=
  ⟨_, rfl, rfl, (@Document.visits_disciplined selfContaining (.option (.object 0)) _ rfl
    selfContainingDocument).2.1⟩

end TypedConfig
