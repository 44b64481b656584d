import TypedConfig.Schema
import TypedConfig.Value.Basic

/-!
Binding a document by a walk along its tree.  Two stacks go with the walk: the descriptors expected
at the places that are open, and the containers under construction.  An object starts as its default
when its dictionary opens, takes what its fields evaluate to one by one, and is handed up when the
dictionary closes; lists and maps convert each element as they take it.
-/

namespace TypedConfig

def Mismatch.toError (mismatch : Mismatch) (span : Span) : ConfigError :=
  .typeMismatch mismatch.actual mismatch.expected span.position

def DecodeError.toError (fault : DecodeError) (span : Span) : ConfigError :=
  match fault with
  | .number kind text => .number kind text span.position
  | .duration text => .duration text span.position

/-- What a literal stands for. -/
def Literal.value (leaf : Literal) : Except ConfigError Scalar :=
  (Literal.decode leaf).mapError fun fault => fault.toError leaf.span

/-- The two stacks of a walk, innermost first. -/
structure Stacks where
  expected : List DescriptorId
  containers : List Value

/-- A step of a walk: it changes the stacks, or fails. -/
abbrev Walk := StateT Stacks (Except ConfigError)

namespace Walk

/-- The error of a stack that does not hold what it should. -/
def unbalanced (expected : String) (span : Span) : ConfigError :=
  .structure "an empty value stack" expected span.position

/-- The descriptor expected at the innermost open place. -/
def current (schema : Schema) : Walk Descriptor := do
  pure (schema.descriptor ((← get).expected.head?.getD schema.root))

/-- Opens a place where a descriptor is expected. -/
def expect (id : DescriptorId) : Walk Unit :=
  modify fun state => { state with expected := id :: state.expected }

def unexpect : Walk Unit :=
  modify fun state => { state with expected := state.expected.tail }

def openContainer (container : Value) : Walk Unit :=
  modify fun state => { state with containers := container :: state.containers }

def closeContainer (span : Span) : Walk Value := do
  match (← get).containers with
  | container :: rest =>
    modify fun state => { state with containers := rest }
    pure container
  | [] => throw (unbalanced "a container" span)

/-- Notes a call on the object that is under construction. -/
def call (made : Call Bound) (span : Span) : Walk Unit := do
  match (← get).containers with
  | .sealed name type (.object id calls) :: rest =>
    modify fun state =>
      { state with containers := .sealed name type (.object id (calls ++ [made])) :: rest }
  | _ => throw (unbalanced "an object" span)

def putEntry (key : String) (value : Value) (span : Span) : Walk Unit := do
  match (← get).containers with
  | .map entries :: rest =>
    modify fun state => { state with containers := .map (Entries.put key value entries) :: rest }
  | _ => throw (unbalanced "a map" span)

def appendItem (value : Value) (span : Span) : Walk Unit := do
  match (← get).containers with
  | .list items :: rest =>
    modify fun state => { state with containers := .list (items ++ [value]) :: rest }
  | _ => throw (unbalanced "a list" span)

/-- The default instance of an object type, to which the name it stands under is told first if it
asks for one. -/
def newObject (table : Declarations) (shape : ObjectShape) (key : Option String) : Value :=
  let calls := match key with
    | some name => if shape.hasKey then [.key name] else []
    | none => []
  .sealed ((table.object shape.object).name) (.object shape.object) (.object shape.object calls)

/-- What a dictionary opens: an object with its shape, or a map with its elements. -/
inductive Opened where
  | object (shape : ObjectShape)
  | map (element : Ty) (descriptor : DescriptorId)

def openDictionary (schema : Schema) (key : Option String) (span : Span) : Walk Opened := do
  match ← current schema with
  | .object shape =>
    openContainer (newObject schema.table shape key)
    pure (.object shape)
  | .map _ element descriptor =>
    openContainer (.map [])
    pure (.map element descriptor)
  | other =>
    throw (.structure "a dictionary" (other.describe schema.table) span.position)

/-- Opens an array, whose elements are expected from now on, and gives their type. -/
def openArray (schema : Schema) (span : Span) : Walk Ty := do
  match ← current schema with
  | .list _ element descriptor =>
    expect descriptor
    openContainer (.list [])
    pure element
  | other => throw (.structure "an array" (other.describe schema.table) span.position)

def convertAt {α : Type} (converted : Except Mismatch α) (span : Span) : Walk α :=
  match converted with
  | .ok value => pure value
  | .error mismatch => throw (mismatch.toError span)

/-- The name under which an object accepts a field, and what setting it calls. -/
def resolve (shape : ObjectShape) (name : Identifier) :
    Walk (Entry × (Bound → Call Bound)) :=
  match shape.field? name.name with
  | some entry => pure (entry, .field entry.name)
  | none =>
    match shape.extension? name.name with
    | some entry => pure (entry, .extension entry.name)
    | none => throw (.unknownField name.name shape.acceptedNames name.span.position)

mutual

/-- Visits a node; `key` is the name of the field or entry whose value it is. -/
def visit (schema : Schema) (key : Option String) : Node → Walk Value
  | .dictionary fields span => do
    match ← openDictionary schema key span with
    | .object shape => visitFields schema shape fields
    | .map element descriptor => visitEntries schema element descriptor fields
    closeContainer span
  | .array items span => do
    let element ← openArray schema span
    visitItems schema element items
    unexpect
    closeContainer span
  | .literal leaf => do
    let scalar ← liftM leaf.value
    pure (.scalar scalar)

def visitFields (schema : Schema) (shape : ObjectShape) : List (Field Node) → Walk Unit
  | [] => pure ()
  | ⟨name, node, span⟩ :: rest => do
    let (entry, made) ← resolve shape name
    expect entry.descriptor
    let value ← visit schema (some name.name) node
    unexpect
    let bound ← convertAt (entry.type.convert schema.table value) node.span
    call (made bound) span
    visitFields schema shape rest

def visitEntries (schema : Schema) (element : Ty) (descriptor : DescriptorId) :
    List (Field Node) → Walk Unit
  | [] => pure ()
  | ⟨name, node, span⟩ :: rest => do
    expect descriptor
    let value ← visit schema (some name.name) node
    unexpect
    let converted ← convertAt (element.convertSealed schema.table value) node.span
    putEntry name.name converted span
    visitEntries schema element descriptor rest

def visitItems (schema : Schema) (element : Ty) : List Node → Walk Unit
  | [] => pure ()
  | item :: rest => do
    let value ← visit schema none item
    let converted ← convertAt (element.convertSealed schema.table value) item.span
    appendItem converted item.span
    visitItems schema element rest

end

end Walk

namespace Document

/-- The root container of a document, bound along a schema. -/
def bindValue (schema : Schema) (document : Document) : Except ConfigError Value :=
  (Walk.visit schema none document.root ⟨[schema.root], []⟩).map Prod.fst

/-- A document bound along a schema and converted to a type, which is the root type of the schema
unless the caller asks for another one. -/
def bind (schema : Schema) (type : Ty) (document : Document) : Except ConfigError Bound := do
  let value ← document.bindValue schema
  (type.convert schema.table value).mapError fun mismatch => mismatch.toError document.span

end Document

end TypedConfig
