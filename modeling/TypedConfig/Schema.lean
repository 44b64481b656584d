import TypedConfig.Declaration
import TypedConfig.Error

/-!
Schemas.  A schema is a list of descriptors, one of which is the root; descriptors refer to one
another by their places in the list, so a type that contains itself closes a cycle.
-/

namespace TypedConfig

/-- The place of a descriptor in its schema. -/
abbrev DescriptorId := Nat

/-- A name that an object accepts: the type of the values under it and their descriptor. -/
structure Entry where
  name : String
  type : Ty
  descriptor : DescriptorId
deriving DecidableEq, Repr

/-- An object type with what it accepts: its fields, its extensions under their names, and whether
it takes the name under which it stands. -/
structure ObjectShape where
  object : Nat
  fields : List Entry
  hasKey : Bool
  extensions : List Entry
deriving DecidableEq, Repr

namespace ObjectShape

def field? (shape : ObjectShape) (name : String) : Option Entry :=
  shape.fields.find? fun entry => entry.name == name

def extension? (shape : ObjectShape) (name : String) : Option Entry :=
  shape.extensions.find? fun entry => entry.name == name

def acceptedNames (shape : ObjectShape) : List String :=
  shape.fields.map Entry.name ++ shape.extensions.map Entry.name

end ObjectShape

/-- What a type accepts.  A container keeps its own type expression, the type of its elements and
their descriptor. -/
inductive Descriptor where
  | scalar (type : Ty)
  | object (shape : ObjectShape)
  | list (type element : Ty) (descriptor : DescriptorId)
  | map (type element : Ty) (descriptor : DescriptorId)
deriving DecidableEq, Repr

namespace Descriptor

def type : Descriptor → Ty
  | .scalar type => type
  | .object shape => .object shape.object
  | .list type _ _ => type
  | .map type _ _ => type

/-- Whether other descriptors stand below this one. -/
def hasChildren : Descriptor → Bool
  | .scalar _ => false
  | _ => true

/-- The descriptors of the fields in their order, or that of the elements. -/
def children : Descriptor → List DescriptorId
  | .scalar _ => []
  | .object shape => shape.fields.map Entry.descriptor
  | .list _ _ element => [element]
  | .map _ _ element => [element]

def shape? : Descriptor → Option ObjectShape
  | .object shape => some shape
  | _ => none

/-- The phrase that names what a descriptor accepts. -/
def describe (table : Declarations) (descriptor : Descriptor) : String :=
  let phrase := match descriptor with
    | .scalar _ => "a scalar"
    | .object _ => "an object"
    | .list .. => "a list"
    | .map .. => "a map"
  phrase ++ " (" ++ descriptor.type.name table ++ ")"

end Descriptor

/-- The descriptors of a root type and of all that it contains. -/
structure Schema where
  table : Declarations
  descriptors : Array Descriptor
  root : DescriptorId
deriving DecidableEq, Repr

def Schema.descriptor (schema : Schema) (id : DescriptorId) : Descriptor :=
  schema.descriptors.getD id (.scalar (.scalar .string))

/-!
Deriving the schema of a type.  The walk over the declarations keeps an arena of slots.  An object
type gets its slot before its fields are walked and fills it afterwards, so a reference back to it
finds the slot; a scalar type gets one slot for each of its expressions; a list or map gets a new
slot wherever it occurs.  The declarations are checked on the way.
-/

/-- How the declaration of an object type can be broken. -/
inductive DeclarationFault where
  | repeatedField (name : String)
  | notCollection (field typeName : String)
  | repeatedKey
  | extensionNotObject (typeName : String)
  | extensionUnnamed (typeName : String)
  | extensionCollision (name : String)
  /-- A slot was given out and not filled. -/
  | incomplete (slot : Nat)
deriving DecidableEq, Repr

def DeclarationFault.message : DeclarationFault → String
  | .repeatedField name => "field '" ++ name ++ "' is declared more than once"
  | .notCollection field typeName =>
    "collection field '" ++ field ++ "' has non-collection type " ++ typeName
  | .repeatedKey => "more than one self-key slot is declared"
  | .extensionNotObject typeName => "extension type " ++ typeName ++ " is not an object shape"
  | .extensionUnnamed typeName =>
    "extension type " ++ typeName ++ " declares no extension name"
  | .extensionCollision name => "extension name '" ++ name ++ "' collides with another field"
  | .incomplete slot => "descriptor " ++ toString slot ++ " was never completed"

/-- Why a type has no schema: the type whose declaration is broken, and how. -/
structure SchemaFault where
  typeName : String
  fault : DeclarationFault
deriving DecidableEq, Repr

/-- The error of a type without schema. -/
def SchemaFault.toError (fault : SchemaFault) : ConfigError :=
  .invalidSchema fault.typeName fault.fault.message

/-- A schema under construction: its slots, and the types that have one already. -/
structure Arena where
  slots : Array (Option Descriptor)
  registry : List (Ty × DescriptorId)
deriving DecidableEq, Repr

namespace Arena

def empty : Arena := ⟨#[], []⟩

/-- The slot of a registered type. -/
def find? (arena : Arena) (type : Ty) : Option DescriptorId :=
  arena.registry.lookup type

/-- Registers a type with an empty slot. -/
def reserve (arena : Arena) (type : Ty) : DescriptorId × Arena :=
  (arena.slots.size, ⟨arena.slots.push none, (type, arena.slots.size) :: arena.registry⟩)

def fill (arena : Arena) (id : DescriptorId) (descriptor : Descriptor) : Arena :=
  { arena with slots := arena.slots.setIfInBounds id (some descriptor) }

/-- Adds a filled slot for a type that is not registered. -/
def push (arena : Arena) (descriptor : Descriptor) : DescriptorId × Arena :=
  (arena.slots.size, { arena with slots := arena.slots.push (some descriptor) })

/-- All descriptors, or the first slot from `index` on that is not filled. -/
def complete (index : Nat) : List (Option Descriptor) → Except SchemaFault (List Descriptor)
  | [] => .ok []
  | none :: _ => .error ⟨"<unknown>", .incomplete index⟩
  | some descriptor :: rest => (complete (index + 1) rest).map (descriptor :: ·)

end Arena

/-- A step of a derivation: it extends the arena, or finds a fault. -/
abbrev Derivation := StateT Arena (Except SchemaFault)

namespace Derivation

def scalar (type : Ty) : Derivation DescriptorId := fun arena =>
  match arena.find? type with
  | some id => .ok (id, arena)
  | none =>
    let (id, arena) := arena.reserve type
    .ok (id, arena.fill id (.scalar type))

/-- Adds the descriptor of a list or map. -/
def push (descriptor : Descriptor) : Derivation DescriptorId := fun arena =>
  .ok (arena.push descriptor)

def type (object : Nat → Derivation DescriptorId) (whole : Ty) : Ty → Derivation DescriptorId
  | .scalar _ => scalar whole
  | .option inner => type object whole inner
  | .box inner => type object whole inner
  | .object id => object id
  | .list element => do push (.list whole element (← type object element element))
  | .map _ element => do push (.map whole element (← type object element element))

/-- Derives the fields of an object type behind those that are done. -/
def fields (table : Declarations) (object : Nat → Derivation DescriptorId) (owner : String)
    (done : List Entry) : List FieldSlot → Derivation (List Entry)
  | [] => pure done
  | slot :: rest => do
    if done.any fun entry => entry.name == slot.name then
      throw ⟨owner, .repeatedField slot.name⟩
    if slot.collection && !slot.type.isCollection then
      throw ⟨owner, .notCollection slot.name (slot.type.name table)⟩
    let id ← type object slot.type slot.type
    fields table object owner (done ++ [⟨slot.name, slot.type, id⟩]) rest

/-- The object type that an extension accepts, and the name under which it does. -/
def extensionTarget (table : Declarations) (owner : String) (extension : Ty) :
    Except SchemaFault (Nat × String) :=
  match extension.core with
  | .object id =>
    match (table.object id).extensionName with
    | some name => .ok (id, name)
    | none => .error ⟨owner, .extensionUnnamed (extension.name table)⟩
  | _ => .error ⟨owner, .extensionNotObject (extension.name table)⟩

/-- Derives the extensions of an object type behind those that are done. -/
def extensions (table : Declarations) (object : Nat → Derivation DescriptorId) (owner : String)
    (fields done : List Entry) : List Ty → Derivation (List Entry)
  | [] => pure done
  | extension :: rest => do
    let (target, name) ← extensionTarget table owner extension
    if (fields ++ done).any fun entry => entry.name == name then
      throw ⟨owner, .extensionCollision name⟩
    let id ← object target
    extensions table object owner fields (done ++ [⟨name, extension, id⟩]) rest

/-- What an object type accepts, once its fields and extensions are derived. -/
def shape (table : Declarations) (object : Nat → Derivation DescriptorId) (id : Nat) :
    Derivation Descriptor := do
  let declared := table.object id
  if declared.isEmpty then pure (.scalar (.object id))
  else
    let fields ← fields table object declared.name [] declared.fields
    if 1 < declared.keys then throw ⟨declared.name, .repeatedKey⟩
    let extensions ← extensions table object declared.name fields [] declared.extensions
    pure (.object ⟨id, fields, declared.keys == 1, extensions⟩)

/-- Derives an object type.  The first argument bounds how many object types are under construction
at once; they are all different, so the length of the table and one more is enough. -/
def object (table : Declarations) : Nat → Nat → Derivation DescriptorId
  | 0, id => fun arena =>
    match arena.find? (.object id) with
    | some slot => .ok (slot, arena)
    | none => .ok (arena.reserve (.object id))
  | bound + 1, id => fun arena =>
    match arena.find? (.object id) with
    | some slot => .ok (slot, arena)
    | none => do
      let (slot, arena) := arena.reserve (.object id)
      let (descriptor, arena) ← shape table (object table bound) id arena
      .ok (slot, arena.fill slot descriptor)

end Derivation

/-- Derives the schema of a root type. -/
def Schema.derive (table : Declarations) (root : Ty) : Except SchemaFault Schema := do
  let object := Derivation.object table (table.objects.length + 1)
  let (id, arena) ← Derivation.type object root root Arena.empty
  let descriptors ← Arena.complete 0 arena.slots.toList
  pure ⟨table, descriptors.toArray, id⟩

end TypedConfig
