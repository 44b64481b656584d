import TypedConfig.Binding.Walk

/-!
Binding a document by recursion over the tree and the type expression alone, without a schema,
without stacks, and without values that wait for their type.  It says what binding means; the walk
along a schema says how it is done.
-/

namespace TypedConfig

namespace Ty

/-- Puts a value into the wrappers of a type. -/
def wrap : Ty → Bound → Bound
  | .option inner, value => .present (inner.wrap value)
  | .box inner, value => .boxed (inner.wrap value)
  | _, value => value

/-- The phrase that names what a type accepts. -/
def describe (table : Declarations) (type : Ty) : String :=
  let phrase := match type.core with
    | .object id => if (table.object id).isEmpty then "a scalar" else "an object"
    | .list _ => "a list"
    | .map _ _ => "a map"
    | _ => "a scalar"
  phrase ++ " (" ++ type.name table ++ ")"

end Ty

/-- How an object type takes a field: as its own field, or as an extension. -/
inductive Acceptance where
  | field (type : Ty)
  | extension (type : Ty)

namespace ObjectType

/-- The name under which an extension of a type is accepted. -/
def extensionNameOf? (table : Declarations) (extension : Ty) : Option String :=
  match extension.core with
  | .object id => (table.object id).extensionName
  | _ => none

/-- How a name is accepted: as the field of that name, or else as an extension of that name. -/
def accepts? (table : Declarations) (object : ObjectType) (name : String) : Option Acceptance :=
  match object.fields.find? fun slot => slot.name == name with
  | some slot => some (.field slot.type)
  | none =>
    (object.extensions.find? fun type => extensionNameOf? table type == some name).map .extension

def acceptedNames (table : Declarations) (object : ObjectType) : List String :=
  object.fields.map FieldSlot.name ++ object.extensions.filterMap (extensionNameOf? table)

end ObjectType

def Acceptance.call (name : String) (value : Bound) : Acceptance → Call Bound
  | .field _ => .field name value
  | .extension _ => .extension name value

def Acceptance.type : Acceptance → Ty
  | .field type => type
  | .extension type => type

namespace Direct

def literal (table : Declarations) (type : Ty) (leaf : Literal) : Except ConfigError Bound := do
  let given ← leaf.value
  let mismatch := ConfigError.typeMismatch given.typeName (type.name table) leaf.span.position
  match type.core with
  | .scalar scalar =>
    match scalar.accept? given with
    | some made => .ok (type.wrap (.scalar made))
    | none => .error mismatch
  | _ => .error mismatch

/-- The call that tells an object the name it stands under, if it asks for one and there is one. -/
def keyCalls (object : ObjectType) (key : Option String) : List (Call Bound) :=
  match key with
  | some name => if object.keys = 1 then [.key name] else []
  | none => []

mutual

/-- Binds a node to a type; `key` is the name of the field or entry whose value it is. -/
def node (table : Declarations) (type : Ty) (key : Option String) :
    Node → Except ConfigError Bound
  | .dictionary members span =>
    match type.core with
    | .object id =>
      if (table.object id).isEmpty then
        .error (.structure "a dictionary" (type.describe table) span.position)
      else do
        let calls ← fields table (table.object id) members
        pure (type.wrap (.object id (keyCalls (table.object id) key ++ calls)))
    | .map kind element => do
      let bound ← entries table element members
      pure (type.wrap (.map (Entries.ofList kind bound)))
    | _ => .error (.structure "a dictionary" (type.describe table) span.position)
  | .array members span =>
    match type.core with
    | .list element => do
      let bound ← items table element members
      pure (type.wrap (.list bound))
    | _ => .error (.structure "an array" (type.describe table) span.position)
  | .literal leaf => literal table type leaf

def fields (table : Declarations) (object : ObjectType) :
    List (Field Node) → Except ConfigError (List (Call Bound))
  | [] => .ok []
  | ⟨name, value, _⟩ :: rest =>
    match object.accepts? table name.name with
    | some acceptance => do
      let bound ← node table acceptance.type (some name.name) value
      pure (acceptance.call name.name bound :: (← fields table object rest))
    | none =>
      .error (.unknownField name.name (object.acceptedNames table) name.span.position)

def entries (table : Declarations) (element : Ty) :
    List (Field Node) → Except ConfigError (List (String × Bound))
  | [] => .ok []
  | ⟨name, value, _⟩ :: rest => do
    let bound ← node table element (some name.name) value
    pure ((name.name, bound) :: (← entries table element rest))

def items (table : Declarations) (element : Ty) :
    List Node → Except ConfigError (List Bound)
  | [] => .ok []
  | item :: rest => do
    let bound ← node table element none item
    pure (bound :: (← items table element rest))

end

end Direct

def Document.bindDirect (table : Declarations) (type : Ty) (document : Document) :
    Except ConfigError Bound :=
  Direct.node table type none document.root

end TypedConfig
