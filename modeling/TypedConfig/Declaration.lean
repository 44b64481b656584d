import TypedConfig.Scalar

/-!
Types and declarations.  A type is written as an expression over the scalar types, the containers,
the two transparent wrappers and the object types of a table; two places have the same type exactly
when their expressions are equal.  An object type is declared by its slots: named fields, slots for
the name under which an object stands, and open slots for extensions.
-/

namespace TypedConfig

/-- The kinds of maps.  They accept the same entries and differ in how they list them: in the order
of insertion, or by key. -/
inductive MapKind where
  | insertion
  | hashed
  | sorted
deriving DecidableEq, Repr

/-- A type expression.  An object type is named by its place in the table of declarations. -/
inductive Ty where
  | scalar (type : ScalarType)
  | list (element : Ty)
  | map (kind : MapKind) (element : Ty)
  | option (inner : Ty)
  | box (inner : Ty)
  | object (id : Nat)
deriving DecidableEq, Repr

namespace Ty

/-- The type without the wrappers around it. -/
def core : Ty → Ty
  | .option inner => inner.core
  | .box inner => inner.core
  | type => type

def isCollection (type : Ty) : Bool :=
  match type.core with
  | .list _ => true
  | .map _ _ => true
  | _ => false

end Ty

/-- A named field: its type, and whether it is declared as a collection. -/
structure FieldSlot where
  name : String
  type : Ty
  collection : Bool
deriving DecidableEq, Repr

/-- A declared object type.  `keys` counts its slots for the name under which it stands, and
`extensions` holds the types of its open slots. -/
structure ObjectType where
  name : String
  extensionName : Option String
  fields : List FieldSlot
  keys : Nat
  extensions : List Ty
deriving DecidableEq, Repr

namespace ObjectType

/-- The object type without a name that declares nothing. -/
def empty : ObjectType := ⟨"", none, [], 0, []⟩

/-- Whether nothing is declared, so that nothing can be bound by name. -/
def isEmpty (object : ObjectType) : Bool :=
  object.fields.isEmpty && object.keys == 0 && object.extensions.isEmpty

end ObjectType

/-- A table of object types. -/
structure Declarations where
  objects : List ObjectType
deriving DecidableEq, Repr

namespace Declarations

/-- The object type at a place of the table; past its end nothing is declared. -/
def object (table : Declarations) (id : Nat) : ObjectType :=
  table.objects.getD id .empty

end Declarations

/-- The name of a type, in which wrappers do not show. -/
def Ty.name (table : Declarations) : Ty → String
  | .scalar type => type.name
  | .list element => "List<" ++ element.name table ++ ">"
  | .map _ element => "Map<String, " ++ element.name table ++ ">"
  | .option inner => inner.name table
  | .box inner => inner.name table
  | .object id => (table.object id).name

/-- A type is named as what its wrappers hold. -/
theorem Ty.name_core (table : Declarations) (type : Ty) :
    type.core.name table = type.name table := by
  induction type with
  | option inner ih => simpa [Ty.core, Ty.name] using ih
  | box inner ih => simpa [Ty.core, Ty.name] using ih
  | scalar _ => rfl
  | list _ => rfl
  | map _ _ => rfl
  | object _ => rfl

end TypedConfig
