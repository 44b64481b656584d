import TypedConfig.Entries

/-!
Values.  A bound value has a type; a value under way does not say which one it is meant for: it is
a decoded scalar, a container under construction, or an instance of some type whose value is kept
under the name of that type until a place asks for it.
-/

namespace TypedConfig

/-- What was done to an instance of an object type. -/
inductive Call (Value : Type) where
  /-- The name under which the instance stands was set. -/
  | key (name : String)
  /-- A field was set. -/
  | field (name : String) (value : Value)
  /-- A value was appended through the extension slot of a name. -/
  | extension (name : String) (value : Value)
deriving DecidableEq, Repr

/-- A value of a type.  The scalar of a text type is a string and never a size; a map lists its
entries in the order of its kind; an instance of an object type is what was done to it, from its
default on. -/
inductive Bound where
  | scalar (value : Scalar)
  | absent
  | present (value : Bound)
  | boxed (value : Bound)
  | list (items : List Bound)
  | map (entries : List (String × Bound))
  | object (id : Nat) (calls : List (Call Bound))
deriving Inhabited

/-- A value under way. -/
inductive Value where
  | scalar (value : Scalar)
  | list (items : List Value)
  | map (entries : List (String × Value))
  /-- A value of the type `type`, shown under a name. -/
  | sealed (name : String) (type : Ty) (content : Bound)
deriving Inhabited

namespace Value

def typeName : Value → String
  | .scalar value => value.typeName
  | .list _ => "List"
  | .map _ => "Map"
  | .sealed name _ _ => name

/-- The map that holds some entries, put into it in order. -/
def ofEntries (entries : List (String × Value)) : Value :=
  .map (Entries.ofList .insertion entries)

end Value

/-!
Converting a value under way to a type.  Wrappers take what the type inside them takes.  An element
of a list or map may have been converted before, when it is found sealed as a value of exactly the
element type; otherwise it is converted now.
-/

/-- A value of one type where another was expected, by their names. -/
structure Mismatch where
  actual : String
  expected : String
deriving DecidableEq, Repr

namespace Ty

/-- The mismatch of a value that a type refuses. -/
def refuse (table : Declarations) (type : Ty) (value : Value) : Mismatch :=
  ⟨value.typeName, type.name table⟩

/-- Takes an element that is sealed as a value of exactly the element type, and converts any other
one. -/
def element (type : Ty) (convert : Value → Except Mismatch Bound) (value : Value) :
    Except Mismatch Bound :=
  match value with
  | .sealed name sealedType content =>
    if sealedType = type then .ok content else convert (.sealed name sealedType content)
  | other => convert other

def elements (take : Value → Except Mismatch Bound) : List Value → Except Mismatch (List Bound)
  | [] => .ok []
  | value :: rest => do pure ((← take value) :: (← elements take rest))

def entries (take : Value → Except Mismatch Bound) :
    List (String × Value) → Except Mismatch (List (String × Bound))
  | [] => .ok []
  | (key, value) :: rest => do pure ((key, ← take value) :: (← entries take rest))

def convert (table : Declarations) : Ty → Value → Except Mismatch Bound
  | .scalar type, value =>
    match value with
    | .scalar given =>
      match type.accept? given with
      | some made => .ok (.scalar made)
      | none => .error (refuse table (.scalar type) value)
    | _ => .error (refuse table (.scalar type) value)
  | .option inner, value => (convert table inner value).map .present
  | .box inner, value => (convert table inner value).map .boxed
  | .list type, value =>
    match value with
    | .list items => (elements (element type (convert table type)) items).map .list
    | _ => .error (refuse table (.list type) value)
  | .map kind type, value =>
    match value with
    | .map members =>
      (entries (element type (convert table type)) members).map fun converted =>
        .map (Entries.ofList kind converted)
    | _ => .error (refuse table (.map kind type) value)
  | .object id, value =>
    match value with
    | .sealed _ sealedType content =>
      if sealedType = .object id then .ok content else .error (refuse table (.object id) value)
    | _ => .error (refuse table (.object id) value)

/-- Converts a value to a type and seals the result under the name of the type. -/
def convertSealed (table : Declarations) (type : Ty) (value : Value) : Except Mismatch Value :=
  (type.convert table value).map (.sealed (type.name table) type)

end Ty

end TypedConfig
