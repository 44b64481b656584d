import TypedConfig.Binary.Basic
import TypedConfig.Period.Basic

/-!
Scalars: what a literal stands for, the scalar types, and which scalars a type accepts.  A type
accepts its own scalars and those that it can widen; nothing is ever narrowed.
-/

namespace TypedConfig

/-- What a literal stands for.  A size keeps its text. -/
inductive Scalar where
  | string (text : String)
  | integer (value : Int32)
  | long (value : Int64)
  | float (value : Binary32)
  | double (value : Binary64)
  | boolean (value : Bool)
  | size (text : String)
  | duration (period : Period)
deriving DecidableEq, Repr

def Scalar.typeName : Scalar → String
  | .string _ => "String"
  | .integer _ => "Integer"
  | .long _ => "Long"
  | .float _ => "Float"
  | .double _ => "Double"
  | .boolean _ => "Boolean"
  | .size _ => "Size"
  | .duration _ => "Duration"

/-- The types of scalars. -/
inductive ScalarType where
  | string
  | int
  | long
  | float
  | double
  | bool
  | duration
deriving DecidableEq, Repr

namespace ScalarType

def name : ScalarType → String
  | .string => "String"
  | .int => "Integer"
  | .long => "Long"
  | .float => "Float"
  | .double => "Double"
  | .bool => "Boolean"
  | .duration => "Duration"

/-- The scalar that a type makes of another one, if it accepts it.  Text accepts sizes; a number
type accepts the smaller ones, except that no long becomes a float or a double. -/
def accept? : ScalarType → Scalar → Option Scalar
  | .string, .string text => some (.string text)
  | .string, .size text => some (.string text)
  | .int, .integer value => some (.integer value)
  | .long, .long value => some (.long value)
  | .long, .integer value => some (.long value.toInt64)
  | .float, .float value => some (.float value)
  | .float, .integer value => some (.float (.ofInt value.toInt))
  | .double, .double value => some (.double value)
  | .double, .float value => some (.double value.toBinary64)
  | .double, .integer value => some (.double (.ofInt value.toInt))
  | .bool, .boolean value => some (.boolean value)
  | .duration, .duration period => some (.duration period)
  | _, _ => none

/-- An accepted scalar has the name of the type that accepted it. -/
theorem typeName_of_accept? {type : ScalarType} {given made : Scalar}
    (h : type.accept? given = some made) : made.typeName = type.name := by
  cases type <;> cases given <;> simp_all [accept?] <;> subst h <;> rfl

end ScalarType

end TypedConfig
