import TypedConfig.Binary.Shortest
import TypedConfig.Schema
import TypedConfig.Text.Outline
import TypedConfig.Value.Basic

/-!
The outlines of schemas and of values.
-/

namespace TypedConfig

open Text (Outline)

def textOutline (text : String) : Outline := .leaf (Text.inspect text)

def idOutline (id : DescriptorId) : Outline := .tuple "DescriptorId" [.leaf (toString id)]

def Entry.outline (table : Declarations) (label : String) (entry : Entry) : Outline :=
  .record label [("name", textOutline entry.name), ("descriptor", idOutline entry.descriptor),
    ("expected", textOutline (entry.type.name table))]

def Descriptor.outline (table : Declarations) (descriptor : Descriptor) : Outline :=
  let target := ("target", textOutline (descriptor.type.name table))
  match descriptor with
  | .scalar _ => .record "Scalar" [target]
  | .object shape =>
    .record "Object" [target,
      ("fields", .list (shape.fields.map (Entry.outline table "Field"))),
      ("key", .leaf (if shape.hasKey then "true" else "false")),
      ("extensions", .list (shape.extensions.map (Entry.outline table "Extension")))]
  | .list _ _ element => .record "List" [target, ("element", idOutline element)]
  | .map _ _ element => .record "Map" [target, ("element", idOutline element)]

def Schema.outline (schema : Schema) : Outline :=
  .record "Schema" [
    ("descriptors", .list (schema.descriptors.toList.map (Descriptor.outline schema.table))),
    ("root", idOutline schema.root)]

open Text (Outline)

def integerOutline (value : Int) : Outline := .leaf (String.ofList (Text.ofInt value))

def Period.outline (period : Period) : Outline :=
  let part name (amount : Int64) := (name, integerOutline amount.toInt)
  .record "Period" [part "years" period.years, part "months" period.months,
    part "days" period.days, part "hours" period.hours, part "minutes" period.minutes,
    part "seconds" period.seconds, part "millis" period.millis]

/-- The outline of what a scalar holds. -/
def Scalar.content : Scalar → Outline
  | .string text => textOutline text
  | .size text => textOutline text
  | .integer value => integerOutline value.toInt
  | .long value => integerOutline value.toInt
  | .boolean value => .leaf (if value then "true" else "false")
  | .duration period => period.outline
  | .float value => .leaf (FloatText.inspection.text .single value.bits.toNat)
  | .double value => .leaf (FloatText.inspection.text .double value.bits.toNat)

namespace Value

mutual

def outline : Value → Outline
  | .scalar value => .tuple value.typeName [value.content]
  | .list items => .tuple "List" [.list (itemOutlines items)]
  | .map entries => .tuple "Map" [.map (entryOutlines entries)]
  | .sealed name _ _ => .leaf ("Object(" ++ name ++ ")")

def itemOutlines : List Value → List Outline
  | [] => []
  | item :: rest => outline item :: itemOutlines rest

def entryOutlines : List (String × Value) → List (String × Outline)
  | [] => []
  | (key, value) :: rest => (key, outline value) :: entryOutlines rest

end

end Value

end TypedConfig
