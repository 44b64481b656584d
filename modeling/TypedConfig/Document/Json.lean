import TypedConfig.Document.Basic
import TypedConfig.Json

/-!
The JSON form of a document.  Every record is an object with one member for each of its parts, a
node or a literal kind is an object whose only member names the alternative, and an alternative
without content is the bare name.

Reading the form back ignores members it does not know and misses none that it does.  A record may
also be written as the array of its parts in order, and a bare name also as an object with a null.
-/

namespace TypedConfig

/-- Offsets fit into 64 bits. -/
def offsetBound : Nat := 18446744073709551616

/-- Lines and columns fit into 32 bits. -/
def lineBound : Nat := 4294967296

def Span.toJson (span : Span) : Json :=
  .object [("start", .integer span.start), ("end", .integer span.stop),
    ("line", .integer span.line), ("column", .integer span.column)]

def Identifier.toJson (name : Identifier) : Json :=
  .object [("name", .string name.name), ("span", name.span.toJson)]

def DurationForm.name : DurationForm → String
  | .simple => "Simple"
  | .iso8601 => "Iso8601"

def LiteralKind.name : LiteralKind → String
  | .string => "String"
  | .integer => "Integer"
  | .long => "Long"
  | .float => "Float"
  | .double => "Double"
  | .boolean => "Boolean"
  | .size => "Size"
  | .duration _ => "Duration"

def LiteralKind.toJson : LiteralKind → Json
  | .duration form => .object [("Duration", .string form.name)]
  | kind => .string kind.name

def Literal.toJson (leaf : Literal) : Json :=
  .object [("kind", leaf.kind.toJson), ("text", .string leaf.text), ("span", leaf.span.toJson)]

/-- The JSON form of a dictionary, given those of its fields. -/
def dictionaryJson (fields : List Json) (span : Span) : Json :=
  .object [("fields", .array fields), ("span", span.toJson)]

mutual

def Node.toJson : Node → Json
  | .dictionary fields span =>
    .object [("Dictionary", dictionaryJson (Node.fieldsToJson fields) span)]
  | .array items span =>
    .object [("Array",
      .object [("items", .array (Node.itemsToJson items)), ("span", span.toJson)])]
  | .literal leaf => .object [("Literal", leaf.toJson)]

def Node.fieldsToJson : List (Field Node) → List Json
  | [] => []
  | ⟨name, value, span⟩ :: rest =>
    .object [("name", name.toJson), ("value", value.toJson), ("span", span.toJson)]
      :: Node.fieldsToJson rest

def Node.itemsToJson : List Node → List Json
  | [] => []
  | item :: rest => item.toJson :: Node.itemsToJson rest

end

def Document.toJson (document : Document) : Json :=
  .object [("root", dictionaryJson (Node.fieldsToJson document.fields) document.span)]

/-- The parts of a record, by the names of its members or by their order. -/
def Json.parts? (names : List String) : Json → Option (List Json)
  | .object members => names.mapM fun name => members.lookup name
  | .array items => if items.length = names.length then some items else none
  | _ => none

def Span.ofJson? (json : Json) : Option Span :=
  match json.parts? ["start", "end", "line", "column"] with
  | some [start, stop, line, column] => do
    pure ⟨← start.natBelow? offsetBound, ← stop.natBelow? offsetBound,
      ← line.natBelow? lineBound, ← column.natBelow? lineBound⟩
  | _ => none

def Identifier.ofJson? (json : Json) : Option Identifier :=
  match json.parts? ["name", "span"] with
  | some [name, span] => do pure ⟨← name.text?, ← Span.ofJson? span⟩
  | _ => none

/-- Reads the name of an alternative without content. -/
def Json.bareName? : Json → Option String
  | .string name => some name
  | .object [(name, .null)] => some name
  | _ => none

def DurationForm.ofJson? (json : Json) : Option DurationForm :=
  match json.bareName? with
  | some "Simple" => some .simple
  | some "Iso8601" => some .iso8601
  | _ => none

/-- The literal kind of a name, other than durations. -/
def LiteralKind.ofName? : String → Option LiteralKind
  | "String" => some .string
  | "Integer" => some .integer
  | "Long" => some .long
  | "Float" => some .float
  | "Double" => some .double
  | "Boolean" => some .boolean
  | "Size" => some .size
  | _ => none

def LiteralKind.ofJson? : Json → Option LiteralKind
  | .object [("Duration", form)] => (DurationForm.ofJson? form).map .duration
  | json => json.bareName?.bind LiteralKind.ofName?

def Literal.ofJson? (json : Json) : Option Literal :=
  match json.parts? ["kind", "text", "span"] with
  | some [kind, text, span] => do
    pure ⟨← LiteralKind.ofJson? kind, ← text.text?, ← Span.ofJson? span⟩
  | _ => none

mutual

def Node.ofJson? : Json → Option Node
  | .object [(name, content)] =>
    if name = "Dictionary" then
      (Node.dictionaryOfJson? content).map fun (fields, span) => .dictionary fields span
    else if name = "Array" then
      (Node.arrayOfJson? content).map fun (items, span) => .array items span
    else if name = "Literal" then (Literal.ofJson? content).map .literal
    else none
  | _ => none

/-- Reads a dictionary: its fields and its span. -/
def Node.dictionaryOfJson? : Json → Option (List (Field Node) × Span)
  | .object members => do
    let fields ← Node.fieldsMember? members
    pure (fields, ← (members.lookup "span").bind Span.ofJson?)
  | .array [.array fields, span] => do
    pure (← Node.fieldsOfJson? fields, ← Span.ofJson? span)
  | _ => none

/-- Reads an array: its items and its span. -/
def Node.arrayOfJson? : Json → Option (List Node × Span)
  | .object members => do
    let items ← Node.itemsMember? members
    pure (items, ← (members.lookup "span").bind Span.ofJson?)
  | .array [.array items, span] => do
    pure (← Node.itemsOfJson? items, ← Span.ofJson? span)
  | _ => none

def Node.fieldOfJson? : Json → Option (Field Node)
  | .object members => do
    let name ← (members.lookup "name").bind Identifier.ofJson?
    let value ← Node.valueMember? members
    pure ⟨name, value, ← (members.lookup "span").bind Span.ofJson?⟩
  | .array [name, value, span] => do
    pure ⟨← Identifier.ofJson? name, ← Node.ofJson? value, ← Span.ofJson? span⟩
  | _ => none

def Node.fieldsMember? : List (String × Json) → Option (List (Field Node))
  | [] => none
  | (key, value) :: rest =>
    if key = "fields" then
      match value with
      | .array fields => Node.fieldsOfJson? fields
      | _ => none
    else Node.fieldsMember? rest

def Node.itemsMember? : List (String × Json) → Option (List Node)
  | [] => none
  | (key, value) :: rest =>
    if key = "items" then
      match value with
      | .array items => Node.itemsOfJson? items
      | _ => none
    else Node.itemsMember? rest

def Node.valueMember? : List (String × Json) → Option Node
  | [] => none
  | (key, value) :: rest => if key = "value" then Node.ofJson? value else Node.valueMember? rest

def Node.fieldsOfJson? : List Json → Option (List (Field Node))
  | [] => some []
  | field :: rest => do pure ((← Node.fieldOfJson? field) :: (← Node.fieldsOfJson? rest))

def Node.itemsOfJson? : List Json → Option (List Node)
  | [] => some []
  | item :: rest => do pure ((← Node.ofJson? item) :: (← Node.itemsOfJson? rest))

end

def Document.ofJson? (json : Json) : Option Document :=
  match json.parts? ["root"] with
  | some [root] => (Node.dictionaryOfJson? root).map fun (fields, span) => ⟨fields, span⟩
  | _ => none

end TypedConfig
