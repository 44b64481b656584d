import TypedConfig.Document.Json
import TypedConfig.Text.Outline

/-!
Looking at documents: a walk down by field names and item numbers, and the outline of the whole
tree.
-/

namespace TypedConfig

/-- One step down: into the first field of a name, or into an item counted from zero. -/
inductive Step where
  | field (name : String)
  | item (index : Nat)
deriving DecidableEq, Repr

/-- The child that a step leads to. -/
def Node.child? : Node → Step → Option Node
  | .dictionary fields _, .field name =>
    (fields.find? fun field => field.name.name == name).map Field.value
  | .array items _, .item index => items[index]?
  | _, _ => none

/-- The nodes met on a path below `node`; a step that leads nowhere gives `none` and ends the walk.
-/
def Node.walk (node : Node) : List Step → List (Option Node)
  | [] => []
  | step :: rest =>
    match node.child? step with
    | some child => some child :: child.walk rest
    | none => [none]

open Text (Outline)

def numberOutline (n : Nat) : Outline := .leaf (Nat.repr n)

def Span.outline (span : Span) : Outline :=
  .record "Span" [("start", numberOutline span.start), ("end", numberOutline span.stop),
    ("line", numberOutline span.line), ("column", numberOutline span.column)]

def Identifier.outline (name : Identifier) : Outline :=
  .record "Identifier" [("name", .leaf (Text.inspect name.name)), ("span", name.span.outline)]

def LiteralKind.outline : LiteralKind → Outline
  | .duration form => .tuple "Duration" [.leaf form.name]
  | kind => .leaf kind.name

def Literal.outline (leaf : Literal) : Outline :=
  .record "Literal" [("kind", leaf.kind.outline), ("text", .leaf (Text.inspect leaf.text)),
    ("span", leaf.span.outline)]

/-- The outline of a dictionary, given those of its fields. -/
def dictionaryOutline (fields : List Outline) (span : Span) : Outline :=
  .record "Dictionary" [("fields", .list fields), ("span", span.outline)]

mutual

def Node.outline : Node → Outline
  | .dictionary fields span =>
    .tuple "Dictionary" [dictionaryOutline (Node.fieldOutlines fields) span]
  | .array items span =>
    .tuple "Array" [.record "Array" [("items", .list (Node.itemOutlines items)),
      ("span", span.outline)]]
  | .literal leaf => .tuple "Literal" [leaf.outline]

def Node.fieldOutlines : List (Field Node) → List Outline
  | [] => []
  | ⟨name, value, span⟩ :: rest =>
    .record "Field" [("name", name.outline), ("value", value.outline), ("span", span.outline)]
      :: Node.fieldOutlines rest

def Node.itemOutlines : List Node → List Outline
  | [] => []
  | item :: rest => item.outline :: Node.itemOutlines rest

end

def Document.outline (document : Document) : Outline :=
  .record "Config" [("root", dictionaryOutline (Node.fieldOutlines document.fields) document.span)]

end TypedConfig
