import TypedConfig.Text.Basic

/-!
The tree of a configuration document.  A document is one root dictionary; a dictionary holds named
fields, an array holds items, and a leaf is a literal: the text of a token that is not decoded yet,
with the lexical kind it was recognised as.  Every node carries the span of text it was read from.
-/

namespace TypedConfig

/-- The stretch of text of a node: its first byte, the byte after its last one, and the line and
column of its start. -/
structure Span where
  start : Nat
  stop : Nat
  line : Nat
  column : Nat
deriving DecidableEq, Repr

namespace Span

/-- The span between two places. -/
def between (first last : Text.Place) : Span :=
  ⟨first.offset, last.offset, first.line, first.column⟩

def length (span : Span) : Nat := span.stop - span.start

def isEmpty (span : Span) : Bool := span.stop ≤ span.start

end Span

/-- The two ways to write a duration: `1 hour 30 minutes` and `PT1H30M`. -/
inductive DurationForm where
  | simple
  | iso8601
deriving DecidableEq, Repr

/-- The lexical kind of a literal. -/
inductive LiteralKind where
  | string
  | integer
  | long
  | float
  | double
  | boolean
  | size
  | duration (form : DurationForm)
deriving DecidableEq, Repr

/-- A leaf: its kind and the exact text of its token, quotes and suffixes included. -/
structure Literal where
  kind : LiteralKind
  text : String
  span : Span
deriving DecidableEq, Repr

/-- The name of a field.  The name of a quoted field is the decoded one. -/
structure Identifier where
  name : String
  span : Span
deriving DecidableEq, Repr

/-- A named value. -/
structure Field (Value : Type) where
  name : Identifier
  value : Value
  span : Span
deriving Repr

/-- What may stand behind the colon of a field or inside an array. -/
inductive Node where
  | dictionary (fields : List (Field Node)) (span : Span)
  | array (items : List Node) (span : Span)
  | literal (leaf : Literal)

/-- A document: the fields of its root dictionary and the span of that dictionary. -/
structure Document where
  fields : List (Field Node)
  span : Span

def Document.root (document : Document) : Node :=
  .dictionary document.fields document.span

/-- The phrase that names a kind of literal. -/
def LiteralKind.describe : LiteralKind → String
  | .string => "a string literal"
  | .integer => "an integer literal"
  | .long => "a long literal"
  | .float => "a float literal"
  | .double => "a double literal"
  | .boolean => "a boolean literal"
  | .size => "a size literal"
  | .duration _ => "a duration literal"

namespace Node

/-- The text that the node was read from. -/
def span : Node → Span
  | .dictionary _ span => span
  | .array _ span => span
  | .literal leaf => leaf.span

/-- The phrase that names a kind of node. -/
def describe : Node → String
  | .dictionary _ _ => "a dictionary"
  | .array _ _ => "an array"
  | .literal leaf => leaf.kind.describe

def literalText? : Node → Option String
  | .literal leaf => some leaf.text
  | _ => none

mutual

/-- The length of the longest chain of dictionaries and arrays, each inside the one before. -/
def nesting : Node → Nat
  | .dictionary fields _ => fieldNesting fields + 1
  | .array items _ => itemNesting items + 1
  | .literal _ => 0

def fieldNesting : List (Field Node) → Nat
  | [] => 0
  | ⟨_, value, _⟩ :: rest => max (nesting value) (fieldNesting rest)

def itemNesting : List Node → Nat
  | [] => 0
  | item :: rest => max (nesting item) (itemNesting rest)

end

end Node

/-!
Induction over documents: what holds of a container whenever it holds of everything in it, and of
every literal, holds of every node.
-/

@[induction_eliminator]
theorem Node.induction {motive : Node → Prop}
    (dictionary : ∀ fields span, (∀ field ∈ fields, motive field.value) →
      motive (.dictionary fields span))
    (array : ∀ items span, (∀ item ∈ items, motive item) → motive (.array items span))
    (literal : ∀ leaf, motive (.literal leaf)) (node : Node) : motive node := by
  refine @Node.rec motive (fun fields => ∀ field ∈ fields, motive field.value)
    (fun items => ∀ item ∈ items, motive item) (fun field => motive field.value)
    (fun fields span => dictionary fields span) (fun items span => array items span) literal
    ?_ ?_ ?_ ?_ (fun _ _ _ hvalue => hvalue) node
  · exact List.forall_mem_nil _
  · exact fun field rest hfield hrest => List.forall_mem_cons.mpr ⟨hfield, hrest⟩
  · exact List.forall_mem_nil _
  · exact fun item rest hitem hrest => List.forall_mem_cons.mpr ⟨hitem, hrest⟩

end TypedConfig
