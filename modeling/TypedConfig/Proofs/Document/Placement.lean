import Mathlib.Data.List.Induction
import TypedConfig.Proofs.Document.Soundness

/-!
Where the nodes of an accepted text stand.  Every span covers a stretch of the text between two
character boundaries and names the line and column of its start; children stand inside their parent,
one behind the other.
-/

namespace TypedConfig

namespace Text

/-- The line behind a stretch of text, counted from one. -/
def lineBehind (before : List Char) : Nat := 1 + before.count '\n'

/-- The column behind a stretch of text, in characters, counted from one. -/
def columnBehind (before : List Char) : Nat :=
  1 + (before.reverse.takeWhile fun c => c != '\n').length

theorem byteLength_append (first second : List Char) :
    byteLength (first ++ second) = byteLength first + byteLength second := by
  induction first with
  | nil => simp [byteLength]
  | cons c rest ih => simp [byteLength, ih, Nat.add_assoc]

theorem byteLength_le_append (first second : List Char) :
    byteLength first ≤ byteLength (first ++ second) := by
  rw [byteLength_append]
  exact Nat.le_add_right _ _

/-- Reading a text from its start keeps count of its bytes, lines and columns. -/
theorem Place.start_afterAll (before : List Char) :
    Place.start.afterAll before = ⟨byteLength before, lineBehind before, columnBehind before⟩ := by
  induction before using List.reverseRecOn with
  | nil => rfl
  | append_singleton text c ih =>
      rw [Place.afterAll_append, ih]
      by_cases hc : c = '\n'
      · subst hc
        simp [Place.after, lineBehind, columnBehind, byteLength_append, byteLength, Nat.add_assoc]
      · have hcount : [c].count '\n' = 0 := by simp [hc]
        have hline : (c != '\n') = true := by simpa using hc
        simp only [Place.afterAll_cons, Place.afterAll_nil, Place.after, if_neg hc, lineBehind,
          columnBehind, byteLength_append, byteLength, List.count_append, hcount, List.reverse_append,
          List.reverse_singleton, List.singleton_append, List.takeWhile_cons, hline, if_true,
          List.length_cons, Nat.add_zero, Nat.add_assoc]

end Text

/-- The span covers a piece of a text, which stands behind another piece. -/
structure Span.Covers (text before piece : List Char) (span : Span) : Prop where
  split : ∃ after, text = before ++ piece ++ after
  start : span.start = Text.byteLength before
  stop : span.stop = Text.byteLength (before ++ piece)

/-- The span covers some piece of a text and names the line and the column of its start. -/
def Span.Marks (text : List Char) (span : Span) : Prop :=
  ∃ before piece, span.Covers text before piece ∧ piece ≠ [] ∧
    span.line = Text.lineBehind before ∧ span.column = Text.columnBehind before

/-- The spans of a tree. -/
inductive SpanTree where
  | node (span : Span) (children : List SpanTree)

def SpanTree.span : SpanTree → Span
  | .node span _ => span

/-- Each span marks a piece of the text, and the spans below it lie inside it, one behind the
other. -/
inductive SpanTree.Placed (text : List Char) : SpanTree → Prop where
  | node {span : Span} {children : List SpanTree} :
      span.Marks text →
        (∀ child ∈ children, span.start ≤ child.span.start ∧ child.span.stop ≤ span.stop) →
          children.Pairwise (fun first second => first.span.stop ≤ second.span.start) →
            (∀ child ∈ children, Placed text child) → Placed text (.node span children)

mutual

/-- The spans of a node and of all that stands in it. -/
def Node.spans : Node → SpanTree
  | .dictionary fields span => .node span (fieldSpans fields)
  | .array items span => .node span (itemSpans items)
  | .literal leaf => .node leaf.span []

/-- The spans of fields: below each those of its name and its value. -/
def fieldSpans : List (Field Node) → List SpanTree
  | [] => []
  | ⟨name, value, span⟩ :: rest => .node span [.node name.span [], value.spans] :: fieldSpans rest

def itemSpans : List Node → List SpanTree
  | [] => []
  | item :: rest => item.spans :: itemSpans rest

end

def Field.spans (field : Field Node) : SpanTree :=
  .node field.span [.node field.name.span [], field.value.spans]

theorem fieldSpans_eq_map (fields : List (Field Node)) :
    fieldSpans fields = fields.map Field.spans := by
  induction fields with
  | nil => rfl
  | cons field rest ih =>
      rw [fieldSpans, ih]
      rfl

theorem itemSpans_eq_map (items : List Node) : itemSpans items = items.map Node.spans := by
  induction items with
  | nil => rfl
  | cons item rest ih =>
      rw [itemSpans, ih]
      rfl

section Placed

variable {text before piece after : List Char} {span : Span}

theorem covers_of_span (h : Style.accepted.span span before piece)
    (htext : text = before ++ piece ++ after) : span.Covers text before piece := by
  obtain rfl : span = _ := h
  refine ⟨⟨after, htext⟩, ?_, ?_⟩
  · simp [Span.between, Text.Place.start_afterAll]
  · simp [Span.between, Text.Place.start_afterAll]

theorem series_quotes {α : Type} {item : α → List Char → List Char → Prop} {xs : List α}
    {P : α → Prop} {body : List Char} (h : Style.accepted.Series item xs before body)
    (hitem : ∀ x ∈ xs, ∀ before piece after, text = before ++ piece ++ after →
      item x before piece → P x)
    (htext : text = before ++ body ++ after) : ∀ x ∈ xs, P x := by
  induction h with
  | @last x before piece hx =>
      intro y hy
      obtain rfl := List.mem_singleton.mp hy
      exact hitem y List.mem_cons_self before piece after htext hx
  | @next x xs before piece gap rest hx _ _ ih =>
      have hmore := ih (fun y hy => hitem y (List.mem_cons_of_mem _ hy)) (by simp [htext])
      have hfirst := hitem x List.mem_cons_self before piece (gap ++ rest ++ after)
        (by simp [htext]) hx
      exact List.forall_mem_cons.mpr ⟨hfirst, hmore⟩

theorem inside_quotes {α : Type} {item : α → List Char → List Char → Prop} {xs : List α}
    {P : α → Prop} {body : List Char} (h : Style.accepted.Inside item xs before body)
    (hitem : ∀ x ∈ xs, ∀ before piece after, text = before ++ piece ++ after →
      item x before piece → P x)
    (htext : text = before ++ body ++ after) : ∀ x ∈ xs, P x := by
  cases h with
  | empty _ => exact List.forall_mem_nil _
  | @filled _ _ lead body trail _ hseries _ =>
      have hbody : text = before ++ lead ++ body ++ (trail ++ after) := by simp [htext]
      exact series_quotes hseries hitem hbody

end Placed

end TypedConfig
