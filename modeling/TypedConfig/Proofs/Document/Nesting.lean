import TypedConfig.Proofs.Document.Fault
import TypedConfig.Proofs.Document.Progress

/-!
The limit on nesting is exact.  Reading with a limit differs from reading without one in one way:
the reading ends in a fault at the first bracket that opens one container too many, in the order of
the text.  Where the text is faulty in front of that bracket there is the same fault, and where it
is faulty behind it the fault is not reached.
-/

namespace TypedConfig.Document

/-!
Reading without a limit on nesting.  Every value inside a container is shorter than the container,
so a reader that counts no levels is defined by recursion on the length of the text.  The reader
with a limit is the same reader with another one for the values inside, as are the roots and the
whole texts that they read.
-/

section Agreement

variable {α : Type} {reader other : Cursor → Reading α} {expected unclosed : Expectation}
  {close : Char}

end Agreement

/-- What the reading of a whole text comes to. -/
def outcome : Reading Document → Except Fault Document
  | .found document _ => .ok document
  | .missing cursor => .error ⟨.openingBrace, cursor⟩
  | .fault expected cursor => .error ⟨expected, cursor⟩

end TypedConfig.Document

namespace TypedConfig

/-!
Where the limit is passed.
-/

theorem Node.fieldNesting_le_iff {levels : Nat} (fields : List (Field Node)) :
    Node.fieldNesting fields ≤ levels ↔ ∀ field ∈ fields, field.value.nesting ≤ levels := by
  induction fields with
  | nil => simp [Node.fieldNesting]
  | cons field rest ih => rw [Node.fieldNesting, Nat.max_le, ih, List.forall_mem_cons]

theorem Node.itemNesting_le_iff {levels : Nat} (items : List Node) :
    Node.itemNesting items ≤ levels ↔ ∀ item ∈ items, item.nesting ≤ levels := by
  induction items with
  | nil => simp [Node.itemNesting]
  | cons item rest ih => rw [Node.itemNesting, Nat.max_le, ih, List.forall_mem_cons]

namespace Document

/-- How a reading without a limit and one with a limit are related.  What was read without has the
containers `deep x` that open too deep. -/
inductive Limited {α : Type} (limit : Nat) (deep : α → List Span) : Reading α → Reading α → Prop
  | same {x : α} {next : Cursor} : deep x = [] → Limited limit deep (.found x next) (.found x next)
  | tooDeep {x : α} {next stop : Cursor} {last : Text.Place} {span : Span} {more : List Span} :
      deep x = span :: more → span = .between stop.place last →
        Limited limit deep (.found x next) (.fault (.nesting limit) stop)
  | missing {stop : Cursor} : Limited limit deep (.missing stop) (.missing stop)
  | fault {expected : Expectation} {stop : Cursor} :
      Limited limit deep (.fault expected stop) (.fault expected stop)
  | hidden {expected : Expectation} {stop early : Cursor} :
      Limited limit deep (.fault expected stop) (.fault (.nesting limit) early)

section Limits

variable {α β : Type} {limit : Nat} {deep : α → List Span} {deeper : β → List Span}

/-- Going on behind what was found: where something was too deep already, more of it may follow. -/
theorem Limited.andThen {free limited : Reading α} {step other : α → Cursor → Reading β}
    (h : Limited limit deep free limited)
    (hsame : ∀ x next, deep x = [] → Limited limit deeper (step x next) (other x next))
    (hmore : ∀ x next y last, step x next = .found y last → ∃ more, deeper y = deep x ++ more)
    (hfound : ∀ x next stop, step x next ≠ .missing stop) :
    Limited limit deeper (free.andThen step) (limited.andThen other) := by
  cases h with
  | same hnone => exact hsame _ _ hnone
  | missing => exact .missing
  | fault => exact .fault
  | hidden => exact .hidden
  | @tooDeep x next stop last span more hdeep hspan =>
      change Limited limit deeper (step x next) (.fault (.nesting limit) stop)
      cases hstep : step x next with
      | missing missed => exact absurd hstep (hfound x next missed)
      | fault expected broken => exact .hidden
      | found y behind =>
          obtain ⟨further, hfurther⟩ := hmore x next y behind hstep
          rw [hdeep, List.cons_append] at hfurther
          exact .tooDeep hfurther hspan

theorem Limited.map {free limited : Reading α} {f : α → β} (h : Limited limit deep free limited)
    (hf : ∀ x, deeper (f x) = deep x) :
    Limited limit deeper (free.map f) (limited.map f) := by
  cases h with
  | same hnone => exact .same ((hf _).trans hnone)
  | missing => exact .missing
  | fault => exact .fault
  | hidden => exact .hidden
  | tooDeep hdeep hspan => exact .tooDeep ((hf _).trans hdeep) hspan

theorem Limited.require {free limited : Reading α} (h : Limited limit deep free limited)
    (expected : Expectation) :
    Limited limit deep (free.require expected) (limited.require expected) := by
  cases h with
  | same hnone => exact .same hnone
  | missing => exact .fault
  | fault => exact .fault
  | hidden => exact .hidden
  | tooDeep hdeep hspan => exact .tooDeep hdeep hspan

end Limits

section Series

variable {α : Type} {limit : Nat} {deep : α → List Span} {free limited : Cursor → Reading α}
  {expected unclosed : Expectation} {close : Char}

end Series

section Values

variable {limit around : Nat} {free limited : Cursor → Reading Node}

end Values

section Texts

variable {levels : Nat} {text : List Char} {document : Document}

section Outcomes

variable {limit : Nat} {deep : Document → List Span} {free limited : Reading Document}

end Outcomes

end Texts

end Document

/-- Spans that lie inside another one and begin one behind the other. -/
structure Span.Orders (outer : Span) (spans : List Span) : Prop where
  inside : ∀ span ∈ spans,
    outer.start ≤ span.start ∧ span.start ≤ span.stop ∧ span.stop ≤ outer.stop
  ordered : spans.Pairwise fun first second => first.start ≤ second.start

section Order

variable {text : List Char} {outer inner : Span} {spans : List Span}

theorem Span.Orders.mono (h : inner.Orders spans) (hstart : outer.start ≤ inner.start)
    (hstop : inner.stop ≤ outer.stop) : outer.Orders spans := by
  refine ⟨?_, h.ordered⟩
  intro span hspan
  obtain ⟨hlow, hmiddle, hhigh⟩ := h.inside span hspan
  exact ⟨hstart.trans hlow, hmiddle, hhigh.trans hstop⟩

theorem SpanTree.Placed.marks {children : List SpanTree}
    (h : (SpanTree.node outer children).Placed text) : outer.Marks text := by
  cases h with
  | node hmarks _ _ _ => exact hmarks

end Order

namespace Document

section Parsing

variable {text : String} {document : Document}

end Parsing

end Document

end TypedConfig
