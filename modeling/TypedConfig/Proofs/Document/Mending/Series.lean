import TypedConfig.Proofs.Document.Completeness
import TypedConfig.Proofs.Document.Resume

/-!
Mending a container in which reading breaks off.  Wherever it broke off, what had been taken of the
inside is completed so that the closing bracket may follow: the thing that was begun is finished,
and the things before it are passed again.
-/

namespace TypedConfig

open Token (Quieter)

namespace Reading

variable {α β : Type} {reading : Reading α} {stop : Cursor}

end Reading

namespace Document

theorem readMark_behind (mark : Char) (expected : Expectation) (before rest : List Char) :
    readMark mark expected (.behind before (mark :: rest))
      = .found () (.behind (before ++ [mark]) rest) := by
  have hpast : (Cursor.behind before (mark :: rest)).past [mark] rest
      = .behind (before ++ [mark]) rest := past_behind before [mark] rest
  simpa [readMark, Cursor.behind] using hpast

/-- The text `taken` was taken before reading broke off, and no blank follows it. -/
structure BreaksOff (before text : List Char) (stop : Cursor) (taken left : List Char) : Prop where
  text_eq : text = taken ++ left
  stop_eq : stop = .behind (before ++ taken) left
  solid : Token.Stops Text.isBlank left

/-- What is taken behind a piece is taken together with it. -/
theorem BreaksOff.append {before piece text taken left : List Char} {stop : Cursor}
    (h : BreaksOff (before ++ piece) text stop taken left) :
    BreaksOff before (piece ++ text) stop (piece ++ taken) left := by
  obtain ⟨rfl, rfl, hsolid⟩ := h
  exact ⟨by simp, by simp, hsolid⟩

section LineEnds

variable {text other : List Char}

end LineEnds

section Series

variable {α : Type} {reader : Cursor → Reading α} {item : α → List Char → List Char → Prop}
  {expected unclosed : Expectation} {close : Char}

/-- The end of a series. -/
theorem finishes_end (expected : Expectation) (hclose : Closes reader close) {lead : List Char}
    (hlead : Layout lead) (before other : List Char) :
    Finishes reader expected false (.behind before (lead ++ close :: other))
      (.behind (before ++ lead) (close :: other)) := by
  intro bound hbound
  obtain ⟨bound, rfl⟩ : ∃ more, bound = more + 1 := ⟨bound - 1, by omega⟩
  refine ⟨[], ?_⟩
  rw [Cursor.behind, readSeries_end expected hclose hlead, Cursor.behind,
    Text.Place.afterAll_append]

/-- Layout in front of a series. -/
theorem Finishes.layout {layout left other before : List Char} {afterComma : Bool} {next : Cursor}
    (hlayout : LayoutBefore layout left) (hother : Resumes left other)
    (h : Finishes reader expected afterComma (.behind (before ++ layout) other) next) :
    Finishes reader expected afterComma (.behind before (layout ++ other)) next := by
  intro bound hbound
  simp only [Cursor.behind, List.length_append] at hbound
  rw [readSeries_pastLayout (by omega) afterComma
    (Cursor.pastLayout_resumes hlayout hother before)]
  apply h
  simp only [Cursor.behind]
  omega

/-- A series that has passed the text `lead` goes on behind it in any text that may be read where
the text `left` was. -/
def GoesOn (reader : Cursor → Reading α) (expected : Expectation) (last : Bool)
    (lead left : List Char) : Prop :=
  ∀ piece follow, Resumes left (piece ++ follow) → Quieter left (piece ++ follow) →
    (∀ before, Finishes reader expected last (.behind before (piece ++ follow))
      (.behind (before ++ piece) follow)) →
        ∀ before, Finishes reader expected false (.behind before (lead ++ (piece ++ follow)))
          (.behind (before ++ (lead ++ piece)) follow)

/-- A series passes some things, and goes on behind them in other texts. -/
theorem readSeries_goesOn (expected : Expectation) (hitem : Sound reader item)
    (hsteady : Steady reader) (before text : List Char) : ∃ lead left last,
      text = lead ++ left ∧ Solid left ∧ GoesOn reader expected last lead left ∧
        Ends reader expected (.behind (before ++ lead) left) last
          (readSeries reader expected (text.length + 1) false (.behind before text)) := by
  obtain ⟨layout, rest, rfl, hlayout, hsolid, hpast⟩ := pastLayout_behind before text
  have hbound : rest.length < (layout ++ rest).length + 1 := by
    simp only [List.length_append]
    omega
  obtain ⟨last, before', left, hpassed, hleft, hends⟩ :=
    readSeries_passed expected hitem false (before ++ layout) hbound hsolid
  obtain ⟨mid, rfl, rfl, hmid⟩ := hpassed.finishes hsteady hsolid
  refine ⟨layout ++ mid, left, last, by simp, hleft, ?_, ?_⟩
  · intro piece follow hresumes hquiet h before
    obtain ⟨hagain, -, hfinishes⟩ := hmid piece follow hresumes hquiet h
    have hall := Finishes.layout hlayout hagain (hfinishes (before ++ layout))
    simpa only [List.append_assoc] using hall
  · have hsame := hpast.trans (Cursor.pastLayout_solid hsolid _).symm
    rw [readSeries_pastLayout (Nat.succ_pos _) false hsame, ← List.append_assoc]
    exact hends

/-- The text stands inside a container when the closing bracket follows it. -/
def TakesInside (reader : Cursor → Reading α) (expected : Expectation) (close : Char)
    (unclosed : Expectation) (body : List Char) : Prop :=
  ∀ before other, ∃ xs, readInside reader expected close unclosed
    (.behind before (body ++ close :: other)) = .found xs (.behind (before ++ body ++ [close]) other)

theorem takesInside_of_finishes {body : List Char}
    (h : ∀ before other, Finishes reader expected false (.behind before (body ++ close :: other))
      (.behind (before ++ body) (close :: other))) :
    TakesInside reader expected close unclosed body := by
  intro before other
  obtain ⟨xs, hxs⟩ := h before other _ (Nat.lt_succ_self _)
  refine ⟨xs, ?_⟩
  rw [readInside, hxs, Reading.andThen_found, readMark_behind, Reading.map_found]

section Inside

variable {lead left : List Char} {last : Bool}

/-- The bracket may follow where it followed before. -/
theorem GoesOn.closed (h : GoesOn reader expected false lead left) (hclose : Closes reader close)
    (hleft : close ∈ left.head?) : TakesInside reader expected close unclosed lead := by
  apply takesInside_of_finishes
  intro before other
  obtain ⟨more, rfl⟩ := List.head?_eq_some_iff.mp hleft
  have hresumes : Resumes (close :: more) ([] ++ close :: other) :=
    .inr ⟨List.cons_ne_nil _ _, (hclose.begins.append other).solid, id⟩
  have hquiet : Quieter (close :: more) ([] ++ close :: other) := (hclose.atEdge other).quieter _
  have hend := h [] (close :: other) hresumes hquiet
    (fun before => finishes_end expected hclose .nil before other) before
  simpa using hend

end Inside

/-- What was read inside a container may be read inside another one. -/
theorem readInside_again (hitem : Sound reader item) (hsteady : Steady reader)
    (hclose : Closes reader close) {before text : List Char} {xs : List α} {next : Cursor}
    (h : readInside reader expected close unclosed (.behind before text) = .found xs next) :
    ∃ body left, text = body ++ close :: left ∧ next = .behind (before ++ body ++ [close]) left ∧
      TakesInside reader expected close unclosed body := by
  obtain ⟨ys, cursor, hseries, hmark⟩ := Reading.found_of_andThen h
  obtain ⟨_, hbracket, rfl⟩ := Reading.found_of_map hmark
  obtain ⟨lead, left, last, rfl, -, hgoesOn, hends⟩ :=
    readSeries_goesOn expected hitem hsteady before text
  change readSeries reader expected ((lead ++ left).length + 1) false _ = _ at hseries
  rw [hseries] at hends
  cases hends with
  | done _ =>
      obtain ⟨follow, rfl, rfl⟩ := readMark_sound hbracket
      exact ⟨lead, follow, rfl, rfl, hgoesOn.closed hclose rfl⟩

end Series

/-- A reader that reads containers where their opening bracket stands: the bracket, the things that
the reader `inner` reads, and the closing bracket. -/
structure Container {α β : Type} (outer : Cursor → Reading β) (inner : Cursor → Reading α)
    (expected : Expectation) (opening close : Char) (unclosed : Expectation) : Prop where
  begins : Begins [opening]
  edge : ∀ rest, Token.AtEdge (opening :: rest)
  closes : Closes inner close
  reads : ∀ before rest, ∃ step : List α → Cursor → β, outer (.behind before (opening :: rest))
    = (readInside inner expected close unclosed (.behind (before ++ [opening]) rest)).andThen
        fun xs next => .found (step xs next) next

section Containers

variable {α β : Type} {outer : Cursor → Reading β} {inner : Cursor → Reading α}
  {item : α → List Char → List Char → Prop} {expected unclosed : Expectation} {opening close : Char}
  {before text : List Char}

theorem Container.takes (h : Container outer inner expected opening close unclosed)
    {body : List Char} (hbody : TakesInside inner expected close unclosed body)
    (follow : List Char) : Takes outer (opening :: (body ++ [close])) follow := by
  intro before
  have hassoc : opening :: (body ++ [close]) ++ follow = opening :: (body ++ close :: follow) := by
    simp
  obtain ⟨step, hstep⟩ := h.reads before (body ++ close :: follow)
  obtain ⟨xs, hxs⟩ := hbody (before ++ [opening]) follow
  have hnext : before ++ [opening] ++ body ++ [close] = before ++ opening :: (body ++ [close]) := by
    simp
  rw [hassoc, hstep, hxs, Reading.andThen_found, hnext]
  exact ⟨_, rfl⟩

/-- A container that was read is read in front of any other text. -/
theorem Container.again (h : Container outer inner expected opening close unclosed)
    (hitem : Sound inner item) (hsteady : Steady inner) {x : β} {next : Cursor}
    (hread : outer (.behind before (opening :: text)) = .found x next) :
    ∃ body left, text = body ++ close :: left ∧
      next = .behind (before ++ opening :: (body ++ [close])) left ∧
        ∀ other, Takes outer (opening :: (body ++ [close])) other := by
  obtain ⟨step, hstep⟩ := h.reads before text
  rw [hstep] at hread
  obtain ⟨xs, cursor, hinside, hfound⟩ := Reading.found_of_andThen hread
  cases hfound
  obtain ⟨body, left, rfl, rfl, hbody⟩ := readInside_again hitem hsteady h.closes hinside
  exact ⟨body, left, rfl, by simp, h.takes hbody⟩

theorem Container.steady (h : Container outer inner expected opening close unclosed)
    (hitem : Sound inner item) (hsteady : Steady inner) {piece rest : List Char} {x : β}
    (hopens : opening ∈ piece.head?)
    (hread : outer (.behind before (piece ++ rest)) = .found x (.behind (before ++ piece) rest))
    (other : List Char) : Quieter (piece ++ rest) (piece ++ other) ∧ Takes outer piece other := by
  obtain ⟨more, rfl⟩ := List.head?_eq_some_iff.mp hopens
  rw [List.cons_append] at hread
  obtain ⟨body, left, htext, hcursor, htakes⟩ := h.again hitem hsteady hread
  have hwhole : opening :: more ++ rest = opening :: (body ++ [close]) ++ left := by simp [htext]
  obtain ⟨hpiece, -⟩ := taken_unique hwhole hcursor
  rw [hpiece]
  exact ⟨(h.edge _).quieter _, htakes other⟩

end Containers

end Document

end TypedConfig

/-!
Mending a literal in which reading breaks off.  A string that was opened is closed, digits stand for
themselves, and where nothing was taken an empty string may stand.
-/

namespace TypedConfig.Document

open Token (Quieter)

theorem begins_quote (more : List Char) : Begins ('"' :: more) :=
  ⟨'"', more, rfl, by decide, by decide, by decide⟩

theorem atEdge_quote (more : List Char) : Token.AtEdge ('"' :: more) :=
  atEdge_cons (by decide) (by decide)

section Literals

variable {token rest : List Char}

theorem takes_literal {kind : LiteralKind}
    (h : Token.literal (token ++ rest) = some (kind, token, rest)) :
    Takes readLiteral token rest := by
  intro before
  have hpast : (Cursor.behind before (token ++ rest)).past token rest
      = .behind (before ++ token) rest := past_behind before token rest
  rcases Token.literal_cases h with hquoted | ⟨hquoted, -⟩ <;>
    · simp only [readLiteral, Cursor.behind, hquoted, h] at hpast ⊢
      rw [hpast]
      exact ⟨_, rfl⟩

theorem readLiteral_steady : Steady readLiteral := by
  intro before piece rest node h other hquiet
  unfold readLiteral at h
  split at h
  · cases h
  · split at h
    · rename_i kind token left hliteral
      simp only [Reading.found.injEq] at h
      obtain ⟨-, hcursor⟩ := h
      rw [past_behind] at hcursor
      obtain ⟨rfl, rfl⟩ := taken_unique (Token.literal_append hliteral) hcursor
      exact ⟨Token.literal_quieter hquiet hliteral, takes_literal (Token.literal_steady hquiet hliteral)⟩
    · cases h

end Literals

end TypedConfig.Document
