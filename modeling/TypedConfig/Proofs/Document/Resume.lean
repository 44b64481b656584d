import TypedConfig.Proofs.Document.Soundness
import TypedConfig.Proofs.Token.Steady

/-!
Reading a series again with another end.  A series passes thing after thing, with what stands
between them.  When the text behind the things that were passed is replaced by text that goes on the
last of them no more than before, the same pieces are passed again.
-/

namespace TypedConfig

open Token (Quieter)

/-- Layout in front of quieter text. -/
theorem Layout.quieter {layout rest other : List Char} (h : Layout layout)
    (hquiet : Quieter rest other) : Quieter (layout ++ rest) (layout ++ other) := by
  induction h with
  | nil => exact hquiet
  | @blank c more hc _ ih =>
      by_cases hgap : Token.isGap c = true
      · exact ih.cons_gap hgap
      · apply Token.AtEdge.quieter
        exact atEdge_cons (by simpa using hgap) (isWordChar_of_isBlank hc)
  | comment _ _ _ =>
      apply Token.AtEdge.quieter
      exact atEdge_cons (by decide) (by decide)

/-- The end of the line ends the last comment. -/
theorem OpenLayout.append_newline {layout : List Char} (h : OpenLayout layout) :
    Layout (layout ++ ['\n']) := by
  obtain ⟨first, words, hfirst, hwords, rfl⟩ := h
  have hcomment : Layout ('#' :: (words ++ '\n' :: [])) := Layout.nil.comment hwords
  simpa using hfirst.append hcomment

theorem LayoutBefore.append_newline {layout left : List Char} (h : LayoutBefore layout left) :
    Layout (layout ++ ['\n']) := by
  rcases h with hlayout | ⟨hopen, -⟩
  · exact hlayout.append (Layout.nil.blank (by decide))
  · exact hopen.append_newline

theorem LayoutBefore.quieter {layout left other : List Char} (h : LayoutBefore layout left)
    (hquiet : Quieter left other) : Quieter (layout ++ left) (layout ++ other) := by
  rcases h with hlayout | ⟨⟨first, words, hfirst, -, rfl⟩, -⟩
  · exact hlayout.quieter hquiet
  · apply Token.AtEdge.quieter
    rw [List.append_assoc]
    exact hfirst.atEdge (atEdge_cons (by decide) (by decide))

/-- Text that may be read where the text `left` was: it begins on a new line, or there was text that
it begins like. -/
def Resumes (left other : List Char) : Prop :=
  (∃ more, other = '\n' :: more ∧ Begins more) ∨
    (left ≠ [] ∧ Solid other ∧ (',' ∈ other.head? → ',' ∈ left.head?))

namespace Cursor

theorem pastLayout_solid {text : List Char} (h : Solid text) (before : List Char) :
    (Cursor.behind before text).pastLayout = .behind before text := by
  simp [pastLayout, behind, splitLayout_solid h, past]

theorem pastLayout_append {layout : List Char} (h : Layout layout) (before text : List Char) :
    (Cursor.behind before (layout ++ text)).pastLayout
      = (Cursor.behind (before ++ layout) text).pastLayout := by
  simp [pastLayout, behind, h.splitLayout_append, past, Text.Place.afterAll_append]

/-- Text that may be read where other text was is found behind the same layout. -/
theorem pastLayout_resumes {layout left other : List Char} (hlayout : LayoutBefore layout left)
    (hother : Resumes left other) (before : List Char) :
    (Cursor.behind before (layout ++ other)).pastLayout
      = (Cursor.behind (before ++ layout) other).pastLayout := by
  rcases hlayout with hlayout | ⟨hopen, rfl⟩
  · exact pastLayout_append hlayout before other
  · rcases hother with ⟨more, rfl, -⟩ | ⟨hne, -⟩
    · have hline : Layout ['\n'] := Layout.nil.blank (by decide)
      have hfirst := pastLayout_append hopen.append_newline before more
      have hsecond := pastLayout_append hline (before ++ layout) more
      simp only [List.append_assoc, List.singleton_append] at hfirst hsecond
      rw [hfirst, hsecond]
    · exact absurd rfl hne

end Cursor

namespace Document

/-- What stands between two things of a series, and whether a comma does. -/
inductive Between : Bool → List Char → List Char → Prop
  | comma {first second left : List Char} : Layout first → LayoutBefore second left →
      Between true (first ++ ',' :: second) left
  | plain {gap left : List Char} : LayoutBefore gap left → ',' ∉ left.head? →
      Between false gap left

section Gaps

variable {comma : Bool} {gap left other : List Char}

theorem readComma_some (before rest : List Char) :
    readComma (.behind before (',' :: rest)) = (true, .behind (before ++ [',']) rest) := by
  unfold readComma
  simp only [Cursor.behind]
  exact congrArg (Prod.mk true) (past_behind before [','] rest)

theorem between_behind (before rest : List Char) : ∃ comma gap left,
    rest = gap ++ left ∧ Between comma gap left ∧ Solid left ∧
      (readComma (Cursor.behind before rest).pastLayout).1 = comma ∧
        (readComma (Cursor.behind before rest).pastLayout).2.pastLayout
          = .behind (before ++ gap) left := by
  obtain ⟨first, follow, rfl, hfirst, hsolid, hpast⟩ := pastLayout_behind before rest
  rw [hpast]
  by_cases hcomma : ',' ∈ follow.head?
  · obtain ⟨more, rfl⟩ := List.head?_eq_some_iff.mp hcomma
    obtain ⟨second, left, rfl, hsecond, hleft, hpastSecond⟩ :=
      pastLayout_behind (before ++ first ++ [',']) more
    rw [readComma_some]
    refine ⟨true, first ++ ',' :: second, left, by simp, ?_, hleft, rfl, ?_⟩
    · exact .comma (hfirst.layout (List.cons_ne_nil _ _)) hsecond
    · rw [hpastSecond]
      simp
  · have hnone : readComma (.behind (before ++ first) follow)
        = (false, .behind (before ++ first) follow) := readComma_none hcomma _
    rw [hnone]
    exact ⟨false, first, follow, rfl, .plain hfirst hcomma, hsolid, rfl,
      Cursor.pastLayout_solid hsolid _⟩

theorem Between.quieter (h : Between comma gap left) (hquiet : Quieter left other) :
    Quieter (gap ++ left) (gap ++ other) := by
  cases h with
  | comma hfirst hsecond =>
      rw [List.append_assoc, List.append_assoc]
      apply hfirst.quieter
      apply Token.AtEdge.quieter
      exact atEdge_cons (by decide) (by decide)
  | plain hgap _ => exact hgap.quieter hquiet

/-- Text that may be read where other text was is found behind the same gap, with the same comma. -/
theorem Between.resumes (h : Between comma gap left) (hother : Resumes left other)
    (before : List Char) :
    (readComma (Cursor.behind before (gap ++ other)).pastLayout).1 = comma ∧
      (readComma (Cursor.behind before (gap ++ other)).pastLayout).2.pastLayout
        = (Cursor.behind (before ++ gap) other).pastLayout := by
  cases h with
  | @comma first second _ hfirst hsecond =>
      have hsolid : Solid (',' :: (second ++ other)) := solid_cons (by decide) (by decide)
      rw [List.append_assoc, List.cons_append, Cursor.pastLayout_append hfirst,
        Cursor.pastLayout_solid hsolid, readComma_some]
      refine ⟨rfl, ?_⟩
      have hpast := Cursor.pastLayout_resumes hsecond hother (before ++ first ++ [','])
      rw [hpast]
      simp
  | plain hgap hcomma =>
      rw [Cursor.pastLayout_resumes hgap hother]
      have hnone : readComma (Cursor.behind (before ++ gap) other).pastLayout
          = (false, (Cursor.behind (before ++ gap) other).pastLayout) := by
        rcases hother with ⟨more, rfl, hmore⟩ | ⟨-, hsolid, hhead⟩
        · have hline : Layout ['\n'] := Layout.nil.blank (by decide)
          have hpast := Cursor.pastLayout_append hline (before ++ gap) more
          rw [List.singleton_append] at hpast
          rw [hpast, Cursor.pastLayout_solid hmore.solid]
          exact readComma_none hmore.not_comma _
        · rw [Cursor.pastLayout_solid hsolid]
          exact readComma_none (fun h => hcomma (hhead h)) _
      rw [hnone]
      refine ⟨rfl, ?_⟩
      obtain ⟨layout, text, htext, -, hsolid, hpast⟩ :=
        pastLayout_behind (before ++ gap) other
      rw [hpast]
      exact Cursor.pastLayout_solid hsolid _

end Gaps

section Series

variable {α : Type} {reader : Cursor → Reading α} {item : α → List Char → List Char → Prop}
  {expected : Expectation} {afterComma last : Bool} {before rest before' rest' : List Char}

/-- The reader takes the piece in front of a text. -/
def Takes (reader : Cursor → Reading α) (piece follow : List Char) : Prop :=
  ∀ before, ∃ x, reader (.behind before (piece ++ follow))
    = .found x (.behind (before ++ piece) follow)

/-- The reader takes a piece in front of quieter text too, and with the piece in front the quieter
text is still quieter. -/
def Steady (reader : Cursor → Reading α) : Prop :=
  ∀ ⦃before piece rest : List Char⦄ ⦃x : α⦄,
    reader (.behind before (piece ++ rest)) = .found x (.behind (before ++ piece) rest) →
      ∀ ⦃other : List Char⦄, Quieter rest other →
        Quieter (piece ++ rest) (piece ++ other) ∧ Takes reader piece other

/-- The things that a series passes before it ends or breaks off: at first the text `rest` is left,
behind the last gap `rest'`. -/
inductive Passed (reader : Cursor → Reading α) :
    Bool → List Char → List Char → Bool → List Char → List Char → Prop
  | here {afterComma : Bool} {before rest : List Char} :
      Passed reader afterComma before rest afterComma before rest
  | step {afterComma comma last : Bool} {before piece gap left before' rest' : List Char} {x : α} :
      reader (.behind before (piece ++ (gap ++ left)))
          = .found x (.behind (before ++ piece) (gap ++ left)) →
        piece ≠ [] → Between comma gap left → Solid left →
          Passed reader comma (before ++ piece ++ gap) left last before' rest' →
            Passed reader afterComma before (piece ++ (gap ++ left)) last before' rest'

/-- How a series ends where nothing more is passed: the next thing is broken, or is missing behind a
comma, or the series is done. -/
inductive Ends (reader : Cursor → Reading α) (expected : Expectation) (cursor : Cursor) :
    Bool → Reading (List α) → Prop
  | broken {afterComma : Bool} {fault : Expectation} {stop : Cursor} :
      reader cursor = .fault fault stop → Ends reader expected cursor afterComma (.fault fault stop)
  | required {stop : Cursor} :
      reader cursor = .missing stop → Ends reader expected cursor true (.fault expected stop)
  | done {stop : Cursor} {xs : List α} :
      reader cursor = .missing stop → Ends reader expected cursor false (.found xs cursor)

theorem Ends.cons {cursor : Cursor} {reading : Reading (List α)}
    (h : Ends reader expected cursor afterComma reading) (x : α) :
    Ends reader expected cursor afterComma (reading.map (x :: ·)) := by
  cases h with
  | broken hfault => exact .broken hfault
  | required hmissing => exact .required hmissing
  | done hmissing => exact .done hmissing

theorem readSeries_pastLayout {bound : Nat} (hbound : 0 < bound) (afterComma : Bool)
    {cursor other : Cursor} (h : cursor.pastLayout = other.pastLayout) :
    readSeries reader expected bound afterComma cursor
      = readSeries reader expected bound afterComma other := by
  obtain ⟨bound, rfl⟩ : ∃ more, bound = more + 1 := ⟨bound - 1, by omega⟩
  simp only [readSeries, h]

theorem readSeries_passed (expected : Expectation) (hitem : Sound reader item) (afterComma : Bool)
    (before : List Char) {bound : Nat} (hbound : rest.length < bound) (hsolid : Solid rest) :
    ∃ last before' rest',
      Passed reader afterComma before rest last before' rest' ∧ Solid rest' ∧
        Ends reader expected (.behind before' rest') last
          (readSeries reader expected bound afterComma (.behind before rest)) := by
  induction bound generalizing before rest afterComma with
  | zero => omega
  | succ bound ih =>
      simp only [readSeries, Cursor.pastLayout_solid hsolid]
      cases hread : reader (.behind before rest) with
      | found x next =>
          obtain ⟨piece, follow, rfl, rfl, hpiece, -⟩ := hitem hread
          obtain ⟨comma, gap, left, rfl, hbetween, hleft, hcomma, hpast⟩ :=
            between_behind (before ++ piece) follow
          have hpos := List.length_pos_iff.mpr hpiece
          simp only [List.length_append] at hbound
          have hless : left.length < bound := by omega
          obtain ⟨last, before', rest', hpassed, hsolid', hends⟩ :=
            ih comma (before ++ piece ++ gap) hless hleft
          refine ⟨last, before', rest', .step hread hpiece hbetween hleft hpassed, hsolid', ?_⟩
          simp only [hcomma]
          rw [readSeries_pastLayout (by omega) comma
            (hpast.trans (Cursor.pastLayout_solid hleft _).symm)]
          exact hends.cons x
      | missing stop =>
          refine ⟨afterComma, before, rest, .here, hsolid, ?_⟩
          cases afterComma with
          | true => exact .required hread
          | false => exact .done hread
      | fault fault stop => exact ⟨afterComma, before, rest, .here, hsolid, .broken hread⟩

/-- The series that begins at a cursor ends at another one. -/
def Finishes (reader : Cursor → Reading α) (expected : Expectation) (afterComma : Bool)
    (cursor next : Cursor) : Prop :=
  ∀ bound, cursor.rest.length < bound →
    ∃ xs, readSeries reader expected bound afterComma cursor = .found xs next

/-- A series that finishes, with one more thing in front. -/
theorem Finishes.cons {comma : Bool} {piece gap left other : List Char} {next : Cursor}
    (htakes : Takes reader piece (gap ++ other)) (hpiece : piece ≠ [])
    (hsolid : Solid (piece ++ (gap ++ other))) (hbetween : Between comma gap left)
    (hother : Resumes left other)
    (h : Finishes reader expected comma (.behind (before ++ piece ++ gap) other) next) :
    Finishes reader expected afterComma (.behind before (piece ++ (gap ++ other))) next := by
  intro bound hbound
  obtain ⟨x, hread⟩ := htakes before
  obtain ⟨hcomma, hpast⟩ := hbetween.resumes hother (before ++ piece)
  have hpos := List.length_pos_iff.mpr hpiece
  simp only [Cursor.behind, List.length_append] at hbound
  obtain ⟨bound, rfl⟩ : ∃ more, bound = more + 1 := ⟨bound - 1, by omega⟩
  obtain ⟨xs, hxs⟩ := h bound (by simp only [Cursor.behind]; omega)
  refine ⟨x :: xs, ?_⟩
  simp only [readSeries, Cursor.pastLayout_solid hsolid, hread, hcomma]
  rw [readSeries_pastLayout (by omega) comma hpast, hxs]
  rfl

theorem solid_append {piece left : List Char} (hpiece : piece ≠ []) (h : Solid (piece ++ left))
    (other : List Char) : Solid (piece ++ other) := by
  obtain ⟨c, more, rfl⟩ := List.exists_cons_of_ne_nil hpiece
  exact h

/-- Once a series has passed some things, it passes them again when the text behind them is replaced
by text that may be read there, and it finishes when it finishes in that text. -/
theorem Passed.finishes (hsteady : Steady reader)
    (h : Passed reader afterComma before rest last before' rest') (hsolid : Solid rest) :
    ∃ mid, rest = mid ++ rest' ∧ before' = before ++ mid ∧ ∀ piece follow,
      Resumes rest' (piece ++ follow) → Quieter rest' (piece ++ follow) →
        (∀ before, Finishes reader expected last (.behind before (piece ++ follow))
          (.behind (before ++ piece) follow)) →
            Resumes rest (mid ++ (piece ++ follow)) ∧ Quieter rest (mid ++ (piece ++ follow)) ∧
              ∀ before, Finishes reader expected afterComma
                (.behind before (mid ++ (piece ++ follow)))
                (.behind (before ++ (mid ++ piece)) follow) := by
  induction h with
  | here => exact ⟨[], rfl, by simp, fun piece follow hresumes hquiet h => ⟨hresumes, hquiet, h⟩⟩
  | @step afterComma comma last before first gap left _ rest' x hread hfirst hbetween hleft _ ih =>
      obtain ⟨mid, rfl, rfl, hmid⟩ := ih hleft
      refine ⟨first ++ (gap ++ mid), by simp, by simp, ?_⟩
      intro piece follow hresumes hquiet h
      obtain ⟨hresumes, hquiet, h⟩ := hmid piece follow hresumes hquiet h
      obtain ⟨hquiet, htakes⟩ := hsteady hread (hbetween.quieter hquiet)
      have hassoc : first ++ (gap ++ mid) ++ (piece ++ follow)
          = first ++ (gap ++ (mid ++ (piece ++ follow))) := by simp
      have hagain := solid_append hfirst hsolid (gap ++ (mid ++ (piece ++ follow)))
      rw [hassoc]
      refine ⟨.inr ⟨by simp [hfirst], hagain, ?_⟩, hquiet, ?_⟩
      · obtain ⟨c, more, rfl⟩ := List.exists_cons_of_ne_nil hfirst
        exact id
      · intro before
        have hnext : before ++ (first ++ (gap ++ mid) ++ piece)
            = before ++ first ++ gap ++ (mid ++ piece) := by simp
        rw [hnext]
        exact .cons htakes hfirst hagain hbetween hresumes (h _)

end Series

end Document

end TypedConfig
