import Mathlib.Data.List.TakeWhile
import TypedConfig.Token.Literal

/-!
What stands behind a token.  A token looks ahead over spaces and tabs for a unit or a suffix, and it
ends where a word ends.  Behind an edge neither can go on, so whatever text follows there, each
recogniser cuts the same token off.
-/

namespace TypedConfig.Token

/-- A run of characters with the property `p` does not go on into this text. -/
def Stops (p : Char → Bool) (text : List Char) : Prop :=
  ∀ c ∈ text.head?, p c = false

section Runs

variable {p : Char → Bool} {run front rest : List Char}

theorem takeWhile_append_stops (h : Stops p rest) :
    (front ++ rest).takeWhile p = front.takeWhile p := by
  induction front with
  | nil =>
      cases rest with
      | nil => rfl
      | cons c more => simp [h c rfl]
  | cons c more ih => simp [List.takeWhile_cons, ih]

theorem dropWhile_append_stops (h : Stops p rest) :
    (front ++ rest).dropWhile p = front.dropWhile p ++ rest := by
  induction front with
  | nil =>
      cases rest with
      | nil => rfl
      | cons c more => simp [h c rfl]
  | cons c more ih =>
      by_cases hc : p c = true
      · simp [hc, ih]
      · simp [hc]

theorem takeWhile_run (hrun : ∀ c ∈ run, p c = true) (hrest : Stops p rest) :
    (run ++ rest).takeWhile p = run := by
  rw [takeWhile_append_stops hrest, List.takeWhile_eq_self_iff.mpr hrun]

theorem dropWhile_run (hrun : ∀ c ∈ run, p c = true) (hrest : Stops p rest) :
    (run ++ rest).dropWhile p = rest := by
  rw [dropWhile_append_stops hrest, List.dropWhile_eq_nil_iff.mpr hrun, List.nil_append]

theorem stops_cons {c : Char} {text : List Char} (h : p c = false) : Stops p (c :: text) := by
  intro d hd
  cases hd
  exact h

theorem stops_append {text : List Char} (hne : front ≠ []) (h : Stops p front) :
    Stops p (front ++ text) := by
  cases front with
  | nil => exact absurd rfl hne
  | cons c more => exact stops_cons (h c rfl)

theorem stops_dropWhile (p : Char → Bool) (text : List Char) : Stops p (text.dropWhile p) := by
  intro c hc
  have h := List.head?_dropWhile_not p text
  rw [hc] at h
  exact h

end Runs

theorem isWordChar_of_isDigit {c : Char} (h : c.isDigit = true) : isWordChar c = true := by
  simp [isWordChar, Char.isAlphanum, h]

theorem isWordChar_of_isGap {c : Char} (h : isGap c = true) : isWordChar c = false := by
  simp only [isGap, Bool.or_eq_true, beq_iff_eq] at h
  rcases h with rfl | rfl <;> decide

theorem Stops.stops_digit {text : List Char} (h : Stops isWordChar text) :
    Stops Char.isDigit text := by
  intro c hc
  by_contra hdigit
  have hword := isWordChar_of_isDigit (Bool.not_eq_false _ ▸ hdigit)
  simp [h c hc] at hword

theorem atBoundary_iff_stops {text : List Char} :
    atBoundary text = true ↔ Stops isWordChar text := by
  cases text with
  | nil => simp [atBoundary, Stops]
  | cons c more => simp [atBoundary, Stops]

/-- What a recogniser cut off, with more text behind the rest. -/
def withRest (rest : List Char) (cut : List Char × List Char) : List Char × List Char :=
  (cut.1, cut.2 ++ rest)

section Boundary

variable {front rest : List Char}

theorem Stops.digits_append (h : Stops isWordChar rest) : digits (front ++ rest) = digits front :=
  takeWhile_append_stops h.stops_digit

theorem Stops.afterDigits_append (h : Stops isWordChar rest) :
    afterDigits (front ++ rest) = afterDigits front ++ rest :=
  dropWhile_append_stops h.stops_digit

theorem Stops.word_append (h : Stops isWordChar rest) : word (front ++ rest) = word front :=
  takeWhile_append_stops h

theorem Stops.afterWord_append (h : Stops isWordChar rest) :
    afterWord (front ++ rest) = afterWord front ++ rest :=
  dropWhile_append_stops h

theorem Stops.atBoundary_append (h : Stops isWordChar rest) :
    atBoundary (front ++ rest) = atBoundary front := by
  cases front with
  | nil => exact atBoundary_iff_stops.mpr h
  | cons c more => rfl

theorem Stops.decimal_append (h : Stops isWordChar rest) :
    decimal (front ++ rest) = withRest rest (decimal front) := by
  unfold decimal
  rw [h.afterDigits_append, h.digits_append]
  cases hmore : afterDigits front with
  | nil =>
      cases rest with
      | nil => rfl
      | cons c more =>
          have hc : isWordChar c = false := h c rfl
          have hpoint : c ≠ '.' := by
            rintro rfl
            exact absurd hc (by decide)
          simp [withRest, hpoint]
  | cons c more =>
      by_cases hc : c = '.'
      · subst hc
        simp only [List.cons_append, h.digits_append, h.afterDigits_append]
        split <;> rfl
      · simp [withRest, hc]

/-- Text behind a boundary takes no part in what a recogniser cuts off. -/
def Bounded (recognise : Recogniser) : Prop :=
  ∀ ⦃front rest : List Char⦄, Stops isWordChar rest →
    recognise (front ++ rest) = (recognise front).map (withRest rest)

theorem integer_bounded : Bounded integer := by
  intro front rest h
  simp only [integer, h.digits_append, h.afterDigits_append, h.atBoundary_append]
  split <;> rfl

theorem boolean_bounded : Bounded boolean := by
  intro front rest h
  simp only [boolean, h.word_append, h.afterWord_append]
  split <;> rfl

theorem isoDuration_bounded : Bounded isoDuration := by
  intro front rest h
  simp only [isoDuration, h.word_append, h.afterWord_append]
  split
  · split <;> rfl
  · rfl

end Boundary

/-- The text ends, or goes on with a character that belongs to no word, once the spaces and tabs
in front are skipped. -/
def AtEdge (text : List Char) : Prop :=
  Stops isWordChar (afterGap text)

section Edge

variable {front rest : List Char}

theorem atEdge_nil : AtEdge [] := by
  simp [AtEdge, Stops, afterGap]

theorem AtEdge.stops_word (h : AtEdge rest) : Stops isWordChar rest := by
  intro c hc
  by_cases hgap : isGap c = true
  · exact isWordChar_of_isGap hgap
  · cases rest with
    | nil => cases hc
    | cons d more =>
        cases hc
        exact h c (by simp [afterGap, hgap])

/-- The gap in front of a text that is not all gap stays the same before any other text. -/
theorem gap_append (h : afterGap front ≠ []) : gap (front ++ rest) = gap front := by
  have hstops : Stops isGap (afterGap front ++ rest) :=
    stops_append h (stops_dropWhile isGap front)
  have hgap : ∀ c ∈ gap front, isGap c = true := fun c hc => List.mem_takeWhile_imp hc
  have hsplit : front ++ rest = gap front ++ (afterGap front ++ rest) := by
    rw [← List.append_assoc, gap_append_afterGap]
  rw [hsplit]
  exact takeWhile_run hgap hstops

theorem afterGap_append (h : afterGap front ≠ []) :
    afterGap (front ++ rest) = afterGap front ++ rest := by
  have hstops : Stops isGap (afterGap front ++ rest) :=
    stops_append h (stops_dropWhile isGap front)
  have hgap : ∀ c ∈ gap front, isGap c = true := fun c hc => List.mem_takeWhile_imp hc
  have hsplit : front ++ rest = gap front ++ (afterGap front ++ rest) := by
    rw [← List.append_assoc, gap_append_afterGap]
  rw [hsplit]
  exact dropWhile_run hgap hstops

theorem afterGap_append_of_nil (h : afterGap front = []) :
    afterGap (front ++ rest) = afterGap rest := by
  have hgap : ∀ c ∈ front, isGap c = true := List.dropWhile_eq_nil_iff.mp h
  induction front with
  | nil => rfl
  | cons c more ih =>
      have hmore : ∀ d ∈ more, isGap d = true := fun d hd => hgap d (List.mem_cons_of_mem c hd)
      have hc : isGap c = true := hgap c List.mem_cons_self
      have hnil : afterGap more = [] := List.dropWhile_eq_nil_iff.mpr hmore
      simpa [afterGap, hc] using ih hnil hmore

/-- At an edge the word behind a gap cannot come from the text that follows. -/
theorem AtEdge.word_afterGap_append (h : AtEdge rest) :
    word (afterGap (front ++ rest)) = word (afterGap front) := by
  by_cases hfront : afterGap front = []
  · rw [afterGap_append_of_nil hfront, hfront]
    have hword : word ([] ++ afterGap rest) = word [] := takeWhile_append_stops h
    exact hword
  · rw [afterGap_append hfront, h.stops_word.word_append]

end Edge

/-- Text that follows at an edge takes no part in what a recogniser cuts off. -/
def Local (recognise : Recogniser) : Prop :=
  ∀ ⦃front rest : List Char⦄, AtEdge rest →
    recognise (front ++ rest) = (recognise front).map (withRest rest)

theorem Bounded.isLocal {recognise : Recogniser} (h : Bounded recognise) : Local recognise :=
  fun _ _ hedge => h hedge.stops_word

section Locality

variable {front rest : List Char}

theorem AtEdge.withSuffix_append {suffixes : List (List Char)} {number : List Char}
    (h : AtEdge rest) (hproper : suffixes.contains [] = false) :
    withSuffix suffixes number (front ++ rest)
      = (withSuffix suffixes number front).map (withRest rest) := by
  simp only [withSuffix, h.word_afterGap_append]
  by_cases hword : suffixes.contains (word (afterGap front)) = true
  · have hne : afterGap front ≠ [] := by
      intro hnil
      rw [hnil] at hword
      exact absurd hword (by simpa [word] using hproper)
    rw [if_pos hword, if_pos hword, gap_append hne, afterGap_append hne, h.stops_word.afterWord_append]
    rfl
  · rw [if_neg hword, if_neg hword]
    rfl

theorem size_local : Local size := by
  intro front rest h
  simp only [size, h.stops_word.digits_append, h.stops_word.afterDigits_append,
    h.withSuffix_append (show sizeUnits.contains [] = false by decide)]
  split <;> rfl

theorem long_local : Local long := by
  intro front rest h
  simp only [long, h.stops_word.digits_append, h.stops_word.afterDigits_append,
    h.withSuffix_append (show [['l'], ['L']].contains [] = false by decide)]
  split <;> rfl

theorem double_local : Local double := by
  intro front rest h
  simp only [double, h.stops_word.digits_append, h.stops_word.decimal_append, withRest,
    h.withSuffix_append (show [['d'], ['D']].contains [] = false by decide)]
  split <;> rfl

theorem startsWithF_word (text : List Char) : startsWithF (word text) = startsWithF text := by
  cases text with
  | nil => rfl
  | cons c more =>
      by_cases hc : isWordChar c = true
      · simp [word, startsWithF, hc]
      · have hf : (c == 'f' || c == 'F') = false := by
          by_contra hcontra
          simp only [Bool.not_eq_false, Bool.or_eq_true, beq_iff_eq] at hcontra
          rcases hcontra with rfl | rfl <;> exact hc (by decide)
        simp [word, startsWithF, hc, hf]

theorem float_local : Local float := by
  intro front rest h
  have hstart : startsWithF (afterGap ((decimal front).2 ++ rest))
      = startsWithF (afterGap (decimal front).2) := by
    rw [← startsWithF_word, h.word_afterGap_append, startsWithF_word]
  simp only [float, h.stops_word.digits_append, h.stops_word.decimal_append, withRest, hstart,
    h.stops_word.atBoundary_append,
    h.withSuffix_append (show [['f'], ['F']].contains [] = false by decide)]
  split
  · rfl
  · split
    · rfl
    · split <;> rfl

theorem ofWord?_nil : TimeUnit.ofWord? [] = none := by decide

theorem amountWithUnit_eq_none (h : TimeUnit.ofWord? (word (afterGap (afterDigits front))) = none) :
    amountWithUnit front = none := by
  simp [amountWithUnit, h]

theorem AtEdge.amountWithUnit_append (h : AtEdge rest) :
    amountWithUnit (front ++ rest)
      = (amountWithUnit front).map fun cut => (cut.1, withRest rest cut.2) := by
  by_cases hne : afterGap (afterDigits front) = []
  · have hfront : amountWithUnit front = none := by
      apply amountWithUnit_eq_none
      rw [hne]
      exact ofWord?_nil
    rw [hfront]
    apply amountWithUnit_eq_none
    rw [h.stops_word.afterDigits_append, h.word_afterGap_append, hne]
    exact ofWord?_nil
  · simp only [amountWithUnit, h.stops_word.digits_append, h.stops_word.afterDigits_append, gap_append hne,
      afterGap_append hne, h.stops_word.word_append, h.stops_word.afterWord_append]
    split
    · rfl
    · rw [Option.map_map]
      rfl

theorem amountsIn_eq_none (h : amountWithUnit front = none) (units : List TimeUnit) :
    amountsIn units front = none := by
  cases units with
  | nil => rfl
  | cons unit smaller => simp [amountsIn, h]

theorem amountWithUnit_of_stops (h : Stops Char.isDigit front) : amountWithUnit front = none := by
  have hdigits : digits ([] ++ front) = [] := takeWhile_run (by simp) h
  rw [List.nil_append] at hdigits
  simp [amountWithUnit, hdigits]

/-- Amounts go on behind a gap when they go on behind the gap of the text in front of an edge. -/
theorem amountsIn_afterGap_append {units : List TimeUnit} (h : AtEdge rest)
    (hlocal : ∀ text, amountsIn units (text ++ rest) = (amountsIn units text).map (withRest rest)) :
    amountsIn units (afterGap (front ++ rest))
      = (amountsIn units (afterGap front)).map (withRest rest) := by
  by_cases hfront : afterGap front = []
  · have hdigit : Stops Char.isDigit (afterGap rest) := Stops.stops_digit h
    rw [afterGap_append_of_nil hfront, hfront,
      amountsIn_eq_none (amountWithUnit_of_stops hdigit) units,
      amountsIn_eq_none (amountWithUnit_of_stops (by simp [Stops])) units]
    rfl
  · rw [afterGap_append hfront]
    exact hlocal (afterGap front)

theorem amountsIn_local (units : List TimeUnit) : Local (amountsIn units) := by
  intro front rest h
  induction units generalizing front with
  | nil => rfl
  | cons unit smaller ih =>
      unfold amountsIn
      rw [h.amountWithUnit_append]
      cases amountWithUnit front with
      | none => rfl
      | some cut =>
          obtain ⟨found, token, left⟩ := cut
          simp only [Option.map_some, withRest]
          by_cases hunit : found = unit
          · rw [if_pos hunit, if_pos hunit, amountsIn_afterGap_append h (@ih)]
            by_cases hleft : afterGap left = []
            · rw [hleft, amountsIn_eq_none (amountWithUnit_of_stops (by simp [Stops])) smaller]
              simp only [Option.map_none, ite_self]
              rfl
            · rw [gap_append hleft]
              cases amountsIn smaller (afterGap left) <;> split <;> rfl
          · rw [if_neg hunit, if_neg hunit]
            exact @ih front

end Locality

end TypedConfig.Token
