import TypedConfig.Proofs.Token.Whole

/-!
Other text behind a token.  A number looks at the word behind a gap, and a duration at the amount
there.  Where a text goes on a token in front of it no more than another text does, it may stand in
the place of the other: the same token is cut off.
-/

namespace TypedConfig.Token

/-- The words that belong to a number when they stand behind it. -/
def unitWords : List (List Char) :=
  [['l'], ['L'], ['d'], ['D'], ['f'], ['F']] ++ sizeUnits
    ++ TimeUnit.all.flatMap TimeUnit.spellings

/-- The unit of the amount at the front of a text. -/
def leadingUnit (text : List Char) : Option TimeUnit := (amountWithUnit text).map Prod.fst

/-- The text `other` goes on a token in front of it at most where the text `rest` does. -/
structure Quieter (rest other : List Char) : Prop where
  boundary : Stops isWordChar rest → Stops isWordChar other
  suffix : word (afterGap other) ∈ unitWords → word (afterGap rest) = word (afterGap other)
  letter : startsWithF (afterGap other) = true → startsWithF (afterGap rest) = true
  unit : ∀ unit, leadingUnit (afterGap other) = some unit → leadingUnit (afterGap rest) = some unit

section Words

variable {text : List Char}

theorem mem_unitWords_of_ofWord? {word : List Char} {unit : TimeUnit}
    (h : TimeUnit.ofWord? word = some unit) : word ∈ unitWords := by
  have hspelled : word ∈ unit.spellings := by simpa using List.find?_some h
  exact List.mem_append_right _ (List.mem_flatMap.mpr ⟨unit, unit.mem_all, hspelled⟩)

theorem nil_not_mem_unitWords : [] ∉ unitWords := by decide

theorem word_eq_nil_iff_stops : word text = [] ↔ Stops isWordChar text := by
  cases text with
  | nil => simp [word, Stops]
  | cons c more =>
      by_cases hc : isWordChar c = true
      · simp [word, Stops, hc]
      · simp [word, Stops, hc]

theorem leadingUnit_of_stops (h : Stops Char.isDigit text) : leadingUnit text = none := by
  simp [leadingUnit, amountWithUnit_of_stops h]

theorem startsWithF_of_stops (h : Stops isWordChar text) : startsWithF text = false := by
  rw [← startsWithF_word, word_eq_nil_iff_stops.mpr h]
  rfl

/-- At an edge nothing goes on. -/
theorem AtEdge.quieter {other : List Char} (h : AtEdge other) (rest : List Char) :
    Quieter rest other := by
  constructor
  · intro _
    exact h.stops_word
  · intro hmem
    rw [word_eq_nil_iff_stops.mpr h] at hmem
    exact absurd hmem nil_not_mem_unitWords
  · intro hfloat
    simp [startsWithF_of_stops h] at hfloat
  · intro unit hunit
    have hdigit : Stops Char.isDigit (afterGap other) := Stops.stops_digit h
    simp [leadingUnit_of_stops hdigit] at hunit

end Words

section Fronts

variable {front rest other : List Char}

/-- A letter that is taken for a suffix is there in front of the other text too. -/
theorem startsWithF_of_quieter (hrest : Stops isWordChar rest) (hquiet : Quieter rest other)
    (h : startsWithF (afterGap (front ++ other)) = true) :
    startsWithF (afterGap (front ++ rest)) = true := by
  by_cases hfront : afterGap front = []
  · rw [afterGap_append_of_nil hfront] at h ⊢
    exact hquiet.letter h
  · rw [afterGap_append hfront, ← startsWithF_word] at h ⊢
    rw [(hquiet.boundary hrest).word_append] at h
    rw [hrest.word_append, h]

/-- A word that stands behind a boundary has a gap in front of it. -/
theorem gap_ne_nil {text : List Char} (h : Stops isWordChar text)
    (hword : word (afterGap text) ≠ []) :
    gap text ≠ [] := by
  intro hgap
  have hsplit := gap_append_afterGap text
  rw [hgap, List.nil_append] at hsplit
  rw [hsplit] at hword
  exact hword (word_eq_nil_iff_stops.mpr h)

theorem leadingUnit_eq_some {text : List Char} {unit : TimeUnit} :
    leadingUnit text = some unit ↔
      digits text ≠ [] ∧ gap (afterDigits text) ≠ [] ∧
        TimeUnit.ofWord? (unitWord text) = some unit := by
  simp only [leadingUnit, amountWithUnit, unitWord]
  by_cases hdigits : (digits text).isEmpty = true
  · simp [List.isEmpty_iff.mp hdigits]
  · by_cases hgap : (gap (afterDigits text)).isEmpty = true
    · simp [List.isEmpty_iff.mp hgap]
    · rw [if_neg (by simp [hdigits, hgap]), Option.map_map]
      simp only [List.isEmpty_iff] at hdigits hgap
      simp [hdigits, hgap, Function.comp_def]

/-- The unit behind an amount is there in front of the other text too. -/
theorem leadingUnit_of_quieter (hrest : Stops isWordChar rest) (hquiet : Quieter rest other)
    {unit : TimeUnit} (h : leadingUnit (front ++ other) = some unit) :
    leadingUnit (front ++ rest) = some unit := by
  have hother := hquiet.boundary hrest
  rw [leadingUnit_eq_some] at h ⊢
  simp only [unitWord, hrest.digits_append, hrest.afterDigits_append] at h ⊢
  simp only [hother.digits_append, hother.afterDigits_append] at h
  obtain ⟨hdigits, hgap, hunit⟩ := h
  refine ⟨hdigits, ?_⟩
  by_cases hfront : afterGap (afterDigits front) = []
  · rw [afterGap_append_of_nil hfront] at hunit ⊢
    have hword := hquiet.suffix (mem_unitWords_of_ofWord? hunit)
    refine ⟨gap_ne_nil ?_ ?_, by rw [hword, hunit]⟩
    · cases hspace : afterDigits front with
      | nil => exact hrest
      | cons c more =>
          have hall : ∀ d ∈ afterDigits front, isGap d = true := List.dropWhile_eq_nil_iff.mp hfront
          exact stops_cons (isWordChar_of_isGap (hall c (by simp [hspace])))
    · rw [afterGap_append_of_nil hfront, hword]
      intro hnil
      rw [hnil] at hunit
      exact absurd hunit (by simp [ofWord?_nil])
  · rw [gap_append hfront] at hgap ⊢
    rw [afterGap_append hfront] at hunit ⊢
    rw [hother.word_append] at hunit
    rw [hrest.word_append]
    exact ⟨hgap, hunit⟩

theorem isDigit_of_isGap {c : Char} (h : isGap c = true) : c.isDigit = false := by
  by_contra hdigit
  have hword := isWordChar_of_isDigit (Bool.not_eq_false _ ▸ hdigit)
  simp [isWordChar_of_isGap h] at hword

/-- A common front keeps quieter text quieter, where units behind it are not at stake. -/
theorem Quieter.of_front (hfront : ∃ c more, front = c :: more ∧ isGap c = false)
    (hrest : Stops isWordChar rest) (hother : Stops isWordChar other)
    (hunit : ∀ unit, leadingUnit (front ++ other) = some unit →
      leadingUnit (front ++ rest) = some unit) : Quieter (front ++ rest) (front ++ other) := by
  obtain ⟨c, more, rfl, hc⟩ := hfront
  have hgap : ∀ text, afterGap (c :: more ++ text) = c :: more ++ text := by
    intro text
    simp [afterGap, hc]
  have hword : word (c :: more ++ rest) = word (c :: more ++ other) := by
    rw [hrest.word_append, hother.word_append]
  constructor
  · exact fun hstops => hstops
  · intro _
    rw [hgap, hgap, hword]
  · intro hfloat
    rw [hgap, ← startsWithF_word] at hfloat ⊢
    rw [hword, hfloat]
  · intro unit hleading
    rw [hgap] at hleading ⊢
    exact hunit unit hleading

/-- Behind a common front quieter text is still quieter. -/
theorem Quieter.append (hquiet : Quieter rest other)
    (hfront : ∃ c more, front = c :: more ∧ isGap c = false) (hrest : Stops isWordChar rest) :
    Quieter (front ++ rest) (front ++ other) :=
  .of_front hfront hrest (hquiet.boundary hrest) fun _ => leadingUnit_of_quieter hrest hquiet

/-- Behind a word that does not begin with a digit any boundary is as quiet as another. -/
theorem quieter_of_word (hfront : ∃ c more, front = c :: more ∧ isGap c = false ∧ c.isDigit = false)
    (hrest : Stops isWordChar rest) (hother : Stops isWordChar other) :
    Quieter (front ++ rest) (front ++ other) := by
  obtain ⟨c, more, rfl, hgap, hdigit⟩ := hfront
  refine .of_front ⟨c, more, rfl, hgap⟩ hrest hother fun unit hunit => ?_
  have hstops : Stops Char.isDigit (c :: more ++ other) := stops_cons hdigit
  rw [leadingUnit_of_stops hstops] at hunit
  cases hunit

theorem Quieter.cons_gap {c : Char} (hquiet : Quieter rest other) (hc : isGap c = true) :
    Quieter (c :: rest) (c :: other) := by
  have hgap : ∀ text, afterGap (c :: text) = afterGap text := by
    intro text
    simp [afterGap, hc]
  constructor
  · intro _
    exact stops_cons (isWordChar_of_isGap hc)
  · rw [hgap, hgap]
    exact hquiet.suffix
  · rw [hgap, hgap]
    exact hquiet.letter
  · rw [hgap, hgap]
    exact hquiet.unit

end Fronts

end TypedConfig.Token
