import TypedConfig.Document.Reader
import TypedConfig.Proofs.Token.Quote

/-!
Texts that begin with a digit.  Which kind of number stands there is decided by two words: the one
behind the digits and a gap, and the one behind the digits, the fraction and a gap.
-/

namespace TypedConfig.Token

/-- The word behind the digits at the front and the gap that follows them. -/
def unitWord (text : List Char) : List Char := word (afterGap (afterDigits text))

/-- The word behind the number at the front and the gap that follows it. -/
def suffixWord (text : List Char) : List Char := word (afterGap (decimal text).2)

/-- No number without a fraction takes this word for a unit or a suffix. -/
structure UnitFree (word : List Char) : Prop where
  time : TimeUnit.ofWord? word = none
  size : sizeUnits.contains word = false
  long : [['l'], ['L']].contains word = false

theorem unitFree_nil : UnitFree [] := ⟨by decide, by decide, by decide⟩

theorem unitFree_point (more : List Char) : UnitFree ('.' :: more) := by
  constructor
  · simp [TimeUnit.ofWord?, TimeUnit.all, TimeUnit.spellings]
  · simp [sizeUnits]
  · simp

section Numbers

variable {text : List Char}

theorem afterDigits_stops (text : List Char) : Stops Char.isDigit (afterDigits text) :=
  stops_dropWhile Char.isDigit text

/-- A fraction belongs to the number when a point and a digit follow the digits at the front. -/
theorem decimal_cases (text : List Char) :
    decimal text = (digits text, afterDigits text) ∨
      ∃ fraction rest, fraction ≠ [] ∧ (∀ c ∈ fraction, c.isDigit = true) ∧
        Stops Char.isDigit rest ∧ afterDigits text = '.' :: (fraction ++ rest) ∧
        decimal text = (digits text ++ '.' :: fraction, rest) := by
  unfold decimal
  split
  · rename_i rest hrest
    by_cases hdigits : (digits rest).isEmpty = true
    · left
      rw [if_pos hdigits, hrest]
    · right
      refine ⟨digits rest, afterDigits rest, ?_, ?_, afterDigits_stops rest, ?_, if_neg hdigits⟩
      · simpa using hdigits
      · intro c hc
        exact List.mem_takeWhile_imp hc
      · rw [hrest, digits_append_afterDigits]
  · left
    rfl

/-- The word behind digits that have a fraction begins with the point. -/
theorem unitFree_of_point {more : List Char} (h : afterDigits text = '.' :: more) :
    UnitFree (unitWord text) := by
  have hgap : isGap '.' = false := by decide
  have hword : isWordChar '.' = true := by decide
  have hpoint : unitWord text = '.' :: word more := by
    simp [unitWord, h, afterGap, word, hgap, hword]
  rw [hpoint]
  exact unitFree_point _

/-- Either the number has no fraction, or no unit stands behind its digits. -/
theorem decimal_plain_or_unitFree (text : List Char) :
    decimal text = (digits text, afterDigits text) ∨ UnitFree (unitWord text) := by
  rcases decimal_cases text with hplain | ⟨fraction, rest, -, -, -, hafter, -⟩
  · exact .inl hplain
  · exact .inr (unitFree_of_point hafter)

theorem unitFree_of_suffixWord (h : UnitFree (suffixWord text)) : UnitFree (unitWord text) := by
  rcases decimal_plain_or_unitFree text with hplain | hfree
  · have hword : suffixWord text = unitWord text := by simp [suffixWord, unitWord, hplain]
    rw [← hword]
    exact h
  · exact hfree

theorem not_point_mem_digits (text : List Char) : '.' ∉ digits text := by
  intro h
  exact absurd (List.mem_takeWhile_imp h) (by decide)

theorem simpleDuration_eq_none (h : TimeUnit.ofWord? (unitWord text) = none) :
    simpleDuration text = none :=
  amountsIn_eq_none (amountWithUnit_eq_none h) TimeUnit.all

theorem withSuffix_eq_none {suffixes : List (List Char)} {number rest : List Char}
    (h : suffixes.contains (word (afterGap rest)) = false) :
    (if (digits text).isEmpty then none else withSuffix suffixes number rest) = none := by
  have hnone : withSuffix suffixes number rest = none := by
    unfold withSuffix
    simp only [h, Bool.false_eq_true, if_false]
  rw [hnone, ite_self]

theorem size_eq_none (h : sizeUnits.contains (unitWord text) = false) : size text = none :=
  withSuffix_eq_none h

theorem long_eq_none (h : [['l'], ['L']].contains (unitWord text) = false) : long text = none :=
  withSuffix_eq_none h

theorem double_eq_none (h : [['d'], ['D']].contains (suffixWord text) = false) :
    double text = none :=
  withSuffix_eq_none h

theorem exists_digit (h : digits text ≠ []) : ∃ c more, text = c :: more ∧ c.isDigit = true := by
  cases text with
  | nil => exact absurd rfl h
  | cons c more =>
      refine ⟨c, more, rfl, ?_⟩
      by_contra hc
      exact h (by simp [digits, hc])

theorem isoDuration_eq_none (h : ∀ c ∈ text.head?, c ≠ 'P') : isoDuration text = none := by
  cases text with
  | nil => rfl
  | cons c more =>
      have hc : c ≠ 'P' := h c rfl
      unfold isoDuration
      split
      · rename_i tail hword
        by_cases hwordChar : isWordChar c = true
        · simp [word, hwordChar, hc] at hword
        · simp [word, hwordChar] at hword
      · rfl

theorem isoDuration_of_digits (h : digits text ≠ []) : isoDuration text = none := by
  obtain ⟨c, more, rfl, hc⟩ := exists_digit h
  apply isoDuration_eq_none
  rintro _ ⟨⟩ rfl
  exact absurd hc (by decide)

theorem boolean_eq_none (h : digits text ≠ []) : boolean text = none := by
  have hwords : ∀ word ∈ booleanWords, word.head?.any Char.isDigit = false := by decide
  obtain ⟨c, more, rfl, hc⟩ := exists_digit h
  unfold boolean
  split
  · rename_i hmem
    have hhead := hwords (word (c :: more)) (by simpa using hmem)
    simp [word, isWordChar_of_isDigit hc, hc] at hhead
  · rfl

/-- Of the lexical kinds only the numbers and the durations in words begin with a digit. -/
theorem literal_of_digits (h : digits text ≠ []) :
    quoted text = .absent ∧ literal text = firstMatch text (alternatives.drop 3) := by
  obtain ⟨c, more, rfl, hc⟩ := exists_digit h
  have hquote : quoted (c :: more) = .absent := by
    apply quoted_eq_absent
    rintro _ ⟨⟩ rfl
    exact absurd hc (by decide)
  refine ⟨hquote, ?_⟩
  simp [literal, alternatives, firstMatch, string_eq_none hquote, isoDuration_of_digits h,
    boolean_eq_none h]

/-- Where no unit stands behind the digits, the number is a double, a float or an integer. -/
theorem literal_of_unitFree (hdigits : digits text ≠ []) (h : UnitFree (unitWord text)) :
    literal text = firstMatch text (alternatives.drop 6) := by
  rw [(literal_of_digits hdigits).2]
  simp [alternatives, firstMatch, simpleDuration_eq_none h.time, size_eq_none h.size,
    long_eq_none h.long]

end Numbers

end TypedConfig.Token
