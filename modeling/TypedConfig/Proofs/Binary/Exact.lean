import Mathlib.Algebra.Order.Field.Rat
import Mathlib.Tactic.FieldSimp
import Mathlib.Tactic.Linarith
import Mathlib.Tactic.Positivity
import Mathlib.Tactic.Ring
import TypedConfig.Binary.Basic

/-!
What bit patterns stand for, and when rounding is exact.  A pattern is a normal integer and an
exponent, and rounding finds them again when the quotient is one that they stand for.
-/

namespace TypedConfig

namespace BinaryFormat

/-- The rational number that a bit pattern stands for: the sign, and the fraction with a leading one
times two to the power of the exponent less its bias.  With the smallest exponent there is no
leading one; with the largest one the pattern is an infinity or no number. -/
def value? (format : BinaryFormat) (bits : Nat) : Option ℚ :=
  let sign := bits / 2 ^ (format.fractionBits + format.exponentBits)
  let exponent := bits / 2 ^ format.fractionBits % 2 ^ format.exponentBits
  let fraction : ℚ := (bits % 2 ^ format.fractionBits : Nat) / 2 ^ format.fractionBits
  let bias : Int := 2 ^ (format.exponentBits - 1) - 1
  if exponent = 2 ^ format.exponentBits - 1 then none
  else if exponent = 0 then some ((-1) ^ sign * (fraction * 2 ^ (1 - bias)))
  else some ((-1) ^ sign * ((1 + fraction) * 2 ^ (exponent - bias)))

/-- An integer and an exponent as a pattern has them: the integer has no more digits than the
fraction and its leading one, and no fewer unless the exponent is the smallest one. -/
structure Normal (format : BinaryFormat) (integer exponent : Nat) : Prop where
  fits : integer < 2 ^ (format.fractionBits + 1)
  full : 2 ^ format.fractionBits ≤ integer ∨ exponent = 0

section Patterns

variable {format : BinaryFormat} {integer exponent pattern : Nat}

theorem significand_normal (pattern : Nat) :
    format.Normal (format.significand pattern).1 (format.significand pattern).2 ∧
      pattern = (format.significand pattern).2 * 2 ^ format.fractionBits
        + (format.significand pattern).1 := by
  have hpos : 0 < 2 ^ format.fractionBits := Nat.two_pow_pos _
  have hmod := Nat.mod_lt pattern hpos
  have hdiv := Nat.div_add_mod' pattern (2 ^ format.fractionBits)
  have hdouble : 2 ^ (format.fractionBits + 1) = 2 * 2 ^ format.fractionBits := Nat.pow_succ'
  simp only [significand, Nat.pow_eq]
  split
  · rename_i hzero
    rw [hzero] at hdiv
    exact ⟨⟨by omega, .inr rfl⟩, by simpa using hdiv.symm⟩
  · rename_i hfield
    obtain ⟨field, hfield⟩ := Nat.exists_eq_succ_of_ne_zero hfield
    rw [hfield, Nat.succ_mul] at hdiv
    refine ⟨⟨by omega, .inl (by omega)⟩, ?_⟩
    simp only [hfield, Nat.succ_eq_add_one, Nat.add_sub_cancel]
    omega

/-- A normal integer and its exponent are those of their pattern. -/
theorem Normal.significand_eq (h : format.Normal integer exponent) :
    format.significand (exponent * 2 ^ format.fractionBits + integer) = (integer, exponent) := by
  have hpos : 0 < 2 ^ format.fractionBits := Nat.two_pow_pos _
  have hfits := h.fits
  rw [Nat.pow_succ'] at hfits
  simp only [significand, Nat.pow_eq]
  rw [Nat.add_comm, Nat.add_mul_div_right _ _ hpos, Nat.add_mul_mod_self_right]
  by_cases hfull : 2 ^ format.fractionBits ≤ integer
  · have hdiv : integer / 2 ^ format.fractionBits = 1 :=
      Nat.div_eq_of_lt_le (by omega) (by omega)
    have hmod : integer % 2 ^ format.fractionBits = integer - 2 ^ format.fractionBits := by
      rw [Nat.mod_eq_sub_mod hfull, Nat.mod_eq_of_lt (by omega)]
    rw [hdiv, hmod, if_neg (by omega)]
    simp only [Prod.mk.injEq]
    omega
  · obtain rfl : exponent = 0 := h.full.resolve_left hfull
    rw [Nat.div_eq_of_lt (by omega), Nat.mod_eq_of_lt (by omega), if_pos rfl]

/-- An integer that fits can be made normal, where the exponent is large enough. -/
theorem exists_normal (hfits : integer < 2 ^ (format.fractionBits + 1)) (exponent : Nat) :
    ∃ normal shift, format.Normal normal shift ∧ integer * 2 ^ exponent = normal * 2 ^ shift := by
  induction exponent generalizing integer with
  | zero => exact ⟨integer, 0, ⟨hfits, .inr rfl⟩, rfl⟩
  | succ exponent ih =>
      by_cases hfull : 2 ^ format.fractionBits ≤ integer
      · exact ⟨integer, exponent + 1, ⟨hfits, .inl hfull⟩, rfl⟩
      -- Doubling the integer pays for one of the exponent, until its leading digit is in place.
      · have hdouble : 2 * integer < 2 ^ (format.fractionBits + 1) := by
          rw [Nat.pow_succ']
          omega
        obtain ⟨normal, shift, hnormal, hvalue⟩ := ih hdouble
        refine ⟨normal, shift, hnormal, ?_⟩
        rw [← hvalue, Nat.pow_succ']
        ring

end Patterns

section Rounding

variable {format : BinaryFormat} {numerator denominator integer exponent : Nat}

theorem roundHalfEven_mul (quotient : Nat) (h : 0 < denominator) :
    roundHalfEven (quotient * denominator) denominator = quotient := by
  simp [roundHalfEven, Nat.mul_div_cancel _ h, h]

/-- As many digits are lost as the exponent says. -/
theorem Normal.shift_eq (h : format.Normal integer exponent) :
    (integer * 2 ^ exponent).log2 - format.fractionBits = exponent := by
  rcases h.full with hfull | rfl
  · have hpos : 0 < 2 ^ exponent := Nat.two_pow_pos _
    have hinteger : 0 < integer := lt_of_lt_of_le (Nat.two_pow_pos _) hfull
    have hlog : (integer * 2 ^ exponent).log2 = format.fractionBits + exponent := by
      rw [Nat.log2_eq_iff (Nat.mul_pos hinteger hpos).ne', Nat.pow_add, Nat.add_right_comm,
        Nat.pow_add]
      exact ⟨Nat.mul_le_mul_right _ hfull, Nat.mul_lt_mul_of_pos_right h.fits hpos⟩
    rw [hlog]
    omega
  · by_cases hne : integer = 0
    · subst hne
      simp
    · have hlog : integer.log2 < format.fractionBits + 1 := (Nat.log2_lt hne).mpr h.fits
      simp
      omega

/-- Rounding is exact where the quotient is one that a pattern stands for. -/
theorem Normal.nearest_eq (h : format.Normal integer exponent) (hpos : 0 < denominator)
    (hexact : numerator * 2 ^ format.scale = integer * 2 ^ exponent * denominator) :
    format.nearest numerator denominator = exponent * 2 ^ format.fractionBits + integer := by
  have hquotient : numerator * 2 ^ format.scale / denominator = integer * 2 ^ exponent := by
    rw [hexact, Nat.mul_div_cancel _ hpos]
  have hround : roundHalfEven (numerator * 2 ^ format.scale) (denominator * 2 ^ exponent)
      = integer := by
    have hproduct : numerator * 2 ^ format.scale = integer * (denominator * 2 ^ exponent) := by
      rw [hexact]
      ring
    rw [hproduct, roundHalfEven_mul _ (Nat.mul_pos hpos (Nat.two_pow_pos _))]
  simp only [nearest, Nat.pow_eq, hquotient, h.shift_eq, hround]

end Rounding

/-- The number that a pattern without its sign stands for if it is finite. -/
def magnitude (format : BinaryFormat) (pattern : Nat) : ℚ :=
  (format.significand pattern).1 * 2 ^ (format.significand pattern).2 / 2 ^ format.scale

section Values

variable {format : BinaryFormat} {pattern sign : Nat}

theorem field_lt (hpattern : pattern < format.signBit) :
    pattern / 2 ^ format.fractionBits < 2 ^ format.exponentBits := by
  rw [Nat.div_lt_iff_lt_mul (Nat.two_pow_pos _), ← Nat.pow_add, Nat.add_comm]
  exact hpattern

/-- The fields of a pattern with a sign. -/
theorem fields_withSign (hpattern : pattern < format.signBit) :
    (sign * format.signBit + pattern) / 2 ^ (format.fractionBits + format.exponentBits) = sign ∧
      (sign * format.signBit + pattern) / 2 ^ format.fractionBits % 2 ^ format.exponentBits
        = pattern / 2 ^ format.fractionBits ∧
      (sign * format.signBit + pattern) % 2 ^ format.fractionBits
        = pattern % 2 ^ format.fractionBits := by
  have hfield := field_lt hpattern
  rw [signBit, Nat.pow_eq] at hpattern ⊢
  have hfraction : 0 < 2 ^ format.fractionBits := Nat.two_pow_pos _
  have hsplit : sign * 2 ^ (format.fractionBits + format.exponentBits)
      = sign * 2 ^ format.exponentBits * 2 ^ format.fractionBits := by
    rw [Nat.pow_add]
    ring
  refine ⟨?_, ?_, ?_⟩
  · rw [Nat.add_comm, Nat.add_mul_div_right _ _ (Nat.two_pow_pos _), Nat.div_eq_of_lt hpattern,
      Nat.zero_add]
  · rw [hsplit, Nat.add_comm, Nat.add_mul_div_right _ _ hfraction, Nat.add_mul_mod_self_right,
      Nat.mod_eq_of_lt hfield]
  · rw [hsplit, Nat.add_comm, Nat.add_mul_mod_self_right]

/-- What a pattern with a sign stands for, in terms of its integer and its exponent. -/
theorem value?_withSign (hwide : 2 ≤ format.exponentBits) (hpattern : pattern < format.signBit) :
    format.value? (sign * format.signBit + pattern)
      = if pattern < format.infinity then some ((-1) ^ sign * format.magnitude pattern)
        else none := by
  obtain ⟨hsign, hexponent, hfraction⟩ := @fields_withSign format pattern sign hpattern
  obtain ⟨k, hk⟩ : ∃ k, 2 ^ (format.exponentBits - 1) = k + 2 := by
    have hpow : 2 ^ 1 ≤ 2 ^ (format.exponentBits - 1) :=
      Nat.pow_le_pow_right (by decide) (by omega)
    exact ⟨2 ^ (format.exponentBits - 1) - 2, by omega⟩
  have hbias : (2 : Int) ^ (format.exponentBits - 1) = k + 2 := by exact_mod_cast hk
  have hscale : format.scale = k + format.fractionBits := by
    rw [scale, Nat.pow_eq, hk]
    omega
  have hfinite : pattern / 2 ^ format.fractionBits = 2 ^ format.exponentBits - 1
      ↔ ¬ pattern < format.infinity := by
    have hfield := field_lt hpattern
    rw [infinity, Nat.pow_eq, Nat.pow_eq, Nat.not_lt, ← Nat.le_div_iff_mul_le (Nat.two_pow_pos _)]
    omega
  simp only [value?, hsign, hexponent, hfraction, hfinite, hbias]
  by_cases hlt : pattern < format.infinity
  · rw [if_neg (not_not.mpr hlt), if_pos hlt, magnitude, significand, hscale]
    simp only [Nat.pow_eq]
    split
    · have hpower : (1 : Int) - (k + 2 - 1) = -(k : Int) := by ring
      rw [hpower, zpow_neg, zpow_natCast, pow_add]
      congr 2
      field_simp
      rw [pow_zero, mul_one]
    · rename_i hfield
      obtain ⟨field, hfield⟩ := Nat.exists_eq_succ_of_ne_zero hfield
      have hpower : ((field.succ : Nat) : Int) - (k + 2 - 1) = field - k := by
        push_cast
        ring
      rw [hfield, hpower, zpow_sub₀ two_ne_zero, zpow_natCast, zpow_natCast, pow_add]
      congr 2
      push_cast
      field_simp
  · rw [if_pos hlt, if_neg hlt]

/-- Whatever a pattern stands for is an integer that fits times a power of two. -/
theorem exists_of_value? (hwide : 2 ≤ format.exponentBits) {bits : Nat} {number : ℚ}
    (h : format.value? bits = some number) :
    ∃ integer exponent : Nat, integer < 2 ^ (format.fractionBits + 1) ∧
      |number| * 2 ^ format.scale = integer * 2 ^ exponent := by
  have hpos : 0 < format.signBit := Nat.two_pow_pos _
  rw [← Nat.div_add_mod' bits format.signBit, value?_withSign hwide (Nat.mod_lt bits hpos),
    Option.ite_none_right_eq_some, Option.some.injEq] at h
  obtain ⟨-, rfl⟩ := h
  obtain ⟨hnormal, -⟩ := @significand_normal format (bits % format.signBit)
  refine ⟨(format.significand (bits % format.signBit)).1,
    (format.significand (bits % format.signBit)).2, hnormal.fits, ?_⟩
  rw [abs_mul, abs_pow, abs_neg, abs_one, one_pow, one_mul, magnitude, abs_of_nonneg (by positivity)]
  field_simp

/-- A quotient that is an integer that fits times a power of two is rounded to a pattern that stands
for it, unless it is too large. -/
theorem magnitude_nearest (hwide : 2 ≤ format.exponentBits)
    {numerator denominator integer exponent : Nat} (hpos : 0 < denominator)
    (hfits : integer < 2 ^ (format.fractionBits + 1))
    (hexact : numerator * 2 ^ format.scale = integer * 2 ^ exponent * denominator)
    (hrange : integer * 2 ^ exponent < 2 ^ (format.fractionBits + 2 ^ format.exponentBits - 2)) :
    format.nearest numerator denominator < format.infinity ∧
      format.magnitude (format.nearest numerator denominator) = numerator / denominator := by
  obtain ⟨normal, shift, hnormal, hvalue⟩ := @exists_normal format integer hfits exponent
  rw [hvalue] at hexact hrange
  rw [hnormal.nearest_eq hpos hexact]
  constructor
  · have hfour : 2 ^ 2 ≤ 2 ^ format.exponentBits := Nat.pow_le_pow_right (by decide) hwide
    have hnormalfits := hnormal.fits
    rw [Nat.pow_succ'] at hnormalfits
    -- An integer with all of its digits leaves only so much of the number to the exponent.
    have hshift : shift + 2 ≤ 2 ^ format.exponentBits - 1 := by
      rcases hnormal.full with hfull | rfl
      · have hlt : 2 ^ (format.fractionBits + shift)
            < 2 ^ (format.fractionBits + 2 ^ format.exponentBits - 2) := by
          rw [Nat.pow_add]
          exact lt_of_le_of_lt (Nat.mul_le_mul_right _ hfull) hrange
        have hexponent := (Nat.pow_lt_pow_iff_right (by decide)).mp hlt
        omega
      · omega
    calc shift * 2 ^ format.fractionBits + normal
        < shift * 2 ^ format.fractionBits + 2 * 2 ^ format.fractionBits :=
          Nat.add_lt_add_left hnormalfits _
      _ = (shift + 2) * 2 ^ format.fractionBits := (Nat.add_mul _ _ _).symm
      _ ≤ format.infinity := Nat.mul_le_mul_right _ hshift
  · have hcast : (numerator : ℚ) * 2 ^ format.scale = normal * 2 ^ shift * denominator := by
      exact_mod_cast hexact
    have hdenominator : (denominator : ℚ) ≠ 0 := Nat.cast_ne_zero.mpr hpos.ne'
    rw [magnitude, hnormal.significand_eq]
    field_simp
    linarith

theorem infinity_lt_signBit (format : BinaryFormat) : format.infinity < format.signBit := by
  have hpos : 0 < 2 ^ format.fractionBits := Nat.two_pow_pos _
  have hexponent : 0 < 2 ^ format.exponentBits := Nat.two_pow_pos _
  rw [infinity, signBit, Nat.pow_eq, Nat.pow_eq, Nat.pow_eq, Nat.add_comm format.fractionBits,
    Nat.pow_add]
  exact Nat.mul_lt_mul_of_pos_right (by omega) hpos

end Values

section Integers

variable {format : BinaryFormat} {n : Int}

/-- An integer for which the digits of a format are enough: it is one of so many digits times a
power of two. -/
def Represents (format : BinaryFormat) (n : Int) : Prop :=
  ∃ integer exponent : Nat, integer < 2 ^ (format.fractionBits + 1) ∧
    n.natAbs = integer * 2 ^ exponent

/-- Only an integer for which the digits are enough is what a pattern stands for. -/
theorem represents_of_value? (hwide : 2 ≤ format.exponentBits) {bits : Nat}
    (h : format.value? bits = some n) : format.Represents n := by
  obtain ⟨integer, exponent, hfits, hvalue⟩ := exists_of_value? hwide h
  have hproduct : n.natAbs * 2 ^ format.scale = integer * 2 ^ exponent := by
    rw [← Int.cast_abs, ← Int.natCast_natAbs] at hvalue
    exact_mod_cast hvalue
  -- Either the exponent makes up for the scale, or the integer is a multiple of the number.
  by_cases hscale : format.scale ≤ exponent
  · refine ⟨integer, exponent - format.scale, hfits, ?_⟩
    apply Nat.eq_of_mul_eq_mul_right (Nat.two_pow_pos format.scale)
    rw [hproduct, Nat.mul_assoc, ← Nat.pow_add, Nat.sub_add_cancel hscale]
  · refine ⟨n.natAbs, 0, lt_of_le_of_lt ?_ hfits, (Nat.mul_one _).symm⟩
    apply Nat.le_of_mul_le_mul_right _ (Nat.two_pow_pos exponent)
    rw [← hproduct]
    exact Nat.mul_le_mul_left _ (Nat.pow_le_pow_right (by decide) (by omega))

/-- An integer for which the digits are enough is rounded to a pattern that stands for it, unless it
is too large. -/
theorem value?_withSign_nearest (hwide : 2 ≤ format.exponentBits) (h : format.Represents n)
    (hrange : n.natAbs * 2 ^ format.scale
      < 2 ^ (format.fractionBits + 2 ^ format.exponentBits - 2)) :
    format.withSign n (format.nearest n.natAbs 1) < 2 * format.signBit ∧
      format.value? (format.withSign n (format.nearest n.natAbs 1)) = some (n : ℚ) := by
  obtain ⟨integer, exponent, hfits, hvalue⟩ := h
  have hexact : n.natAbs * 2 ^ format.scale = integer * 2 ^ (exponent + format.scale) * 1 := by
    rw [hvalue, Nat.pow_add, Nat.mul_one, Nat.mul_assoc]
  obtain ⟨hfinite, hmagnitude⟩ := magnitude_nearest hwide Nat.one_pos hfits hexact
    (by rwa [← Nat.mul_one (integer * _), ← hexact])
  have hlt := hfinite.trans format.infinity_lt_signBit
  rw [Nat.cast_one, div_one] at hmagnitude
  by_cases hneg : n < 0
  · have habs : ((n.natAbs : Int) : ℚ) = ((-n : Int) : ℚ) := congrArg _ (by omega)
    have hpattern := @value?_withSign format _ 1 hwide hlt
    rw [if_pos hfinite, hmagnitude, Nat.one_mul, pow_one, neg_one_mul] at hpattern
    rw [withSign, if_pos hneg]
    refine ⟨by omega, hpattern.trans ?_⟩
    rw [← Int.cast_natCast, habs, Int.cast_neg, neg_neg]
  · have habs : ((n.natAbs : Int) : ℚ) = (n : ℚ) := congrArg _ (by omega)
    have hpattern := @value?_withSign format _ 0 hwide hlt
    rw [if_pos hfinite, hmagnitude, Nat.zero_mul, Nat.zero_add, pow_zero, one_mul] at hpattern
    rw [withSign, if_neg hneg]
    refine ⟨by omega, hpattern.trans ?_⟩
    rw [← Int.cast_natCast, habs]

end Integers

end BinaryFormat

end TypedConfig
