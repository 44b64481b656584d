import TypedConfig.Proofs.Binary.Exact
import TypedConfig.Proofs.Erasure

/-!
What widening a number keeps.  Longs and doubles stand for every integer, and doubles for every
finite float, so that these numbers stay the same.  Floats have digits for some integers only, and
the others become their neighbours.
-/

namespace TypedConfig

/-- The rational number that a single number stands for, unless it is infinite or none. -/
def Binary32.value? (number : Binary32) : Option ℚ :=
  BinaryFormat.single.value? number.bits.toNat

/-- The rational number that a double number stands for, unless it is infinite or none. -/
def Binary64.value? (number : Binary64) : Option ℚ :=
  BinaryFormat.double.value? number.bits.toNat

section Integers

theorem natAbs_int32_lt (n : Int32) : n.toInt.natAbs < 2 ^ 32 := by
  have hlt := n.toInt_lt
  have hge := n.le_toInt
  omega

/-- Integers of 32 bits are not too large for a format with an exponent of some bits. -/
theorem natAbs_scaled_lt {n : Int} (hrange : n.natAbs < 2 ^ 32) {format : BinaryFormat}
    (hformat : 32 + format.scale ≤ format.fractionBits + 2 ^ format.exponentBits - 2) :
    n.natAbs * 2 ^ format.scale
      < 2 ^ (format.fractionBits + 2 ^ format.exponentBits - 2) := by
  calc n.natAbs * 2 ^ format.scale
      < 2 ^ 32 * 2 ^ format.scale := Nat.mul_lt_mul_of_pos_right hrange (Nat.two_pow_pos _)
    _ = 2 ^ (32 + format.scale) := (Nat.pow_add _ _ _).symm
    _ ≤ 2 ^ (format.fractionBits + 2 ^ format.exponentBits - 2) :=
        Nat.pow_le_pow_right (by decide) hformat

/-- An integer becomes a single number that stands for it exactly if the digits of one are enough.
-/
theorem Binary32.value?_ofInt_iff {n : Int} (hrange : n.natAbs < 2 ^ 32) :
    (Binary32.ofInt n).value? = some (n : ℚ) ↔ BinaryFormat.single.Represents n := by
  constructor
  · exact BinaryFormat.represents_of_value? (by decide)
  · intro h
    obtain ⟨hbits, hvalue⟩ := BinaryFormat.value?_withSign_nearest (by decide) h
      (natAbs_scaled_lt hrange (by decide))
    rw [Binary32.value?, Binary32.ofInt, UInt32.toNat_ofNat_of_lt' hbits]
    exact hvalue

example : Binary32.ofInt 16777217 = .ofInt 16777216 := by decide

/-- An integer that is not too large becomes a double number that stands for it. -/
theorem Binary64.value?_ofInt {n : Int} (hrange : n.natAbs < 2 ^ 32) :
    (Binary64.ofInt n).value? = some (n : ℚ) := by
  have h : BinaryFormat.double.Represents n :=
    ⟨n.natAbs, 0, hrange.trans (by decide), (Nat.mul_one _).symm⟩
  obtain ⟨hbits, hvalue⟩ := BinaryFormat.value?_withSign_nearest (by decide) h
    (natAbs_scaled_lt hrange (by decide))
  rw [Binary64.value?, Binary64.ofInt, UInt64.toNat_ofNat_of_lt' hbits]
  exact hvalue

end Integers

section Floats

open BinaryFormat

/-- The exponent of a finite single pattern has an upper bound. -/
theorem exponent_lt_of_finite {pattern : Nat} (h : pattern < single.infinity) :
    (single.significand pattern).2 < 255 := by
  obtain ⟨-, hpattern⟩ := @significand_normal single pattern
  have hinfinity : single.infinity = 255 * 2 ^ single.fractionBits := rfl
  rw [hpattern, hinfinity] at h
  exact Nat.lt_of_mul_lt_mul_right (lt_of_le_of_lt (Nat.le_add_right _ _) h)

/-- A finite pattern is widened to one that stands for the same number. -/
theorem magnitude_widenPattern {pattern : Nat} (h : pattern < single.infinity) :
    widenPattern pattern < double.infinity ∧
      double.magnitude (widenPattern pattern) = single.magnitude pattern := by
  obtain ⟨hnormal, -⟩ := @significand_normal single pattern
  have hexponent := exponent_lt_of_finite h
  have hfits : (single.significand pattern).1 < 2 ^ (double.fractionBits + 1) :=
    hnormal.fits.trans (by decide)
  have hexact : (single.significand pattern).1 * 2 ^ (single.significand pattern).2
        * 2 ^ double.scale
      = (single.significand pattern).1 * 2 ^ ((single.significand pattern).2 + 925)
        * 2 ^ single.scale := by
    have hscale : double.scale = 925 + single.scale := rfl
    rw [Nat.mul_assoc, ← Nat.pow_add, Nat.mul_assoc, ← Nat.pow_add, hscale, Nat.add_assoc]
  have hrange : (single.significand pattern).1 * 2 ^ ((single.significand pattern).2 + 925)
      < 2 ^ (double.fractionBits + 2 ^ double.exponentBits - 2) := by
    have hlargest : double.fractionBits + 2 ^ double.exponentBits - 2 = 2098 := rfl
    calc (single.significand pattern).1 * 2 ^ ((single.significand pattern).2 + 925)
        < 2 ^ 24 * 2 ^ ((single.significand pattern).2 + 925) :=
          Nat.mul_lt_mul_of_pos_right hnormal.fits (Nat.two_pow_pos _)
      _ = 2 ^ (24 + ((single.significand pattern).2 + 925)) := (Nat.pow_add _ _ _).symm
      _ ≤ 2 ^ (double.fractionBits + 2 ^ double.exponentBits - 2) :=
          Nat.pow_le_pow_right (by decide) (by omega)
  have hnearest := magnitude_nearest (by decide) (Nat.two_pow_pos _) hfits hexact hrange
  have hwiden : widenPattern pattern
      = double.nearest ((single.significand pattern).1 * 2 ^ (single.significand pattern).2)
        (2 ^ single.scale) := if_pos h
  rw [hwiden]
  refine ⟨hnearest.1, hnearest.2.trans ?_⟩
  rw [magnitude]
  push_cast
  rfl

/-- A pattern is widened to one that stands for the same number with each sign. -/
theorem value?_widenPattern {pattern sign : Nat} {value : ℚ} (hpattern : pattern < single.signBit)
    (h : single.value? (sign * single.signBit + pattern) = some value) :
    widenPattern pattern < double.signBit ∧
      double.value? (sign * double.signBit + widenPattern pattern) = some value := by
  rw [value?_withSign (by decide) hpattern, Option.ite_none_right_eq_some] at h
  obtain ⟨hfinite, hvalue⟩ := h
  obtain ⟨hwide, hsame⟩ := magnitude_widenPattern hfinite
  have hlt := hwide.trans double.infinity_lt_signBit
  refine ⟨hlt, ?_⟩
  rw [value?_withSign (by decide) hlt, if_pos hwide, hsame, hvalue]

/-- A finite float becomes a double that stands for the same number. -/
theorem Binary32.value?_toBinary64 {number : Binary32} {value : ℚ}
    (h : number.value? = some value) :
    number.toBinary64.value? = some value := by
  have hbits : number.bits.toNat < 2 * single.signBit := number.bits.toNat_lt
  have hsize : 2 * double.signBit = UInt64.size := rfl
  unfold Binary32.value? at h
  by_cases hsign : number.bits.toNat < single.signBit
  · rw [← Nat.zero_add number.bits.toNat, ← Nat.zero_mul single.signBit] at h
    obtain ⟨hlt, hvalue⟩ := value?_widenPattern hsign h
    have hwide : number.toBinary64 = ⟨UInt64.ofNat (widenPattern number.bits.toNat)⟩ := if_pos hsign
    rw [hwide, Binary64.value?, UInt64.toNat_ofNat_of_lt' (by omega)]
    rwa [Nat.zero_mul, Nat.zero_add] at hvalue
  · have hsplit : 1 * single.signBit + (number.bits.toNat - single.signBit) = number.bits.toNat := by
      omega
    rw [← hsplit] at h
    obtain ⟨hlt, hvalue⟩ := value?_widenPattern (by omega) h
    have hwide : number.toBinary64 = ⟨UInt64.ofNat
        (double.signBit + widenPattern (number.bits.toNat - single.signBit))⟩ := if_neg hsign
    rw [hwide, Binary64.value?, UInt64.toNat_ofNat_of_lt' (by omega)]
    rwa [Nat.one_mul] at hvalue

end Floats

section Literals

theorem ScalarType.name_injective : Function.Injective name := by
  intro type other h
  cases type <;> cases other <;> first | rfl | simp [name] at h

/-- A scalar tells which type accepted it. -/
theorem ScalarType.eq_of_accept? {type other : ScalarType} {given found made : Scalar}
    (h : type.accept? given = some made) (hother : other.accept? found = some made) :
    type = other :=
  name_injective ((typeName_of_accept? h).symm.trans (typeName_of_accept? hother))

/-- Two integers become one scalar only where they become a float that does not stand for both. -/
theorem ScalarType.float_of_accept?_integer {type : ScalarType} {i j : Int32} {made : Scalar}
    (h : type.accept? (.integer i) = some made) (hother : type.accept? (.integer j) = some made)
    (hne : i ≠ j) : type = .float ∧
      ¬ (BinaryFormat.single.Represents i.toInt ∧ BinaryFormat.single.Represents j.toInt) := by
  have hvalue : some (i.toInt : ℚ) ≠ some (j.toInt : ℚ) := by
    rw [ne_eq, Option.some.injEq, Int.cast_inj, Int32.toInt_inj]
    exact hne
  rw [← hother] at h
  cases type with
  | int =>
      have hsame : Scalar.integer i = .integer j := Option.some.inj h
      exact absurd (Scalar.integer.inj hsame) hne
  | long =>
      have hsame : Scalar.long i.toInt64 = .long j.toInt64 := Option.some.inj h
      have hlong := congrArg Int64.toInt (Scalar.long.inj hsame)
      rw [Int32.toInt_toInt64, Int32.toInt_toInt64, Int32.toInt_inj] at hlong
      exact absurd hlong hne
  | float =>
      have hsame : Scalar.float (.ofInt i.toInt) = .float (.ofInt j.toInt) := Option.some.inj h
      refine ⟨rfl, fun hboth => hvalue ?_⟩
      rw [← (Binary32.value?_ofInt_iff (natAbs_int32_lt i)).mpr hboth.1,
        ← (Binary32.value?_ofInt_iff (natAbs_int32_lt j)).mpr hboth.2, Scalar.float.inj hsame]
  | double =>
      have hsame : Scalar.double (.ofInt i.toInt) = .double (.ofInt j.toInt) := Option.some.inj h
      refine absurd ?_ hvalue
      rw [← Binary64.value?_ofInt (natAbs_int32_lt i), ← Binary64.value?_ofInt (natAbs_int32_lt j),
        Scalar.double.inj hsame]
  | string | bool | duration => cases hother

variable {table : Declarations}

/-- What a literal that stands for a scalar is bound to. -/
theorem Direct.literal_eq_ok_iff {type : Ty} {leaf : Literal} {given : Scalar}
    (hdecode : leaf.decode = .ok given) {value : Bound} :
    Direct.literal table type leaf = .ok value ↔ ∃ scalar made, type.core = .scalar scalar ∧
      scalar.accept? given = some made ∧ value = type.wrap (.scalar made) := by
  have hvalue : leaf.value = .ok given := by
    rw [Literal.value, hdecode]
    rfl
  rw [Direct.literal, hvalue]
  simp only [bind, Except.bind]
  constructor
  · intro h
    split at h
    · rename_i scalar hcore
      split at h
      · rename_i made hmade
        exact ⟨scalar, made, hcore, hmade, (Except.ok.inj h).symm⟩
      · cases h
    · cases h
  · rintro ⟨scalar, made, hcore, hmade, rfl⟩
    rw [hcore]
    simp only [hmade]

/-- A literal is bound to a value at some place of a type in a schema, whatever else is expected or
open there. -/
def Schema.Binds (schema : Schema) (type : Ty) (leaf : Literal) (value : Bound) : Prop :=
  ∃ id key expected containers, schema.Describes id type ∧
    Walk.bound schema type key (.literal leaf) ⟨id :: expected, containers⟩ = .ok value

/-- Integers become longs and doubles without loss, and finite floats doubles.  Every integer
becomes a float as well, without loss exactly if it is one of 24 binary digits times a power of two.
So two different integer literals are never bound to one value, except where both become floats and
the digits are not enough for both. -/
theorem Ty.convert_widening {root : Ty} {schema : Schema}
    (h : Schema.derive table root = .ok schema) :
    (∀ i : Int32, ∃ long : Int64,
      (Ty.scalar .long).convert table (.scalar (.integer i)) = .ok (.scalar (.long long)) ∧
        long.toInt = i.toInt) ∧
    (∀ i : Int32, ∃ double : Binary64,
      (Ty.scalar .double).convert table (.scalar (.integer i)) = .ok (.scalar (.double double)) ∧
        double.value? = some (i.toInt : ℚ)) ∧
    (∀ (float : Binary32) (value : ℚ), float.value? = some value → ∃ double : Binary64,
      (Ty.scalar .double).convert table (.scalar (.float float)) = .ok (.scalar (.double double)) ∧
        double.value? = some value) ∧
    (∀ i : Int32, ∃ float : Binary32,
      (Ty.scalar .float).convert table (.scalar (.integer i)) = .ok (.scalar (.float float)) ∧
        (float.value? = some (i.toInt : ℚ) ↔ ∃ integer exponent : Nat,
          integer < 2 ^ 24 ∧ i.toInt.natAbs = integer * 2 ^ exponent)) ∧
    ∀ (type other : Ty) (leaf another : Literal) (i j : Int32) (value : Bound),
      leaf.decode = .ok (.integer i) → another.decode = .ok (.integer j) →
      schema.Binds type leaf value → schema.Binds other another value → i ≠ j →
        type.core = .scalar .float ∧ other.core = .scalar .float ∧
        ¬ ((∃ integer exponent : Nat,
              integer < 2 ^ 24 ∧ i.toInt.natAbs = integer * 2 ^ exponent) ∧
            ∃ integer exponent : Nat,
              integer < 2 ^ 24 ∧ j.toInt.natAbs = integer * 2 ^ exponent) := by
  obtain ⟨rfl, hfaithful, -⟩ := Schema.derive_faithful h
  refine ⟨fun i => ⟨i.toInt64, rfl, i.toInt_toInt64⟩,
    fun i => ⟨.ofInt i.toInt, rfl, Binary64.value?_ofInt (natAbs_int32_lt i)⟩,
    fun float value hvalue => ⟨float.toBinary64, rfl, Binary32.value?_toBinary64 hvalue⟩,
    fun i => ⟨.ofInt i.toInt, rfl, Binary32.value?_ofInt_iff (natAbs_int32_lt i)⟩, ?_⟩
  rintro type other leaf another i j value hdecode hanother
    ⟨id, key, expected, containers, hdescribes, hbound⟩
    ⟨id', key', expected', containers', hdescribes', hbound'⟩ hne
  rw [Walk.bound_eq hfaithful hdescribes, Direct.node, Direct.literal_eq_ok_iff hdecode] at hbound
  rw [Walk.bound_eq hfaithful hdescribes', Direct.node,
    Direct.literal_eq_ok_iff hanother] at hbound'
  obtain ⟨scalar, made, hcore, haccept, rfl⟩ := hbound
  obtain ⟨scalar', made', hcore', haccept', hvalue⟩ := hbound'
  -- The wrappers of the two places may differ, but the scalars inside them are the same.
  have hmade : made = made' := by
    have herase := congrArg Bound.erase hvalue
    rw [Bound.erase_wrap, Bound.erase_wrap] at herase
    exact Bound.scalar.inj herase
  subst hmade
  obtain rfl := ScalarType.eq_of_accept? haccept haccept'
  obtain ⟨rfl, hnot⟩ := ScalarType.float_of_accept?_integer haccept haccept' hne
  exact ⟨hcore, hcore', hnot⟩

/-- A number with 24 binary digits, and the next one, which has 25. -/
def neighbours : Literal × Literal :=
  (⟨.integer, "16777216", ⟨3, 11, 1, 4⟩⟩, ⟨.integer, "16777217", ⟨14, 22, 1, 15⟩⟩)

theorem neighbours_widening : ∃ schema,
    Schema.derive ⟨[]⟩ (.map .insertion (.scalar .float)) = .ok schema ∧
      schema.Binds (.scalar .float) neighbours.1 (.scalar (.float ⟨0x4B800000⟩)) ∧
      schema.Binds (.scalar .float) neighbours.2 (.scalar (.float ⟨0x4B800000⟩)) ∧
      ¬ ∃ integer exponent : Nat, integer < 2 ^ 24 ∧ 16777217 = integer * 2 ^ exponent := by
  obtain ⟨schema, hderive⟩ :
      ∃ schema, Schema.derive ⟨[]⟩ (.map .insertion (.scalar .float)) = .ok schema := ⟨_, rfl⟩
  obtain ⟨-, hfaithful, descriptor, hroot, id, rfl⟩ := Schema.derive_faithful hderive
  have hdescribes : schema.Describes id (.scalar .float) := hfaithful _ _ hroot
  have hfirst : schema.Binds (.scalar .float) neighbours.1 (.scalar (.float ⟨0x4B800000⟩)) :=
    ⟨id, none, [], [], hdescribes, (Walk.bound_eq hfaithful hdescribes none _ [] []).trans rfl⟩
  have hsecond : schema.Binds (.scalar .float) neighbours.2 (.scalar (.float ⟨0x4B800000⟩)) :=
    ⟨id, none, [], [], hdescribes, (Walk.bound_eq hfaithful hdescribes none _ [] []).trans rfl⟩
  refine ⟨schema, hderive, hfirst, hsecond, fun hlong => ?_⟩
  obtain ⟨-, -, -, -, hdistinct⟩ := Ty.convert_widening hderive
  obtain ⟨-, -, hnot⟩ := hdistinct _ _ _ _ 16777216 16777217 _ rfl rfl hfirst hsecond (by decide)
  exact hnot ⟨⟨1, 24, by decide, rfl⟩, hlong⟩

end Literals

end TypedConfig
