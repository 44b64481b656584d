/-!
Binary floating-point numbers of the two common widths.  A number is its bit pattern; what the
pattern stands for is a sign with an integer times a power of two, an infinity, or no number.
Rounding takes an exact quotient of natural numbers to the nearest pattern, a half to the even one.
-/

namespace TypedConfig

/-- A layout of bits: how many hold the fraction and how many the exponent; one more is the sign. -/
structure BinaryFormat where
  fractionBits : Nat
  exponentBits : Nat
deriving DecidableEq, Repr

namespace BinaryFormat

def single : BinaryFormat := ⟨23, 8⟩

def double : BinaryFormat := ⟨52, 11⟩

variable (format : BinaryFormat)

/-- The pattern of the positive infinity, which is larger than that of every finite number. -/
def infinity : Nat := (Nat.pow 2 format.exponentBits - 1) * Nat.pow 2 format.fractionBits

/-- The pattern of the sign. -/
def signBit : Nat := Nat.pow 2 (format.fractionBits + format.exponentBits)

/-- The smallest positive number is `1 / 2 ^ scale`, and every finite one is a multiple of it. -/
def scale : Nat := Nat.pow 2 (format.exponentBits - 1) - 2 + format.fractionBits

/-- The quotient rounded to the nearest integer, a half to the even one. -/
def roundHalfEven (numerator denominator : Nat) : Nat :=
  let quotient := numerator / denominator
  let remainder := numerator % denominator
  if 2 * remainder < denominator then quotient
  else if denominator < 2 * remainder then quotient + 1
  else quotient + quotient % 2

/-- The pattern nearest to a positive quotient.  With the quotient written in multiples of the
smallest number, `shift` is how many of its binary digits are lost; adding the rounded integer to
`shift` in the place of the exponent gives the pattern, also where rounding carries over.  A result
at or above `infinity` means that the quotient is too large for the format. -/
def nearest (numerator denominator : Nat) : Nat :=
  let scaled := numerator * Nat.pow 2 format.scale
  let shift := (scaled / denominator).log2 - format.fractionBits
  shift * Nat.pow 2 format.fractionBits + roundHalfEven scaled (denominator * Nat.pow 2 shift)

/-- The nearest pattern, unless the quotient is too large. -/
def finite? (numerator denominator : Nat) : Option Nat :=
  let pattern := format.nearest numerator denominator
  if pattern < format.infinity then some pattern else none

/-- A finite pattern without its sign as an integer and an exponent: it stands for
`integer * 2 ^ exponent / 2 ^ scale`. -/
def significand (pattern : Nat) : Nat × Nat :=
  let field := pattern / Nat.pow 2 format.fractionBits
  let fraction := pattern % Nat.pow 2 format.fractionBits
  if field = 0 then (fraction, 0) else (Nat.pow 2 format.fractionBits + fraction, field - 1)

end BinaryFormat

/-- A number in the single format. -/
structure Binary32 where
  bits : UInt32
deriving DecidableEq, Repr

/-- A number in the double format. -/
structure Binary64 where
  bits : UInt64
deriving DecidableEq, Repr

/-- The single number nearest to a quotient, unless it is too large. -/
def Binary32.ofQuotient? (numerator denominator : Nat) : Option Binary32 :=
  (BinaryFormat.single.finite? numerator denominator).map fun pattern => ⟨UInt32.ofNat pattern⟩

def Binary64.ofQuotient? (numerator denominator : Nat) : Option Binary64 :=
  (BinaryFormat.double.finite? numerator denominator).map fun pattern => ⟨UInt64.ofNat pattern⟩

/-- A pattern with the sign of an integer. -/
def BinaryFormat.withSign (format : BinaryFormat) (n : Int) (pattern : Nat) : Nat :=
  if n < 0 then format.signBit + pattern else pattern

def Binary32.ofInt (n : Int) : Binary32 :=
  ⟨UInt32.ofNat (BinaryFormat.single.withSign n (BinaryFormat.single.nearest n.natAbs 1))⟩

def Binary64.ofInt (n : Int) : Binary64 :=
  ⟨UInt64.ofNat (BinaryFormat.double.withSign n (BinaryFormat.double.nearest n.natAbs 1))⟩

/-- The pattern of a double that stands for what a single pattern without its sign stands for.
Infinity stays infinity; a pattern that stands for no number keeps its fraction at the front and
has the first bit of it set. -/
def widenPattern (pattern : Nat) : Nat :=
  let single := BinaryFormat.single
  let double := BinaryFormat.double
  if pattern < single.infinity then
    let (integer, exponent) := single.significand pattern
    double.nearest (integer * Nat.pow 2 exponent) (Nat.pow 2 single.scale)
  else if pattern = single.infinity then double.infinity
  else
    let added := double.fractionBits - single.fractionBits
    let fraction := (pattern - single.infinity) * Nat.pow 2 added
    double.infinity + (fraction ||| Nat.pow 2 (double.fractionBits - 1))

def Binary32.toBinary64 (number : Binary32) : Binary64 :=
  let bits := number.bits.toNat
  let signBit := BinaryFormat.single.signBit
  if bits < signBit then ⟨UInt64.ofNat (widenPattern bits)⟩
  else ⟨UInt64.ofNat (BinaryFormat.double.signBit + widenPattern (bits - signBit))⟩

example : Binary32.ofInt 3 = ⟨0x40400000⟩ := by decide

example : Binary64.ofInt (-3) = ⟨0xC008000000000000⟩ := by decide +kernel

end TypedConfig
