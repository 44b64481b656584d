import TypedConfig.Binary.Basic
import TypedConfig.Text.Basic

/-!
The shortest decimal text that reads back as a floating-point number.  On each grid of multiples of
a power of ten only the two neighbours of the number matter; the coarsest grid with a neighbour that
rounds to the number gives the digits, and of two such neighbours the nearer one.
-/

namespace TypedConfig

/-- A natural number times a power of ten. -/
structure DecimalForm where
  digits : Nat
  exponent : Int
deriving DecidableEq, Repr

namespace BinaryFormat

variable (format : BinaryFormat)

/-- The quotient that a finite pattern without sign stands for. -/
def quotient (pattern : Nat) : Nat × Nat :=
  let (integer, exponent) := format.significand pattern
  (integer * Nat.pow 2 exponent, Nat.pow 2 format.scale)

/-- A number times a power of ten as a quotient. -/
def scaledQuotient (digits : Nat) (exponent : Int) : Nat × Nat :=
  match exponent with
  | .ofNat n => (digits * Nat.pow 10 n, 1)
  | .negSucc n => (digits, Nat.pow 10 (n + 1))

/-- Whether a number times a power of ten rounds to a pattern. -/
def readsBack (pattern digits : Nat) (exponent : Int) : Bool :=
  let (numerator, denominator) := scaledQuotient digits exponent
  format.nearest numerator denominator == pattern

/-- The neighbour on one grid that reads back, the nearer one if both do, and of two that are
equally near the upper one. -/
def onGrid? (pattern : Nat) (exponent : Int) : Option DecimalForm :=
  let (numerator, denominator) := format.quotient pattern
  let (unit, parts) := scaledQuotient 1 exponent
  let below := numerator * parts / (denominator * unit)
  let past := numerator * parts % (denominator * unit)
  let (nearer, other) :=
    if denominator * unit ≤ 2 * past then (below + 1, below) else (below, below + 1)
  if format.readsBack pattern nearer exponent then some ⟨nearer, exponent⟩
  else if format.readsBack pattern other exponent then some ⟨other, exponent⟩
  else none

/-- The first of so many grids that has a neighbour that reads back, from the given one on to finer
ones. -/
def firstGrid? (pattern : Nat) : Nat → Int → Option DecimalForm
  | 0, _ => none
  | grids + 1, exponent =>
    match format.onGrid? pattern exponent with
    | some form => some form
    | none => firstGrid? pattern grids (exponent - 1)

/-- The coarsest grid that can matter: its unit is larger than every finite number. -/
def coarsest : Nat := 310

/-- The number of grids from the coarsest one to one on which every number lies. -/
def gridCount : Nat := 1400

/-- The shortest decimal form of a finite pattern without sign. -/
def shortest (pattern : Nat) : DecimalForm :=
  (format.firstGrid? pattern gridCount coarsest).getD ⟨0, 0⟩

end BinaryFormat

/-- How floating-point numbers are written: numbers from `10 ^ -positionalFrom` on and below
`10 ^ positionalTo` positionally, with a digit behind the point, and all others with an exponent. -/
structure FloatText where
  positionalFrom : Nat
  positionalTo : Nat
  infinity : String
  notNumber : String

namespace FloatText

/-- Numbers for inspection. -/
def inspection : FloatText := ⟨4, 16, "inf", "NaN"⟩

def positional (form : DecimalForm) : List Char :=
  let digits := Text.ofNat form.digits
  match form.exponent with
  | .ofNat n => digits ++ List.replicate n '0' ++ ['.', '0']
  | .negSucc n =>
    let padded := List.replicate (n + 2 - digits.length) '0' ++ digits
    padded.take (padded.length - (n + 1)) ++ '.' :: padded.drop (padded.length - (n + 1))

/-- A decimal form with one digit in front of the point and an exponent. -/
def exponential (form : DecimalForm) : List Char :=
  let digits := Text.ofNat form.digits
  let exponent := Text.ofInt (form.exponent + (digits.length - 1 : Nat))
  match digits with
  | [] => []
  | [digit] => digit :: 'e' :: exponent
  | digit :: more => digit :: '.' :: more ++ 'e' :: exponent

def unsigned (style : FloatText) (format : BinaryFormat) (pattern : Nat) : List Char :=
  if format.infinity < pattern then style.notNumber.toList
  else if pattern = format.infinity then style.infinity.toList
  else if pattern = 0 then "0.0".toList
  else
    let form := format.shortest pattern
    if format.nearest 1 (Nat.pow 10 style.positionalFrom) ≤ pattern
        && pattern < format.nearest (Nat.pow 10 style.positionalTo) 1 then positional form
    else exponential form

/-- The text of a pattern.  What is no number has no sign. -/
def text (style : FloatText) (format : BinaryFormat) (bits : Nat) : String :=
  String.ofList (
    if bits < format.signBit then style.unsigned format bits
    else
      let pattern := bits - format.signBit
      if format.infinity < pattern then style.unsigned format pattern
      else '-' :: style.unsigned format pattern)

end FloatText

end TypedConfig
