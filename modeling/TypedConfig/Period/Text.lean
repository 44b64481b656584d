import TypedConfig.Period.Basic
import TypedConfig.Text.Basic

/-!
The texts of periods: the ISO 8601 form, which is written and read, and the form in words, which is
only read.

The ISO form is `P`, the nonzero years, months and days with their designators, and then, if there
is a smaller amount, `T` with hours, minutes and seconds; the milliseconds are the fraction of the
seconds.  Reading accepts any digits in front of a designator and cuts a fraction after its third
digit.
-/

namespace TypedConfig.Period

/-- The largest amount of a unit, that of a signed number of 64 bits. -/
def amountLimit : Nat := 9223372036854775807

def amountText (amount : Int64) : List Char := Text.ofInt amount.toInt

/-- An amount with its designator, or nothing for zero. -/
def componentText (amount : Int64) (designator : Char) : List Char :=
  if amount = 0 then [] else amountText amount ++ [designator]

/-- The seconds with their milliseconds, or nothing when both are zero. -/
def secondsText (period : Period) : List Char :=
  if period.millis = 0 then componentText period.seconds 'S'
  else amountText period.seconds ++ '.' :: Text.ofIntPadded 3 period.millis.toInt ++ ['S']

/-- Whether an amount smaller than a day is not zero. -/
def hasTime (period : Period) : Bool :=
  period.hours != 0 || period.minutes != 0 || period.seconds != 0 || period.millis != 0

/-- The part of the text behind `T`. -/
def timeText (period : Period) : List Char :=
  componentText period.hours 'H' ++ componentText period.minutes 'M' ++ secondsText period

def isoText (period : Period) : List Char :=
  if period.isZero then "PT0S".toList
  else
    'P' :: componentText period.years 'Y' ++ componentText period.months 'M'
      ++ componentText period.days 'D' ++ (if period.hasTime then 'T' :: period.timeText else [])

/-- The characters of a number in front of a designator. -/
def isNumberChar (c : Char) : Bool := c.isDigit || c == '.'

/-- The number in front of a designator, and what follows the designator. -/
def component? (designator : Char) (text : List Char) : Option (List Char × List Char) :=
  let number := text.takeWhile isNumberChar
  match text.dropWhile isNumberChar with
  | c :: rest => if c = designator && !number.isEmpty then some (number, rest) else none
  | [] => none

/-- How far a period has been read: what it holds so far, how many components it has, and the text
that is left. -/
structure Progress where
  period : Period
  components : Nat
  rest : List Char

def amount? (number : List Char) : Option Int64 :=
  (Text.decimalUpTo? amountLimit number).map Int64.ofNat

/-- Reads components with the given designators, in their order, each of which may be absent; fails
on an amount that is not a whole number within the limit. -/
def readComponents : List (Char × TimeUnit) → Progress → Option Progress
  | [], progress => some progress
  | (designator, unit) :: more, progress =>
    match component? designator progress.rest with
    | none => readComponents more progress
    | some (number, rest) =>
      match amount? number with
      | none => none
      | some amount =>
        readComponents more ⟨progress.period.set unit amount, progress.components + 1, rest⟩

/-- The milliseconds of a fraction of a second: its first three digits, filled up with zeros. -/
def fractionMillis? (fraction : List Char) : Option Int64 :=
  if fraction.all Char.isDigit then
    let digits := fraction.take 3
    some (Int64.ofNat (Text.decimalValue (digits ++ List.replicate (3 - digits.length) '0')))
  else none

/-- The seconds and milliseconds of a number with an optional fraction. -/
def secondsAndMillis? (number : List Char) : Option (Int64 × Int64) := do
  let seconds ← amount? (number.takeWhile (· != '.'))
  let millis ← fractionMillis? ((number.dropWhile (· != '.')).drop 1)
  pure (seconds, millis)

/-- Reads the component of seconds, which may be absent. -/
def readSeconds (progress : Progress) : Option Progress :=
  match component? 'S' progress.rest with
  | none => some progress
  | some (number, rest) => do
    let (seconds, millis) ← secondsAndMillis? number
    pure ⟨{ progress.period with seconds, millis }, progress.components + 1, rest⟩

/-- The designators in front of `T`. -/
def dateDesignators : List (Char × TimeUnit) := [('Y', .years), ('M', .months), ('D', .days)]

/-- The designators behind `T`, seconds apart. -/
def timeDesignators : List (Char × TimeUnit) := [('H', .hours), ('M', .minutes)]

/-- Reads all of a text in front of `T`. -/
def readDate (text : List Char) : Option Progress :=
  (readComponents dateDesignators ⟨zero, 0, text⟩).filter fun progress => progress.rest.isEmpty

/-- Reads all of a text behind `T`, which has at least one component, into a period. -/
def readTime (date : Progress) (text : List Char) : Option Progress :=
  ((readComponents timeDesignators { date with rest := text }).bind readSeconds).filter
    fun progress => progress.rest.isEmpty && date.components < progress.components

def ofIso? : List Char → Option Period
  | 'P' :: text => do
    let date ← readDate (text.takeWhile (· != 'T'))
    let whole ← match text.dropWhile (· != 'T') with
      | _ :: time => readTime date time
      | [] => some date
    if whole.components = 0 then none else pure whole.period
  | _ => none

example : (ofIso? "P1YT2M6.25S".toList).map isoText = some "P1YT2M6.250S".toList := by decide

/-!
Periods in words, such as `1 hour 30 minutes`: blank-separated pairs of an amount and a unit, from
larger to strictly smaller units.
-/

/-- The amount of a pair, which may carry a sign. -/
def signedAmount? (word : List Char) : Option Int64 :=
  (Text.signedDecimalUpTo? amountLimit word).map Int64.ofInt

/-- Reads pairs whose units are among `units`, in their order, into a period. -/
def readPairs (units : List TimeUnit) (period : Period) : List (List Char) → Option Period
  | [] => some period
  | [_] => none
  | number :: name :: rest => do
    let amount ← signedAmount? number
    let unit ← TimeUnit.ofWord? name
    if units.contains unit then
      readPairs ((units.dropWhile (· != unit)).drop 1) (period.set unit amount) rest
    else none

def ofWords? (text : List Char) : Option Period :=
  match Text.words text with
  | [] => none
  | words => readPairs TimeUnit.all zero words

example : (ofWords? "1 hour 30 minutes".toList).map isoText = some "PT1H30M".toList := by decide

example : ofWords? "1 minute 1 hour".toList = none := by decide

end TypedConfig.Period
