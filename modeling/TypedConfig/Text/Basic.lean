/-!
Texts as lists of characters: the ways to cut them at blanks, numbers in decimal, and places.  A
character is blank when it has the Unicode property White_Space; core's `Char.isWhitespace` knows
only the ASCII part of it.
-/

namespace TypedConfig.Text

/-- The characters with the Unicode property White_Space. -/
def isBlank (c : Char) : Bool :=
  let n := c.toNat
  (0x09 ≤ n && n ≤ 0x0D) || n == 0x20 || n == 0x85 || n == 0xA0 || n == 0x1680
    || (0x2000 ≤ n && n ≤ 0x200A) || n == 0x2028 || n == 0x2029 || n == 0x202F
    || n == 0x205F || n == 0x3000

def trimEnd (text : List Char) : List Char :=
  (text.reverse.dropWhile isBlank).reverse

def trim (text : List Char) : List Char :=
  trimEnd (text.dropWhile isBlank)

/-- The maximal runs of characters that are not blank, from left to right. -/
def words : List Char → List (List Char)
  | [] => []
  | c :: rest =>
    if isBlank c then words rest
    else match rest, words rest with
      | d :: _, word :: more => if isBlank d then [c] :: word :: more else (c :: word) :: more
      | _, more => [c] :: more

example : words "  1 hour\t30 minutes ".toList
    = ["1".toList, "hour".toList, "30".toList, "minutes".toList] := by decide

/-!
Numbers in decimal text.  Reading takes ASCII digits only, of any length, and leading zeros do not
change the value.
-/

/-- The number that a run of digits stands for. -/
def decimalValue (digits : List Char) : Nat := Nat.ofDigitChars 10 digits 0

/-- The number that a text of at least one digit, and of digits alone, stands for. -/
def decimal? (text : List Char) : Option Nat :=
  if !text.isEmpty && text.all Char.isDigit then some (decimalValue text) else none

/-- The number that a text of digits stands for, unless it is larger than `limit`. -/
def decimalUpTo? (limit : Nat) (text : List Char) : Option Nat :=
  (decimal? text).filter fun n => n ≤ limit

/-- The integer that a text of digits with an optional sign stands for, unless it lies outside
`[-limit - 1, limit]`. -/
def signedDecimalUpTo? (limit : Nat) : List Char → Option Int
  | '-' :: digits => (decimalUpTo? (limit + 1) digits).map fun n => -(n : Int)
  | '+' :: digits => (decimalUpTo? limit digits).map fun n => (n : Int)
  | digits => (decimalUpTo? limit digits).map fun n => (n : Int)

def ofNat (n : Nat) : List Char := Nat.toDigits 10 n

def ofInt : Int → List Char
  | .ofNat n => ofNat n
  | .negSucc n => '-' :: ofNat (n + 1)

/-- The text of an integer with zeros between its sign and its digits, so that it has at least
`width` characters. -/
def ofIntPadded (width : Nat) : Int → List Char
  | .ofNat n => List.replicate (width - (ofNat n).length) '0' ++ ofNat n
  | .negSucc n =>
    '-' :: List.replicate (width - 1 - (ofNat (n + 1)).length) '0' ++ ofNat (n + 1)

/-- The digits of a number stand for it. -/
theorem decimalValue_ofNat (n : Nat) : decimalValue (ofNat n) = n :=
  Nat.ofDigitChars_toDigits (by decide) (by decide)

/-!
Places in a text.  A place is the byte offset of a character boundary together with its line and
column; reading a character moves it on, and a line feed starts a new line.
-/

/-- A character boundary of a text: bytes before it, and its line and column counted from one,
the column in characters. -/
structure Place where
  offset : Nat
  line : Nat
  column : Nat
deriving DecidableEq, Repr

def Place.start : Place := ⟨0, 1, 1⟩

/-- The place on the other side of the character `c`. -/
def Place.after (place : Place) (c : Char) : Place :=
  if c = '\n' then ⟨place.offset + c.utf8Size, place.line + 1, 1⟩
  else ⟨place.offset + c.utf8Size, place.line, place.column + 1⟩

/-- The place on the other side of a stretch of text. -/
def Place.afterAll (place : Place) (text : List Char) : Place :=
  text.foldl Place.after place

@[simp]
theorem Place.afterAll_nil (place : Place) : place.afterAll [] = place := rfl

@[simp]
theorem Place.afterAll_cons (place : Place) (c : Char) (text : List Char) :
    place.afterAll (c :: text) = (place.after c).afterAll text := rfl

theorem Place.afterAll_append (place : Place) (first second : List Char) :
    place.afterAll (first ++ second) = (place.afterAll first).afterAll second :=
  List.foldl_append

def byteLength : List Char → Nat
  | [] => 0
  | c :: rest => c.utf8Size + byteLength rest

end TypedConfig.Text
