import TypedConfig.Document.Basic
import TypedConfig.Period.Text
import TypedConfig.Scalar

/-!
What the text of a literal stands for.  The decoders take any text, also one that no token has; a
text that does not fit the kind, or stands for a number out of range, is refused as a whole.
-/

namespace TypedConfig.Literal

/-!
The text of a quoted string.  The surrounding quotes go, and each backslash sequence that is known
becomes the character it stands for; every other sequence is kept as it is written.
-/

/-- The character that a backslash and one more character stand for, `u` apart. -/
def simpleEscape? : Char → Option Char
  | '"' => some '"'
  | '\\' => some '\\'
  | '/' => some '/'
  | '\x27' => some '\x27'
  | 'n' => some '\n'
  | 't' => some '\t'
  | 'r' => some '\r'
  | 'b' => some '\x08'
  | 'f' => some '\x0c'
  | '0' => some '\x00'
  | _ => none

def hexDigit? (c : Char) : Option Nat :=
  if c.isDigit then some (c.toNat - '0'.toNat)
  else if 'a' ≤ c && c ≤ 'f' then some (c.toNat - 'a'.toNat + 10)
  else if 'A' ≤ c && c ≤ 'F' then some (c.toNat - 'A'.toNat + 10)
  else none

/-- The value of a run of hexadecimal digits, none of an empty run. -/
def hexValue? : List Char → Option Nat
  | [] => none
  | first :: rest =>
    (first :: rest).foldl (fun value c => do some (16 * (← value) + (← hexDigit? c))) (some 0)

/-- The value of hexadecimal text that may begin with a plus sign. -/
def signedHexValue? : List Char → Option Nat
  | '+' :: rest => hexValue? rest
  | text => hexValue? text

/-- The character with a number, unless the number lies outside Unicode or in the surrogate
range. -/
def scalar? (n : Nat) : Option Char :=
  if n.isValidChar then some (Char.ofNat n) else none

/-- The character that four characters behind `\u` name. -/
def unicodeEscape? (a b c d : Char) : Option Char :=
  (signedHexValue? [a, b, c, d]).bind scalar?

/-- The text with its escapes replaced. -/
def unescape : List Char → List Char
  | [] => []
  | ['\\'] => ['\\']
  | '\\' :: 'u' :: a :: b :: c :: d :: rest =>
    match unicodeEscape? a b c d with
    | some decoded => decoded :: unescape rest
    | none => '\\' :: 'u' :: unescape (a :: b :: c :: d :: rest)
  | '\\' :: c :: rest =>
    match simpleEscape? c with
    | some decoded => decoded :: unescape rest
    | none => '\\' :: c :: unescape rest
  | c :: rest => c :: unescape rest

/-- The text between two surrounding quotes; a text without both keeps what it has. -/
def unquote (token : List Char) : List Char :=
  match token with
  | '"' :: rest => if rest.getLast? = some '"' then rest.dropLast else token
  | _ => token

/-- The string that a token stands for. -/
def decodeString (token : List Char) : List Char := unescape (unquote token)

example : decodeString "\"one\\\"one \\q \\u00e9\"".toList = "one\"one \\q é".toList := by decide

end TypedConfig.Literal

namespace TypedConfig

/-!
Literals of every kind.
-/

/-- Why a text cannot be decoded. -/
inductive DecodeError where
  /-- The text is no number of the kind, or one out of its range. -/
  | number (kind text : String)
  /-- The text is no duration, or has an amount out of range. -/
  | duration (text : String)
deriving DecidableEq, Repr

def DecodeError.message : DecodeError → String
  | .number kind text => kind ++ " value " ++ text ++ " can not be parsed"
  | .duration text => "Unable to parse duration value:'" ++ text ++ "' - Not in a known format"

namespace Literal

/-- The text without its last character, if that is one of `suffixes`. -/
def dropSuffix (suffixes text : List Char) : List Char :=
  match text.getLast? with
  | some c => if suffixes.contains c then text.dropLast else text
  | none => text

/-- The text of a number without its suffix and the blanks in front of it. -/
def numberText (suffixes text : List Char) : List Char :=
  Text.trimEnd (dropSuffix suffixes text)

/-- The whole number up to a limit that a text with an optional suffix stands for. -/
def wholeNumber? (suffixes : List Char) (limit : Nat) (text : List Char) : Option Nat :=
  Text.decimalUpTo? limit (numberText suffixes text)

/-- The quotient that a text with an optional suffix stands for: digits, and possibly a point with
more digits. -/
def quotient? (suffixes text : List Char) : Option (Nat × Nat) :=
  let number := numberText suffixes text
  let whole := number.takeWhile (· != '.')
  match number.dropWhile (· != '.') with
  | [] => (Text.decimal? whole).map fun n => (n, 1)
  | _ :: fraction => do
    let _ ← Text.decimal? whole
    let _ ← Text.decimal? fraction
    pure (Text.decimalValue (whole ++ fraction), Nat.pow 10 fraction.length)

/-- The largest plain integer, a signed number of 32 bits. -/
def integerLimit : Nat := 2147483647

/-- The largest long integer, a signed number of 64 bits. -/
def longLimit : Nat := 9223372036854775807

def decodeInteger? (text : List Char) : Option Int32 :=
  (wholeNumber? [] integerLimit text).map Int32.ofNat

def decodeLong? (text : List Char) : Option Int64 :=
  (wholeNumber? ['l', 'L'] longLimit text).map Int64.ofNat

/-- Decodes a float: the nearest single number, which has to be finite. -/
def decodeFloat? (text : List Char) : Option Binary32 :=
  (quotient? ['f', 'F'] text).bind fun (n, d) => Binary32.ofQuotient? n d

/-- Decodes a double: the nearest double number, which has to be finite. -/
def decodeDouble? (text : List Char) : Option Binary64 :=
  (quotient? ['d', 'D'] text).bind fun (n, d) => Binary64.ofQuotient? n d

/-- The boolean words that mean true.  Every other text means false. -/
def trueWords : List (List Char) :=
  ["true".toList, "on".toList, "enabled".toList, "yes".toList]

def decodeBoolean (text : List Char) : Bool := trueWords.contains text

def decodeDuration? : DurationForm → List Char → Option Period
  | .simple, text => Period.ofWords? text
  | .iso8601, text => Period.ofIso? text

/-- A decoded number, or the refusal of its text. -/
def numberOr {α : Type} (kind text : String) (make : α → Scalar) :
    Option α → Except DecodeError Scalar
  | some value => .ok (make value)
  | none => .error (.number kind text)

/-- Decodes the text of a literal of some kind. -/
def decodeAs (kind : LiteralKind) (text : String) : Except DecodeError Scalar :=
  let chars := text.toList
  match kind with
  | .string => .ok (.string (String.ofList (decodeString chars)))
  | .integer => numberOr "Integer" text .integer (decodeInteger? chars)
  | .long => numberOr "Long" text .long (decodeLong? chars)
  | .float => numberOr "Float" text .float (decodeFloat? chars)
  | .double => numberOr "Double" text .double (decodeDouble? chars)
  | .boolean => .ok (.boolean (decodeBoolean chars))
  | .size => .ok (.size text)
  | .duration form =>
    match decodeDuration? form chars with
    | some period => .ok (.duration period)
    | none => .error (.duration text)

def decode (leaf : Literal) : Except DecodeError Scalar := decodeAs leaf.kind leaf.text

end Literal

end TypedConfig
