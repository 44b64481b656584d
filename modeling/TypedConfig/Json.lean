import TypedConfig.Text.Basic

/-!
JSON values and their text.  An object keeps the order of its members.
-/

namespace TypedConfig

/-- A JSON value.  A number is an integer, or a decimal fraction: a mantissa and how many of its
digits stand behind the point. -/
inductive Json where
  | null
  | bool (value : Bool)
  | integer (value : Int)
  | decimal (mantissa : Int) (places : Nat)
  | string (value : String)
  | array (items : List Json)
  | object (members : List (String × Json))
deriving Inhabited

namespace Json

def text? : Json → Option String
  | .string value => some value
  | _ => none

/-- The value as a natural number below a bound. -/
def natBelow? (bound : Nat) : Json → Option Nat
  | .integer (.ofNat n) => if n < bound then some n else none
  | _ => none

end Json

end TypedConfig

/-!
Printing, in one line without blanks, or indented by two spaces a level.
-/

namespace TypedConfig.Json

def hexDigit (n : Nat) : Char := Nat.digitChar (n % 16)

/-- The escape of one character in a JSON string: the short form where there is one, four
hexadecimal digits for the other control characters, and the character itself otherwise. -/
def escapeChar (c : Char) : List Char :=
  if c = '"' then ['\\', '"']
  else if c = '\\' then ['\\', '\\']
  else if c = '\n' then ['\\', 'n']
  else if c = '\r' then ['\\', 'r']
  else if c = '\t' then ['\\', 't']
  else if c.toNat = 0x08 then ['\\', 'b']
  else if c.toNat = 0x0C then ['\\', 'f']
  else if c.toNat < 0x20 then ['\\', 'u', '0', '0', hexDigit (c.toNat / 16), hexDigit c.toNat]
  else [c]

/-- A JSON string with its quotes. -/
def quote (text : String) : String :=
  String.ofList ('"' :: text.toList.flatMap escapeChar ++ ['"'])

def integerText (value : Int) : String := String.ofList (Text.ofInt value)

/-- The text of a decimal fraction, with at least one digit before the point. -/
def decimalText (mantissa : Int) (places : Nat) : String :=
  let digits := Text.ofNat mantissa.natAbs
  let padded := List.replicate (places + 1 - digits.length) '0' ++ digits
  let whole := padded.take (padded.length - places)
  let fraction := padded.drop (padded.length - places)
  (if mantissa < 0 then "-" else "") ++ String.ofList whole
    ++ (if places = 0 then "" else "." ++ String.ofList fraction)

/-- The text of an array or object between its brackets, given the texts of what is inside. -/
def bracketed (opening closing : String) (parts : List String) : String :=
  opening ++ ",".intercalate parts ++ closing

mutual

/-- The value in one line, without blanks. -/
def compact : Json → String
  | .null => "null"
  | .bool value => if value then "true" else "false"
  | .integer value => integerText value
  | .decimal mantissa places => decimalText mantissa places
  | .string value => quote value
  | .array items => bracketed "[" "]" (compactItems items)
  | .object members => bracketed "\x7b" "\x7d" (compactMembers members)

def compactItems : List Json → List String
  | [] => []
  | item :: rest => compact item :: compactItems rest

def compactMembers : List (String × Json) → List String
  | [] => []
  | (name, value) :: rest => (quote name ++ ":" ++ compact value) :: compactMembers rest

end

def lineBreak (level : Nat) : String :=
  String.ofList ('\n' :: List.replicate (2 * level) ' ')

/-- An array or object with one part a line, indented to the level inside it; an empty one stays in
one line. -/
def spread (opening closing : String) (level : Nat) (parts : List String) : String :=
  if parts.isEmpty then opening ++ closing
  else
    opening ++ lineBreak (level + 1) ++ ("," ++ lineBreak (level + 1)).intercalate parts
      ++ lineBreak level ++ closing

mutual

/-- The value over several lines; its own lines begin at `level`. -/
def prettyAt (level : Nat) : Json → String
  | .array items => spread "[" "]" level (prettyItems (level + 1) items)
  | .object members => spread "\x7b" "\x7d" level (prettyMembers (level + 1) members)
  | .null => "null"
  | .bool value => if value then "true" else "false"
  | .integer value => integerText value
  | .decimal mantissa places => decimalText mantissa places
  | .string value => quote value

def prettyItems (level : Nat) : List Json → List String
  | [] => []
  | item :: rest => prettyAt level item :: prettyItems level rest

def prettyMembers (level : Nat) : List (String × Json) → List String
  | [] => []
  | (name, value) :: rest => (quote name ++ ": " ++ prettyAt level value) :: prettyMembers level rest

end

def pretty (value : Json) : String := prettyAt 0 value

end TypedConfig.Json
