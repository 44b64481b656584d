import TypedConfig.Text.Printable

/-!
Values shown for inspection.  A text stands between double quotes, with backslash escapes for the
quote, the backslash, the common controls, and every character that could not be seen.
-/

namespace TypedConfig.Text

/-- A character by its code point in hexadecimal. -/
def codeEscape (c : Char) : List Char :=
  ['\\', 'u', '\x7b'] ++ Nat.toDigits 16 c.toNat ++ ['\x7d']

/-- How a character stands inside quoted text. -/
def inspectChar (c : Char) : List Char :=
  if c = '"' then ['\\', '"']
  else if c = '\\' then ['\\', '\\']
  else if c = '\n' then ['\\', 'n']
  else if c = '\r' then ['\\', 'r']
  else if c = '\t' then ['\\', 't']
  else if c = '\x00' then ['\\', '0']
  else if isPrintable c then [c]
  else codeEscape c

/-- A text with its quotes. -/
def inspect (text : String) : String :=
  String.ofList ('"' :: text.toList.flatMap inspectChar ++ ['"'])

/-!
Outlines: labelled trees of texts by which values are shown for inspection, in one line or with a
part on each line.
-/

/-- A labelled tree of texts. -/
inductive Outline where
  /-- A text as it stands. -/
  | leaf (text : String)
  /-- A label with named parts. -/
  | record (label : String) (parts : List (String × Outline))
  /-- A label with unnamed parts. -/
  | tuple (label : String) (parts : List Outline)
  /-- A sequence. -/
  | list (parts : List Outline)
  /-- A sequence of entries under quoted keys. -/
  | map (entries : List (String × Outline))

namespace Outline

mutual

def inline : Outline → String
  | .leaf text => text
  | .record label parts =>
    label ++ " \x7b " ++ ", ".intercalate (inlineNamed id parts) ++ " \x7d"
  | .tuple label parts => label ++ "(" ++ ", ".intercalate (inlineParts parts) ++ ")"
  | .list parts => "[" ++ ", ".intercalate (inlineParts parts) ++ "]"
  | .map entries => "\x7b" ++ ", ".intercalate (inlineNamed inspect entries) ++ "\x7d"

def inlineParts : List Outline → List String
  | [] => []
  | part :: rest => inline part :: inlineParts rest

/-- Some outlines with their names, each in one line; `wording` words a name. -/
def inlineNamed (wording : String → String) : List (String × Outline) → List String
  | [] => []
  | (name, part) :: rest => (wording name ++ ": " ++ inline part) :: inlineNamed wording rest

end

/-- The line break and the indentation of a level, four spaces each. -/
def lineBreak (level : Nat) : String :=
  String.ofList ('\n' :: List.replicate (4 * level) ' ')

/-- Parts between two marks, each on a line of its own behind which a comma stands; without parts
the marks stand side by side. -/
def spread (first last : String) (level : Nat) (parts : List String) : String :=
  if parts.isEmpty then first ++ last
  else
    first ++ String.join (parts.map fun part => lineBreak (level + 1) ++ part ++ ",")
      ++ lineBreak level ++ last

mutual

/-- The outline over several lines; its own lines begin at `level`. -/
def indentedAt (level : Nat) : Outline → String
  | .leaf text => text
  | .record label parts =>
    spread (label ++ " \x7b") "\x7d" level (indentedNamed (level + 1) id parts)
  | .tuple label parts => spread (label ++ "(") ")" level (indentedParts (level + 1) parts)
  | .list parts => spread "[" "]" level (indentedParts (level + 1) parts)
  | .map entries => spread "\x7b" "\x7d" level (indentedNamed (level + 1) inspect entries)

def indentedParts (level : Nat) : List Outline → List String
  | [] => []
  | part :: rest => indentedAt level part :: indentedParts level rest

def indentedNamed (level : Nat) (wording : String → String) : List (String × Outline) → List String
  | [] => []
  | (name, part) :: rest =>
    (wording name ++ ": " ++ indentedAt level part) :: indentedNamed level wording rest

end

def indented (outline : Outline) : String := indentedAt 0 outline

end Outline

end TypedConfig.Text
