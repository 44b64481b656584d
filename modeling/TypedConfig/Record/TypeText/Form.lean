import TypedConfig.Record.TypeText.Lexeme

/-!
How a type is built, as far as paths go: the segments of a path and what stands between their angle
brackets.  All else is known by its text.  A text holds no comments, and in every list of arguments
the lifetimes come first, each argument keeping its own comma.
-/

namespace TypedConfig.TypeText

/-!
Readers of lexemes.  A reader takes lexemes off the front and answers with what they make, or fails;
a failed reader has taken nothing.
-/

/-- Reads something off the front of a list of lexemes. -/
abbrev Reader (α : Type) := StateT (List Lexeme) Option α

namespace Reader

variable {α : Type}

def next : Reader Lexeme
  | [] => none
  | lexeme :: rest => some (lexeme, rest)

/-- Whether a lexeme stands here that passes a test. -/
def starts (test : Lexeme → Bool) : Reader Bool := fun lexemes =>
  some (lexemes.head?.any test, lexemes)

/-- Takes a lexeme if it stands here. -/
def accept (lexeme : Lexeme) : Reader Bool
  | [] => some (false, [])
  | first :: rest => if first = lexeme then some (true, rest) else some (false, first :: rest)

def expect (lexeme : Lexeme) : Reader Unit := do
  if ← accept lexeme then pure () else failure

/-- The text of a lexeme if it stands here, and otherwise nothing. -/
def possible (lexeme : Lexeme) : Reader String := do
  if ← accept lexeme then pure lexeme.text else pure ""

/-- What a reader reads if it does not fail. -/
def attempt (reader : Reader α) : Reader (Option α) := fun lexemes =>
  match reader lexemes with
  | some (value, rest) => some (some value, rest)
  | none => some (none, lexemes)

/-- Reads as many things as follow one another with a separator between them; each comes with
whether the separator follows it.  It ends behind a thing without one, or where nothing begins.
The first argument bounds the number of things. -/
def seriesWithin (separator : Lexeme) (begins : Lexeme → Bool) (item : Reader α) :
    Nat → Reader (List (α × Bool))
  | 0 => failure
  | bound + 1 => do
    if ← starts begins then
      let value ← item
      if ← accept separator then
        pure ((value, true) :: (← seriesWithin separator begins item bound))
      else pure [(value, false)]
    else pure []

/-- Reads things with a separator between them. -/
def series (separator : Lexeme) (begins : Lexeme → Bool) (item : Reader α) :
    Reader (List (α × Bool)) := fun lexemes =>
  seriesWithin separator begins item (lexemes.length + 1) lexemes

/-- The text of things with a separator between them. -/
def seriesText (separator : Lexeme) (begins : Lexeme → Bool) (item : Reader String) :
    Reader String := do
  let found ← series separator begins item
  pure (found.foldr (fun (text, separated) rest =>
    text ++ (if separated then separator.text else "") ++ rest) "")

/-- The text up to the bracket that closes the outermost of `depth` open ones, and what follows. -/
def throughClosing (depth : Nat) : List Lexeme → Option (String × List Lexeme)
  | [] => none
  | lexeme :: rest =>
    if lexeme.closes && depth ≤ 1 then some (lexeme.text, rest)
    else
      let depth :=
        if lexeme.closes then depth - 1 else if lexeme.opens then depth + 1 else depth
      (throughClosing depth rest).map fun (text, left) => (lexeme.text ++ text, left)

/-- The text of a bracket and of all that it encloses, as it is written. -/
def bracketed : Reader String := do
  if ← starts Lexeme.opens then throughClosing 0 else failure

end Reader

/-!
Paths, types and their texts.
-/

/-- What an argument between angle brackets is: the name of a lifetime, a type, or something else,
such as a constant or a restriction. -/
inductive ArgumentKind where
  | lifetime
  | type
  | other
deriving DecidableEq, Repr

/-- An argument between angle brackets, and whether a comma is written behind it. -/
structure Argument where
  kind : ArgumentKind
  text : String
  comma : Bool
deriving DecidableEq, Repr

namespace Argument

/-- The text of some arguments with their commas.  `separate` says that nothing or a comma stands
before the first one; where neither does, a comma is put there. -/
def join (separate : Bool) : List Argument → String
  | [] => ""
  | argument :: rest =>
    (if separate then "" else ",") ++ argument.text ++ (if argument.comma then "," else "")
      ++ join argument.comma rest

/-- The text of a list of arguments: the lifetimes, then the others.  Each keeps its own comma. -/
def listText (arguments : List Argument) : String :=
  join true (arguments.filter (·.kind = .lifetime) ++ arguments.filter (·.kind ≠ .lifetime))

end Argument

/-- What stands behind the name of a segment. -/
inductive SegmentArguments where
  | absent
  /-- Arguments in angle brackets, with two colons before them or without. -/
  | angle (colons : Bool) (arguments : List Argument)
  /-- The types in round brackets and the result type, which make a segment a function. -/
  | round (text : String)
deriving DecidableEq, Repr

namespace SegmentArguments

def isEmpty : SegmentArguments → Bool
  | absent => true
  | angle _ arguments => arguments.isEmpty
  | round _ => false

def text : SegmentArguments → String
  | absent => ""
  | angle colons arguments =>
    (if colons then "::" else "") ++ "<" ++ Argument.listText arguments ++ ">"
  | round text => text

end SegmentArguments

/-- A segment of a path. -/
structure Segment where
  name : String
  arguments : SegmentArguments
deriving DecidableEq, Repr

def Segment.text (segment : Segment) : String := segment.name ++ segment.arguments.text

/-- A path: what stands before its first segment, and its segments, of which there is at least
one. -/
structure Path where
  front : String
  before : List Segment
  last : Segment
deriving DecidableEq, Repr

namespace Path

/-- The path with one more segment. -/
def extend (path : Path) (segment : Segment) : Path :=
  ⟨path.front, path.before ++ [path.last], segment⟩

/-- The path with other arguments behind its last name. -/
def withArguments (path : Path) (arguments : SegmentArguments) : Path :=
  { path with last := ⟨path.last.name, arguments⟩ }

/-- Whether the path starts at a type in angle brackets. -/
def isQualified (path : Path) : Bool := path.front.startsWith "<"

/-- Whether the path is a single name, with arguments in angle brackets or without. -/
def isName (path : Path) : Bool :=
  path.front = "" && path.before.isEmpty &&
    match path.last.arguments with
    | .round _ => false
    | _ => true

def text (path : Path) : String :=
  path.front ++ path.before.foldr (fun segment rest => segment.text ++ "::" ++ rest) path.last.text

end Path

/-- A type. -/
inductive Form where
  | path (path : Path)
  /-- One type in round brackets. -/
  | enclosed (text : String)
  | other (text : String)
deriving DecidableEq, Repr

def Form.text : Form → String
  | .path whole => whole.text
  | .enclosed text => text
  | .other text => text

example : Argument.listText [⟨.type, "T", true⟩, ⟨.lifetime, "'a", false⟩] = "'a,T," := by
  decide +kernel

end TypedConfig.TypeText
