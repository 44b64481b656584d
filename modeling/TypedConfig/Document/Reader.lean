import TypedConfig.Literal.Decode
import TypedConfig.Token.Literal

/-!
Reading a document.  Every reader starts at a cursor and ends in one of three ways: it found
something; it found that what it looks for does not begin here, so that something else may; or it
met a fault that no other reading can mend.  The number of containers that may still be opened is
what the recursion runs on, so a document nested too deeply is refused at the bracket that opens
one container too many.
-/

namespace TypedConfig

/-- The rest of a text and the place where it begins. -/
structure Cursor where
  rest : List Char
  place : Text.Place

namespace Cursor

/-- The cursor before the first character of a text. -/
def ofText (text : List Char) : Cursor := ⟨text, .start⟩

/-- The cursor behind a stretch of text, which `rest` follows. -/
def past (cursor : Cursor) (taken rest : List Char) : Cursor :=
  ⟨rest, cursor.place.afterAll taken⟩

/-- The cursor behind the blanks and comments that stand here. -/
def pastLayout (cursor : Cursor) : Cursor :=
  let (taken, rest) := Token.splitLayout false cursor.rest
  cursor.past taken rest

/-- The span from here to a later cursor. -/
def spanTo (cursor last : Cursor) : Span := .between cursor.place last.place

end Cursor

/-- What a reader was looking for when it met a fault. -/
inductive Expectation where
  | openingBrace
  | closingBrace
  | closingBracket
  | colon
  | value
  | fieldName
  | fieldNameStart
  | closingQuote
  | nesting (limit : Nat)
  | endOfInput
deriving DecidableEq, Repr

def Expectation.describe : Expectation → String
  | .openingBrace => "'\x7b'"
  | .closingBrace => "'\x7d'"
  | .closingBracket => "']'"
  | .colon => "':'"
  | .value => "value"
  | .fieldName => "field name"
  | .fieldNameStart => "field name not starting with a digit"
  | .closingQuote => "closing '\"'"
  | .nesting limit => s!"at most {limit} levels of nesting"
  | .endOfInput => "end of input"

/-- How a reader ends. -/
inductive Reading (α : Type) where
  /-- Something was read, up to a cursor. -/
  | found (value : α) (next : Cursor)
  /-- It does not begin here; the cursor shows where the last attempt broke off. -/
  | missing (cursor : Cursor)
  /-- What was begun cannot be finished. -/
  | fault (expected : Expectation) (cursor : Cursor)

namespace Reading

variable {α β : Type}

/-- Goes on behind what was found. -/
def andThen (reading : Reading α) (next : α → Cursor → Reading β) : Reading β :=
  match reading with
  | .found value cursor => next value cursor
  | .missing cursor => .missing cursor
  | .fault expected cursor => .fault expected cursor

def map (f : α → β) (reading : Reading α) : Reading β :=
  reading.andThen fun value cursor => .found (f value) cursor

/-- Takes it for a fault that nothing begins here. -/
def require (reading : Reading α) (expected : Expectation) : Reading α :=
  match reading with
  | .missing cursor => .fault expected cursor
  | other => other

end Reading

namespace Document

def readMark (mark : Char) (expected : Expectation) (cursor : Cursor) : Reading Unit :=
  match cursor.rest with
  | c :: rest => if c = mark then .found () (cursor.past [c] rest) else .fault expected cursor
  | [] => .fault expected cursor

def readComma (cursor : Cursor) : Bool × Cursor :=
  match cursor.rest with
  | ',' :: rest => (true, cursor.past [','] rest)
  | _ => (false, cursor)

/-- Reads the name of a field, bare or quoted. -/
def readName (cursor : Cursor) : Reading Identifier :=
  if !(Token.digits cursor.rest).isEmpty then .fault .fieldNameStart cursor
  else match Token.quoted cursor.rest with
    | .closed token rest =>
      let next := cursor.past token rest
      .found ⟨String.ofList (Literal.decodeString token), cursor.spanTo next⟩ next
    | .unclosed taken rest => .fault .closingQuote (cursor.past taken rest)
    | .absent =>
      match Token.identifier cursor.rest with
      | some (token, rest) =>
        let next := cursor.past token rest
        .found ⟨String.ofList token, cursor.spanTo next⟩ next
      | none => .missing cursor

/-- Reads a literal.  Where none begins, the attempt breaks off behind the digits that stand
here. -/
def readLiteral (cursor : Cursor) : Reading Node :=
  match Token.quoted cursor.rest with
  | .unclosed taken rest => .fault .closingQuote (cursor.past taken rest)
  | _ =>
    match Token.literal cursor.rest with
    | some (kind, token, rest) =>
      let next := cursor.past token rest
      .found (.literal ⟨kind, String.ofList token, cursor.spanTo next⟩) next
    | none =>
      .missing (cursor.past (Token.digits cursor.rest) (Token.afterDigits cursor.rest))

/-- Reads as many things as follow one another, each with layout before it and possibly a comma
behind it.  It ends where the next one does not begin; behind a comma that is a fault.  The first
argument bounds their number. -/
def readSeries {α : Type} (item : Cursor → Reading α) (expected : Expectation) :
    Nat → Bool → Cursor → Reading (List α)
  | 0, _, cursor => .found [] cursor
  | bound + 1, afterComma, cursor =>
    let cursor := cursor.pastLayout
    match item cursor with
    | .found value next =>
      let (comma, next) := readComma next.pastLayout
      (readSeries item expected bound comma next).map (value :: ·)
    | .missing stop => if afterComma then .fault expected stop else .found [] cursor
    | .fault expected stop => .fault expected stop

/-- Reads the things inside a container, and its closing bracket.  The cursor stands behind the
opening one. -/
def readInside {α : Type} (item : Cursor → Reading α) (expected : Expectation) (close : Char)
    (unclosed : Expectation) (cursor : Cursor) : Reading (List α) :=
  (readSeries item expected (cursor.rest.length + 1) false cursor).andThen fun values next =>
    (readMark close unclosed next).map fun _ => values

/-- Reads a field: a name, a colon and a value. -/
def readField (value : Cursor → Reading Node) (cursor : Cursor) : Reading (Field Node) :=
  (readName cursor).andThen fun name next =>
    (readMark ':' .colon next.pastLayout).andThen fun _ next =>
      ((value next.pastLayout).require .value).andThen fun node next =>
        .found ⟨name, node, cursor.spanTo next⟩ next

/-- Reads a dictionary whose values are read by `value`; `rest` follows the opening brace. -/
def readDictionary (value : Cursor → Reading Node) (cursor : Cursor) (rest : List Char) :
    Reading (List (Field Node) × Span) :=
  (readInside (readField value) .fieldName '}' .closingBrace (cursor.past ['{'] rest)).andThen
    fun fields next => .found (fields, cursor.spanTo next) next

/-- Reads an array whose items are read by `value`; `rest` follows the opening bracket. -/
def readArray (value : Cursor → Reading Node) (cursor : Cursor) (rest : List Char) :
    Reading (List Node × Span) :=
  (readInside value .value ']' .closingBracket (cursor.past ['['] rest)).andThen
    fun items next => .found (items, cursor.spanTo next) next

/-- Reads a value inside which at most `levels` containers are open at once.  `limit` is the number
that the fault of opening one more names. -/
def readNode (limit : Nat) : Nat → Cursor → Reading Node
  | 0, cursor =>
    match cursor.rest with
    | '{' :: _ => .fault (.nesting limit) cursor
    | '[' :: _ => .fault (.nesting limit) cursor
    | _ => readLiteral cursor
  | levels + 1, cursor =>
    match cursor.rest with
    | '{' :: rest =>
      (readDictionary (readNode limit levels) cursor rest).map fun (fields, span) =>
        .dictionary fields span
    | '[' :: rest =>
      (readArray (readNode limit levels) cursor rest).map fun (items, span) => .array items span
    | _ => readLiteral cursor

/-- Reads the root dictionary, inside which `limit` containers may be open at once, itself
included. -/
def readRoot (limit : Nat) (cursor : Cursor) : Reading Document :=
  match cursor.rest with
  | '{' :: rest =>
    match limit with
    | 0 => .fault (.nesting limit) cursor
    | levels + 1 =>
      (readDictionary (readNode limit levels) cursor rest).map fun (fields, span) => ⟨fields, span⟩
  | _ => .fault .openingBrace cursor

def readEnd (cursor : Cursor) : Reading Unit :=
  if cursor.rest.isEmpty then .found () cursor else .fault .endOfInput cursor

/-- Why a text is not a document: what was expected, and where. -/
structure Fault where
  expected : Expectation
  cursor : Cursor

/-- The most characters that a fault quotes of what it found. -/
def quotedLength : Nat := 16

/-- What stands at a cursor, as a fault quotes it. -/
def describeFound (rest : List Char) : String :=
  if rest.isEmpty then "end of input"
  else "'" ++ String.ofList ((rest.takeWhile fun c => !Text.isBlank c).take quotedLength) ++ "'"

def Fault.message (fault : Fault) : String :=
  "expected " ++ fault.expected.describe ++ ", found " ++ describeFound fault.cursor.rest

/-- Reads a whole text as a document in which at most `limit` containers are open at once. -/
def ofTextWithin (limit : Nat) (text : List Char) : Except Fault Document :=
  let reading := (readRoot limit (Cursor.ofText text).pastLayout).andThen fun document next =>
    (readEnd next.pastLayout).map fun _ => document
  match reading with
  | .found document _ => .ok document
  | .missing cursor => .error ⟨.openingBrace, cursor⟩
  | .fault expected cursor => .error ⟨expected, cursor⟩

/-- The most dictionaries and arrays that may be open at once, the root included. -/
def nestingLimit : Nat := 128

/-- Reads a whole text as a document. -/
def ofText (text : List Char) : Except Fault Document := ofTextWithin nestingLimit text

end Document

end TypedConfig
