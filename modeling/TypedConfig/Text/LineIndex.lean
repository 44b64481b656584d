import TypedConfig.Text.Basic

/-!
Lines and columns of arbitrary byte offsets.  The index of a text lists where its lines start, and
an offset is looked up by halving that list.  An offset past the end stands for the end; an offset
inside a character stands at the first column of its line.
-/

namespace TypedConfig.Text

/-- The start of a line: its byte offset and the text from there on. -/
structure LineStart where
  offset : Nat
  rest : List Char

/-- A text with the starts of its lines, in order. -/
structure LineIndex where
  text : List Char
  starts : Array LineStart

/-- The line starts after the first one: one behind every line feed. -/
def laterLineStarts (offset : Nat) : List Char → List LineStart
  | [] => []
  | c :: rest =>
    let next := offset + c.utf8Size
    if c = '\n' then ⟨next, rest⟩ :: laterLineStarts next rest
    else laterLineStarts next rest

def LineIndex.ofText (text : List Char) : LineIndex :=
  ⟨text, (⟨0, text⟩ :: laterLineStarts 0 text).toArray⟩

/-- The last index in `[low, high)` whose line starts at or before `offset`, or `low` if there is
none above it.  Each step halves the interval. -/
def lastStartWithin (starts : Array LineStart) (offset low high : Nat) : Nat :=
  if low + 1 < high then
    let middle := (low + high) / 2
    match starts[middle]? with
    | some start =>
      if start.offset ≤ offset then lastStartWithin starts offset middle high
      else lastStartWithin starts offset low middle
    | none => lastStartWithin starts offset low middle
  else low
termination_by high - low

/-- How many characters fill exactly `bytes` bytes at the front of a text; none when a character
straddles that point or the text ends before it. -/
def charsFilling (bytes : Nat) : List Char → Option Nat
  | [] => if bytes = 0 then some 0 else none
  | c :: rest =>
    if bytes = 0 then some 0
    else if c.utf8Size ≤ bytes then (charsFilling (bytes - c.utf8Size) rest).map (· + 1)
    else none

/-- The line that starts at an offset, or else the first line that starts behind it. -/
def LineIndex.search (index : LineIndex) (offset : Nat) : Except Nat Nat :=
  let last := lastStartWithin index.starts offset 0 index.starts.size
  match index.starts[last]? with
  | some start =>
    if start.offset = offset then .ok last
    else if start.offset < offset then .error (last + 1)
    else .error last
  | none => .error last

/-- The line that an offset is on, counted from zero. -/
def LineIndex.line (index : LineIndex) (offset : Nat) : Nat :=
  match index.search offset with
  | .ok exact => exact
  | .error next => next - 1

/-- The line and column of a byte offset, both counted from one. -/
def LineIndex.position (index : LineIndex) (offset : Nat) : Nat × Nat :=
  let offset := min offset (byteLength index.text)
  let line := index.line offset
  let start := index.starts.getD line ⟨0, index.text⟩
  (line + 1, (charsFilling (offset - start.offset) start.rest).getD 0 + 1)

/-- The byte offset at which `rest` begins, when it is the end of the text. -/
def LineIndex.offsetOf (index : LineIndex) (rest : List Char) : Nat :=
  byteLength index.text - byteLength rest

end TypedConfig.Text
