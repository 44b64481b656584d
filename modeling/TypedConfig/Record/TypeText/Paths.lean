import TypedConfig.Record.TypeText.Form

/-!
Reading paths and the bounds that are made of them.  The types and arguments that stand inside are
left to readers given from outside, so nothing here recurs but along a row of segments.
-/

namespace TypedConfig.TypeText

open Reader

/-- The readers of what stands inside a type.  A reader of types is told whether plus signs may join
bounds; behind an arrow, a star or an ampersand they belong to what is around. -/
structure Inside where
  type : Bool → Reader Form
  argument : Reader (ArgumentKind × String)

namespace Inside

def text (inside : Inside) (plus : Bool) : Reader String := Form.text <$> inside.type plus

end Inside

/-- The words that are no names. -/
def reserved : List String :=
  ["_", "Self", "abstract", "as", "async", "await", "become", "box", "break", "const", "continue",
    "crate", "do", "dyn", "else", "enum", "extern", "false", "final", "fn", "for", "if", "impl",
    "in", "let", "loop", "macro", "match", "mod", "move", "mut", "override", "priv", "pub", "ref",
    "return", "self", "static", "struct", "super", "trait", "true", "try", "type", "typeof",
    "unsafe", "unsized", "use", "virtual", "where", "while", "yield"]

/-- The words besides names that may stand in a path, without arguments of their own. -/
def pathWords : List String := ["super", "self", "crate", "try"]

variable (inside : Inside)

def readArguments : Reader SegmentArguments := do
  let colons ← accept (.mark "::")
  expect (.mark "<")
  let found ← series (.mark ",") (· ≠ .mark ">") inside.argument
  expect (.mark ">")
  pure (.angle colons (found.map fun ((kind, text), comma) => ⟨kind, text, comma⟩))

def readSegment : Reader Segment := do
  match ← next with
  | .word name =>
    if pathWords.contains name then pure ⟨name, .absent⟩
    else if reserved.contains name && name ≠ "Self" then failure
    else
      match ← get with
      | .mark "<" :: _ => pure ⟨name, ← readArguments inside⟩
      | .mark "::" :: .mark "<" :: _ => pure ⟨name, ← readArguments inside⟩
      | _ => pure ⟨name, .absent⟩
  | _ => failure

/-- Reads the further segments of a path.  Two colons before round brackets belong to the brackets.
The first argument bounds the number of segments. -/
def extendWithin : Nat → Path → Reader Path
  | 0, _ => failure
  | bound + 1, path => do
    match ← get with
    | .mark "::" :: .mark "(" :: _ => pure path
    | .mark "::" :: rest =>
      set rest
      extendWithin bound (path.extend (← readSegment inside))
    | _ => pure path

/-- Reads the further segments of a path. -/
def extend (path : Path) : Reader Path := do
  extendWithin inside ((← get).length + 1) path

/-- Reads the segments of a path behind what stands before them. -/
def readSegments (front : String) : Reader Path := do
  extend inside ⟨front, [], ← readSegment inside⟩

/-- Reads a path that begins with a name, or with two colons and a name. -/
def readNames : Reader Path := do
  readSegments inside (← possible (.mark "::"))

/-- Reads a type in angle brackets, possibly with a path that it is seen as, and the two colons
behind it. -/
def readQualifier : Reader String := do
  expect (.mark "<")
  let type ← inside.text true
  let view ←
    if ← accept (.word "as") then pure ("as" ++ (← readNames inside).text) else pure ""
  expect (.mark ">")
  expect (.mark "::")
  pure ("<" ++ type ++ view ++ ">::")

/-- Reads what a function answers with, if it is said.  A path may go on behind a type in round
brackets, as it may behind nothing; the answer tells whether it may. -/
def readResult : Reader (String × Bool) := do
  if ← accept (.mark "->") then
    match ← inside.type false with
    | .enclosed text => pure ("->" ++ text, true)
    | other => pure ("->" ++ other.text, false)
  else pure ("", true)

/-- Reads types in round brackets behind a path whose last segment has no arguments.  Two colons
before the brackets are left out.  Where the path may go on, its segments follow, and round
brackets may stand behind them again; the first argument bounds how often. -/
def readRoundWithin : Nat → Path → Reader Path
  | 0, _ => failure
  | bound + 1, path => do
    let begins :=
      match ← get with
      | .mark "(" :: _ => true
      | .mark "::" :: .mark "(" :: _ => true
      | _ => false
    if begins && path.last.arguments.isEmpty then
      let _ ← accept (.mark "::")
      expect (.mark "(")
      let inputs ← seriesText (.mark ",") (· ≠ .mark ")") (inside.text true)
      expect (.mark ")")
      let (result, goesOn) ← readResult inside
      let path := path.withArguments (.round ("(" ++ inputs ++ ")" ++ result))
      if goesOn then readRoundWithin bound (← extend inside path) else pure path
    else pure path

/-- Reads types in round brackets behind a path, if they follow. -/
def readRound (path : Path) : Reader Path := do
  readRoundWithin inside ((← get).length + 1) path

/-- Reads a path that is a type. -/
def readPath : Reader Path := do
  if ← starts (· = .mark "<") then
    readRound inside (← readSegments inside (← readQualifier inside))
  else readRound inside (← readNames inside)

/-- Reads a lifetime with its bounds, as a binder introduces it.  A colon without bounds is left
out. -/
def readLifetime : Reader String := do
  match ← next with
  | .lifetime name =>
    if ← accept (.mark ":") then
      let bounds ← seriesText (.mark "+") (fun lexeme => lexeme ≠ .mark "," && lexeme ≠ .mark ">")
        (Lexeme.text <$> next)
      pure (if bounds = "" then name else name ++ ":" ++ bounds)
    else pure name
  | _ => failure

/-- Reads the lifetimes that are introduced for what follows, if any are. -/
def readBinder : Reader String := do
  if ← accept (.word "for") then
    expect (.mark "<")
    let lifetimes ← seriesText (.mark ",") (· ≠ .mark ">") readLifetime
    expect (.mark ">")
    pure ("for<" ++ lifetimes ++ ">")
  else pure ""

/-- Reads the names that a type is said to capture. -/
def readCapture : Reader String := do
  expect (.word "use")
  expect (.mark "<")
  let found ← series (.mark ",") (· ≠ .mark ">") next
  expect (.mark ">")
  pure ("use<" ++ Argument.listText (found.map fun (name, comma) =>
    match name with
    | .lifetime text => ⟨.lifetime, text, comma⟩
    | other => ⟨.other, other.text, comma⟩) ++ ">")

/-- Reads a trait, with what may stand before it. -/
def readTrait : Reader String := do
  let lifetimes ← readBinder
  let tilde ← possible (.mark "~")
  let const ← possible (.word "const")
  let question ← possible (.mark "?")
  let path ← readRound inside (← readNames inside)
  pure (lifetimes ++ tilde ++ const ++ question ++ path.text)

/-- Reads a bound: a lifetime, what is captured, a trait, or a trait in round brackets. -/
def readLimit : Reader String := do
  match ← get with
  | .lifetime name :: rest =>
    set rest
    pure name
  | .word "use" :: _ => readCapture
  | .mark "(" :: rest =>
    set rest
    let trait ← readTrait inside
    expect (.mark ")")
    pure ("(" ++ trait ++ ")")
  | _ => readTrait inside

/-- Whether a bound may begin with a lexeme. -/
def beginsLimit : Lexeme → Bool
  | .word _ => true
  | .lifetime _ => true
  | .literal _ => false
  | .mark text => ["::", "?", "~", "("].contains text

/-- Reads the plus sign behind a first bound and the bounds behind it, if there are any. -/
def readMoreLimits : Reader String := do
  if ← accept (.mark "+") then
    pure ("+" ++ (← seriesText (.mark "+") beginsLimit (readLimit inside)))
  else pure ""

/-- Reads bounds, of which there is at least one. -/
def readLimits (plus : Bool) : Reader String := do
  let first ← readLimit inside
  if plus then pure (first ++ (← readMoreLimits inside)) else pure first

/-!
Reading the arguments between angle brackets, and the expressions that constants are written as.  Of
an expression only the types in it matter, for the order of their arguments; all else is kept as it
is written.
-/

def readAny : Reader String := Lexeme.text <$> next

/-- Reads a part of an expression: the arguments in angle brackets behind two colons, a type
before a path, the type behind `as`, an expansion, or else a single lexeme.  `operand` says that
an operand may begin here. -/
def readPart (operand : Bool) : Reader String := do
  match ← get with
  | .mark "::" :: .mark "<" :: _ => (SegmentArguments.text <$> readArguments inside) <|> readAny
  | .mark "<" :: _ => if operand then readQualifier inside <|> readAny else readAny
  | .word "as" :: rest =>
    set rest
    pure ("as" ++ ((← attempt (inside.text false)).getD ""))
  | .word name :: .mark "!" :: bracket :: rest =>
    if bracket.opens then
      set (bracket :: rest)
      pure (name ++ "!" ++ (← bracketed))
    else readAny
  | _ => readAny

/-- Whether an operand may begin behind a part of an expression that begins with a lexeme. -/
def beforeOperand : Lexeme → Bool
  | .word name =>
    reserved.contains name && !(["as", "false", "self", "super", "true", "Self"].contains name)
  | .mark text => !([")", "]", "\x7d", "::"].contains text)
  | .lifetime _ => false
  | .literal _ => false

/-- Reads an expression up to the bracket that closes the one it stands in.  The arguments bound the
number of parts, count the brackets that are open inside, and say whether an operand may begin. -/
def readExpressionWithin : Nat → Nat → Bool → Reader String
  | 0, _, _ => failure
  | bound + 1, depth, operand => do
    match ← get with
    | [] => failure
    | lexeme :: _ =>
      if lexeme.closes && depth = 0 then pure ""
      else
        let part ← readPart inside operand
        let depth :=
          if lexeme.closes then depth - 1 else if lexeme.opens then depth + 1 else depth
        pure (part ++ (← readExpressionWithin bound depth (beforeOperand lexeme)))

/-- Reads an expression up to the bracket that closes the one it stands in. -/
def readExpression : Reader String := do
  readExpressionWithin inside ((← get).length + 1) 0 true

/-- Reads a constant: a literal, a number with a sign, a truth value, or an expression in curly
brackets. -/
def readConstant : Reader String := do
  match ← next with
  | .literal text => pure text
  | .word "true" => pure "true"
  | .word "false" => pure "false"
  | .mark "-" =>
    match ← next with
    | .literal text => pure ("-" ++ text)
    | _ => failure
  | .mark "\x7b" =>
    let expression ← readExpression inside
    expect (.mark "\x7d")
    pure ("\x7b" ++ expression ++ "\x7d")
  | _ => failure

/-- Reads a type that is an argument, or a name with what it is equal to or limited by. -/
def readTypeArgument : Reader (ArgumentKind × String) := do
  match ← inside.type true with
  | .path path =>
    if path.isName then
      if ← accept (.mark "=") then
        let value ← readConstant inside <|> inside.text true
        pure (.other, path.text ++ "=" ++ value)
      else if ← accept (.mark ":") then
        let limits ← seriesText (.mark "+") (fun lexeme => lexeme ≠ .mark "," && lexeme ≠ .mark ">")
          (readLimit inside)
        pure (.other, path.text ++ ":" ++ limits)
      else pure (.type, path.text)
    else pure (.type, path.text)
  | other => pure (.type, other.text)

def readArgument : Reader (ArgumentKind × String) := do
  match ← get with
  | .lifetime name :: rest =>
    if rest.head? = some (.mark "+") then readTypeArgument inside
    else
      set rest
      pure (.lifetime, name)
  | _ =>
    match ← attempt (readConstant inside) with
    | some text => pure (.other, text)
    | none => readTypeArgument inside

end TypedConfig.TypeText
