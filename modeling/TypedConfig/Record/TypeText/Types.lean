import TypedConfig.Record.TypeText.Paths

/-!
Reading types.  What a type begins with decides its kind: a bracket, a star, an ampersand, one of a
few words, or else a path.  Types stand inside types, and that is the only recursion; it runs on a
bound that the number of lexemes gives.
-/

namespace TypedConfig.TypeText

open Reader

variable (inside : Inside)

/-- Reads the attributes that stand here.  The first argument bounds their number. -/
def readAttributesWithin : Nat → Reader String
  | 0 => failure
  | bound + 1 => do
    match ← get with
    | .mark "#" :: .mark "[" :: rest =>
      set (Lexeme.mark "[" :: rest)
      let content ← bracketed
      pure ("#" ++ content ++ (← readAttributesWithin bound))
    | _ => pure ""

/-- Reads a parameter of a function: a type, with a name or without one, or three points for all
that may follow. -/
def readParameter : Reader String := do
  let attributes ← readAttributesWithin ((← get).length + 1)
  let name ←
    match ← get with
    | .word name :: .mark ":" :: rest =>
      set rest
      pure (name ++ ":")
    | _ => pure ""
  match ← get with
  | .mark "." :: .mark "." :: .mark "." :: rest =>
    set rest
    pure (attributes ++ name ++ "...")
  | _ => pure (attributes ++ name ++ (← inside.text true))

def readFunction : Reader String := do
  let safety ← possible (.word "unsafe")
  let linkage ←
    if ← accept (.word "extern") then
      match ← get with
      | .literal text :: rest =>
        set rest
        pure ("extern" ++ text)
      | _ => pure "extern"
    else pure ""
  expect (.word "fn")
  expect (.mark "(")
  let parameters ← seriesText (.mark ",") (· ≠ .mark ")") (readParameter inside)
  expect (.mark ")")
  let (result, _) ← readResult inside
  pure (safety ++ linkage ++ "fn(" ++ parameters ++ ")" ++ result)

/-- Reads what a binder introduces lifetimes for: a function, or a trait. -/
def readBehindBinder : Reader String := do
  if ← starts (fun lexeme => [.word "fn", .word "unsafe", .word "extern"].contains lexeme) then
    readFunction inside
  else pure (← readRound inside (← readNames inside)).text

/-- Reads what stands in round brackets, behind the opening one: a bound that may be missing, types
with commas between them, or one type.  The plus sign and the bounds behind the brackets belong to
it. -/
def readRoundType (plus : Bool) : Reader Form := do
  if ← starts (· = .mark "?") then
    let limit ← readTrait inside
    expect (.mark ")")
    pure (.other ("(" ++ limit ++ ")" ++ (← readMoreLimits inside)))
  else
    let types ← series (.mark ",") (· ≠ .mark ")") (inside.text true)
    expect (.mark ")")
    match types with
    | [(text, false)] =>
      let whole := "(" ++ text ++ ")"
      let more ← if plus then readMoreLimits inside else pure ""
      pure (if more = "" then .enclosed whole else .other (whole ++ more))
    | _ =>
      pure (.other ("(" ++ types.foldr (fun (text, comma) rest =>
        text ++ (if comma then "," else "") ++ rest) ")"))

/-- Reads what stands in square brackets, behind the opening one: a type, possibly with a length. -/
def readSquareType : Reader Form := do
  let type ← inside.text true
  let length ←
    if ← accept (.mark ";") then pure (";" ++ (← readExpression inside)) else pure ""
  expect (.mark "]")
  pure (.other ("[" ++ type ++ length ++ "]"))

/-- Reads what an ampersand refers to. -/
def readReference : Reader Form := do
  let lifetime ←
    match ← get with
    | .lifetime name :: rest =>
      set rest
      pure name
    | _ => pure ""
  let change ← possible (.word "mut")
  pure (.other ("&" ++ lifetime ++ change ++ (← inside.text false)))

/-- Reads a type that begins with a path: the path itself, an expansion, or bounds. -/
def readPathType (plus : Bool) : Reader Form := do
  let path ← readPath inside
  if path.isQualified then pure (.path path)
  else
    match ← get with
    | .mark "!" :: rest =>
      set rest
      pure (.other (path.text ++ "!" ++ (← bracketed)))
    | .mark "+" :: _ =>
      if plus then pure (.other (path.text ++ (← readMoreLimits inside))) else pure (.path path)
    | _ => pure (.path path)

def readType (plus : Bool) : Reader Form := do
  match ← get with
  | .word "for" :: _ => do
    let lifetimes ← readBinder
    let type ← readBehindBinder inside
    let more ← if plus then readMoreLimits inside else pure ""
    pure (.other (lifetimes ++ type ++ more))
  | .word "fn" :: _ => Form.other <$> readFunction inside
  | .word "unsafe" :: _ => Form.other <$> readFunction inside
  | .word "extern" :: _ => Form.other <$> readFunction inside
  | .word "dyn" :: rest =>
    set rest
    let star ← possible (.mark "*")
    pure (.other ("dyn" ++ star ++ (← readLimits inside plus)))
  | .word "impl" :: rest =>
    set rest
    pure (.other ("impl" ++ (← readLimits inside plus)))
  | .word "_" :: rest =>
    set rest
    pure (.other "_")
  | .lifetime _ :: _ => Form.other <$> readLimits inside true
  | .mark "(" :: rest =>
    set rest
    readRoundType inside plus
  | .mark "[" :: rest =>
    set rest
    readSquareType inside
  | .mark "&" :: rest =>
    set rest
    readReference inside
  | .mark "*" :: .word "const" :: rest =>
    set rest
    pure (.other ("*const" ++ (← inside.text false)))
  | .mark "*" :: .word "mut" :: rest =>
    set rest
    pure (.other ("*mut" ++ (← inside.text false)))
  | .mark "!" :: rest =>
    set rest
    pure (.other "!")
  | _ => readPathType inside plus

/-- The readers of what has so many types and arguments inside one another. -/
def readers : Nat → Inside
  | 0 => ⟨fun _ => failure, failure⟩
  | bound + 1 =>
    let inside := readers bound
    ⟨readType inside, readArgument inside⟩

def Form.ofText? (text : String) : Option Form := do
  let lexemes ← Lexeme.all? text
  match (readers (2 * lexemes.length + 1)).type true lexemes with
  | some (form, []) => some form
  | _ => none

/-!
Types as the source of a record writes them.  The only question asked of such a text is whether it
is a path that ends in `Vec` with one type between angle brackets, and which type that is.
-/

/-- The element type of a `Vec` with one element type, without blanks. -/
def vecElement? (type : String) : Option String := do
  match ← Form.ofText? type with
  | .path path =>
    match path.last with
    | ⟨"Vec", .angle _ [⟨.type, text, _⟩]⟩ =>
      some (String.ofList (text.toList.filter fun c => !Text.isBlank c))
    | _ => none
  | _ => none

example : vecElement? "std::vec::Vec<Map<String, Vec<u8>>>" = some "Map<String,Vec<u8>>" := by
  decide +kernel

example : vecElement? "Vec<Link<Node, 'a>>" = some "Link<'a,Node,>" := by decide +kernel

example : vecElement? "Option<Vec<Child>>" = none := by decide +kernel

example : vecElement? "dyn list::Vec<Child>" = none := by decide +kernel

end TypedConfig.TypeText
