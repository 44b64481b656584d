import TypedConfig.Token.Basic

/-!
The lexemes of a written type: words, lifetimes, literals and marks, without the blanks and the
comments between them.  Words and literals are as long as they can be.  The marks `::` and `->` are
one lexeme each; every other mark is a single character, so two closing angle brackets in a row are
two lexemes.
-/

namespace TypedConfig.TypeText

/-- A lexeme, with its text. -/
inductive Lexeme where
  /-- An identifier or a keyword.  An identifier may be written raw, with `r#` before it, and is
  then no keyword. -/
  | word (text : String)
  /-- The name of a lifetime, with its apostrophe. -/
  | lifetime (text : String)
  /-- A number, or something in quotes. -/
  | literal (text : String)
  /-- Everything else. -/
  | mark (text : String)
deriving DecidableEq, Repr

namespace Lexeme

def text : Lexeme → String
  | word text => text
  | lifetime text => text
  | literal text => text
  | mark text => text

/-- The bracket that closes what a lexeme opens, if it opens anything.  Angle brackets do not count:
only the grammar tells them from comparisons. -/
def closing? : Lexeme → Option Lexeme
  | mark "(" => some (mark ")")
  | mark "[" => some (mark "]")
  | mark "\x7b" => some (mark "\x7d")
  | _ => none

def opens (lexeme : Lexeme) : Bool := lexeme.closing?.isSome

def closes (lexeme : Lexeme) : Bool :=
  lexeme = mark ")" || lexeme = mark "]" || lexeme = mark "\x7d"

/-- Whether every bracket is closed by its own partner.  `awaited` holds the partners of the
brackets that are open, the innermost first. -/
def balanced (awaited : List Lexeme) : List Lexeme → Bool
  | [] => awaited.isEmpty
  | lexeme :: rest =>
    match lexeme.closing? with
    | some partner => balanced (partner :: awaited) rest
    | none =>
      if lexeme.closes then
        match awaited with
        | partner :: outer => lexeme = partner && balanced outer rest
        | [] => false
      else balanced awaited rest

/-- The characters that separate lexemes: the blanks and the two direction marks. -/
def isSpace (c : Char) : Bool := Text.isBlank c || c.toNat == 0x200E || c.toNat == 0x200F

/-- The characters of a word: ASCII letters and digits, the underscore, and all characters beyond
ASCII that separate nothing. -/
def isWordChar (c : Char) : Bool :=
  c.isAlphanum || c == '_' || (0x80 ≤ c.toNat && !isSpace c)

/-- What follows the end of a block comment.  Block comments may stand inside one another; `depth`
counts those that are open around the innermost one. -/
def afterComment : Nat → List Char → Option (List Char)
  | _, [] => none
  | depth, '/' :: '*' :: rest => afterComment (depth + 1) rest
  | 0, '*' :: '/' :: rest => some rest
  | depth + 1, '*' :: '/' :: rest => afterComment depth rest
  | depth, _ :: rest => afterComment depth rest

/-- Whether two slashes with this text behind them begin a comment.  With an exclamation mark, or
with a third slash and no fourth, they begin documentation, which has no place in a type. -/
def isLineComment : List Char → Bool
  | '/' :: '/' :: _ => true
  | '/' :: _ => false
  | '!' :: _ => false
  | _ => true

/-- Whether a slash and an asterisk with this text behind them begin a comment.  With an exclamation
mark, or with a second asterisk and neither a third one nor the closing slash, they begin
documentation. -/
def isBlockComment : List Char → Bool
  | '*' :: '*' :: _ => true
  | '*' :: '/' :: _ => true
  | '*' :: _ => false
  | '!' :: _ => false
  | _ => true

/-- The text from its first lexeme on.  The first argument bounds the number of blanks and comments
before it. -/
def pastLayout : Nat → List Char → List Char
  | 0, text => text
  | bound + 1, '/' :: '/' :: rest =>
    if isLineComment rest then pastLayout bound (rest.dropWhile (· ≠ '\n')) else '/' :: '/' :: rest
  | bound + 1, '/' :: '*' :: rest =>
    match isBlockComment rest, afterComment 0 rest with
    | true, some left => pastLayout bound left
    | _, _ => '/' :: '*' :: rest
  | bound + 1, c :: rest => if isSpace c then pastLayout bound rest else c :: rest
  | _, [] => []

/-- The text `front` with the word characters that follow it, and what follows those. -/
def withWord (front rest : List Char) : String × List Char :=
  (String.ofList (front ++ rest.takeWhile isWordChar), rest.dropWhile isWordChar)

/-- The rest of a quoted literal behind the prefix `front`: a backslash covers the character behind
it. -/
def quoted? (front rest : List Char) : Option (Lexeme × List Char) :=
  match Token.quoted rest with
  | .closed token left =>
    let (text, left) := withWord (front ++ token) left
    some (literal text, left)
  | _ => none

/-- The characters of a raw literal up to its closing quote, which as many number signs follow as
opened it, and what follows those. -/
def rawBody (signs : List Char) : List Char → Option (List Char × List Char)
  | [] => none
  | c :: rest =>
    if c = '"' && signs.isPrefixOf rest then some (c :: signs, rest.drop signs.length)
    else (rawBody signs rest).map fun (token, left) => (c :: token, left)

/-- The rest of a raw literal behind the prefix `front`. -/
def raw? (front rest : List Char) : Option (Lexeme × List Char) :=
  let signs := rest.takeWhile (· = '#')
  match rest.dropWhile (· = '#') with
  | '"' :: body =>
    (rawBody signs body).map fun (token, left) =>
      let (text, left) := withWord (front ++ signs ++ '"' :: token) left
      (literal text, left)
  | _ => none

/-- The rest of a character literal behind the prefix `front`, its opening apostrophe included. -/
def character? (front : List Char) : List Char → Option (Lexeme × List Char)
  | '\\' :: c :: rest =>
    match rest.dropWhile (· ≠ '\x27') with
    | quote :: left =>
      let token := '\\' :: c :: rest.takeWhile (· ≠ '\x27') ++ [quote]
      let (text, left) := withWord (front ++ token) left
      some (literal text, left)
    | [] => none
  | c :: '\x27' :: rest =>
    let (text, left) := withWord (front ++ [c, '\x27']) rest
    some (literal text, left)
  | _ => none

/-- The lexeme behind an apostrophe: a character, or else a lifetime. -/
def apostrophe? (rest : List Char) : Option (Lexeme × List Char) :=
  match character? ['\x27'] rest with
  | some found => some found
  | none =>
    let (name, left) :=
      match rest with
      | 'r' :: '#' :: more => withWord ['\x27', 'r', '#'] more
      | _ => withWord ['\x27'] rest
    if name = "'" || name = "'r#" then none else some (lifetime name, left)

/-- The number at the front of a text that begins with a digit: a run of word characters, the digits
behind a point, and the digits behind the sign of an exponent. -/
def number (text : List Char) : Lexeme × List Char :=
  let whole := text.takeWhile isWordChar
  let rest := text.dropWhile isWordChar
  let (front, rest) :=
    match rest with
    | '.' :: d :: more =>
      if d.isDigit then
        (whole ++ '.' :: (d :: more).takeWhile isWordChar, (d :: more).dropWhile isWordChar)
      else (whole, rest)
    | _ => (whole, rest)
  let hasExponent := front.getLast?.any (fun c => c = 'e' || c = 'E') && front.head? ≠ some '0'
  match rest with
  | sign :: d :: more =>
    if hasExponent && (sign = '+' || sign = '-') && d.isDigit then
      let (text, left) := withWord (front ++ [sign]) (d :: more)
      (literal text, left)
    else (literal (String.ofList front), rest)
  | _ => (literal (String.ofList front), rest)

/-- The lexeme that a word begins: a literal with the word for a prefix, a raw identifier, or the
word itself. -/
def afterWord? (name rest : List Char) : Option (Lexeme × List Char) :=
  let prefixes := ["b".toList, "c".toList]
  let rawPrefixes := ["r".toList, "br".toList, "cr".toList]
  match rest with
  | '"' :: _ =>
    if prefixes.contains name then quoted? name rest
    else if rawPrefixes.contains name then raw? name rest
    else some (word (String.ofList name), rest)
  | '\x27' :: more =>
    if name = "b".toList then character? (name ++ ['\x27']) more
    else some (word (String.ofList name), rest)
  | '#' :: c :: more =>
    if name = "r".toList && isWordChar c then
      let (text, left) := withWord (name ++ ['#']) (c :: more)
      some (word text, left)
    else if rawPrefixes.contains name then raw? name rest
    else some (word (String.ofList name), rest)
  | _ => some (word (String.ofList name), rest)

/-- The characters that are marks. -/
def marks : List Char := "~!@#$%^&*-=+|;:,<.>/?()[]\x7b\x7d".toList

/-- The first lexeme of a text that begins with one, and what follows it. -/
def first? : List Char → Option (Lexeme × List Char)
  | '/' :: '/' :: _ => none
  | '/' :: '*' :: _ => none
  | ':' :: ':' :: rest => some (mark "::", rest)
  | '-' :: '>' :: rest => some (mark "->", rest)
  | '\x27' :: rest => apostrophe? rest
  | '"' :: rest => quoted? [] ('"' :: rest)
  | c :: rest =>
    if c.isDigit then some (number (c :: rest))
    else if isWordChar c then
      afterWord? ((c :: rest).takeWhile isWordChar) ((c :: rest).dropWhile isWordChar)
    else if marks.contains c then some (mark (String.ofList [c]), rest)
    else none
  | [] => none

/-- The lexemes of a text.  The first argument bounds their number. -/
def ofText? : Nat → List Char → Option (List Lexeme)
  | 0, _ => none
  | bound + 1, text =>
    match pastLayout text.length text with
    | [] => some []
    | c :: rest => do
      let (lexeme, left) ← first? (c :: rest)
      pure (lexeme :: (← ofText? bound left))

/-- The lexemes of a text whose brackets stand in pairs. -/
def all? (text : String) : Option (List Lexeme) := do
  let lexemes ← ofText? (text.length + 1) text.toList
  if balanced [] lexemes then some lexemes else none

example : all? "r#a::B</* , */ 'x, \">\">" =
    some [word "r#a", mark "::", word "B", mark "<", lifetime "'x", mark ",", literal "\">\"",
      mark ">"] := by
  decide +kernel

end Lexeme

end TypedConfig.TypeText
