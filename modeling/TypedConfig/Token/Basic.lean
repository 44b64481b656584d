import TypedConfig.Text.Basic

/-!
The small pieces that tokens are made of.  A recogniser cuts a token off the front of a text: it
answers with the token and the rest, which together are the text again, or with nothing.  A *word*
is a maximal run of word characters; a token that ends where a word ends is followed by none of
them, so it cannot be the beginning of a longer one.
-/

namespace TypedConfig.Token

/-- Cuts a token off the front of a text: the token and what follows it. -/
abbrev Recogniser := List Char → Option (List Char × List Char)

/-- A recogniser loses nothing: the token and what follows it are the text. -/
def Lossless (recognise : Recogniser) : Prop :=
  ∀ ⦃text token rest : List Char⦄, recognise text = some (token, rest) → token ++ rest = text

/-- The characters that continue a word: ASCII letters and digits, `_`, `-` and `.`. -/
def isWordChar (c : Char) : Bool :=
  c.isAlphanum || c == '_' || c == '-' || c == '.'

/-- The characters that continue a bare field name: word characters other than `.`. -/
def isIdentifierChar (c : Char) : Bool :=
  c.isAlphanum || c == '_' || c == '-'

/-- The characters that may begin a bare field name. -/
def isIdentifierStart (c : Char) : Bool :=
  c.isAlpha || c == '_'

/-- Space and tab, the blanks allowed inside a token. -/
def isGap (c : Char) : Bool := c == ' ' || c == '\t'

def word (text : List Char) : List Char := text.takeWhile isWordChar

def afterWord (text : List Char) : List Char := text.dropWhile isWordChar

/-- Whether no word continues here. -/
def atBoundary : List Char → Bool
  | [] => true
  | c :: _ => !isWordChar c

/-- The run of ASCII digits at the front, possibly empty. -/
def digits (text : List Char) : List Char := text.takeWhile Char.isDigit

def afterDigits (text : List Char) : List Char := text.dropWhile Char.isDigit

/-- The run of spaces and tabs at the front, possibly empty. -/
def gap (text : List Char) : List Char := text.takeWhile isGap

def afterGap (text : List Char) : List Char := text.dropWhile isGap

@[simp]
theorem word_append_afterWord (text : List Char) : word text ++ afterWord text = text :=
  List.takeWhile_append_dropWhile

@[simp]
theorem digits_append_afterDigits (text : List Char) : digits text ++ afterDigits text = text :=
  List.takeWhile_append_dropWhile

@[simp]
theorem gap_append_afterGap (text : List Char) : gap text ++ afterGap text = text :=
  List.takeWhile_append_dropWhile

/-- A bare field name: a letter or `_`, then letters, digits, `_` and `-`. -/
def identifier : Recogniser
  | [] => none
  | c :: rest =>
    if isIdentifierStart c then
      some (c :: rest.takeWhile isIdentifierChar, rest.dropWhile isIdentifierChar)
    else none

theorem identifier_lossless : Lossless identifier := by
  intro text token rest h
  cases text with
  | nil => simp [identifier] at h
  | cons c more =>
    simp only [identifier, Option.ite_none_right_eq_some, Option.some.injEq, Prod.mk.injEq] at h
    obtain ⟨-, rfl, rfl⟩ := h
    simp

/-- The layout at the front, blanks and comments, and what follows it.  A comment runs from `#` to
the end of its line; `comment` says whether the text starts inside one. -/
def splitLayout (comment : Bool) : List Char → List Char × List Char
  | [] => ([], [])
  | c :: rest =>
    if comment then
      let (taken, left) := splitLayout (c != '\n') rest
      (c :: taken, left)
    else if Text.isBlank c then
      let (taken, left) := splitLayout false rest
      (c :: taken, left)
    else if c = '#' then
      let (taken, left) := splitLayout true rest
      (c :: taken, left)
    else ([], c :: rest)

/-- Layout is cut off the front and nothing is lost. -/
theorem splitLayout_append (comment : Bool) (text : List Char) :
    (splitLayout comment text).1 ++ (splitLayout comment text).2 = text := by
  induction text generalizing comment with
  | nil => rfl
  | cons c rest ih =>
    unfold splitLayout
    split
    · simpa using ih _
    · split
      · simpa using ih _
      · split
        · simpa using ih _
        · rfl

/-!
Quoted strings.  Between the quotes stands any text in which a backslash covers the character
behind it, so a quote ends the string unless it is covered.  A string that is opened and never
closed is told apart from a text that opens none.
-/

/-- What stands at the front of a text, as far as quoted strings go. -/
inductive Quoted where
  /-- No quote opens here. -/
  | absent
  /-- A whole string with both quotes, and what follows it. -/
  | closed (token rest : List Char)
  /-- An open string that cannot be closed: the text read in vain, and what is left where the
  closing quote is missing, which is nothing or a backslash that covers nothing. -/
  | unclosed (taken rest : List Char)
deriving DecidableEq, Repr

/-- Puts characters before the token, or before the text read in vain. -/
def Quoted.consume (front : List Char) : Quoted → Quoted
  | .absent => .absent
  | .closed token rest => .closed (front ++ token) rest
  | .unclosed taken rest => .unclosed (front ++ taken) rest

/-- The rest of a string behind its opening quote. -/
def quotedBody : List Char → Quoted
  | [] => .unclosed [] []
  | '"' :: rest => .closed ['"'] rest
  | ['\\'] => .unclosed [] ['\\']
  | '\\' :: c :: rest => (quotedBody rest).consume ['\\', c]
  | c :: rest => (quotedBody rest).consume [c]

/-- The quoted string at the front of a text. -/
def quoted : List Char → Quoted
  | '"' :: rest => (quotedBody rest).consume ['"']
  | _ => .absent

/-- The recogniser of whole quoted strings. -/
def string : Recogniser := fun text =>
  match quoted text with
  | .closed token rest => some (token, rest)
  | _ => none

/-- The text that is read up to where a quoted string ends or breaks off, and what is left. -/
def Quoted.split? : Quoted → Option (List Char × List Char)
  | .absent => none
  | .closed token rest => some (token, rest)
  | .unclosed taken rest => some (taken, rest)

theorem Quoted.split?_consume (front : List Char) (reading : Quoted) :
    (reading.consume front).split? = reading.split?.map fun (taken, rest) => (front ++ taken, rest) := by
  cases reading <;> rfl

theorem quotedBody_lossless (text : List Char) :
    ∃ taken rest, (quotedBody text).split? = some (taken, rest) ∧ taken ++ rest = text := by
  fun_induction quotedBody text with
  | case1 => exact ⟨[], [], rfl, rfl⟩
  | case2 rest => exact ⟨['"'], rest, rfl, rfl⟩
  | case3 => exact ⟨[], ['\\'], rfl, rfl⟩
  | case4 c rest ih =>
    obtain ⟨taken, left, hsplit, rfl⟩ := ih
    exact ⟨'\\' :: c :: taken, left, by simp [Quoted.split?_consume, hsplit], rfl⟩
  | case5 c rest _ _ _ ih =>
    obtain ⟨taken, left, hsplit, rfl⟩ := ih
    exact ⟨c :: taken, left, by simp [Quoted.split?_consume, hsplit], rfl⟩

theorem quoted_lossless {text taken rest : List Char}
    (h : (quoted text).split? = some (taken, rest)) : taken ++ rest = text := by
  unfold quoted at h
  split at h
  · rename_i body
    obtain ⟨front, left, hsplit, rfl⟩ := quotedBody_lossless body
    simp only [Quoted.split?_consume, hsplit, Option.map_some, Option.some.injEq,
      Prod.mk.injEq] at h
    obtain ⟨rfl, rfl⟩ := h
    rfl
  · simp [Quoted.split?] at h

theorem string_lossless : Lossless string := by
  intro text token rest h
  unfold string at h
  split at h
  · rename_i body left hquoted
    simp only [Option.some.injEq, Prod.mk.injEq] at h
    obtain ⟨rfl, rfl⟩ := h
    exact quoted_lossless (by simp [hquoted, Quoted.split?])
  · simp at h

example : string "\"a\\\"b\" c".toList = some ("\"a\\\"b\"".toList, " c".toList) := by decide

example : quoted "\"ab\\".toList = .unclosed "\"ab".toList "\\".toList := by decide

end TypedConfig.Token
