import TypedConfig.Document.Basic
import TypedConfig.Period.Basic
import TypedConfig.Token.Basic

/-!
Literal tokens.  The lexical kinds are tried in a fixed order and the first that matches wins; each
of them ends at a word boundary, so `1 minutes` is a duration while `1 minutes-left` begins with a
plain integer.
-/

namespace TypedConfig.Token

/-!
Number tokens: sizes, long, double, float and plain integers.  A suffix or a size unit is a word of
its own and may stand behind a gap.
-/

/-- The words that make a number a size. -/
def sizeUnits : List (List Char) :=
  ["KiB".toList, "MiB".toList, "GiB".toList, "TiB".toList, "PiB".toList,
    "KB".toList, "MB".toList, "GB".toList, "TB".toList, "PB".toList, "B".toList]

/-- The digits at the front with a fraction, when a point and a digit follow them: the number and
what follows it. -/
def decimal (text : List Char) : List Char × List Char :=
  match afterDigits text with
  | '.' :: rest =>
    if (digits rest).isEmpty then (digits text, '.' :: rest)
    else (digits text ++ '.' :: digits rest, afterDigits rest)
  | rest => (digits text, rest)

/-- Puts behind a number the gap and the word that follow it, when the word is one of `suffixes`. -/
def withSuffix (suffixes : List (List Char)) (number rest : List Char) :
    Option (List Char × List Char) :=
  let behindGap := afterGap rest
  if suffixes.contains (word behindGap) then
    some (number ++ gap rest ++ word behindGap, afterWord behindGap)
  else none

def size : Recogniser := fun text =>
  if (digits text).isEmpty then none else withSuffix sizeUnits (digits text) (afterDigits text)

def long : Recogniser := fun text =>
  if (digits text).isEmpty then none
  else withSuffix [['l'], ['L']] (digits text) (afterDigits text)

/-- Digits, possibly with a fraction, with the suffix `d` or `D`. -/
def double : Recogniser := fun text =>
  if (digits text).isEmpty then none
  else withSuffix [['d'], ['D']] (decimal text).1 (decimal text).2

/-- Whether the text goes on with the letter `f` or `F`. -/
def startsWithF : List Char → Bool
  | c :: _ => c == 'f' || c == 'F'
  | [] => false

/-- Digits, possibly with a fraction, with the suffix `f` or `F`; or a fraction without suffix.
A letter `f` behind the number and a gap counts as the suffix whatever follows it, and when a
longer word follows there is no float at all. -/
def float : Recogniser := fun text =>
  let (number, rest) := decimal text
  if (digits text).isEmpty then none
  else if startsWithF (afterGap rest) then withSuffix [['f'], ['F']] number rest
  else if number.contains '.' && atBoundary rest then some (number, rest)
  else none

def integer : Recogniser := fun text =>
  if (digits text).isEmpty || !atBoundary (afterDigits text) then none
  else some (digits text, afterDigits text)

theorem decimal_append (text : List Char) : (decimal text).1 ++ (decimal text).2 = text := by
  unfold decimal
  split
  · rename_i rest hrest
    split
    · simpa [hrest] using digits_append_afterDigits text
    · simpa [hrest] using digits_append_afterDigits text
  · exact digits_append_afterDigits text

theorem withSuffix_append {suffixes : List (List Char)} {number rest token left : List Char}
    (h : withSuffix suffixes number rest = some (token, left)) :
    token ++ left = number ++ rest := by
  simp only [withSuffix, Option.ite_none_right_eq_some, Option.some.injEq, Prod.mk.injEq] at h
  obtain ⟨-, rfl, rfl⟩ := h
  simp

theorem size_lossless : Lossless size := by
  intro text token rest h
  simp only [size, Option.ite_none_left_eq_some] at h
  rw [withSuffix_append h.2, digits_append_afterDigits]

theorem long_lossless : Lossless long := by
  intro text token rest h
  simp only [long, Option.ite_none_left_eq_some] at h
  rw [withSuffix_append h.2, digits_append_afterDigits]

theorem double_lossless : Lossless double := by
  intro text token rest h
  simp only [double, Option.ite_none_left_eq_some] at h
  rw [withSuffix_append h.2, decimal_append]

theorem float_lossless : Lossless float := by
  intro text token rest h
  unfold float at h
  simp only at h
  split at h
  · simp at h
  · split at h
    · rw [withSuffix_append h, decimal_append]
    · simp only [Option.ite_none_right_eq_some, Option.some.injEq, Prod.mk.injEq] at h
      obtain ⟨-, rfl, rfl⟩ := h
      exact decimal_append text

theorem integer_lossless : Lossless integer := by
  intro text token rest h
  simp only [integer, Option.ite_none_left_eq_some, Option.some.injEq, Prod.mk.injEq] at h
  obtain ⟨-, rfl, rfl⟩ := h
  exact digits_append_afterDigits text

example : float "1.5 F, 2".toList = some ("1.5 F".toList, ", 2".toList) := by decide

example : float "1.5 first".toList = none := by decide

/-!
Duration tokens.  The ISO form is a word that begins with `P` and goes on with digits, points and
designators; whether it has a sensible order is for its decoder.  The simple form is a sequence of
amounts, each followed by a unit word, from larger to strictly smaller units.
-/

/-- The characters behind the `P` of an ISO duration. -/
def isDesignator (c : Char) : Bool :=
  c.isDigit || ['Y', 'M', 'W', 'D', 'T', 'H', 'S', '.'].contains c

/-- A word of `P`, digits, points and designators. -/
def isoDuration : Recogniser := fun text =>
  match word text with
  | 'P' :: more =>
    if more.all isDesignator then some ('P' :: more, afterWord text) else none
  | _ => none

theorem isoDuration_lossless : Lossless isoDuration := by
  intro text token rest h
  unfold isoDuration at h
  split at h
  · rename_i more hword
    simp only [Option.ite_none_right_eq_some, Option.some.injEq, Prod.mk.injEq] at h
    obtain ⟨-, rfl, rfl⟩ := h
    rw [← hword, word_append_afterWord]
  · simp at h

/-- A number, a gap and a unit word: the unit, the text of all three, and what follows. -/
def amountWithUnit (text : List Char) : Option (TimeUnit × List Char × List Char) :=
  let behindNumber := afterDigits text
  let behindGap := afterGap behindNumber
  if (digits text).isEmpty || (gap behindNumber).isEmpty then none
  else (TimeUnit.ofWord? (word behindGap)).map fun unit =>
    (unit, digits text ++ gap behindNumber ++ word behindGap, afterWord behindGap)

/-- Amounts in some of the given units, in their order, with gaps between them.  The token ends
behind the last amount that belongs to it. -/
def amountsIn : List TimeUnit → Recogniser
  | [], _ => none
  | unit :: smaller, text =>
    match amountWithUnit text with
    | some (found, token, rest) =>
      if found = unit then
        if (gap rest).isEmpty then some (token, rest)
        else match amountsIn smaller (afterGap rest) with
          | some (more, last) => some (token ++ gap rest ++ more, last)
          | none => some (token, rest)
      else amountsIn smaller text
    | none => none

theorem amountWithUnit_lossless {text token rest : List Char} {unit : TimeUnit}
    (h : amountWithUnit text = some (unit, token, rest)) : token ++ rest = text := by
  simp only [amountWithUnit, Option.ite_none_left_eq_some, Option.map_eq_some_iff,
    Prod.mk.injEq] at h
  obtain ⟨-, found, -, -, rfl, rfl⟩ := h
  simp

theorem amountsIn_lossless (units : List TimeUnit) : Lossless (amountsIn units) := by
  intro text token rest h
  induction units generalizing text token rest with
  | nil => simp [amountsIn] at h
  | cons unit smaller ih =>
    unfold amountsIn at h
    split at h
    · rename_i found pair left hpair
      have hcut := amountWithUnit_lossless hpair
      split at h
      · split at h
        · simp only [Option.some.injEq, Prod.mk.injEq] at h
          obtain ⟨rfl, rfl⟩ := h
          exact hcut
        · split at h
          · rename_i more last hmore
            simp only [Option.some.injEq, Prod.mk.injEq] at h
            obtain ⟨rfl, rfl⟩ := h
            have hrest := ih hmore
            rw [List.append_assoc, List.append_assoc, hrest, gap_append_afterGap, hcut]
          · simp only [Option.some.injEq, Prod.mk.injEq] at h
            obtain ⟨rfl, rfl⟩ := h
            exact hcut
      · exact ih h
    · simp at h

/-- A duration in words, such as `1 hour 30 minutes`. -/
def simpleDuration : Recogniser := amountsIn TimeUnit.all

theorem simpleDuration_lossless : Lossless simpleDuration := amountsIn_lossless TimeUnit.all

example : simpleDuration "1 hour 30 minutes 2 hours".toList
    = some ("1 hour 30 minutes".toList, " 2 hours".toList) := by decide

/-!
The lexical kinds together.
-/

def booleanWords : List (List Char) :=
  ["true".toList, "on".toList, "enabled".toList, "yes".toList,
    "false".toList, "off".toList, "disabled".toList, "no".toList]

def boolean : Recogniser := fun text =>
  if booleanWords.contains (word text) then some (word text, afterWord text) else none

theorem boolean_lossless : Lossless boolean := by
  intro text token rest h
  simp only [boolean, Option.ite_none_right_eq_some, Option.some.injEq, Prod.mk.injEq] at h
  obtain ⟨-, rfl, rfl⟩ := h
  exact word_append_afterWord text

/-- The lexical kinds with their recognisers, in the order in which they are tried. -/
def alternatives : List (LiteralKind × Recogniser) :=
  [(.string, string), (.duration .iso8601, isoDuration), (.boolean, boolean),
    (.duration .simple, simpleDuration), (.size, size), (.long, long), (.double, double),
    (.float, float), (.integer, integer)]

/-- The first of some recognisers that matches, with its kind. -/
def firstMatch (text : List Char) :
    List (LiteralKind × Recogniser) → Option (LiteralKind × List Char × List Char)
  | [] => none
  | (kind, recognise) :: rest =>
    match recognise text with
    | some (token, left) => some (kind, token, left)
    | none => firstMatch text rest

/-- The literal at the front of a text: its kind, its token and what follows it. -/
def literal (text : List Char) : Option (LiteralKind × List Char × List Char) :=
  firstMatch text alternatives

theorem firstMatch_lossless {text token rest : List Char} {kind : LiteralKind}
    {among : List (LiteralKind × Recogniser)} (hall : ∀ entry ∈ among, Lossless entry.2)
    (h : firstMatch text among = some (kind, token, rest)) : token ++ rest = text := by
  induction among with
  | nil => simp [firstMatch] at h
  | cons entry more ih =>
    simp only [firstMatch] at h
    split at h
    · rename_i found left hfound
      simp only [Option.some.injEq, Prod.mk.injEq] at h
      obtain ⟨-, rfl, rfl⟩ := h
      exact hall _ List.mem_cons_self hfound
    · exact ih (fun entry hentry => hall entry (List.mem_cons_of_mem _ hentry)) h

theorem alternatives_lossless : ∀ entry ∈ alternatives, Lossless entry.2 := by
  simp only [alternatives, List.forall_mem_cons]
  exact ⟨string_lossless, isoDuration_lossless, boolean_lossless, simpleDuration_lossless,
    size_lossless, long_lossless, double_lossless, float_lossless, integer_lossless,
    List.forall_mem_nil _⟩

/-- A literal and what follows it are the text. -/
theorem literal_append {text token rest : List Char} {kind : LiteralKind}
    (h : literal text = some (kind, token, rest)) : token ++ rest = text :=
  firstMatch_lossless alternatives_lossless h

example : literal "1 minutes-left".toList
    = some (.integer, "1".toList, " minutes-left".toList) := by decide

end TypedConfig.Token
