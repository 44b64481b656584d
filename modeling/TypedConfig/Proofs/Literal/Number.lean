import Mathlib.Algebra.Group.Nat.Defs
import TypedConfig.Proofs.Document.Layout
import TypedConfig.Proofs.Token.Shape

/-!
Decoding numbers.  A decoder cuts the suffix and the blanks in front of it off the end of the text,
and what is left of a token is the number.  Its digits stand for a number of any size, so only the
limit of the kind can refuse it.
-/

namespace TypedConfig

namespace Token.Numeral

variable (n : Numeral)

/-- The number that the digits stand for, without the point. -/
def value : Nat := Text.decimalValue (n.whole ++ n.fraction)

/-- What the number without the point is divided by. -/
def scale : Nat := 10 ^ n.fraction.length

theorem isDigit_of_getLast? : ∀ c ∈ n.text.getLast?, c.isDigit = true := by
  intro c hc
  rcases n.kind_cases with ⟨-, -, htext⟩ | ⟨hfraction, -, htext⟩
  · rw [htext] at hc
    exact n.whole_digits c (List.mem_of_mem_getLast? hc)
  · have hne : n.fraction ≠ [] := by simpa using hfraction
    rw [htext, List.getLast?_append_of_ne_nil _ (List.cons_ne_nil _ _),
      List.getLast?_cons_of_ne_nil hne] at hc
    exact n.fraction_digits c (List.mem_of_mem_getLast? hc)

end Token.Numeral

namespace Literal

open Token (Numeral Suffixed IsGap IsDigits)

section NumberText

variable {n : Numeral} {letters text : List Char}

theorem isBlank_of_isGap {c : Char} (h : Token.isGap c = true) : Text.isBlank c = true := by
  simp only [Token.isGap, Bool.or_eq_true, beq_iff_eq] at h
  rcases h with rfl | rfl <;> decide

theorem isBlank_of_isDigit {c : Char} (h : c.isDigit = true) : Text.isBlank c = false :=
  isBlank_of_isWordChar (Token.isWordChar_of_isDigit h)

theorem trimEnd_append {number blanks : List Char} (hblanks : ∀ c ∈ blanks, Text.isBlank c = true)
    (hnumber : ∀ c ∈ number.getLast?, Text.isBlank c = false) :
    Text.trimEnd (number ++ blanks) = number := by
  have hstops : Token.Stops Text.isBlank number.reverse := by
    intro c hc
    rw [List.head?_reverse] at hc
    exact hnumber c hc
  have hrun : ∀ c ∈ blanks.reverse, Text.isBlank c = true :=
    fun c hc => hblanks c (List.mem_reverse.mp hc)
  rw [Text.trimEnd, List.reverse_append, Token.dropWhile_run hrun hstops, List.reverse_reverse]

theorem trimEnd_number {blanks : List Char} (hblanks : IsGap blanks) :
    Text.trimEnd (n.text ++ blanks) = n.text :=
  trimEnd_append (fun c hc => isBlank_of_isGap (hblanks c hc))
    fun c hc => isBlank_of_isDigit (n.isDigit_of_getLast? c hc)

theorem dropSuffix_concat {letter : Char} (hletter : letter ∈ letters) (text : List Char) :
    dropSuffix letters (text ++ [letter]) = text := by
  simp [dropSuffix, hletter]

/-- A text without one of the letters at its end has no suffix. -/
theorem dropSuffix_eq_self (h : ∀ c ∈ text.getLast?, c ∉ letters) :
    dropSuffix letters text = text := by
  unfold dropSuffix
  split
  · rename_i c hlast
    rw [if_neg]
    simpa using h c hlast
  · rfl

/-- The suffix and the gap in front of it are cut off. -/
theorem numberText_suffixed (h : Suffixed (letters.map ([·])) n.text text) :
    numberText letters text = n.text := by
  obtain ⟨space, suffix, hspace, hsuffix, rfl⟩ := h
  obtain ⟨c, hc, rfl⟩ := List.mem_map.mp hsuffix
  rw [numberText, dropSuffix_concat hc, trimEnd_number hspace]

/-- A number without a suffix is left alone. -/
theorem numberText_plain (hletters : ∀ c ∈ letters, c.isDigit = false) :
    numberText letters n.text = n.text := by
  have hdrop : dropSuffix letters n.text = n.text := by
    apply dropSuffix_eq_self
    intro c hlast hletter
    have hdigit := n.isDigit_of_getLast? c hlast
    simp [hletters c hletter] at hdigit
  have htrim : Text.trimEnd (n.text ++ []) = n.text := trimEnd_number (List.forall_mem_nil _)
  rw [List.append_nil] at htrim
  rw [numberText, hdrop, htrim]

theorem decimal?_digits {digits : List Char} (h : IsDigits digits) :
    Text.decimal? digits = some (Text.decimalValue digits) := by
  have hall : digits.all Char.isDigit = true := List.all_eq_true.mpr h.digits
  simp [Text.decimal?, h.ne_nil, hall]

theorem decimalUpTo?_digits {digits : List Char} (h : IsDigits digits) (limit : Nat) :
    Text.decimalUpTo? limit digits
      = if Text.decimalValue digits ≤ limit then some (Text.decimalValue digits) else none := by
  simp [Text.decimalUpTo?, decimal?_digits h, Option.filter_some]

/-- Only digits are decoded, and only in range. -/
theorem decimalUpTo?_eq_some_iff {digits : List Char} {limit value : Nat} :
    Text.decimalUpTo? limit digits = some value ↔
      IsDigits digits ∧ Text.decimalValue digits = value ∧ value ≤ limit := by
  constructor
  · intro h
    obtain ⟨hdecimal, hlimit⟩ := Option.filter_eq_some_iff.mp h
    unfold Text.decimal? at hdecimal
    simp only [Option.ite_none_right_eq_some, Option.some.injEq, Bool.and_eq_true,
      Bool.not_eq_true', List.isEmpty_eq_false_iff, List.all_eq_true] at hdecimal
    obtain ⟨⟨hne, hdigits⟩, hvalue⟩ := hdecimal
    exact ⟨⟨hne, hdigits⟩, hvalue, of_decide_eq_true hlimit⟩
  · rintro ⟨hdigits, rfl, hlimit⟩
    rw [decimalUpTo?_digits hdigits, if_pos hlimit]

theorem wholeNumber?_eq (hfraction : n.fraction = []) (h : numberText letters text = n.text)
    (limit : Nat) :
    wholeNumber? letters limit text = if n.value ≤ limit then some n.value else none := by
  have hdigits : IsDigits n.whole := ⟨n.whole_ne_nil, n.whole_digits⟩
  have htext : n.text = n.whole := by simp [Numeral.text, hfraction]
  have hvalue : n.value = Text.decimalValue n.whole := by
    rw [Numeral.value, hfraction, List.append_nil]
  rw [wholeNumber?, h, htext, decimalUpTo?_digits hdigits, hvalue]

theorem quotient?_eq (h : numberText letters text = n.text) :
    quotient? letters text = some (n.value, n.scale) := by
  have hwhole : IsDigits n.whole := ⟨n.whole_ne_nil, n.whole_digits⟩
  have hrun : ∀ c ∈ n.whole, (c != '.') = true := by
    intro c hc
    rw [bne_iff_ne]
    rintro rfl
    exact absurd (n.whole_digits _ hc) (by decide)
  unfold quotient?
  rw [h]
  rcases n.kind_cases with ⟨hempty, -, htext⟩ | ⟨hsome, -, htext⟩
  · have hfraction : n.fraction = [] := by simpa using hempty
    simp only [htext, List.takeWhile_eq_self_iff.mpr hrun, List.dropWhile_eq_nil_iff.mpr hrun,
      decimal?_digits hwhole, Option.map_some, Numeral.value, Numeral.scale, hfraction,
      List.append_nil, List.length_nil, Nat.pow_zero]
  · have hfraction : IsDigits n.fraction := ⟨by simpa using hsome, n.fraction_digits⟩
    have hstops : Token.Stops (· != '.') ('.' :: n.fraction) := Token.stops_cons (by decide)
    simp only [htext, Token.takeWhile_run hrun hstops, Token.dropWhile_run hrun hstops,
      decimal?_digits hwhole, decimal?_digits hfraction]
    rfl

end NumberText

section Decoders

variable {n : Numeral} {text : List Char}

theorem decodeInteger?_eq (hfraction : n.fraction = []) (htext : text = n.text) :
    decodeInteger? text
      = if n.value ≤ integerLimit then some (Int32.ofNat n.value) else none := by
  subst htext
  rw [decodeInteger?, wholeNumber?_eq hfraction (numberText_plain (List.forall_mem_nil _))]
  exact apply_ite (Option.map Int32.ofNat) _ _ _

theorem decodeLong?_eq (hfraction : n.fraction = []) (htext : Suffixed [['l'], ['L']] n.text text) :
    decodeLong? text = if n.value ≤ longLimit then some (Int64.ofNat n.value) else none := by
  have hnumber : numberText ['l', 'L'] text = n.text := numberText_suffixed htext
  rw [decodeLong?, wholeNumber?_eq hfraction hnumber]
  exact apply_ite (Option.map Int64.ofNat) _ _ _

theorem decodeFloat?_eq (htext : Suffixed [['f'], ['F']] n.text text ∨ text = n.text) :
    decodeFloat? text = Binary32.ofQuotient? n.value n.scale := by
  have hnumber : numberText ['f', 'F'] text = n.text := by
    rcases htext with hsuffix | rfl
    · exact numberText_suffixed hsuffix
    · apply numberText_plain
      exact List.forall_mem_cons.mpr ⟨by decide, List.forall_mem_singleton.mpr (by decide)⟩
  rw [decodeFloat?, quotient?_eq hnumber, Option.bind_some]

theorem decodeDouble?_eq (htext : Suffixed [['d'], ['D']] n.text text) :
    decodeDouble? text = Binary64.ofQuotient? n.value n.scale := by
  have hnumber : numberText ['d', 'D'] text = n.text := numberText_suffixed htext
  rw [decodeDouble?, quotient?_eq hnumber, Option.bind_some]

theorem toInt_int32 {value : Nat} (h : value ≤ integerLimit) :
    (Int32.ofNat value).toInt = value := by
  apply Int32.toInt_ofNat_of_lt
  exact Nat.lt_of_le_of_lt h (by decide)

theorem toInt_int64 {value : Nat} (h : value ≤ longLimit) : (Int64.ofNat value).toInt = value := by
  apply Int64.toInt_ofNat_of_lt
  exact Nat.lt_of_le_of_lt h (by decide)

end Decoders

end Literal

end TypedConfig

/-!
Which texts are integers and longs.  Digits of any length are one, with blanks behind them, and for
a long with a letter at the very end; nothing else is, and no number past the limit of its kind.
-/

namespace TypedConfig.Literal

open Token (IsDigits)

/-- A text is a whole number: digits, then blanks, and at the very end possibly one of some letters.
-/
inductive WritesWhole (letters : List Char) : Nat → List Char → Prop
  | plain {digits blanks : List Char} :
      IsDigits digits → (∀ c ∈ blanks, Text.isBlank c = true) →
        WritesWhole letters (Text.decimalValue digits) (digits ++ blanks)
  | suffixed {digits blanks : List Char} {letter : Char} :
      IsDigits digits → (∀ c ∈ blanks, Text.isBlank c = true) → letter ∈ letters →
        WritesWhole letters (Text.decimalValue digits) (digits ++ blanks ++ [letter])

section NumberText

variable {letters text digits blanks : List Char} {limit value : Nat}

/-- Only blanks are cut off at the end. -/
theorem exists_trimEnd (text : List Char) :
    ∃ blanks, (∀ c ∈ blanks, Text.isBlank c = true) ∧ text = Text.trimEnd text ++ blanks := by
  refine ⟨(text.reverse.takeWhile Text.isBlank).reverse, ?_, ?_⟩
  · intro c hc
    exact List.mem_takeWhile_imp (List.mem_reverse.mp hc)
  · rw [Text.trimEnd, ← List.reverse_append, List.takeWhile_append_dropWhile, List.reverse_reverse]

theorem trimEnd_digits (hdigits : IsDigits digits) (hblanks : ∀ c ∈ blanks, Text.isBlank c = true) :
    Text.trimEnd (digits ++ blanks) = digits :=
  trimEnd_append hblanks fun c hc =>
    isBlank_of_isDigit (hdigits.digits c (List.mem_of_mem_getLast? hc))

/-- At most one letter is cut off as the suffix. -/
theorem dropSuffix_cases (letters text : List Char) :
    dropSuffix letters text = text ∨
      ∃ letter ∈ letters, text = dropSuffix letters text ++ [letter] := by
  unfold dropSuffix
  split
  · rename_i c hlast
    split
    · rename_i hletter
      have hne : text ≠ [] := by
        rintro rfl
        cases hlast
      refine .inr ⟨c, by simpa using hletter, ?_⟩
      rw [List.getLast?_eq_getLast_of_ne_nil hne] at hlast
      rw [← Option.some.inj hlast, List.dropLast_append_getLast]
    · exact .inl rfl
  · exact .inl rfl

/-- What is left are the digits of a whole number only if the text is one. -/
theorem writesWhole_of_numberText (hdigits : IsDigits digits)
    (h : numberText letters text = digits) :
    WritesWhole letters (Text.decimalValue digits) text := by
  obtain ⟨blanks, hblanks, hcut⟩ := exists_trimEnd (dropSuffix letters text)
  have hnumber : dropSuffix letters text = digits ++ blanks := by rw [hcut, ← h, numberText]
  rcases dropSuffix_cases letters text with hplain | ⟨letter, hletter, hsuffix⟩
  · rw [← hplain, hnumber]
    exact .plain hdigits hblanks
  · rw [hsuffix, hnumber]
    exact .suffixed hdigits hblanks hletter

/-- A whole number leaves its digits. -/
theorem WritesWhole.exists_digits (hletters : ∀ c ∈ letters, c.isAlpha = true)
    (h : WritesWhole letters value text) :
    ∃ digits, IsDigits digits ∧ Text.decimalValue digits = value ∧ numberText letters text = digits := by
  cases h with
  | @plain digits blanks hdigits hblanks =>
      refine ⟨digits, hdigits, rfl, ?_⟩
      have hplain : dropSuffix letters (digits ++ blanks) = digits ++ blanks := by
        apply dropSuffix_eq_self
        intro c hlast hletter
        have halpha := hletters c hletter
        rcases List.mem_append.mp (List.mem_of_mem_getLast? hlast) with hdigit | hblank
        · have hnot := hdigits.digits c hdigit
          simp [isDigit_of_isAlpha halpha] at hnot
        · have hword := isWordChar_of_isBlank (hblanks c hblank)
          simp [Token.isWordChar, Char.isAlphanum, halpha] at hword
      rw [numberText, hplain, trimEnd_digits hdigits hblanks]
  | @suffixed digits blanks letter hdigits hblanks hletter =>
      refine ⟨digits, hdigits, rfl, ?_⟩
      rw [numberText, dropSuffix_concat hletter, trimEnd_digits hdigits hblanks]

/-- A whole number up to a limit is found exactly where one is written. -/
theorem wholeNumber?_eq_some_iff (hletters : ∀ c ∈ letters, c.isAlpha = true) :
    wholeNumber? letters limit text = some value ↔ WritesWhole letters value text ∧ value ≤ limit := by
  rw [wholeNumber?, decimalUpTo?_eq_some_iff]
  constructor
  · rintro ⟨hdigits, rfl, hlimit⟩
    exact ⟨writesWhole_of_numberText hdigits rfl, hlimit⟩
  · rintro ⟨hwhole, hlimit⟩
    obtain ⟨digits, hdigits, hvalue, hnumber⟩ := hwhole.exists_digits hletters
    rw [hnumber]
    exact ⟨hdigits, hvalue, hlimit⟩

end NumberText

/-- Decoding whole numbers up to a limit into some type of numbers: a text is decoded as the number
that it is, and refused if it is none or one past the limit. -/
theorem numberOr_wholeNumber {letters : List Char} (hletters : ∀ c ∈ letters, c.isAlpha = true)
    {α : Type} {limit : Nat} {make : α → Scalar} (hmake : Function.Injective make)
    {ofNat : Nat → α} {toInt : α → Int} (htoInt : Function.Injective toInt)
    (hofNat : ∀ value ≤ limit, toInt (ofNat value) = value) (kind text : String) :
    (∀ n, numberOr kind text make ((wholeNumber? letters limit text.toList).map ofNat) = .ok (make n) ↔
      ∃ value, WritesWhole letters value text.toList ∧ value ≤ limit ∧ toInt n = value) ∧
    (numberOr kind text make ((wholeNumber? letters limit text.toList).map ofNat)
        = .error (.number kind text) ↔
      ¬∃ value, WritesWhole letters value text.toList ∧ value ≤ limit) := by
  have hwhole : ∀ value, wholeNumber? letters limit text.toList = some value ↔
      WritesWhole letters value text.toList ∧ value ≤ limit :=
    fun value => wholeNumber?_eq_some_iff hletters
  cases hfound : wholeNumber? letters limit text.toList with
  | none =>
      have hnone : ¬∃ value, WritesWhole letters value text.toList ∧ value ≤ limit := by
        rintro ⟨value, hvalue⟩
        simp [(hwhole value).mpr hvalue] at hfound
      refine ⟨fun n => ⟨nofun, ?_⟩, fun _ => hnone, fun _ => rfl⟩
      rintro ⟨value, hvalue, hlimit, -⟩
      exact absurd ⟨value, hvalue, hlimit⟩ hnone
  | some found =>
      have hwritten := (hwhole found).mp hfound
      refine ⟨fun n => ⟨?_, ?_⟩, nofun, fun hnone => absurd ⟨found, hwritten⟩ hnone⟩
      · intro h
        obtain rfl : ofNat found = n := hmake (Except.ok.inj h)
        exact ⟨found, hwritten.1, hwritten.2, hofNat found hwritten.2⟩
      · rintro ⟨value, hvalue, hlimit, hn⟩
        obtain rfl : found = value :=
          Option.some.inj (hfound.symm.trans ((hwhole value).mpr ⟨hvalue, hlimit⟩))
        obtain rfl : ofNat found = n := htoInt ((hofNat found hlimit).trans hn.symm)
        rfl

/-- An integer is exactly what consists of digits, of any length and of a value up to 2147483647,
and of blanks behind them; a long is exactly what consists of digits of a value up to
9223372036854775807, of blanks behind them, and possibly of an l or an L at the very end.  Every
other text is refused, with its kind and as a whole. -/
theorem decodeAs_whole (text : String) :
    (∀ n : Int32, decodeAs .integer text = .ok (.integer n) ↔
      ∃ value, WritesWhole [] value text.toList ∧ value ≤ 2147483647 ∧ n.toInt = value) ∧
    (decodeAs .integer text = .error (.number "Integer" text) ↔
      ¬∃ value, WritesWhole [] value text.toList ∧ value ≤ 2147483647) ∧
    (∀ n : Int64, decodeAs .long text = .ok (.long n) ↔
      ∃ value, WritesWhole ['l', 'L'] value text.toList ∧ value ≤ 9223372036854775807 ∧
        n.toInt = value) ∧
    (decodeAs .long text = .error (.number "Long" text) ↔
      ¬∃ value, WritesWhole ['l', 'L'] value text.toList ∧ value ≤ 9223372036854775807) := by
  have hletters : ∀ c ∈ ['l', 'L'], c.isAlpha = true := List.all_eq_true.mp rfl
  obtain ⟨hinteger, hnoInteger⟩ := numberOr_wholeNumber (List.forall_mem_nil _)
    (fun _ _ => Scalar.integer.inj) (fun _ _ => Int32.toInt_inj.mp) (fun _ => toInt_int32)
    "Integer" text
  obtain ⟨hlong, hnoLong⟩ := numberOr_wholeNumber hletters
    (fun _ _ => Scalar.long.inj) (fun _ _ => Int64.toInt_inj.mp) (fun _ => toInt_int64) "Long" text
  exact ⟨hinteger, hnoInteger, hlong, hnoLong⟩

example : decodeAs .long "009223372036854775807\t L" = .ok (.long 9223372036854775807) := by rfl
example : decodeAs .long "9223372036854775808" = .error (.number "Long" "9223372036854775808") := by
  decide

end TypedConfig.Literal
