import Mathlib.Data.List.Forall2
import TypedConfig.Literal.Decode

/-!
How the escapes of a string are read.  The rules are stated here one by one, apart from the function
that follows them: which character a backslash and another one stand for, which characters behind
`\u` name a character, and that everything else stays as it is written, with the reading going on
right behind it.  The function follows these rules with one exception: it takes a plus sign and
three digits for four digits.
-/

namespace TypedConfig.Literal

/-- The characters that stand for others behind a backslash, each with the one it stands for. -/
def simpleEscapes : List (Char × Char) :=
  [('"', '"'), ('\\', '\\'), ('/', '/'), ('\x27', '\x27'), ('n', '\n'), ('t', '\t'), ('r', '\r'),
    ('b', '\x08'), ('f', '\x0c'), ('0', '\x00')]

theorem simpleEscape?_eq_some_iff {c decoded : Char} :
    simpleEscape? c = some decoded ↔ (c, decoded) ∈ simpleEscapes := by
  unfold simpleEscape?
  split <;> simp_all [simpleEscapes, eq_comm]

/-- The hexadecimal digits in the order of their values, once with small and once with capital
letters. -/
def hexDigitRows : List (List Char) :=
  ["0123456789abcdef".toList, "0123456789ABCDEF".toList]

/-- A hexadecimal digit and its value. -/
def IsHexDigit (c : Char) (value : Nat) : Prop := ∃ row ∈ hexDigitRows, row[value]? = some c

instance (c : Char) (value : Nat) : Decidable (IsHexDigit c value) :=
  inferInstanceAs (Decidable (∃ row ∈ hexDigitRows, row[value]? = some c))

theorem hexDigit?_eq_none {c : Char} (h : 103 ≤ c.toNat) : hexDigit? c = none := by
  have hval : 103 ≤ c.val.toNat := h
  unfold hexDigit?
  grind [Char.isDigit, Char.le_def, UInt32.le_iff_toNat_le]

theorem hexDigit?_eq_some_iff {c : Char} {value : Nat} :
    hexDigit? c = some value ↔ IsHexDigit c value := by
  constructor
  · intro h
    have hsmall :
        ∀ n < 103, ∀ value ∈ hexDigit? (Char.ofNat n), IsHexDigit (Char.ofNat n) value := by
      decide
    have hlt : c.toNat < 103 := by
      by_contra hnot
      rw [hexDigit?_eq_none (Nat.le_of_not_lt hnot)] at h
      cases h
    simpa [h] using hsmall c.toNat hlt value
  · rintro ⟨row, hrow, hc⟩
    have hlength : ∀ row ∈ hexDigitRows, row.length = 16 := by decide
    have hvalues : (hexDigitRows.all fun row => (List.range 16).all fun value =>
        (row[value]?).all fun c => hexDigit? c == some value) = true := by decide
    have hlt : value < 16 := hlength row hrow ▸ (List.getElem?_eq_some_iff.mp hc).1
    simp only [List.all_eq_true] at hvalues
    simpa [hc] using hvalues row hrow value (List.mem_range.mpr hlt)

theorem not_isHexDigit_plus (value : Nat) : ¬IsHexDigit '+' value := by
  intro hvalue
  cases hexDigit?_eq_some_iff.mpr hvalue

/-- The number of some hexadecimal digits, the first of which counts most. -/
def hexNumber (values : List Nat) : Nat := values.foldl (fun number value => 16 * number + value) 0

/-- A run of `length` hexadecimal digits names a character: their number is that of the character.
No character has a number among the surrogates. -/
def NamesCharacter (length : Nat) (digits : List Char) (decoded : Char) : Prop :=
  digits.length = length ∧
    ∃ values, List.Forall₂ IsHexDigit digits values ∧ decoded.toNat = hexNumber values

/-- How the text between two quotes is read from left to right.  `names` tells which characters
behind `\u` name which character. -/
inductive Unescapes (names : List Char → Char → Prop) : List Char → List Char → Prop
  | done : Unescapes names [] []
  /-- What is no backslash stands for itself. -/
  | plain {c : Char} {rest text : List Char} :
      c ≠ '\\' → Unescapes names rest text → Unescapes names (c :: rest) (c :: text)
  | simple {c decoded : Char} {rest text : List Char} :
      (c, decoded) ∈ simpleEscapes → Unescapes names rest text →
        Unescapes names ('\\' :: c :: rest) (decoded :: text)
  | named {digits rest text : List Char} {decoded : Char} :
      names digits decoded → Unescapes names rest text →
        Unescapes names ('\\' :: 'u' :: (digits ++ rest)) (decoded :: text)
  /-- Behind `\u` nothing names a character. -/
  | unnamed {rest text : List Char} :
      (∀ digits more decoded, rest = digits ++ more → ¬names digits decoded) →
        Unescapes names rest text → Unescapes names ('\\' :: 'u' :: rest) ('\\' :: 'u' :: text)
  | unknown {c : Char} {rest text : List Char} :
      c ≠ 'u' → (∀ decoded, (c, decoded) ∉ simpleEscapes) → Unescapes names rest text →
        Unescapes names ('\\' :: c :: rest) ('\\' :: c :: text)
  /-- A backslash with nothing behind it. -/
  | last : Unescapes names ['\\'] ['\\']

/-- What names a character for the function: four digits, or a plus sign and three of them. -/
def Names (digits : List Char) (decoded : Char) : Prop :=
  NamesCharacter 4 digits decoded ∨ ∃ more, digits = '+' :: more ∧ NamesCharacter 3 more decoded

/-- The reading depends only on what names a character behind the places of `\u`. -/
theorem Unescapes.of_agree {names others : List Char → Char → Prop} {body text : List Char}
    (h : Unescapes names body text)
    (hagree : ∀ front digits more decoded, body = front ++ '\\' :: 'u' :: (digits ++ more) →
      (names digits decoded ↔ others digits decoded)) : Unescapes others body text := by
  induction h with
  | done => exact .done
  | @plain c rest text hplain _ ih =>
      refine .plain hplain (ih fun front digits more decoded heq => ?_)
      exact hagree (c :: front) digits more decoded (congrArg (c :: ·) heq)
  | @simple c decoded rest text hsimple _ ih =>
      refine .simple hsimple (ih fun front digits more decoded heq => ?_)
      exact hagree ('\\' :: c :: front) digits more decoded (congrArg ('\\' :: c :: ·) heq)
  | @named digits rest text decoded hnamed _ ih =>
      refine .named ((hagree [] digits rest decoded rfl).mp hnamed)
        (ih fun front others more decoded heq => ?_)
      exact hagree ('\\' :: 'u' :: (digits ++ front)) others more decoded (by simp [heq])
  | @unnamed rest text hunnamed _ ih =>
      refine .unnamed (fun digits more decoded heq hothers => ?_)
        (ih fun front digits more decoded heq => ?_)
      · exact hunnamed digits more decoded heq
          ((hagree [] digits more decoded (congrArg ('\\' :: 'u' :: ·) heq)).mpr hothers)
      · exact hagree ('\\' :: 'u' :: front) digits more decoded (congrArg ('\\' :: 'u' :: ·) heq)
  | @unknown c rest text hletter hunknown _ ih =>
      refine .unknown hletter hunknown (ih fun front digits more decoded heq => ?_)
      exact hagree ('\\' :: c :: front) digits more decoded (congrArg ('\\' :: c :: ·) heq)
  | last => exact .last

/-- Takes one more digit behind those that were read so far. -/
def hexStep (value : Option Nat) (c : Char) : Option Nat := do
  some (16 * (← value) + (← hexDigit? c))

theorem foldl_hexStep_none (digits : List Char) : digits.foldl hexStep none = none := by
  induction digits with
  | nil => rfl
  | cons c rest ih => exact ih

theorem foldl_hexStep_eq_some_iff {digits : List Char} {start number : Nat} :
    digits.foldl hexStep (some start) = some number ↔
      ∃ values, List.Forall₂ IsHexDigit digits values ∧
        number = values.foldl (fun number value => 16 * number + value) start := by
  induction digits generalizing start with
  | nil => simp [List.forall₂_nil_left_iff, eq_comm]
  | cons c rest ih =>
      rw [List.foldl_cons, hexStep]
      cases hdigit : hexDigit? c with
      | none =>
          have hnot : ∀ value, ¬IsHexDigit c value := by
            intro value hvalue
            rw [hexDigit?_eq_some_iff.mpr hvalue] at hdigit
            cases hdigit
          change rest.foldl hexStep none = some number ↔ _
          simp [foldl_hexStep_none, List.forall₂_cons_left_iff, hnot]
      | some value =>
          have hvalue : ∀ other, IsHexDigit c other ↔ other = value := by
            intro other
            rw [← hexDigit?_eq_some_iff, hdigit, Option.some.injEq, eq_comm]
          change rest.foldl hexStep (some (16 * start + value)) = some number ↔ _
          simp [ih, List.forall₂_cons_left_iff, hvalue]

theorem hexValue?_eq_some_iff {c : Char} {rest : List Char} {number : Nat} :
    hexValue? (c :: rest) = some number ↔
      ∃ values, List.Forall₂ IsHexDigit (c :: rest) values ∧ number = hexNumber values :=
  foldl_hexStep_eq_some_iff

/-- The characters are the numbers of Unicode without the surrogates. -/
theorem scalar?_eq_some_iff {number : Nat} {decoded : Char} :
    scalar? number = some decoded ↔ decoded.toNat = number := by
  unfold scalar?
  split
  · rename_i hvalid
    have hnumber : (Char.ofNat number).toNat = number := by
      rw [Char.ofNat, dif_pos hvalid]
      rfl
    constructor
    · rintro ⟨⟩
      exact hnumber
    · rintro rfl
      rw [Char.ofNat_toNat]
  · rename_i hinvalid
    constructor
    · intro h
      cases h
    · rintro rfl
      exact absurd decoded.valid hinvalid

theorem unicodeEscape?_eq_some_iff {a b c d decoded : Char} :
    unicodeEscape? a b c d = some decoded ↔ Names [a, b, c, d] decoded := by
  simp only [unicodeEscape?, Option.bind_eq_some_iff, scalar?_eq_some_iff, Names, NamesCharacter]
  unfold signedHexValue?
  split
  · rename_i rest heq
    cases heq
    simp [hexValue?_eq_some_iff, List.forall₂_cons_left_iff, not_isHexDigit_plus]
  · rename_i hunsigned
    have ha : a ≠ '+' := fun ha => hunsigned [b, c, d] (by rw [ha])
    simp [hexValue?_eq_some_iff, ha]

/-- A run that names a character has four characters. -/
theorem Names.exists_eq {digits : List Char} {decoded : Char} (h : Names digits decoded) :
    ∃ a b c d, digits = [a, b, c, d] := by
  have hlength : digits.length = 4 := by
    rcases h with h | ⟨more, rfl, h⟩
    · exact h.1
    · rw [List.length_cons, h.1]
  exact List.length_eq_four.mp hlength

theorem unescape_unescapes (body : List Char) : Unescapes Names body (unescape body) := by
  fun_induction unescape body with
  | case1 => exact .done
  | case2 => exact .last
  | case3 a b c d rest decoded hdecoded ih =>
      have hread := Unescapes.named (unicodeEscape?_eq_some_iff.mp hdecoded) ih
      exact hread
  | case4 a b c d rest hnone ih =>
      refine .unnamed (fun digits more decoded heq hnames => ?_) ih
      obtain ⟨_, _, _, _, rfl⟩ := hnames.exists_eq
      cases heq
      rw [unicodeEscape?_eq_some_iff.mpr hnames] at hnone
      cases hnone
  | case5 c rest hshort decoded hdecoded ih =>
      exact .simple (simpleEscape?_eq_some_iff.mp hdecoded) ih
  | case6 c rest hshort hnone ih =>
      have hunknown : ∀ decoded, (c, decoded) ∉ simpleEscapes := by
        intro decoded hdecoded
        rw [simpleEscape?_eq_some_iff.mpr hdecoded] at hnone
        cases hnone
      by_cases hletter : c = 'u'
      · subst hletter
        refine .unnamed (fun digits more decoded heq hnames => ?_) ih
        obtain ⟨a, b, c, d, rfl⟩ := hnames.exists_eq
        exact hshort a b c d more rfl heq
      · exact .unknown hletter hunknown ih
  | case7 c rest hlast _ hmore ih =>
      refine .plain (fun hslash => ?_) ih
      cases rest with
      | nil => exact hlast hslash rfl
      | cons d more => exact hmore d more hslash rfl

theorem unescape_plain {c : Char} (hplain : c ≠ '\\') (rest : List Char) :
    unescape (c :: rest) = c :: unescape rest := by
  rw [unescape]
  · exact fun hslash _ => hplain hslash
  · exact fun _ _ _ _ _ hslash _ => hplain hslash
  · exact fun _ _ hslash _ => hplain hslash

/-- Behind a backslash that names no character by its number, one character is looked at. -/
theorem unescape_covered {c : Char} {rest : List Char}
    (hunnamed : c = 'u' → ∀ digits more decoded, rest = digits ++ more → ¬Names digits decoded) :
    unescape ('\\' :: c :: rest)
      = match simpleEscape? c with
        | some decoded => decoded :: unescape rest
        | none => '\\' :: c :: unescape rest := by
  by_cases hlong : ∃ a b d e more, c = 'u' ∧ rest = a :: b :: d :: e :: more
  · obtain ⟨a, b, d, e, more, rfl, rfl⟩ := hlong
    have hnone : unicodeEscape? a b d e = none := by
      cases hdecoded : unicodeEscape? a b d e with
      | none => rfl
      | some decoded =>
          have hnames := unicodeEscape?_eq_some_iff.mp hdecoded
          exact absurd hnames (hunnamed rfl [a, b, d, e] more decoded rfl)
    rw [unescape, hnone]
    rfl
  · have hshort : ∀ a b d e more, c = 'u' → rest = a :: b :: d :: e :: more → False :=
      fun a b d e more hu hrest => hlong ⟨a, b, d, e, more, hu, hrest⟩
    exact unescape.eq_4 c rest hshort

theorem Unescapes.unescape_eq {body text : List Char} (h : Unescapes Names body text) :
    unescape body = text := by
  induction h with
  | done => rfl
  | plain hplain _ ih => rw [unescape_plain hplain, ih]
  | @simple c decoded rest text hsimple _ ih =>
      have hletter : c ≠ 'u' := by
        rintro rfl
        cases simpleEscape?_eq_some_iff.mpr hsimple
      rw [unescape_covered fun hu => absurd hu hletter, simpleEscape?_eq_some_iff.mpr hsimple, ih]
  | named hnamed _ ih =>
      obtain ⟨a, b, c, d, rfl⟩ := hnamed.exists_eq
      simp only [List.cons_append, List.nil_append, unescape,
        unicodeEscape?_eq_some_iff.mpr hnamed, ih]
  | unnamed hunnamed _ ih =>
      rw [unescape_covered fun _ => hunnamed, ih]
      rfl
  | @unknown c rest text hletter hunknown _ ih =>
      have hnone : simpleEscape? c = none := by
        cases hsimple : simpleEscape? c with
        | none => rfl
        | some decoded => exact absurd (simpleEscape?_eq_some_iff.mp hsimple) (hunknown decoded)
      rw [unescape_covered fun hu => absurd hu hletter, hnone, ih]
  | last => rfl

/-- The text between two quotes is read as the rules say, with four characters or a plus sign and
three digits behind `\u`; and as they say with four digits alone, if no plus sign stands behind a
`\u`. -/
theorem decodeString_unescapes (body text : List Char) :
    (decodeString ('"' :: (body ++ ['"'])) = text ↔ Unescapes Names body text) ∧
    (¬['\\', 'u', '+'] <:+: body →
      (decodeString ('"' :: (body ++ ['"'])) = text ↔ Unescapes (NamesCharacter 4) body text)) := by
  have hdecode : decodeString ('"' :: (body ++ ['"'])) = unescape body := by
    simp [decodeString, unquote]
  have hnames : unescape body = text ↔ Unescapes Names body text :=
    ⟨fun h => h ▸ unescape_unescapes body, Unescapes.unescape_eq⟩
  rw [hdecode]
  refine ⟨hnames, fun hfree => hnames.trans ?_⟩
  have hagree : ∀ front digits more decoded, body = front ++ '\\' :: 'u' :: (digits ++ more) →
      (Names digits decoded ↔ NamesCharacter 4 digits decoded) := by
    intro front digits more decoded heq
    refine ⟨?_, .inl⟩
    rintro (h | ⟨rest, rfl, -⟩)
    · exact h
    · exact absurd ⟨front, rest ++ more, by simp [heq]⟩ hfree
  exact ⟨fun h => h.of_agree hagree, fun h => h.of_agree fun front digits more decoded heq =>
    (hagree front digits more decoded heq).symm⟩

/-- A string in which a number is named and one is not, and one with a plus sign behind `\u`. -/
theorem mixedEscapes_unescapes :
    ¬['\\', 'u', '+'] <:+: "\\u00E9\\q\\ud800\\n".toList ∧
    Unescapes (NamesCharacter 4) "\\u00E9\\q\\ud800\\n".toList "é\\q\\ud800\n".toList ∧
    Unescapes Names ['\\', 'u', '+', '0', '4', '1'] ['A'] ∧
    Unescapes (NamesCharacter 4) ['\\', 'u', '+', '0', '4', '1'] ['\\', 'u', '+', '0', '4', '1'] := by
  have hfree : ¬['\\', 'u', '+'] <:+: "\\u00E9\\q\\ud800\\n".toList := by
    intro hinfix
    have hplus : '+' ∈ "\\u00E9\\q\\ud800\\n".toList := hinfix.subset (by decide)
    exact absurd hplus (by decide)
  refine ⟨hfree, ?_, ?_, ?_⟩
  · exact ((decodeString_unescapes "\\u00E9\\q\\ud800\\n".toList _).2 hfree).mp (by decide)
  · exact (decodeString_unescapes ['\\', 'u', '+', '0', '4', '1'] ['A']).1.mp (by decide)
  · refine .unnamed ?_ (.plain (by decide) (.plain (by decide) (.plain (by decide)
      (.plain (by decide) .done))))
    rintro digits more decoded heq ⟨hlength, values, hvalues, -⟩
    cases hvalues with
    | nil => cases hlength
    | cons hdigit _ =>
        rw [List.cons_append] at heq
        rw [← (List.cons.inj heq).1] at hdigit
        exact not_isHexDigit_plus _ hdigit

end TypedConfig.Literal
