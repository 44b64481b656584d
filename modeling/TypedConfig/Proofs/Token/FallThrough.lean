import TypedConfig.Proofs.Token.Number

/-!
Numbers with a word behind them that is none of their suffixes, such as the name of the next field.
The word is left alone and the number is read as if it stood alone, with one exception: a number
with a fraction takes the first letter of the word for a suffix when that is `f` or `F`, and then
nothing can be read at all.
-/

namespace TypedConfig

namespace Token

/-- A number without a suffix: digits, and possibly a point with more digits. -/
structure Numeral where
  whole : List Char
  fraction : List Char
  whole_ne_nil : whole ≠ []
  whole_digits : ∀ c ∈ whole, c.isDigit = true
  fraction_digits : ∀ c ∈ fraction, c.isDigit = true

namespace Numeral

def text (n : Numeral) : List Char :=
  if n.fraction.isEmpty then n.whole else n.whole ++ '.' :: n.fraction

/-- The kind of literal that the number is when it stands alone. -/
def kind (n : Numeral) : LiteralKind :=
  if n.fraction.isEmpty then .integer else .float

/-- The words that belong to the number when they stand behind it: suffixes and units. -/
def suffixes (n : Numeral) : List (List Char) :=
  if n.fraction.isEmpty then
    [['l'], ['L'], ['d'], ['D'], ['f'], ['F']] ++ sizeUnits
      ++ TimeUnit.all.flatMap TimeUnit.spellings
  else [['d'], ['D'], ['f'], ['F']]

variable {n : Numeral} {behind : List Char}

theorem kind_cases (n : Numeral) :
    (n.fraction.isEmpty = true ∧ n.kind = .integer ∧ n.text = n.whole) ∨
      (n.fraction.isEmpty = false ∧ n.kind = .float ∧ n.text = n.whole ++ '.' :: n.fraction) := by
  by_cases hfraction : n.fraction.isEmpty = true
  · exact .inl ⟨hfraction, if_pos hfraction, if_pos hfraction⟩
  · exact .inr ⟨by simpa using hfraction, if_neg hfraction, if_neg hfraction⟩

theorem digits_append (h : Stops isWordChar behind) : digits (n.text ++ behind) = n.whole := by
  rcases n.kind_cases with ⟨-, -, htext⟩ | ⟨-, -, htext⟩
  · rw [htext]
    exact takeWhile_run n.whole_digits h.stops_digit
  · rw [htext, List.append_assoc]
    exact takeWhile_run n.whole_digits (stops_cons (by decide))

theorem afterDigits_append (h : Stops isWordChar behind) :
    afterDigits (n.text ++ behind)
      = if n.fraction.isEmpty then behind else '.' :: (n.fraction ++ behind) := by
  rcases n.kind_cases with ⟨hfraction, -, htext⟩ | ⟨hfraction, -, htext⟩
  · rw [htext, if_pos hfraction]
    exact dropWhile_run n.whole_digits h.stops_digit
  · rw [htext, hfraction, List.append_assoc]
    exact dropWhile_run n.whole_digits (stops_cons (by decide))

theorem decimal_append (h : Stops isWordChar behind) :
    decimal (n.text ++ behind) = (n.text, behind) := by
  unfold decimal
  rw [digits_append h, afterDigits_append h]
  rcases n.kind_cases with ⟨hfraction, -, htext⟩ | ⟨hfraction, -, htext⟩
  · rw [if_pos hfraction, htext]
    split
    · exact absurd (h _ rfl) (by decide)
    · rfl
  · have hdigits : digits (n.fraction ++ behind) = n.fraction :=
      takeWhile_run n.fraction_digits h.stops_digit
    have hafter : afterDigits (n.fraction ++ behind) = behind :=
      dropWhile_run n.fraction_digits h.stops_digit
    simp only [hfraction, hdigits, hafter, htext, Bool.false_eq_true, if_false]

theorem point_mem_text : n.text.contains '.' = !n.fraction.isEmpty := by
  rcases n.kind_cases with ⟨hfraction, -, htext⟩ | ⟨hfraction, -, htext⟩
  · have hwhole : '.' ∉ n.whole := fun h => absurd (n.whole_digits _ h) (by decide)
    simp [htext, hfraction, hwhole]
  · simp [htext, hfraction]

theorem unitWord_append (h : Stops isWordChar behind)
    (hfree : word (afterGap behind) ∉ n.suffixes) :
    UnitFree (unitWord (n.text ++ behind)) := by
  have hafter := afterDigits_append (n := n) h
  unfold suffixes at hfree
  split at hafter
  · rename_i hfraction
    rw [if_pos hfraction] at hfree
    simp only [List.mem_append, List.mem_flatMap, not_or, not_exists, not_and] at hfree
    obtain ⟨⟨hsuffixes, hsize⟩, htime⟩ := hfree
    unfold unitWord
    rw [hafter]
    refine ⟨?_, by simpa using hsize, ?_⟩
    · simpa [TimeUnit.ofWord?] using htime
    · simp only [List.mem_cons, not_or] at hsuffixes
      simp [hsuffixes.1, hsuffixes.2.1]
  · exact unitFree_of_point hafter

theorem withSuffix_append {suffix : List (List Char)} {number : List Char}
    (hsuffix : ∀ word ∈ suffix, word ∈ n.suffixes) (hfree : word (afterGap behind) ∉ n.suffixes) :
    withSuffix suffix number behind = none := by
  have hword : word (afterGap behind) ∉ suffix := fun hmem => hfree (hsuffix _ hmem)
  simp [withSuffix, hword]

theorem mem_suffixes {word : List Char} (h : word ∈ [['d'], ['D'], ['f'], ['F']]) :
    word ∈ n.suffixes := by
  unfold suffixes
  split
  · simp only [List.mem_append]
    left
    left
    exact List.mem_cons_of_mem _ (List.mem_cons_of_mem _ h)
  · exact h

theorem float_append (h : Stops isWordChar behind) (hfree : word (afterGap behind) ∉ n.suffixes) :
    float (n.text ++ behind)
      = if n.kind = .float ∧ startsWithF (afterGap behind) = false then some (n.text, behind)
        else none := by
  have hsuffix : withSuffix [['f'], ['F']] n.text behind = none :=
    withSuffix_append (fun _ hword => mem_suffixes (List.mem_append_right [['d'], ['D']] hword))
      hfree
  have hboundary : atBoundary behind = true := atBoundary_iff_stops.mpr h
  simp only [float, digits_append h, decimal_append h, hsuffix, hboundary, point_mem_text,
    List.isEmpty_iff, n.whole_ne_nil, if_false, Bool.and_true]
  rcases n.kind_cases with ⟨hfraction, hkind, -⟩ | ⟨hfraction, hkind, -⟩
  · simp [hfraction, hkind]
  · cases startsWithF (afterGap behind) <;> simp [hfraction, hkind]

theorem integer_append (h : Stops isWordChar behind) :
    integer (n.text ++ behind) = if n.kind = .float then none else some (n.text, behind) := by
  have hboundary : atBoundary behind = true := atBoundary_iff_stops.mpr h
  simp only [integer, digits_append h, afterDigits_append h,
    List.isEmpty_eq_false_iff.mpr n.whole_ne_nil]
  rcases n.kind_cases with ⟨hfraction, hkind, htext⟩ | ⟨hfraction, hkind, -⟩
  · simp [hfraction, hkind, htext, hboundary]
  · have hpoint : isWordChar '.' = true := by decide
    simp [hfraction, hkind, atBoundary, hpoint]

/-- A number with a word behind it that is none of its suffixes is read alone, unless it has a
fraction and the word begins with the suffix of a float. -/
theorem literal_append (h : Stops isWordChar behind)
    (hfree : word (afterGap behind) ∉ n.suffixes) :
    literal (n.text ++ behind)
      = if n.kind = .float ∧ startsWithF (afterGap behind) = true then none
        else some (n.kind, n.text, behind) := by
  have hdigits : digits (n.text ++ behind) ≠ [] := by
    rw [digits_append h]
    exact n.whole_ne_nil
  have hdouble : double (n.text ++ behind) = none := by
    have hnone : withSuffix [['d'], ['D']] n.text behind = none :=
      withSuffix_append (fun _ hword => mem_suffixes (List.mem_append_left [['f'], ['F']] hword))
        hfree
    simp [double, decimal_append h, hnone]
  rw [literal_of_unitFree hdigits (unitWord_append h hfree)]
  simp only [alternatives, List.drop, firstMatch, hdouble, float_append h hfree, integer_append h]
  rcases n.kind_cases with ⟨-, hkind, -⟩ | ⟨-, hkind, -⟩
  · simp [hkind]
  · cases startsWithF (afterGap behind) <;> simp [hkind]

end Numeral

end Token

/-- Behind a gap a word is found that begins as a name does. -/
theorem Token.word_behind_gap {space word rest : List Char} (hspace : space ≠ [])
    (hgap : ∀ c ∈ space, Token.isGap c = true) (hword : ∀ c ∈ word, Token.isWordChar c = true)
    (hne : word ≠ []) (hrest : Token.atBoundary rest = true) :
    Token.Stops Token.isWordChar (space ++ (word ++ rest)) ∧
      Token.afterGap (space ++ (word ++ rest)) = word ++ rest ∧
        Token.word (word ++ rest) = word := by
  obtain ⟨c, more, rfl⟩ := List.exists_cons_of_ne_nil hne
  obtain ⟨d, others, rfl⟩ := List.exists_cons_of_ne_nil hspace
  have hstop : Token.Stops Token.isGap (c :: more ++ rest) := by
    apply Token.stops_cons
    by_contra hcgap
    have hnot := Token.isWordChar_of_isGap (by simpa using hcgap)
    simp [hword c List.mem_cons_self] at hnot
  refine ⟨?_, Token.dropWhile_run hgap hstop, ?_⟩
  · exact Token.stops_cons (Token.isWordChar_of_isGap (hgap d List.mem_cons_self))
  · exact Token.takeWhile_run hword (Token.atBoundary_iff_stops.mp hrest)

theorem Token.startsWithF_append {word : List Char} (hne : word ≠ []) (rest : List Char) :
    Token.startsWithF (word ++ rest) = Token.startsWithF word := by
  obtain ⟨c, more, rfl⟩ := List.exists_cons_of_ne_nil hne
  rfl

/-- Reading a number behind which a gap and a word stand that is none of its suffixes: exactly the
number is read, whatever the word is and whatever follows it, unless the number has a fraction and
the word begins with `f` or `F`; then no literal begins here. -/
theorem Document.readLiteral_numeral (n : Token.Numeral) (space word rest : List Char)
    (hspace : space ≠ []) (hgap : ∀ c ∈ space, Token.isGap c = true)
    (hword : ∀ c ∈ word, Token.isWordChar c = true) (hne : word ≠ [])
    (hrest : Token.atBoundary rest = true) (hfree : word ∉ n.suffixes) (place : Text.Place) :
    Document.readLiteral ⟨n.text ++ space ++ word ++ rest, place⟩
      = if n.kind = .float ∧ Token.startsWithF word = true then
          .missing ⟨'.' :: (n.fraction ++ space ++ word ++ rest), place.afterAll n.whole⟩
        else
          .found (.literal ⟨n.kind, String.ofList n.text, .between place (place.afterAll n.text)⟩)
            ⟨space ++ word ++ rest, place.afterAll n.text⟩ := by
  obtain ⟨hbehind, hafter, hname⟩ := Token.word_behind_gap hspace hgap hword hne hrest
  have hfreeBehind : Token.word (Token.afterGap (space ++ (word ++ rest))) ∉ n.suffixes := by
    rw [hafter, hname]
    exact hfree
  have hliteral := Token.Numeral.literal_append hbehind hfreeBehind
  have hdigits : Token.digits (n.text ++ (space ++ (word ++ rest))) = n.whole :=
    Token.Numeral.digits_append hbehind
  have hquoted := (Token.literal_of_digits (hdigits.symm ▸ n.whole_ne_nil)).1
  have hassoc : n.text ++ space ++ word ++ rest = n.text ++ (space ++ (word ++ rest)) := by simp
  rw [hafter, Token.startsWithF_append hne] at hliteral
  rw [hassoc]
  unfold Document.readLiteral
  rw [hquoted, hliteral, hdigits, Token.Numeral.afterDigits_append hbehind]
  rcases n.kind_cases with ⟨-, hkind, -⟩ | ⟨hfraction, hkind, -⟩
  · simp [hkind, Cursor.past, Cursor.spanTo]
  · cases Token.startsWithF word <;> simp [hkind, hfraction, Cursor.past, Cursor.spanTo]

def oneAndAHalf : Token.Numeral :=
  ⟨['1'], ['5'], List.cons_ne_nil _ _, List.all_eq_true.mp rfl, List.all_eq_true.mp rfl⟩

theorem readLiteral_oneAndAHalf :
    Document.readLiteral ⟨"1.5 bar: 2".toList, .start⟩
        = .found (.literal ⟨.float, "1.5", ⟨0, 3, 1, 1⟩⟩) ⟨" bar: 2".toList, ⟨3, 1, 4⟩⟩ ∧
      Document.readLiteral ⟨"1.5 foo: 2".toList, .start⟩
        = .missing ⟨".5 foo: 2".toList, ⟨1, 1, 2⟩⟩ :=
  ⟨(Document.readLiteral_numeral oneAndAHalf [' '] "bar".toList ": 2".toList
      (List.cons_ne_nil _ _) (List.all_eq_true.mp rfl) (List.all_eq_true.mp rfl)
      (List.cons_ne_nil _ _) rfl (by decide) .start).trans rfl,
    (Document.readLiteral_numeral oneAndAHalf [' '] "foo".toList ": 2".toList
      (List.cons_ne_nil _ _) (List.all_eq_true.mp rfl) (List.all_eq_true.mp rfl)
      (List.cons_ne_nil _ _) rfl (by decide) .start).trans rfl⟩

end TypedConfig
