import TypedConfig.Proofs.Document.Ending

/-!
The order of the lexical kinds.  They are tried one after another and the first that matches is
taken.  That is the one that reads furthest: where two kinds match the same text, the one that is
tried first takes more of it than the other.  So the order hides no longer reading, and no two
readings of a text are of the same length.
-/

namespace TypedConfig

namespace Token

/-- Where both kinds match the text, the first takes more of it. -/
def TakesMore (text : List Char) (first second : LiteralKind × Recogniser) : Prop :=
  ∀ cut other, first.2 text = some cut → second.2 text = some other →
    other.1.length < cut.1.length

/-- A kind matches the text with this token, and no kind matches it with a longer one. -/
structure Longest (text : List Char) (kind : LiteralKind) (token rest : List Char) : Prop where
  found : ∃ recognise, (kind, recognise) ∈ alternatives ∧ recognise text = some (token, rest)
  longest : ∀ entry ∈ alternatives, ∀ cut, entry.2 text = some cut → cut.1.length ≤ token.length

section Order

variable {text token rest : List Char} {kind : LiteralKind}

theorem takesMore_of_misses {first second : LiteralKind × Recogniser}
    (h : ∀ other, second.2 text = some other → first.2 text = none) :
    TakesMore text first second := by
  intro cut other hcut hother
  rw [h other hother] at hcut
  cases hcut

/-- In such an order everything that matches beside the first match takes less of the text. -/
theorem firstMatch_takesMore {among : List (LiteralKind × Recogniser)}
    (hordered : among.Pairwise (TakesMore text))
    (h : firstMatch text among = some (kind, token, rest)) :
    ∀ entry ∈ among, ∀ cut, entry.2 text = some cut →
      entry.1 = kind ∧ cut = (token, rest) ∨ cut.1.length < token.length := by
  induction among with
  | nil => exact List.forall_mem_nil _
  | cons first more ih =>
      obtain ⟨hfirst, hmore⟩ := List.pairwise_cons.mp hordered
      simp only [firstMatch] at h
      split at h
      · rename_i found behind hfound
        cases h
        refine List.forall_mem_cons.mpr ⟨?_, ?_⟩
        · intro cut hcut
          rw [hfound] at hcut
          cases hcut
          exact .inl ⟨rfl, rfl⟩
        · intro entry hentry cut hcut
          exact .inr (hfirst entry hentry _ _ hfound hcut)
      · rename_i hnone
        refine List.forall_mem_cons.mpr ⟨?_, ih hmore h⟩
        intro cut hcut
        rw [hnone] at hcut
        cases hcut

end Order

section Lengths

variable {text token left : List Char}

theorem length_digits_le (text : List Char) : (digits text).length ≤ (decimal text).1.length := by
  rcases decimal_cases text with hplain | ⟨fraction, rest, -, -, -, -, hdecimal⟩
  · rw [hplain]
  · rw [hdecimal, List.length_append]
    exact Nat.le_add_right _ _

/-- A fraction makes the number longer than its digits. -/
theorem length_digits_lt (h : (decimal text).1.contains '.' = true) :
    (digits text).length < (decimal text).1.length := by
  rcases decimal_cases text with hplain | ⟨fraction, rest, -, -, -, -, hdecimal⟩
  · rw [hplain] at h
    exact absurd (by simpa using h) (not_point_mem_digits text)
  · rw [hdecimal, List.length_append, List.length_cons]
    exact Nat.lt_add_of_pos_right (Nat.succ_pos _)

/-- A suffix makes a number longer. -/
theorem withSuffix_length {suffixes : List (List Char)} {number rest : List Char}
    (hproper : [] ∉ suffixes) (h : withSuffix suffixes number rest = some (token, left)) :
    number.length < token.length := by
  have hword : word (afterGap rest) ≠ [] := fun hnil => hproper (hnil ▸ withSuffix_word h)
  have hpos := List.length_pos_iff.mpr hword
  simp only [withSuffix, Option.ite_none_right_eq_some, Option.some.injEq, Prod.mk.injEq] at h
  obtain ⟨-, rfl, -⟩ := h
  simp only [List.length_append]
  omega

theorem amountWithUnit_length {unit : TimeUnit}
    (h : amountWithUnit text = some (unit, token, left)) :
    (digits text).length < token.length := by
  simp only [amountWithUnit, Option.ite_none_left_eq_some, Option.map_eq_some_iff, Prod.mk.injEq,
    Bool.or_eq_true, List.isEmpty_iff, not_or] at h
  obtain ⟨⟨-, hspace⟩, -, -, -, rfl, -⟩ := h
  have hpos := List.length_pos_iff.mpr hspace
  simp only [List.length_append]
  omega

theorem amountsIn_length {units : List TimeUnit} (h : amountsIn units text = some (token, left)) :
    (digits text).length < token.length := by
  induction units with
  | nil => cases h
  | cons unit smaller ih =>
      cases amounts_of_amountsIn h with
      | skips _ hsmaller => exact ih hsmaller
      | last hamount _ => exact amountWithUnit_length hamount
      | goesOn hamount _ _ _ =>
          have hfirst := amountWithUnit_length hamount
          simp only [List.length_append]
          omega

theorem size_length (h : size text = some (token, left)) :
    (digits text).length < token.length := by
  simp only [size, Option.ite_none_left_eq_some] at h
  exact withSuffix_length (by decide) h.2

theorem long_length (h : long text = some (token, left)) :
    (digits text).length < token.length := by
  simp only [long, Option.ite_none_left_eq_some] at h
  exact withSuffix_length (by decide) h.2

theorem double_length (h : double text = some (token, left)) :
    (decimal text).1.length < token.length := by
  simp only [double, Option.ite_none_left_eq_some] at h
  exact withSuffix_length (by decide) h.2

/-- A float has a suffix or a fraction behind its digits. -/
theorem float_length (h : float text = some (token, left)) :
    (digits text).length < token.length := by
  unfold float at h
  simp only at h
  split at h
  · cases h
  · split at h
    · exact (length_digits_le text).trans_lt (withSuffix_length (by decide) h)
    · simp only [Option.ite_none_right_eq_some, Option.some.injEq, Prod.mk.injEq,
        Bool.and_eq_true] at h
      obtain ⟨⟨hpoint, -⟩, rfl, -⟩ := h
      exact length_digits_lt hpoint

/-- A float in front of the suffix of a double is the number without it. -/
theorem float_of_double {cut : List Char × List Char} (hdouble : double text = some cut)
    (h : float text = some (token, left)) : token = (decimal text).1 := by
  rcases (float_suffix h).2 with hsuffix | ⟨-, hcut⟩
  · have hother : ∀ suffix ∈ [['d'], ['D']], suffix ∉ [['f'], ['F']] := by decide
    exact absurd hsuffix (hother _ (double_suffix hdouble).2)
  · rw [← hcut]

theorem integer_token (h : integer text = some (token, left)) : token = digits text := by
  simp only [integer, Option.ite_none_left_eq_some, Option.some.injEq, Prod.mk.injEq] at h
  exact h.2.1.symm

end Lengths

section Alternatives

variable {text token rest : List Char} {kind : LiteralKind}

/-- The numbers and the durations in words begin with a digit. -/
theorem digits_of_mem : ∀ entry ∈ alternatives.drop 3, ∀ cut, entry.2 text = some cut →
    digits text ≠ [] := by
  simp only [alternatives, List.drop, List.forall_mem_cons]
  refine ⟨fun _ => simpleDuration_digits, fun _ h => (size_unit h).1, fun _ h => (long_unit h).1,
    fun _ h => (double_suffix h).1, fun _ h => (float_suffix h).1, ?_, List.forall_mem_nil _⟩
  rintro ⟨token, left⟩ h hdigits
  simp [integer, hdigits] at h

/-- An integer is its digits, so everything that is longer than them takes more. -/
theorem takesMore_integer {first : LiteralKind × Recogniser}
    (h : ∀ token left, first.2 text = some (token, left) →
      (digits text).length < token.length) : TakesMore text first (.integer, integer) := by
  rintro ⟨token, left⟩ ⟨other, behind⟩ hfirst hinteger
  rw [integer_token hinteger]
  exact h token left hfirst

theorem double_takesMore_float (text : List Char) :
    TakesMore text (.double, double) (.float, float) := by
  rintro ⟨token, left⟩ ⟨other, behind⟩ hdouble hfloat
  rw [float_of_double hdouble hfloat]
  exact double_length hdouble

/-- Of the numbers and the durations in words at most one has its unit or its suffix behind the same
digits.  Beside it only the number without a suffix can match, which is shorter. -/
theorem numbers_takesMore (text : List Char) :
    (alternatives.drop 3).Pairwise (TakesMore text) := by
  have hduration : ∀ later ∈ alternatives.drop 4,
      TakesMore text (.duration .simple, simpleDuration) later := by
    simp only [alternatives, List.drop, List.forall_mem_cons]
    exact ⟨takesMore_of_misses fun _ => simpleDuration_of_size,
      takesMore_of_misses fun _ h => (simpleDuration_size_of_long h).1,
      takesMore_of_misses fun _ h => simpleDuration_eq_none (unitFree_of_double h).time,
      takesMore_of_misses fun _ h => simpleDuration_eq_none (unitFree_of_float h).time,
      takesMore_integer fun _ _ => amountsIn_length, List.forall_mem_nil _⟩
  have hsize : ∀ later ∈ alternatives.drop 5, TakesMore text (.size, size) later := by
    simp only [alternatives, List.drop, List.forall_mem_cons]
    exact ⟨takesMore_of_misses fun _ h => (simpleDuration_size_of_long h).2,
      takesMore_of_misses fun _ h => size_eq_none (unitFree_of_double h).size,
      takesMore_of_misses fun _ h => size_eq_none (unitFree_of_float h).size,
      takesMore_integer fun _ _ => size_length, List.forall_mem_nil _⟩
  have hlong : ∀ later ∈ alternatives.drop 6, TakesMore text (.long, long) later := by
    simp only [alternatives, List.drop, List.forall_mem_cons]
    exact ⟨takesMore_of_misses fun _ h => long_eq_none (unitFree_of_double h).long,
      takesMore_of_misses fun _ h => long_eq_none (unitFree_of_float h).long,
      takesMore_integer fun _ _ => long_length, List.forall_mem_nil _⟩
  have hdouble : ∀ later ∈ alternatives.drop 7, TakesMore text (.double, double) later := by
    simp only [alternatives, List.drop, List.forall_mem_cons]
    exact ⟨double_takesMore_float text,
      takesMore_integer fun _ _ h => (length_digits_le text).trans_lt (double_length h),
      List.forall_mem_nil _⟩
  have hfloat : ∀ later ∈ alternatives.drop 8, TakesMore text (.float, float) later := by
    simp only [alternatives, List.drop, List.forall_mem_cons]
    exact ⟨takesMore_integer fun _ _ => float_length, List.forall_mem_nil _⟩
  exact .cons hduration (.cons hsize (.cons hlong (.cons hdouble (.cons hfloat
    (.cons (List.forall_mem_nil _) .nil)))))

/-- Of all kinds that match a text the one that is tried first takes the most of it. -/
theorem alternatives_takesMore (text : List Char) : alternatives.Pairwise (TakesMore text) := by
  have hstring : ∀ later ∈ alternatives.drop 1, TakesMore text (.string, string) later := by
    intro later hlater
    apply takesMore_of_misses
    intro cut hcut
    exact string_eq_none (plain_of_mem later hlater text cut.1 cut.2 hcut).1
  have hiso : ∀ later ∈ alternatives.drop 2,
      TakesMore text (.duration .iso8601, isoDuration) later := by
    refine List.forall_mem_cons.mpr ⟨takesMore_of_misses fun _ => isoDuration_of_boolean, ?_⟩
    intro later hlater
    apply takesMore_of_misses
    intro cut hcut
    exact isoDuration_of_digits (digits_of_mem later hlater cut hcut)
  have hboolean : ∀ later ∈ alternatives.drop 3, TakesMore text (.boolean, boolean) later := by
    intro later hlater
    apply takesMore_of_misses
    intro cut hcut
    exact boolean_eq_none (digits_of_mem later hlater cut hcut)
  exact .cons hstring (.cons hiso (.cons hboolean (numbers_takesMore text)))

/-- The literal at the front of a text is the longest one that is there. -/
theorem literal_eq_some_iff :
    literal text = some (kind, token, rest) ↔ Longest text kind token rest := by
  constructor
  · intro h
    refine ⟨firstMatch_mem h, ?_⟩
    intro entry hentry cut hcut
    rcases firstMatch_takesMore (alternatives_takesMore text) h entry hentry cut hcut with
      ⟨-, rfl⟩ | hless
    · exact le_rfl
    · exact hless.le
  · rintro ⟨⟨recognise, hmem, hfound⟩, hlongest⟩
    cases hliteral : literal text with
    | none =>
        cases hfound.symm.trans (firstMatch_eq_none hliteral _ hmem)
    | some found =>
        obtain ⟨other, taken, left⟩ := found
        obtain ⟨first, hfirst, htaken⟩ := firstMatch_mem hliteral
        have hle := hlongest _ hfirst _ htaken
        rcases firstMatch_takesMore (alternatives_takesMore text) hliteral _ hmem _ hfound with
          ⟨rfl, hcut⟩ | hless
        · cases hcut
          rfl
        · exact absurd hless (Nat.not_lt.mpr hle)

/-- What is no string ends where a word ends. -/
theorem Longest.stops (h : Longest text kind token rest) (hkind : kind ≠ .string) :
    Stops isWordChar rest := by
  obtain ⟨recognise, hmem, hfound⟩ := h.found
  rcases List.mem_cons.mp hmem with hstring | hplain
  · exact absurd (congrArg Prod.fst hstring) hkind
  · exact (plain_of_mem _ hplain _ _ _ hfound).2

end Alternatives

end Token

/-- Two lexical kinds that match the same text take different lengths of it, and what is read there
is the literal of the kind that takes the most.  Unless this is a string, no word goes on behind it.
-/
theorem Document.readLiteral_longest (text : List Char) (place : Text.Place) :
    Token.alternatives.Pairwise (fun first second => ∀ cut other, first.2 text = some cut →
      second.2 text = some other → cut.1.length ≠ other.1.length) ∧
    ∀ kind token rest,
      (Token.Longest text kind token rest ↔
        Document.readLiteral ⟨text, place⟩
          = .found (.literal ⟨kind, String.ofList token, .between place (place.afterAll token)⟩)
              ⟨rest, place.afterAll token⟩) ∧
      (Token.Longest text kind token rest → token ++ rest = text ∧
        (kind ≠ .string → ∀ c ∈ rest.head?, Token.isWordChar c = false)) := by
  refine ⟨?_, fun kind token rest => ⟨⟨?_, ?_⟩, ?_⟩⟩
  · apply (Token.alternatives_takesMore text).imp
    intro first second htakes cut other hcut hother
    exact (htakes cut other hcut hother).ne'
  · intro h
    exact readLiteral_of_literal (Token.literal_eq_some_iff.mpr h)
  · intro h
    obtain ⟨found, taken, left, hliteral, hnext, hnode⟩ := readLiteral_found h
    have hrest : rest = left := congrArg Cursor.rest hnext
    simp only [Node.literal.injEq, Literal.mk.injEq, String.ofList_inj] at hnode
    obtain ⟨rfl, rfl, -⟩ := hnode
    rw [hrest]
    exact Token.literal_eq_some_iff.mp hliteral
  · intro h
    have hliteral := Token.literal_eq_some_iff.mpr h
    exact ⟨Token.literal_append hliteral, h.stops⟩

/-- A double with a fraction, which is a float too if its suffix is left out. -/
theorem oneAndAHalf_longest :
    Token.float "1.5 d, 2".toList = some ("1.5".toList, " d, 2".toList) ∧
      Token.double "1.5 d, 2".toList = some ("1.5 d".toList, ", 2".toList) ∧
      Token.Longest "1.5 d, 2".toList .double "1.5 d".toList ", 2".toList ∧
      Token.isWordChar ',' = false := by
  have hread : Document.readLiteral ⟨"1.5 d, 2".toList, .start⟩
      = .found (.literal ⟨.double, "1.5 d", ⟨0, 5, 1, 1⟩⟩) ⟨", 2".toList, ⟨5, 1, 6⟩⟩ := by
    rfl
  obtain ⟨hlongest, hbehind⟩ := (Document.readLiteral_longest "1.5 d, 2".toList .start).2 .double
    "1.5 d".toList ", 2".toList
  have hdouble := hlongest.mpr hread
  exact ⟨by decide, by decide, hdouble, (hbehind hdouble).2 (by decide) ',' rfl⟩

end TypedConfig
