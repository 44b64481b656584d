import TypedConfig.Proofs.Token.Number

/-!
Whole tokens.  A text that one lexical kind takes as a whole is of no other kind, and behind it an
edge is enough for the text that follows to change nothing.
-/

namespace TypedConfig.Token

/-- The text is one whole token of a lexical kind. -/
def IsToken (kind : LiteralKind) (token : List Char) : Prop :=
  ∃ recognise, (kind, recognise) ∈ alternatives ∧ recognise token = some (token, [])

section Whole

variable {text : List Char} {cut : List Char × List Char}

theorem isoDuration_head (h : isoDuration text = some cut) : 'P' ∈ text.head? := by
  unfold isoDuration at h
  split at h
  · rename_i more hword
    rw [← word_append_afterWord text, hword]
    rfl
  · cases h

theorem boolean_head (h : boolean text = some cut) : ∃ c ∈ text.head?, c ≠ '"' ∧ c ≠ 'P' := by
  have hwords : ∀ word ∈ booleanWords, word.head?.any (fun c => c != '"' && c != 'P') = true := by
    decide
  unfold boolean at h
  split at h
  · rename_i hmem
    have hhead := hwords (word text) (by simpa using hmem)
    cases hword : word text with
    | nil => simp [hword] at hhead
    | cons c more =>
        rw [← word_append_afterWord text, hword]
        exact ⟨c, rfl, by simpa [hword] using hhead⟩
  · cases h

theorem withSuffix_word {suffixes : List (List Char)} {number rest : List Char}
    (h : withSuffix suffixes number rest = some cut) : word (afterGap rest) ∈ suffixes := by
  simp only [withSuffix, Option.ite_none_right_eq_some] at h
  simpa using h.1

theorem withSuffix_of_digits {suffixes : List (List Char)} {number rest : List Char}
    (h : (if (digits text).isEmpty then none else withSuffix suffixes number rest) = some cut) :
    digits text ≠ [] ∧ word (afterGap rest) ∈ suffixes := by
  simp only [Option.ite_none_left_eq_some] at h
  exact ⟨by simpa using h.1, withSuffix_word h.2⟩

theorem simpleDuration_digits (h : simpleDuration text = some cut) : digits text ≠ [] := by
  intro hdigits
  have hnone : amountWithUnit text = none := by simp [amountWithUnit, hdigits]
  have := amountsIn_eq_none hnone TimeUnit.all
  simp [simpleDuration, this] at h

theorem size_unit (h : size text = some cut) : digits text ≠ [] ∧ unitWord text ∈ sizeUnits :=
  withSuffix_of_digits h

theorem long_unit (h : long text = some cut) :
    digits text ≠ [] ∧ unitWord text ∈ [['l'], ['L']] :=
  withSuffix_of_digits h

theorem double_suffix (h : double text = some cut) :
    digits text ≠ [] ∧ suffixWord text ∈ [['d'], ['D']] :=
  withSuffix_of_digits h

/-- A float has its suffix, or a fraction and a boundary behind it. -/
theorem float_suffix (h : float text = some cut) :
    digits text ≠ [] ∧ (suffixWord text ∈ [['f'], ['F']] ∨
      (decimal text).1.contains '.' = true ∧ cut = decimal text) := by
  unfold float at h
  simp only at h
  split at h
  · cases h
  · rename_i hdigits
    refine ⟨by simpa using hdigits, ?_⟩
    split at h
    · exact .inl (withSuffix_word h)
    · split at h
      · rename_i hpoint
        cases h
        exact .inr ⟨(Bool.and_eq_true_iff.mp hpoint).1, rfl⟩
      · cases h

theorem isoDuration_of_boolean (h : boolean text = some cut) : isoDuration text = none := by
  obtain ⟨c, hc, -, hother⟩ := boolean_head h
  apply isoDuration_eq_none
  intro d hd
  rw [hc] at hd
  cases hd
  exact hother

theorem simpleDuration_of_size (h : size text = some cut) : simpleDuration text = none := by
  have htime : ∀ unit ∈ sizeUnits, TimeUnit.ofWord? unit = none := by decide
  exact simpleDuration_eq_none (htime _ (size_unit h).2)

theorem simpleDuration_size_of_long (h : long text = some cut) :
    simpleDuration text = none ∧ size text = none := by
  have hother : ∀ unit ∈ [['l'], ['L']],
      TimeUnit.ofWord? unit = none ∧ sizeUnits.contains unit = false := by decide
  obtain ⟨htime, hsize⟩ := hother _ (long_unit h).2
  exact ⟨simpleDuration_eq_none htime, size_eq_none hsize⟩

theorem unitFree_of_mem {suffix : List Char}
    (h : suffix ∈ [['d'], ['D']] ∨ suffix ∈ [['f'], ['F']]) : UnitFree suffix := by
  have hall : ∀ suffix ∈ [['d'], ['D'], ['f'], ['F']], TimeUnit.ofWord? suffix = none ∧
      sizeUnits.contains suffix = false ∧ [['l'], ['L']].contains suffix = false := by decide
  have hmem : suffix ∈ [['d'], ['D'], ['f'], ['F']] := by
    rcases h with h | h
    · exact List.mem_append_left [['f'], ['F']] h
    · exact List.mem_append_right [['d'], ['D']] h
  obtain ⟨htime, hsize, hlong⟩ := hall suffix hmem
  exact ⟨htime, hsize, hlong⟩

theorem unitFree_of_double (h : double text = some cut) : UnitFree (unitWord text) :=
  unitFree_of_suffixWord (unitFree_of_mem (.inl (double_suffix h).2))

/-- Behind the digits of a float stands its suffix or its point. -/
theorem unitFree_of_float (h : float text = some cut) : UnitFree (unitWord text) := by
  rcases (float_suffix h).2 with hsuffix | ⟨hpoint, -⟩
  · exact unitFree_of_suffixWord (unitFree_of_mem (.inr hsuffix))
  · rcases decimal_plain_or_unitFree text with hplain | hfree
    · rw [hplain] at hpoint
      exact absurd (by simpa using hpoint) (not_point_mem_digits text)
    · exact hfree

/-- A text that is a float as a whole is no double. -/
theorem double_of_float (h : float text = some (text, [])) : double text = none := by
  rcases (float_suffix h).2 with hsuffix | ⟨-, hcut⟩
  · have hother : ∀ suffix ∈ [['f'], ['F']], [['d'], ['D']].contains suffix = false := by decide
    exact double_eq_none (hother _ hsuffix)
  · have hword : suffixWord text = [] := by simp [suffixWord, ← hcut, afterGap, word]
    apply double_eq_none
    rw [hword]
    decide

/-- A text that is an integer as a whole is no other number, and no unit stands behind it. -/
theorem integer_unitFree (h : integer text = some (text, [])) :
    digits text ≠ [] ∧ UnitFree (unitWord text) ∧ double text = none ∧ float text = none := by
  simp only [integer, Option.ite_none_left_eq_some, Option.some.injEq, Prod.mk.injEq,
    Bool.or_eq_true, List.isEmpty_iff, not_or] at h
  obtain ⟨⟨hdigits, -⟩, -, hafter⟩ := h
  have hplain : decimal text = (digits text, []) := by simp [decimal, hafter]
  have hunit : unitWord text = [] := by simp [unitWord, hafter, afterGap, word]
  have hsuffix : suffixWord text = [] := by simp [suffixWord, hplain, afterGap, word]
  refine ⟨hdigits, hunit ▸ unitFree_nil, double_eq_none ?_, ?_⟩
  · rw [hsuffix]
    decide
  · simp [float, hplain, afterGap, startsWithF, not_point_mem_digits text]

/-- A whole token is a string, or it opens none and is of the kind whose recogniser takes it: the
recognisers tried before take nothing. -/
theorem IsToken.literal_eq {kind : LiteralKind} (h : IsToken kind text) :
    (kind = .string ∧ quoted text = .closed text []) ∨
      (quoted text = .absent ∧ literal text = some (kind, text, [])) := by
  obtain ⟨recognise, hmem, htoken⟩ := h
  simp only [alternatives, List.mem_cons, Prod.mk.injEq, List.not_mem_nil, or_false] at hmem
  rcases hmem with ⟨rfl, rfl⟩ | ⟨rfl, rfl⟩ | ⟨rfl, rfl⟩ | ⟨rfl, rfl⟩ | ⟨rfl, rfl⟩ | ⟨rfl, rfl⟩ |
    ⟨rfl, rfl⟩ | ⟨rfl, rfl⟩ | ⟨rfl, rfl⟩
  · exact .inl ⟨rfl, quoted_of_string htoken⟩
  all_goals right
  · have hquote : quoted text = .absent :=
      quoted_eq_absent_of_head (isoDuration_head htoken) (by decide)
    refine ⟨hquote, ?_⟩
    simp [literal, alternatives, firstMatch, string_eq_none hquote, htoken]
  · obtain ⟨c, hc, hquoteMark, -⟩ := boolean_head htoken
    have hquote : quoted text = .absent := quoted_eq_absent_of_head hc hquoteMark
    refine ⟨hquote, ?_⟩
    simp [literal, alternatives, firstMatch, string_eq_none hquote, isoDuration_of_boolean htoken,
      htoken]
  · obtain ⟨hquote, hliteral⟩ := literal_of_digits (simpleDuration_digits htoken)
    rw [hliteral]
    exact ⟨hquote, by simp [alternatives, firstMatch, htoken]⟩
  · obtain ⟨hquote, hliteral⟩ := literal_of_digits (size_unit htoken).1
    rw [hliteral]
    exact ⟨hquote, by simp [alternatives, firstMatch, simpleDuration_of_size htoken, htoken]⟩
  · obtain ⟨hquote, hliteral⟩ := literal_of_digits (long_unit htoken).1
    obtain ⟨hduration, hsize⟩ := simpleDuration_size_of_long htoken
    rw [hliteral]
    exact ⟨hquote, by simp [alternatives, firstMatch, hduration, hsize, htoken]⟩
  · have hdigits := (double_suffix htoken).1
    rw [literal_of_unitFree hdigits (unitFree_of_double htoken)]
    exact ⟨(literal_of_digits hdigits).1, by simp [alternatives, firstMatch, htoken]⟩
  · have hdigits := (float_suffix htoken).1
    rw [literal_of_unitFree hdigits (unitFree_of_float htoken)]
    exact ⟨(literal_of_digits hdigits).1,
      by simp [alternatives, firstMatch, double_of_float htoken, htoken]⟩
  · obtain ⟨hdigits, hfree, hdouble, hfloat⟩ := integer_unitFree htoken
    rw [literal_of_unitFree hdigits hfree]
    exact ⟨(literal_of_digits hdigits).1,
      by simp [alternatives, firstMatch, hdouble, hfloat, htoken]⟩

theorem firstMatch_mem {among : List (LiteralKind × Recogniser)} {kind : LiteralKind}
    (h : firstMatch text among = some (kind, cut)) :
    ∃ recognise, (kind, recognise) ∈ among ∧ recognise text = some cut := by
  induction among with
  | nil => cases h
  | cons entry more ih =>
      simp only [firstMatch] at h
      split at h
      · rename_i token rest hfound
        cases h
        exact ⟨entry.2, List.mem_cons_self, hfound⟩
      · obtain ⟨recognise, hmem, hfound⟩ := ih h
        exact ⟨recognise, List.mem_cons_of_mem _ hmem, hfound⟩

theorem firstMatch_eq_none {among : List (LiteralKind × Recogniser)}
    (h : firstMatch text among = none) : ∀ entry ∈ among, entry.2 text = none := by
  induction among with
  | nil => exact List.forall_mem_nil _
  | cons entry more ih =>
      simp only [firstMatch] at h
      split at h
      · cases h
      · rename_i hnone
        exact List.forall_mem_cons.mpr ⟨hnone, ih h⟩

/-- The text begins with a quote or with a word, as every literal does. -/
def Opens (text : List Char) : Prop :=
  ∃ c more, text = c :: more ∧ (c = '"' ∨ isWordChar c = true)

theorem Opens.append (h : Opens text) (rest : List Char) : Opens (text ++ rest) := by
  obtain ⟨c, more, rfl, hc⟩ := h
  exact ⟨c, more ++ rest, rfl, hc⟩

theorem Opens.ne_nil (h : Opens text) : text ≠ [] := by
  obtain ⟨c, more, rfl, -⟩ := h
  exact List.cons_ne_nil _ _

theorem opens_digits (h : digits text ≠ []) : Opens (digits text) := by
  obtain ⟨c, more, rfl, hdigit⟩ := exists_digit h
  refine ⟨c, digits more, ?_, .inr (isWordChar_of_isDigit hdigit)⟩
  simp [digits, hdigit]

theorem opens_decimal (h : digits text ≠ []) : Opens (decimal text).1 := by
  rcases decimal_cases text with hplain | ⟨fraction, rest, -, -, -, -, hdecimal⟩
  · rw [hplain]
    exact opens_digits h
  · rw [hdecimal]
    exact (opens_digits h).append _

theorem opens_withSuffix {suffixes : List (List Char)} {number rest token left : List Char}
    (hnumber : Opens number) (h : withSuffix suffixes number rest = some (token, left)) :
    Opens token := by
  simp only [withSuffix, Option.ite_none_right_eq_some, Option.some.injEq, Prod.mk.injEq] at h
  obtain ⟨-, rfl, -⟩ := h
  exact (hnumber.append _).append _

theorem opens_withSuffix_of_digits {suffixes : List (List Char)}
    {number rest token left : List Char}
    (hnumber : digits text ≠ [] → Opens number)
    (h : (if (digits text).isEmpty then none else withSuffix suffixes number rest)
      = some (token, left)) : Opens token := by
  simp only [Option.ite_none_left_eq_some] at h
  exact opens_withSuffix (hnumber (by simpa using h.1)) h.2

theorem opens_amountWithUnit {unit : TimeUnit} {token left : List Char}
    (h : amountWithUnit text = some (unit, token, left)) : Opens token := by
  simp only [amountWithUnit, Option.ite_none_left_eq_some, Option.map_eq_some_iff,
    Prod.mk.injEq, Bool.or_eq_true, List.isEmpty_iff, not_or] at h
  obtain ⟨⟨hdigits, -⟩, -, -, -, rfl, -⟩ := h
  exact ((opens_digits hdigits).append _).append _

theorem opens_amountsIn {units : List TimeUnit} {token left : List Char}
    (h : amountsIn units text = some (token, left)) : Opens token := by
  induction units with
  | nil => cases h
  | cons unit smaller ih =>
      unfold amountsIn at h
      split at h
      · rename_i found amount rest hamount
        have hopens := opens_amountWithUnit hamount
        split at h
        · split at h
          · cases h
            exact hopens
          · split at h
            · cases h
              exact (hopens.append _).append _
            · cases h
              exact hopens
        · exact ih h
      · cases h

theorem opens_string {token left : List Char} (h : string text = some (token, left)) :
    Opens token := by
  have hquoted := quoted_of_string h
  unfold quoted at hquoted
  split at hquoted
  · obtain ⟨inner, -, rfl⟩ := Quoted.consume_eq_closed.mp hquoted
    exact ⟨'"', inner, rfl, .inl rfl⟩
  · cases hquoted

theorem opens_isoDuration {token left : List Char} (h : isoDuration text = some (token, left)) :
    Opens token := by
  unfold isoDuration at h
  split at h
  · simp only [Option.ite_none_right_eq_some, Option.some.injEq, Prod.mk.injEq] at h
    obtain ⟨-, rfl, -⟩ := h
    exact ⟨'P', _, rfl, .inr (by decide)⟩
  · cases h

theorem opens_boolean {token left : List Char} (h : boolean text = some (token, left)) :
    Opens token := by
  simp only [boolean, Option.ite_none_right_eq_some, Option.some.injEq, Prod.mk.injEq] at h
  obtain ⟨hword, rfl, -⟩ := h
  cases htext : word text with
  | nil =>
      rw [htext] at hword
      exact absurd hword (by decide)
  | cons c more =>
      have hmem : c ∈ word text := by simp [htext]
      exact ⟨c, more, rfl, .inr (List.mem_takeWhile_imp hmem)⟩

/-- A literal begins with a quote or with a word. -/
theorem opens_literal {kind : LiteralKind} {token left : List Char}
    (h : literal text = some (kind, token, left)) : Opens token := by
  obtain ⟨recognise, hmem, hfound⟩ := firstMatch_mem h
  simp only [alternatives, List.mem_cons, Prod.mk.injEq, List.not_mem_nil, or_false] at hmem
  rcases hmem with ⟨-, rfl⟩ | ⟨-, rfl⟩ | ⟨-, rfl⟩ | ⟨-, rfl⟩ | ⟨-, rfl⟩ | ⟨-, rfl⟩ | ⟨-, rfl⟩ |
    ⟨-, rfl⟩ | ⟨-, rfl⟩
  · exact opens_string hfound
  · exact opens_isoDuration hfound
  · exact opens_boolean hfound
  · exact opens_amountsIn hfound
  · exact opens_withSuffix_of_digits opens_digits hfound
  · exact opens_withSuffix_of_digits opens_digits hfound
  · exact opens_withSuffix_of_digits opens_decimal hfound
  · have hdigits := (float_suffix hfound).1
    have hopens := opens_decimal hdigits
    simp only [float, List.isEmpty_iff, hdigits, if_false] at hfound
    split at hfound
    · exact opens_withSuffix hopens hfound
    · simp only [Option.ite_none_right_eq_some, Option.some.injEq, Prod.mk.injEq] at hfound
      exact hfound.2.1 ▸ hopens
  · simp only [integer, Option.ite_none_left_eq_some, Option.some.injEq, Prod.mk.injEq,
      Bool.or_eq_true, List.isEmpty_iff, not_or] at hfound
    exact hfound.2.1 ▸ opens_digits hfound.1.1

theorem IsToken.opens {kind : LiteralKind} (h : IsToken kind text) : Opens text := by
  rcases h.literal_eq with ⟨-, hclosed⟩ | ⟨-, hliteral⟩
  · exact opens_string (string_of_quoted hclosed)
  · exact opens_literal hliteral

end Whole

section Following

variable {front rest : List Char}

theorem firstMatch_append {among : List (LiteralKind × Recogniser)} (hedge : AtEdge rest)
    (hlocal : ∀ entry ∈ among, Local entry.2) :
    firstMatch (front ++ rest) among
      = (firstMatch front among).map fun cut => (cut.1, withRest rest cut.2) := by
  induction among with
  | nil => rfl
  | cons entry more ih =>
      have hmore := ih fun other hother => hlocal other (List.mem_cons_of_mem _ hother)
      simp only [firstMatch]
      rw [hlocal entry List.mem_cons_self hedge]
      cases entry.2 front with
      | none => exact hmore
      | some cut => rfl

theorem alternatives_local : ∀ entry ∈ alternatives.drop 1, Local entry.2 := by
  simp only [alternatives, List.drop, List.forall_mem_cons]
  exact ⟨isoDuration_bounded.isLocal, boolean_bounded.isLocal, amountsIn_local TimeUnit.all,
    size_local, long_local, double_local, float_local, integer_bounded.isLocal,
    List.forall_mem_nil _⟩

/-- Text at an edge changes nothing in how a text is read that opens no string. -/
theorem literal_append_of_edge (hedge : AtEdge rest) (hne : front ≠ [])
    (h : quoted front = .absent) :
    literal (front ++ rest) = (literal front).map fun cut => (cut.1, withRest rest cut.2) := by
  have hquote : quoted (front ++ rest) = .absent := quoted_append_of_absent hne h
  have hfront : literal front = firstMatch front (alternatives.drop 1) := by
    simp [literal, alternatives, firstMatch, string_eq_none h]
  have happend : literal (front ++ rest) = firstMatch (front ++ rest) (alternatives.drop 1) := by
    simp [literal, alternatives, firstMatch, string_eq_none hquote]
  rw [happend, firstMatch_append hedge alternatives_local, hfront]

end Following

end TypedConfig.Token

namespace TypedConfig

/-- A whole token in front of an edge is read as a literal of its kind, and nothing behind it is. -/
theorem Document.readLiteral_token {kind : LiteralKind} {token rest : List Char}
    (htoken : Token.IsToken kind token) (hedge : Token.AtEdge rest) (place : Text.Place) :
    Document.readLiteral ⟨token ++ rest, place⟩
      = .found (.literal ⟨kind, String.ofList token, .between place (place.afterAll token)⟩)
          ⟨rest, place.afterAll token⟩ := by
  unfold Document.readLiteral
  rcases htoken.literal_eq with ⟨rfl, hclosed⟩ | ⟨habsent, hliteral⟩
  · have hquoted := Token.quoted_token hclosed rest
    simp only [hquoted, Token.literal_of_quoted hquoted]
    rfl
  · have hne : token ≠ [] := by
      rintro rfl
      cases hliteral
    simp only [Token.quoted_append_of_absent hne habsent,
      Token.literal_append_of_edge hedge hne habsent, hliteral, Option.map_some]
    rfl

end TypedConfig
