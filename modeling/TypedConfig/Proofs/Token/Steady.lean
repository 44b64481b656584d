import TypedConfig.Proofs.Token.Amounts

/-!
Literals in front of quieter text.  Every lexical kind cuts the same token off there, and none of
those that are tried before it matches instead.
-/

namespace TypedConfig.Token

/-- In front of other text that is quieter a recogniser finds nothing where it found nothing, and
cuts the same token off where it cut one off. -/
def Steady (recognise : Recogniser) : Prop :=
  ∀ ⦃front rest other : List Char⦄, Stops isWordChar rest → Quieter rest other →
    (recognise (front ++ rest) = none → recognise (front ++ other) = none) ∧
      (recognise (front ++ rest) = some (front, rest) →
        recognise (front ++ other) = some (front, other))

section Steadiness

variable {front rest other : List Char}

theorem Bounded.steady {recognise : Recogniser} (h : Bounded recognise) : Steady recognise := by
  intro front rest other hrest hquiet
  rw [h hrest, h (hquiet.boundary hrest)]
  cases recognise front with
  | none => simp
  | some cut =>
      refine ⟨fun hnone => by simp at hnone, fun hcut => ?_⟩
      simp only [Option.map_some, Option.some.injEq, withRest, Prod.mk.injEq,
        List.append_left_eq_self] at hcut
      simp [withRest, hcut]

/-- Behind a gap that ends in front of it, a text is judged together with its own front. -/
theorem withSuffix_boundary {suffixes : List (List Char)} {number : List Char}
    (h : Stops isWordChar rest) (hne : afterGap front ≠ []) :
    withSuffix suffixes number (front ++ rest)
      = (withSuffix suffixes number front).map (withRest rest) := by
  simp only [withSuffix, gap_append hne, afterGap_append hne, h.word_append, h.afterWord_append]
  split <;> rfl

theorem afterWord_afterGap_ne {text : List Char} (h : word (afterGap text) ≠ []) :
    afterWord (afterGap text) ≠ text := by
  intro heq
  have hgap := congrArg List.length (gap_append_afterGap text)
  have hword := congrArg List.length (word_append_afterWord (afterGap text))
  have hpos := List.length_pos_iff.mpr h
  simp only [List.length_append, heq] at hgap hword
  omega

theorem withSuffix_steady (suffixes : List (List Char)) (hwords : ∀ w ∈ suffixes, w ∈ unitWords)
    (hrest : Stops isWordChar rest) (hquiet : Quieter rest other) (number front : List Char) :
    (withSuffix suffixes number (front ++ rest) = none →
        withSuffix suffixes number (front ++ other) = none) ∧
      ∀ token, withSuffix suffixes number (front ++ rest) = some (token, rest) →
        withSuffix suffixes number (front ++ other) = some (token, other) := by
  by_cases hfront : afterGap front = []
  · constructor
    · intro hnone
      simp only [withSuffix, afterGap_append_of_nil hfront, ite_eq_right_iff, reduceCtorEq,
        imp_false, Bool.not_eq_true, List.contains_eq_mem, decide_eq_false_iff_not] at hnone ⊢
      intro hmem
      rw [← hquiet.suffix (hwords _ hmem)] at hmem
      exact hnone hmem
    · intro token htoken
      -- a word that follows belongs to the token, so the token cannot end in front of it
      simp only [withSuffix, afterGap_append_of_nil hfront, Option.ite_none_right_eq_some,
        Option.some.injEq, Prod.mk.injEq, List.contains_eq_mem, decide_eq_true_eq] at htoken
      obtain ⟨hmem, -, hafter⟩ := htoken
      refine absurd hafter (afterWord_afterGap_ne ?_)
      intro hnil
      rw [hnil] at hmem
      exact nil_not_mem_unitWords (hwords _ hmem)
  · rw [withSuffix_boundary hrest hfront, withSuffix_boundary (hquiet.boundary hrest) hfront]
    cases withSuffix suffixes number front with
    | none => simp
    | some cut =>
        refine ⟨fun hnone => by simp at hnone, fun token hcut => ?_⟩
        simp only [Option.map_some, Option.some.injEq, withRest, Prod.mk.injEq,
          List.append_left_eq_self] at hcut
        simp [withRest, hcut]

theorem size_steady : Steady size := by
  intro front rest other hrest hquiet
  have hother := hquiet.boundary hrest
  have hsteady := withSuffix_steady sizeUnits (by decide) hrest hquiet (digits front)
    (afterDigits front)
  simp only [size, hrest.digits_append, hother.digits_append, hrest.afterDigits_append,
    hother.afterDigits_append]
  split
  · simp
  · exact ⟨hsteady.1, hsteady.2 front⟩

theorem long_steady : Steady long := by
  intro front rest other hrest hquiet
  have hother := hquiet.boundary hrest
  have hsteady := withSuffix_steady [['l'], ['L']] (by decide) hrest hquiet
    (digits front) (afterDigits front)
  simp only [long, hrest.digits_append, hother.digits_append, hrest.afterDigits_append,
    hother.afterDigits_append]
  split
  · simp
  · exact ⟨hsteady.1, hsteady.2 front⟩

theorem double_steady : Steady double := by
  intro front rest other hrest hquiet
  have hother := hquiet.boundary hrest
  have hsteady := withSuffix_steady [['d'], ['D']] (by decide) hrest hquiet
    (decimal front).1 (decimal front).2
  simp only [double, hrest.digits_append, hother.digits_append, hrest.decimal_append,
    hother.decimal_append, withRest]
  split
  · simp
  · exact ⟨hsteady.1, hsteady.2 front⟩

theorem startsWithF_of_word_mem (h : word (afterGap front) ∈ [['f'], ['F']]) :
    startsWithF (afterGap front) = true := by
  have hall : ∀ w ∈ [['f'], ['F']], startsWithF w = true := by decide
  rw [← startsWithF_word]
  exact hall _ h

theorem float_boundary (h : Stops isWordChar rest) :
    float (front ++ rest)
      = if (digits front).isEmpty then none
        else if startsWithF (afterGap ((decimal front).2 ++ rest)) then
          withSuffix [['f'], ['F']] (decimal front).1 ((decimal front).2 ++ rest)
        else if (decimal front).1.contains '.' && atBoundary (decimal front).2 then
          some ((decimal front).1, (decimal front).2 ++ rest)
        else none := by
  simp only [float, h.digits_append, h.decimal_append, withRest, h.atBoundary_append]

/-- A float stays one.  Where there is none there may be one in front of other text: the letter that
spoiled it may be gone. -/
theorem float_keeps (hrest : Stops isWordChar rest) (hquiet : Quieter rest other)
    (h : float (front ++ rest) = some (front, rest)) :
    float (front ++ other) = some (front, other) := by
  have hsteady := withSuffix_steady [['f'], ['F']] (by decide) hrest hquiet
    (decimal front).1 (decimal front).2
  rw [float_boundary hrest] at h
  rw [float_boundary (hquiet.boundary hrest)]
  split at h
  · cases h
  · rename_i hdigits
    rw [if_neg hdigits]
    split at h
    · have hsuffix := hsteady.2 front h
      rw [if_pos (startsWithF_of_word_mem (withSuffix_word hsuffix)), hsuffix]
    · rename_i hletter
      rw [if_neg fun hother => hletter (startsWithF_of_quieter hrest hquiet hother)]
      split at h
      · rename_i hpoint
        simp only [Option.some.injEq, Prod.mk.injEq, List.append_left_eq_self] at h
        rw [if_pos hpoint, h.1, h.2, List.nil_append]
      · cases h

/-- Digits that are an integer are no float in front of quieter text. -/
theorem float_misses_digits (hrest : Stops isWordChar rest) (hquiet : Quieter rest other)
    (hinteger : integer (front ++ rest) = some (front, rest)) (h : float (front ++ rest) = none) :
    float (front ++ other) = none := by
  have hwhole : digits front = front ∧ afterDigits front = [] := by
    simp only [integer, hrest.digits_append, hrest.afterDigits_append,
      Option.ite_none_left_eq_some, Option.some.injEq, Prod.mk.injEq,
      List.append_left_eq_self] at hinteger
    exact hinteger.2
  have hdecimal : decimal front = (front, []) := by simp [decimal, hwhole]
  have hpoint : front.contains '.' = false := by
    simpa [hwhole.1] using not_point_mem_digits front
  have hsteady := withSuffix_steady [['f'], ['F']] (by decide) hrest hquiet front []
  rw [float_boundary hrest] at h
  rw [float_boundary (hquiet.boundary hrest)]
  simp only [hdecimal, hpoint] at h ⊢
  split
  · rfl
  · rename_i hdigits
    rw [if_neg hdigits] at h
    split
    · rename_i hletter
      rw [if_pos (startsWithF_of_quieter hrest hquiet hletter)] at h
      exact hsteady.1 h
    · rfl

theorem simpleDuration_steady : Steady simpleDuration := by
  intro front rest other hrest hquiet
  constructor
  · intro hnone
    rw [simpleDuration, amountsIn_eq_none_iff] at hnone ⊢
    intro unit hunit hleading
    exact hnone unit hunit (leadingUnit_of_quieter hrest hquiet hleading)
  · exact amountsIn_keeps hrest hquiet

end Steadiness

section Literals

variable {front rest other : List Char} {kind : LiteralKind}

theorem firstMatch_steady {among tail : List (LiteralKind × Recogniser)}
    (hsteady : ∀ entry ∈ among, Steady entry.2) (hrest : Stops isWordChar rest)
    (hquiet : Quieter rest other)
    (htail : firstMatch (front ++ rest) tail = some (kind, front, rest) →
      firstMatch (front ++ other) tail = some (kind, front, other))
    (h : firstMatch (front ++ rest) (among ++ tail) = some (kind, front, rest)) :
    firstMatch (front ++ other) (among ++ tail) = some (kind, front, other) := by
  induction among with
  | nil => exact htail h
  | cons entry more ih =>
      obtain ⟨hentry, hmore⟩ := List.forall_mem_cons.mp hsteady
      obtain ⟨hmisses, hkeeps⟩ := @hentry front _ _ hrest hquiet
      simp only [List.cons_append, firstMatch] at h ⊢
      cases hcut : entry.2 (front ++ rest) with
      | none =>
          rw [hcut] at h
          rw [hmisses hcut]
          exact ih hmore h
      | some cut =>
          rw [hcut] at h
          cases h
          rw [hkeeps hcut]

theorem plain_steady (hrest : Stops isWordChar rest) (hquiet : Quieter rest other)
    (h : firstMatch (front ++ rest) [(.float, float), (.integer, integer)]
      = some (kind, front, rest)) :
    firstMatch (front ++ other) [(.float, float), (.integer, integer)]
      = some (kind, front, other) := by
  simp only [firstMatch] at h ⊢
  cases hfloat : float (front ++ rest) with
  | some cut =>
      rw [hfloat] at h
      cases h
      rw [float_keeps hrest hquiet hfloat]
  | none =>
      rw [hfloat] at h
      cases hinteger : integer (front ++ rest) with
      | none => simp [hinteger] at h
      | some cut =>
          rw [hinteger] at h
          cases h
          rw [float_misses_digits hrest hquiet hinteger hfloat,
            (integer_bounded.steady hrest hquiet).2 hinteger]

theorem stops_of_withSuffix {suffixes : List (List Char)} {number text token left : List Char}
    (h : withSuffix suffixes number text = some (token, left)) : Stops isWordChar left := by
  simp only [withSuffix, Option.ite_none_right_eq_some, Option.some.injEq, Prod.mk.injEq] at h
  exact h.2.2 ▸ stops_afterWord _

theorem stops_of_float {text token left : List Char} (h : float text = some (token, left)) :
    Stops isWordChar left := by
  unfold float at h
  simp only at h
  split at h
  · cases h
  · split at h
    · exact stops_of_withSuffix h
    · split at h
      · rename_i hpoint
        cases h
        exact atBoundary_iff_stops.mp (Bool.and_eq_true_iff.mp hpoint).2
      · cases h

/-- A literal that is no string opens none and ends at a boundary. -/
theorem plain_of_mem : ∀ entry ∈ alternatives.drop 1, ∀ text token left : List Char,
    entry.2 text = some (token, left) → quoted text = .absent ∧ Stops isWordChar left := by
  have hdigits : ∀ {text : List Char}, digits text ≠ [] → quoted text = .absent :=
    fun h => (literal_of_digits h).1
  simp only [alternatives, List.drop, List.forall_mem_cons]
  refine ⟨?_, ?_, ?_, ?_, ?_, ?_, ?_, ?_, List.forall_mem_nil _⟩ <;> intro text token left h
  · refine ⟨quoted_eq_absent_of_head (isoDuration_head h) (by decide), ?_⟩
    unfold isoDuration at h
    split at h
    · simp only [Option.ite_none_right_eq_some, Option.some.injEq, Prod.mk.injEq] at h
      exact h.2.2 ▸ stops_afterWord text
    · cases h
  · obtain ⟨c, hc, hquote, -⟩ := boolean_head h
    refine ⟨quoted_eq_absent_of_head hc hquote, ?_⟩
    simp only [boolean, Option.ite_none_right_eq_some, Option.some.injEq, Prod.mk.injEq] at h
    exact h.2.2 ▸ stops_afterWord text
  · exact ⟨hdigits (simpleDuration_digits h), stops_of_amountsIn h⟩
  · refine ⟨hdigits (size_unit h).1, ?_⟩
    simp only [size, Option.ite_none_left_eq_some] at h
    exact stops_of_withSuffix h.2
  · refine ⟨hdigits (long_unit h).1, ?_⟩
    simp only [long, Option.ite_none_left_eq_some] at h
    exact stops_of_withSuffix h.2
  · refine ⟨hdigits (double_suffix h).1, ?_⟩
    simp only [double, Option.ite_none_left_eq_some] at h
    exact stops_of_withSuffix h.2
  · exact ⟨hdigits (float_suffix h).1, stops_of_float h⟩
  · simp only [integer, Option.ite_none_left_eq_some, Option.some.injEq, Prod.mk.injEq,
      Bool.or_eq_true, List.isEmpty_iff, not_or, Bool.not_eq_true, Bool.not_eq_false'] at h
    obtain ⟨⟨hne, hboundary⟩, -, rfl⟩ := h
    exact ⟨hdigits hne, atBoundary_iff_stops.mp (by simpa using hboundary)⟩

theorem quoted_eq_absent_iff {text : List Char} :
    quoted text = .absent ↔ ∀ c ∈ text.head?, c ≠ '"' := by
  refine ⟨?_, quoted_eq_absent⟩
  rintro h c hc rfl
  obtain ⟨more, rfl⟩ : ∃ more, text = '"' :: more := by
    cases text with
    | nil => cases hc
    | cons d more =>
        cases hc
        exact ⟨more, rfl⟩
  obtain ⟨taken, left, hsplit, -⟩ := quotedBody_lossless more
  cases hbody : quotedBody more <;> simp [quoted, hbody, Quoted.consume, Quoted.split?] at h hsplit

/-- A literal is a closed string, or opens none and ends at a boundary. -/
theorem literal_cases (h : literal (front ++ rest) = some (kind, front, rest)) :
    quoted (front ++ rest) = .closed front rest ∨
      quoted (front ++ rest) = .absent ∧ Stops isWordChar rest := by
  cases hstring : string (front ++ rest) with
  | some cut =>
      simp only [literal, alternatives, firstMatch, hstring, Option.some.injEq,
        Prod.mk.injEq] at h
      obtain ⟨-, rfl, rfl⟩ := h
      exact .inl (quoted_of_string hstring)
  | none =>
      have hplain :
          firstMatch (front ++ rest) (alternatives.drop 1) = some (kind, front, rest) := by
        simpa [literal, alternatives, firstMatch, hstring] using h
      obtain ⟨recognise, hmem, hfound⟩ := firstMatch_mem hplain
      exact .inr (plain_of_mem _ hmem _ _ _ hfound)

/-- In front of quieter text the same literal is read. -/
theorem literal_steady (hquiet : Quieter rest other)
    (h : literal (front ++ rest) = some (kind, front, rest)) :
    literal (front ++ other) = some (kind, front, other) := by
  have hne := (opens_literal h).ne_nil
  rcases literal_cases h with hclosed | ⟨habsent, hrest⟩
  · have hother := quoted_token hclosed other
    rw [literal_of_quoted hclosed] at h
    cases h
    exact literal_of_quoted hother
  · have hstring : string (front ++ rest) = none := string_eq_none habsent
    have hother : string (front ++ other) = none := by
      apply string_eq_none
      obtain ⟨c, more, rfl⟩ := List.exists_cons_of_ne_nil hne
      rw [quoted_eq_absent_iff] at habsent ⊢
      exact habsent
    have hplain : firstMatch (front ++ rest) (alternatives.drop 1) = some (kind, front, rest) := by
      simpa [literal, alternatives, firstMatch, hstring] using h
    have hsteady : ∀ entry ∈ (alternatives.drop 1).take 6, Steady entry.2 := by
      simp only [alternatives, List.drop, List.take, List.forall_mem_cons]
      exact ⟨isoDuration_bounded.steady, boolean_bounded.steady, simpleDuration_steady,
        size_steady, long_steady, double_steady, List.forall_mem_nil _⟩
    have hkept := firstMatch_steady hsteady hrest hquiet (plain_steady hrest hquiet) hplain
    simpa [literal, alternatives, firstMatch, hother] using hkept

/-- Behind a literal quieter text is still quieter. -/
theorem literal_quieter (hquiet : Quieter rest other)
    (h : literal (front ++ rest) = some (kind, front, rest)) :
    Quieter (front ++ rest) (front ++ other) := by
  obtain ⟨c, more, rfl, hc⟩ := opens_literal h
  rcases literal_cases h with hclosed | ⟨habsent, hrest⟩
  · obtain ⟨inner, hinner⟩ := cons_of_closed hclosed
    cases hinner
    apply AtEdge.quieter
    rintro d ⟨⟩
    decide
  · refine hquiet.append ⟨c, more, rfl, ?_⟩ hrest
    rcases hc with rfl | hword
    · decide
    · by_contra hgap
      simp [isWordChar_of_isGap (Bool.not_eq_false _ ▸ hgap)] at hword

theorem isToken_digits (hne : front ≠ []) (hdigits : ∀ c ∈ front, c.isDigit = true) :
    IsToken .integer front := by
  have hrun : digits front = front := List.takeWhile_eq_self_iff.mpr hdigits
  have hbehind : afterDigits front = [] := List.dropWhile_eq_nil_iff.mpr hdigits
  refine ⟨integer, by simp [alternatives], ?_⟩
  simp [integer, hrun, hbehind, hne, atBoundary]

end Literals

end TypedConfig.Token
