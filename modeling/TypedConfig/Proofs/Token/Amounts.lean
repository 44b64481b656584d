import TypedConfig.Proofs.Token.Quieter

/-!
Durations in words in front of quieter text.  The amounts of a duration follow one another from
larger to smaller units, and the duration ends where none of a smaller unit follows.
-/

namespace TypedConfig.Token

section Amounts

variable {unit : TimeUnit} {smaller : List TimeUnit} {text token left : List Char}

theorem amountsIn_eq_none_iff {units : List TimeUnit} {text : List Char} :
    amountsIn units text = none ↔ ∀ unit ∈ units, leadingUnit text ≠ some unit := by
  induction units with
  | nil => simp [amountsIn]
  | cons unit smaller ih =>
      unfold amountsIn
      cases hamount : amountWithUnit text with
      | none => simp [leadingUnit, hamount]
      | some cut =>
          obtain ⟨found, token, left⟩ := cut
          have hleading : leadingUnit text = some found := by simp [leadingUnit, hamount]
          by_cases hunit : found = unit
          · subst hunit
            simp only [if_true, hleading, List.mem_cons, ne_eq, Option.some.injEq, forall_eq_or_imp,
              not_true_eq_false, false_and, iff_false]
            split
            · exact Option.some_ne_none _
            · split <;> exact Option.some_ne_none _
          · simp [ih, hleading, hunit]

/-- A run of spaces and tabs ends digits. -/
theorem stops_digit_of_gap {space : List Char} (hne : space ≠ [])
    (hgap : ∀ c ∈ space, isGap c = true)
    (behind : List Char) : Stops Char.isDigit (space ++ behind) := by
  obtain ⟨c, more, rfl⟩ := List.exists_cons_of_ne_nil hne
  exact stops_cons (isDigit_of_isGap (hgap c List.mem_cons_self))

theorem stops_word_of_gap {space : List Char} (hne : space ≠ [])
    (hgap : ∀ c ∈ space, isGap c = true)
    (behind : List Char) : Stops isWordChar (space ++ behind) := by
  obtain ⟨c, more, rfl⟩ := List.exists_cons_of_ne_nil hne
  exact stops_cons (isWordChar_of_isGap (hgap c List.mem_cons_self))

/-- A run of spaces and tabs ends where a word begins. -/
theorem stops_gap_of_word {w : List Char} (hne : w ≠ []) (hword : ∀ c ∈ w, isWordChar c = true)
    (behind : List Char) : Stops isGap (w ++ behind) := by
  obtain ⟨c, more, rfl⟩ := List.exists_cons_of_ne_nil hne
  apply stops_cons
  by_contra hgap
  have hstop := isWordChar_of_isGap (Bool.not_eq_false _ ▸ hgap)
  simp [hword c List.mem_cons_self] at hstop

/-- Digits, a gap and a unit word are cut off in front of any boundary. -/
theorem amountWithUnit_parts {amount space name : List Char} {unit : TimeUnit} (hne : amount ≠ [])
    (hdigit : ∀ c ∈ amount, c.isDigit = true) (hspace : space ≠ [])
    (hgap : ∀ c ∈ space, isGap c = true) (hword : ∀ c ∈ name, isWordChar c = true)
    (hunit : TimeUnit.ofWord? name = some unit) (behind : List Char)
    (hbehind : Stops isWordChar behind) :
    amountWithUnit (amount ++ space ++ name ++ behind)
      = some (unit, amount ++ space ++ name, behind) := by
  have hname : name ≠ [] := by
    intro hnil
    rw [hnil, ofWord?_nil] at hunit
    cases hunit
  have hfirst := stops_digit_of_gap hspace hgap (name ++ behind)
  have hsecond := stops_gap_of_word hname hword behind
  have hassoc : amount ++ space ++ name ++ behind = amount ++ (space ++ (name ++ behind)) := by simp
  simp only [amountWithUnit, hassoc, digits, afterDigits, gap, afterGap, word, afterWord,
    takeWhile_run hdigit hfirst, dropWhile_run hdigit hfirst, takeWhile_run hgap hsecond,
    dropWhile_run hgap hsecond, takeWhile_run hword hbehind, dropWhile_run hword hbehind, hunit]
  simp [hne, hspace]

/-- An amount with its unit is cut off in front of any boundary. -/
theorem amountWithUnit_token {text token left : List Char} {unit : TimeUnit}
    (h : amountWithUnit text = some (unit, token, left)) (behind : List Char)
    (hbehind : Stops isWordChar behind) :
    amountWithUnit (token ++ behind) = some (unit, token, behind) := by
  simp only [amountWithUnit, Option.ite_none_left_eq_some, Option.map_eq_some_iff,
    Prod.mk.injEq, Bool.or_eq_true, List.isEmpty_iff, not_or] at h
  obtain ⟨⟨hdigits, hspace⟩, found, hunit, rfl, rfl, -⟩ := h
  exact amountWithUnit_parts hdigits (fun c hc => List.mem_takeWhile_imp hc) hspace
    (fun c hc => List.mem_takeWhile_imp hc) (fun c hc => List.mem_takeWhile_imp hc) hunit behind
    hbehind

theorem stops_afterWord (text : List Char) : Stops isWordChar (afterWord text) :=
  stops_dropWhile isWordChar text

theorem stops_of_amountWithUnit (h : amountWithUnit text = some (unit, token, left)) :
    Stops isWordChar left := by
  simp only [amountWithUnit, Option.ite_none_left_eq_some, Option.map_eq_some_iff,
    Prod.mk.injEq] at h
  obtain ⟨-, -, -, -, -, rfl⟩ := h
  exact stops_afterWord _

/-- Nothing goes on where no gap is. -/
theorem amountsIn_of_gap {rest : List Char} (hstops : Stops isWordChar rest) (hgap : gap rest = [])
    (units : List TimeUnit) : amountsIn units (afterGap rest) = none := by
  have hsplit := gap_append_afterGap rest
  rw [hgap, List.nil_append] at hsplit
  rw [hsplit]
  exact amountsIn_eq_none (amountWithUnit_of_stops hstops.stops_digit) units

/-- A token that ends behind an amount ends there too when no amount of a smaller unit follows. -/
theorem amountsIn_ends {unit : TimeUnit} {smaller : List TimeUnit} {text token left : List Char}
    (hamount : amountWithUnit text = some (unit, token, left))
    (hsmaller : amountsIn smaller (afterGap left) = none) :
    amountsIn (unit :: smaller) text = some (token, left) := by
  unfold amountsIn
  simp [hamount, hsmaller]

theorem amountsIn_goesOn {unit : TimeUnit} {smaller : List TimeUnit}
    {text token space more last : List Char} (hspace : space ≠ [])
    (hgap : ∀ c ∈ space, isGap c = true)
    (hamount : amountWithUnit text = some (unit, token, space ++ (more ++ last)))
    (hmore : amountsIn smaller (more ++ last) = some (more, last)) :
    amountsIn (unit :: smaller) text = some (token ++ space ++ more, last) := by
  have hstop : Stops isGap (more ++ last) := by
    obtain ⟨c, tail, rfl, hc⟩ := opens_amountsIn hmore
    apply stops_cons
    rcases hc with rfl | hc
    · decide
    · by_contra hgap
      simp [isWordChar_of_isGap (Bool.not_eq_false _ ▸ hgap)] at hc
  have hfront : gap (space ++ (more ++ last)) = space := takeWhile_run hgap hstop
  have hbehind : afterGap (space ++ (more ++ last)) = more ++ last := dropWhile_run hgap hstop
  unfold amountsIn
  simp [hamount, hfront, hbehind, hmore, hspace]

/-- How a duration is cut off: its largest unit is passed over, the amount in that unit is the last
one, or smaller amounts go on behind a gap. -/
inductive Amounts (unit : TimeUnit) (smaller : List TimeUnit) (text : List Char) :
    List Char → List Char → Prop
  | skips {token left : List Char} :
      leadingUnit text ≠ some unit → amountsIn smaller text = some (token, left) →
        Amounts unit smaller text token left
  | last {token left : List Char} :
      amountWithUnit text = some (unit, token, left) → amountsIn smaller (afterGap left) = none →
        Amounts unit smaller text token left
  | goesOn {token space more left : List Char} :
      amountWithUnit text = some (unit, token, space ++ (more ++ left)) → space ≠ [] →
        (∀ c ∈ space, isGap c = true) → amountsIn smaller (more ++ left) = some (more, left) →
          Amounts unit smaller text (token ++ space ++ more) left

theorem amounts_of_amountsIn (h : amountsIn (unit :: smaller) text = some (token, left)) :
    Amounts unit smaller text token left := by
  unfold amountsIn at h
  split at h
  · rename_i found amount behind hamount
    split at h
    · rename_i hunit
      subst hunit
      split at h
      · rename_i hspace
        cases h
        exact .last hamount
          (amountsIn_of_gap (stops_of_amountWithUnit hamount) (List.isEmpty_iff.mp hspace) smaller)
      · rename_i hspace
        split at h
        · rename_i more last hmore
          cases h
          have hcut : more ++ left = afterGap behind := amountsIn_lossless smaller hmore
          have hbehind := gap_append_afterGap behind
          rw [← hcut] at hmore hbehind
          rw [← hbehind] at hamount
          exact .goesOn hamount (by simpa using hspace) (fun c hc => List.mem_takeWhile_imp hc) hmore
        · rename_i hsmaller
          cases h
          exact .last hamount hsmaller
    · rename_i hunit
      refine .skips ?_ h
      simpa [leadingUnit, hamount] using hunit
  · cases h

theorem amountsIn_of_amounts (h : Amounts unit smaller text token left) :
    amountsIn (unit :: smaller) text = some (token, left) := by
  cases h with
  | skips hunit hsmaller =>
      unfold amountsIn
      cases hamount : amountWithUnit text with
      | none => simp [amountsIn_eq_none hamount smaller] at hsmaller
      | some cut =>
          have hother : cut.1 ≠ unit := by simpa [leadingUnit, hamount] using hunit
          simp [hother, hsmaller]
  | last hamount hsmaller => exact amountsIn_ends hamount hsmaller
  | goesOn hamount hspace hgap hmore => exact amountsIn_goesOn hspace hgap hamount hmore

theorem stops_of_amountsIn {units : List TimeUnit} (h : amountsIn units text = some (token, left)) :
    Stops isWordChar left := by
  induction units generalizing text token left with
  | nil => cases h
  | cons unit smaller ih =>
      cases amounts_of_amountsIn h with
      | skips _ hsmaller => exact ih hsmaller
      | last hamount _ => exact stops_of_amountWithUnit hamount
      | goesOn _ _ _ hmore => exact ih hmore

end Amounts

/-- In front of quieter text a duration is cut off as before. -/
theorem amountsIn_keeps {units : List TimeUnit} {front rest other : List Char}
    (hrest : Stops isWordChar rest) (hquiet : Quieter rest other)
    (h : amountsIn units (front ++ rest) = some (front, rest)) :
    amountsIn units (front ++ other) = some (front, other) := by
  induction units generalizing front with
  | nil => cases h
  | cons unit smaller ih =>
      apply amountsIn_of_amounts
      cases amounts_of_amountsIn h with
      | skips hunit hsmaller =>
          refine .skips ?_ (ih hsmaller)
          intro hleading
          exact hunit (leadingUnit_of_quieter hrest hquiet hleading)
      | last hamount hsmaller =>
          refine .last (amountWithUnit_token hamount other (hquiet.boundary hrest)) ?_
          rw [amountsIn_eq_none_iff] at hsmaller ⊢
          intro unit hunit hleading
          exact hsmaller unit hunit (hquiet.unit unit hleading)
      | @goesOn token space more _ hamount hspace hgap hmore =>
          have hagain := amountWithUnit_token hamount (space ++ (more ++ other))
            (stops_word_of_gap hspace hgap _)
          have hassoc : token ++ space ++ more ++ other = token ++ (space ++ (more ++ other)) := by
            simp
          rw [← hassoc] at hagain
          exact .goesOn hagain hspace hgap (ih hmore)

end TypedConfig.Token
