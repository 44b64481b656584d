import TypedConfig.Proofs.Literal.Number

/-!
Decoding durations in words.  The decoder splits the text at its blanks and takes the words in
pairs, which are the amounts that the recogniser has taken.  It looks the units up in their order
again, and that order is the one in which the amounts were recognised, so only an amount can be out
of range.
-/

namespace TypedConfig

namespace Text

variable {blanks word behind rest : List Char} {c d : Char}

theorem words_cons (c : Char) (rest : List Char) :
    words (c :: rest)
      = if isBlank c then words rest
        else match rest, words rest with
          | d :: _, word :: more => if isBlank d then [c] :: word :: more else (c :: word) :: more
          | _, more => [c] :: more := rfl

theorem words_cons_blank (h : isBlank c = true) : words (c :: rest) = words rest := by
  rw [words_cons, if_pos h]

/-- The last character of a word. -/
theorem words_cons_last (hc : isBlank c = false) (hrest : ∀ d ∈ rest.head?, isBlank d = true) :
    words (c :: rest) = [c] :: words rest := by
  rw [words_cons, hc]
  cases rest with
  | nil => rfl
  | cons d more =>
      have hd : isBlank d = true := hrest d rfl
      cases words (d :: more) with
      | nil => rfl
      | cons first others => exact if_pos hd

theorem words_cons_word (hc : isBlank c = false) (hd : isBlank d = false)
    {others : List (List Char)} (h : words (d :: rest) = word :: others) :
    words (c :: d :: rest) = (c :: word) :: others := by
  rw [words_cons, if_neg (Bool.not_eq_true _ ▸ hc), h]
  exact if_neg (Bool.not_eq_true _ ▸ hd)

theorem words_blanks (h : ∀ c ∈ blanks, isBlank c = true) :
    words (blanks ++ rest) = words rest := by
  induction blanks with
  | nil => rfl
  | cons c more ih =>
      obtain ⟨hc, hmore⟩ := List.forall_mem_cons.mp h
      rw [List.cons_append, words_cons_blank hc]
      exact ih hmore

/-- A word in front of a blank, or of the end of the text, is the first word. -/
theorem words_word (hne : word ≠ []) (hword : ∀ c ∈ word, isBlank c = false)
    (hbehind : ∀ c ∈ behind.head?, isBlank c = true) :
    words (word ++ behind) = word :: words behind := by
  induction word with
  | nil => exact absurd rfl hne
  | cons c more ih =>
      obtain ⟨hc, hmore⟩ := List.forall_mem_cons.mp hword
      cases more with
      | nil => exact words_cons_last hc hbehind
      | cons d others =>
          have hd : isBlank d = false := hmore d List.mem_cons_self
          exact words_cons_word hc hd (ih (List.cons_ne_nil _ _) hmore)

end Text

namespace Period

open Token (IsDigits IsGap WritesAmounts)

/-- The period with the given amounts in their units. -/
def setAll (period : Period) (amounts : List (TimeUnit × Nat)) : Period :=
  amounts.foldl (fun period amount => period.set amount.1 (Int64.ofNat amount.2)) period

section Amounts

variable {amounts : List (TimeUnit × Nat)} {unit : TimeUnit} {value : Nat}

theorem amount_setAll_of_not_mem (period : Period) (h : unit ∉ amounts.map Prod.fst) :
    (period.setAll amounts).amount unit = period.amount unit := by
  induction amounts generalizing period with
  | nil => rfl
  | cons amount more ih =>
      rw [List.map_cons, List.mem_cons, not_or] at h
      change ((period.set amount.1 (Int64.ofNat amount.2)).setAll more).amount unit = _
      rw [ih _ h.2, amount_set, if_neg h.1]

/-- No unit has two amounts, so each keeps the amount that was written. -/
theorem amount_setAll_of_mem (period : Period) (hnodup : (amounts.map Prod.fst).Nodup)
    (h : (unit, value) ∈ amounts) :
    (period.setAll amounts).amount unit = Int64.ofNat value := by
  induction amounts generalizing period with
  | nil => cases h
  | cons amount more ih =>
      rw [List.map_cons, List.nodup_cons] at hnodup
      change ((period.set amount.1 (Int64.ofNat amount.2)).setAll more).amount unit = _
      rcases List.mem_cons.mp h with rfl | hmore
      · rw [amount_setAll_of_not_mem _ hnodup.1, amount_set, if_pos rfl]
      · exact ih _ hnodup.2 hmore

end Amounts

section Pairs

variable {unit : TimeUnit} {units smaller : List TimeUnit} {digits name : List Char}

theorem signedAmount?_digits (h : IsDigits digits) :
    signedAmount? digits = if Text.decimalValue digits ≤ amountLimit
      then some (Int64.ofNat (Text.decimalValue digits)) else none := by
  have hsigned : Text.signedDecimalUpTo? amountLimit digits
      = (Text.decimalUpTo? amountLimit digits).map Int.ofNat := by
    unfold Text.signedDecimalUpTo?
    split
    · exact absurd (h.digits '-' List.mem_cons_self) (by decide)
    · exact absurd (h.digits '+' List.mem_cons_self) (by decide)
    · cases Text.decimalUpTo? amountLimit digits <;> rfl
  rw [signedAmount?, hsigned, Literal.decimalUpTo?_digits h, Option.map_map]
  by_cases hlimit : Text.decimalValue digits ≤ amountLimit
  · rw [if_pos hlimit, if_pos hlimit, Option.map_some, Function.comp_apply, Int.ofNat_eq_natCast,
      Int64.ofInt_eq_ofNat]
  · rw [if_neg hlimit, if_neg hlimit, Option.map_none]

/-- The units behind one of them in a list that they are part of. -/
theorem sublist_behind (h : (unit :: smaller).Sublist units) :
    units.contains unit = true ∧ smaller.Sublist ((units.dropWhile (· != unit)).drop 1) := by
  induction units with
  | nil => cases h
  | cons first others ih =>
      by_cases hunit : first = unit
      · subst hunit
        have hsmaller := List.cons_sublist_cons.mp h
        simp [hsmaller]
      · have hothers : (unit :: smaller).Sublist others := by
          cases h with
          | cons _ hothers => exact hothers
          | cons_cons _ _ => exact absurd rfl hunit
        obtain ⟨hmem, hsmaller⟩ := ih hothers
        have hother : (first != unit) = true := by simpa using hunit
        rw [List.dropWhile_cons_of_pos (by exact hother)]
        refine ⟨?_, hsmaller⟩
        simp only [List.contains_eq_mem, List.mem_cons, decide_eq_true_eq] at hmem ⊢
        exact .inr hmem

/-- One pair of words. -/
theorem readPairs_pair (period : Period) (hdigits : IsDigits digits)
    (hname : name ∈ unit.spellings) (hunit : units.contains unit = true) (rest : List (List Char)) :
    readPairs units period (digits :: name :: rest)
      = if Text.decimalValue digits ≤ amountLimit then
          readPairs ((units.dropWhile (· != unit)).drop 1)
            (period.set unit (Int64.ofNat (Text.decimalValue digits))) rest
        else none := by
  rw [readPairs, signedAmount?_digits hdigits, TimeUnit.ofWord?_of_mem_spellings hname]
  by_cases hlimit : Text.decimalValue digits ≤ amountLimit
  · rw [if_pos hlimit, if_pos hlimit]
    change (if units.contains unit = true then _ else none) = _
    rw [if_pos hunit]
  · rw [if_neg hlimit, if_neg hlimit]
    rfl

theorem isBlank_of_mem_spellings (h : name ∈ unit.spellings) :
    name ≠ [] ∧ ∀ c ∈ name, Text.isBlank c = false := by
  have hall : ∀ unit ∈ TimeUnit.all, ∀ name ∈ unit.spellings,
      name ≠ [] ∧ name.all (fun c => !Text.isBlank c) = true := by decide
  obtain ⟨hne, hblank⟩ := hall unit unit.mem_all name h
  refine ⟨hne, ?_⟩
  intro c hc
  simpa using List.all_eq_true.mp hblank c hc

theorem head_gap {space : List Char} (hne : space ≠ []) (hspace : IsGap space)
    (rest : List Char) : ∀ c ∈ (space ++ rest).head?, Text.isBlank c = true := by
  obtain ⟨c, more, rfl⟩ := List.exists_cons_of_ne_nil hne
  rintro d ⟨⟩
  exact Literal.isBlank_of_isGap (hspace c List.mem_cons_self)

/-- The words of an amount. -/
theorem words_amount {space rest : List Char} (hdigits : IsDigits digits) (hne : space ≠ [])
    (hspace : IsGap space) (hname : name ∈ unit.spellings)
    (hrest : ∀ c ∈ rest.head?, Text.isBlank c = true) :
    Text.words (digits ++ space ++ name ++ rest) = digits :: name :: Text.words rest := by
  obtain ⟨hnameNe, hnameWord⟩ := isBlank_of_mem_spellings hname
  have hassoc : digits ++ space ++ name ++ rest = digits ++ (space ++ (name ++ rest)) := by simp
  rw [hassoc, Text.words_word hdigits.ne_nil
      (fun c hc => Literal.isBlank_of_isDigit (hdigits.digits c hc)) (head_gap hne hspace _),
    Text.words_blanks fun c hc => Literal.isBlank_of_isGap (hspace c hc),
    Text.words_word hnameNe hnameWord hrest]

theorem words_ne_nil {amounts : List (TimeUnit × Nat)} {text : List Char}
    (h : WritesAmounts amounts text) : Text.words text ≠ [] := by
  cases h with
  | @last unit digits space name hdigits hne hspace hname =>
      have hwords : Text.words (digits ++ space ++ name ++ []) = [digits, name] :=
        words_amount hdigits hne hspace hname (by simp)
      rw [List.append_nil] at hwords
      rw [hwords]
      exact List.cons_ne_nil _ _
  | @more unit digits space name between text amounts hdigits hne hspace hname hbetween hgap _ =>
      rw [List.append_assoc _ between text,
        words_amount hdigits hne hspace hname (head_gap hbetween hgap text)]
      exact List.cons_ne_nil _ _

/-- The amounts of a duration, read in the order of their units. -/
theorem readPairs_words {amounts : List (TimeUnit × Nat)} {text : List Char}
    (h : WritesAmounts amounts text) (hunits : (amounts.map Prod.fst).Sublist units)
    (period : Period) :
    readPairs units period (Text.words text)
      = if ∀ amount ∈ amounts, amount.2 ≤ amountLimit then some (period.setAll amounts)
        else none := by
  induction h generalizing units period with
  | @last unit digits space name hdigits hne hspace hname =>
      obtain ⟨hunit, -⟩ := sublist_behind hunits
      have hwords : Text.words (digits ++ space ++ name ++ []) = [digits, name] :=
        words_amount hdigits hne hspace hname (by simp)
      rw [List.append_nil] at hwords
      rw [hwords, readPairs_pair period hdigits hname hunit]
      simp only [List.forall_mem_singleton]
      rfl
  | @more unit digits space name between text amounts hdigits hne hspace hname hbetween hgap _ ih =>
      obtain ⟨hunit, hsmaller⟩ := sublist_behind hunits
      have hwords := words_amount hdigits hne hspace hname (head_gap hbetween hgap text)
      rw [← List.append_assoc] at hwords
      rw [hwords, Text.words_blanks fun c hc => Literal.isBlank_of_isGap (hgap c hc),
        readPairs_pair period hdigits hname hunit, ih hsmaller]
      simp only [List.forall_mem_cons]
      by_cases hlimit : Text.decimalValue digits ≤ amountLimit
      · simp only [hlimit, true_and, if_true]
        rfl
      · simp only [hlimit, false_and, if_false]

/-- A duration in words is the period that has the amounts that are written, if none is too
large. -/
theorem ofWords?_eq {amounts : List (TimeUnit × Nat)} {text : List Char}
    (h : WritesAmounts amounts text) (hunits : (amounts.map Prod.fst).Sublist TimeUnit.all) :
    ofWords? text = if ∀ amount ∈ amounts, amount.2 ≤ amountLimit then some (zero.setAll amounts)
      else none := by
  have hpairs := readPairs_words h hunits zero
  cases hwords : Text.words text with
  | nil => exact absurd hwords (words_ne_nil h)
  | cons first others =>
      rw [hwords] at hpairs
      rw [ofWords?, hwords]
      exact hpairs

end Pairs

end Period

end TypedConfig
