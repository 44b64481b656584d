import Mathlib.Data.List.Basic
import TypedConfig.Proofs.Token.Amounts
import TypedConfig.Proofs.Token.FallThrough

/-!
The shapes of literals.  What a recogniser takes has the shape of its kind: a number and its suffix
are apart, and a duration is a list of amounts.
-/

namespace TypedConfig.Token

/-- A run of digits, not empty. -/
structure IsDigits (text : List Char) : Prop where
  ne_nil : text ≠ []
  digits : ∀ c ∈ text, c.isDigit = true

/-- A run of spaces and tabs, possibly empty. -/
def IsGap (text : List Char) : Prop := ∀ c ∈ text, isGap c = true

/-- A number with one of some suffixes behind it, possibly behind a gap. -/
def Suffixed (suffixes : List (List Char)) (number text : List Char) : Prop :=
  ∃ space suffix, IsGap space ∧ suffix ∈ suffixes ∧ text = number ++ space ++ suffix

/-- The text of some amounts with their units, from the first to the last. -/
inductive WritesAmounts : List (TimeUnit × Nat) → List Char → Prop
  | last {unit : TimeUnit} {digits space name : List Char} :
      IsDigits digits → space ≠ [] → IsGap space → name ∈ unit.spellings →
        WritesAmounts [(unit, Text.decimalValue digits)] (digits ++ space ++ name)
  | more {unit : TimeUnit} {digits space name between text : List Char}
      {amounts : List (TimeUnit × Nat)} :
      IsDigits digits → space ≠ [] → IsGap space → name ∈ unit.spellings → between ≠ [] →
        IsGap between → WritesAmounts amounts text →
          WritesAmounts ((unit, Text.decimalValue digits) :: amounts)
            (digits ++ space ++ name ++ between ++ text)

section Numbers

variable {text token left : List Char}

theorem isDigits_digits (h : digits text ≠ []) : IsDigits (digits text) :=
  ⟨h, fun _ hc => List.mem_takeWhile_imp hc⟩

theorem isGap_gap (text : List Char) : IsGap (gap text) := fun _ hc => List.mem_takeWhile_imp hc

def Numeral.ofDigits (h : IsDigits text) : Numeral :=
  ⟨text, [], h.ne_nil, h.digits, List.forall_mem_nil _⟩

theorem exists_numeral_digits (h : digits text ≠ []) :
    ∃ n : Numeral, n.fraction = [] ∧ n.text = digits text :=
  ⟨.ofDigits (isDigits_digits h), rfl, rfl⟩

theorem exists_numeral_decimal (h : digits text ≠ []) : ∃ n :
    Numeral, n.text = (decimal text).1 := by
  rcases decimal_cases text with hplain | ⟨fraction, rest, hne, hdigits, -, -, hdecimal⟩
  · obtain ⟨n, -, htext⟩ := exists_numeral_digits h
    exact ⟨n, by rw [htext, hplain]⟩
  · have hwhole := isDigits_digits h
    refine ⟨⟨digits text, fraction, hwhole.ne_nil, hwhole.digits, hdigits⟩, ?_⟩
    simp [Numeral.text, hne, hdecimal]

theorem suffixed_of_withSuffix {suffixes : List (List Char)} {number rest : List Char}
    (h : withSuffix suffixes number rest = some (token, left)) :
    Suffixed suffixes number token := by
  have hword := withSuffix_word h
  simp only [withSuffix, Option.ite_none_right_eq_some, Option.some.injEq, Prod.mk.injEq] at h
  exact ⟨gap rest, word (afterGap rest), isGap_gap rest, hword, h.2.1.symm⟩

theorem integer_shape (h : integer text = some (token, left)) :
    ∃ n : Numeral, n.fraction = [] ∧ token = n.text := by
  simp only [integer, Option.ite_none_left_eq_some, Option.some.injEq, Prod.mk.injEq,
    Bool.or_eq_true, List.isEmpty_iff, not_or] at h
  obtain ⟨⟨hdigits, -⟩, rfl, -⟩ := h
  obtain ⟨n, hfraction, htext⟩ := exists_numeral_digits hdigits
  exact ⟨n, hfraction, htext.symm⟩

theorem long_shape (h : long text = some (token, left)) :
    ∃ n : Numeral, n.fraction = [] ∧ Suffixed [['l'], ['L']] n.text token := by
  simp only [long, Option.ite_none_left_eq_some, List.isEmpty_iff] at h
  obtain ⟨n, hfraction, htext⟩ := exists_numeral_digits h.1
  exact ⟨n, hfraction, htext ▸ suffixed_of_withSuffix h.2⟩

theorem size_shape (h : size text = some (token, left)) :
    ∃ n : Numeral, n.fraction = [] ∧ Suffixed sizeUnits n.text token := by
  simp only [size, Option.ite_none_left_eq_some, List.isEmpty_iff] at h
  obtain ⟨n, hfraction, htext⟩ := exists_numeral_digits h.1
  exact ⟨n, hfraction, htext ▸ suffixed_of_withSuffix h.2⟩

theorem double_shape (h : double text = some (token, left)) :
    ∃ n : Numeral, Suffixed [['d'], ['D']] n.text token := by
  simp only [double, Option.ite_none_left_eq_some, List.isEmpty_iff] at h
  obtain ⟨n, htext⟩ := exists_numeral_decimal h.1
  exact ⟨n, htext ▸ suffixed_of_withSuffix h.2⟩

/-- A float has its suffix, or a fraction. -/
theorem float_shape (h : float text = some (token, left)) :
    ∃ n : Numeral, Suffixed [['f'], ['F']] n.text token ∨ n.fraction ≠ [] ∧ token = n.text := by
  have hdigits := (float_suffix h).1
  obtain ⟨n, htext⟩ := exists_numeral_decimal hdigits
  simp only [float, List.isEmpty_iff, hdigits, if_false] at h
  refine ⟨n, ?_⟩
  split at h
  · exact .inl (htext ▸ suffixed_of_withSuffix h)
  · simp only [Option.ite_none_right_eq_some, Option.some.injEq, Prod.mk.injEq,
      Bool.and_eq_true] at h
    obtain ⟨⟨hpoint, -⟩, rfl, -⟩ := h
    rw [← htext, Numeral.point_mem_text] at hpoint
    exact .inr ⟨by simpa using hpoint, htext.symm⟩

end Numbers

section Words

variable {text token left : List Char}

theorem boolean_shape (h : boolean text = some (token, left)) : token ∈ booleanWords := by
  simp only [boolean, Option.ite_none_right_eq_some, Option.some.injEq, Prod.mk.injEq,
    List.contains_eq_mem, decide_eq_true_eq] at h
  exact h.2.1 ▸ h.1

theorem mem_spellings_of_ofWord? {unit : TimeUnit} {name : List Char}
    (h : TimeUnit.ofWord? name = some unit) : name ∈ unit.spellings := by
  have hfound := List.find?_some h
  simpa using hfound

/-- A single amount as it is written. -/
theorem amountWithUnit_shape {unit : TimeUnit}
    (h : amountWithUnit text = some (unit, token, left)) :
    ∃ digits space name, IsDigits digits ∧ space ≠ [] ∧ IsGap space ∧ name ∈ unit.spellings ∧
      token = digits ++ space ++ name := by
  simp only [amountWithUnit, Option.ite_none_left_eq_some, Option.map_eq_some_iff, Prod.mk.injEq,
    Bool.or_eq_true, List.isEmpty_iff, not_or] at h
  obtain ⟨⟨hdigits, hspace⟩, found, hunit, rfl, rfl, -⟩ := h
  exact ⟨_, _, _, isDigits_digits hdigits, hspace, isGap_gap _, mem_spellings_of_ofWord? hunit, rfl⟩

/-- A duration in words is a list of amounts, from larger to smaller units. -/
theorem amountsIn_shape {units : List TimeUnit} (h : amountsIn units text = some (token, left)) :
    ∃ amounts, WritesAmounts amounts token ∧ (amounts.map Prod.fst).Sublist units := by
  induction units generalizing text token left with
  | nil => cases h
  | cons unit smaller ih =>
      cases amounts_of_amountsIn h with
      | skips _ hsmaller =>
          obtain ⟨amounts, hwrites, hunits⟩ := ih hsmaller
          exact ⟨amounts, hwrites, hunits.cons unit⟩
      | last hamount _ =>
          obtain ⟨digits, space, name, hdigits, hne, hspace, hname, rfl⟩ :=
            amountWithUnit_shape hamount
          exact ⟨_, .last hdigits hne hspace hname, (List.nil_sublist smaller).cons_cons unit⟩
      | @goesOn token between more _ hamount hbetween hgap hmore =>
          obtain ⟨amounts, hwrites, hunits⟩ := ih hmore
          obtain ⟨digits, space, name, hdigits, hne, hspace, hname, rfl⟩ :=
            amountWithUnit_shape hamount
          exact ⟨_, .more hdigits hne hspace hname hbetween hgap hwrites, hunits.cons_cons unit⟩

end Words

section Strings

variable {text token left : List Char}

/-- The rest of a closed string ends with the closing quote. -/
theorem quotedBody_shape (h : quotedBody text = .closed token left) :
    ∃ body, token = body ++ ['"'] := by
  fun_induction quotedBody text generalizing token left with
  | case1 => cases h
  | case2 rest =>
      cases h
      exact ⟨[], rfl⟩
  | case3 => cases h
  | case4 c rest ih =>
      obtain ⟨inner, hinner, rfl⟩ := Quoted.consume_eq_closed.mp h
      obtain ⟨body, rfl⟩ := ih hinner
      exact ⟨'\\' :: c :: body, rfl⟩
  | case5 c rest _ _ _ ih =>
      obtain ⟨inner, hinner, rfl⟩ := Quoted.consume_eq_closed.mp h
      obtain ⟨body, rfl⟩ := ih hinner
      exact ⟨c :: body, rfl⟩

theorem string_shape (h : string text = some (token, left)) :
    ∃ body, token = '"' :: (body ++ ['"']) := by
  have hclosed := quoted_of_string h
  unfold quoted at hclosed
  split at hclosed
  · obtain ⟨inner, hinner, rfl⟩ := Quoted.consume_eq_closed.mp hclosed
    obtain ⟨body, rfl⟩ := quotedBody_shape hinner
    exact ⟨body, rfl⟩
  · cases hclosed

end Strings

section Written

variable {unit : TimeUnit} {digits space name : List Char}

/-- A written amount is cut off in front of any boundary. -/
theorem amountWithUnit_written (hdigits : IsDigits digits) (hne : space ≠ []) (hspace : IsGap space)
    (hname : name ∈ unit.spellings) (behind : List Char) (hbehind : Stops isWordChar behind) :
    amountWithUnit (digits ++ space ++ name ++ behind)
      = some (unit, digits ++ space ++ name, behind) := by
  have hall : ∀ unit ∈ TimeUnit.all, ∀ name ∈ unit.spellings, name.all isWordChar = true :=
    by decide
  have hword := List.all_eq_true.mp (hall unit unit.mem_all name hname)
  exact amountWithUnit_parts hdigits.ne_nil hdigits.digits hne hspace hword
    (TimeUnit.ofWord?_of_mem_spellings hname) behind hbehind

/-- Written amounts begin with the first of them. -/
theorem WritesAmounts.first {amount : TimeUnit × Nat} {more : List (TimeUnit × Nat)}
    {text rest : List Char} (h : WritesAmounts (amount :: more) text)
    (hrest : Stops isWordChar rest) : leadingUnit (text ++ rest) = some amount.1 := by
  cases h with
  | last hdigits hne hspace hname =>
      have hamount := amountWithUnit_written hdigits hne hspace hname rest hrest
      rw [leadingUnit, hamount, Option.map_some]
  | @more unit digits space name between text amounts hdigits hne hspace hname hbetween hgap _ =>
      have hamount := amountWithUnit_written hdigits hne hspace hname (between ++ (text ++ rest))
        (stops_word_of_gap hbetween hgap _)
      rw [List.append_assoc, List.append_assoc, leadingUnit, hamount, Option.map_some]

/-- What is taken when amounts in some units may go on a token over the gap behind it. -/
def furtherIn (units : List TimeUnit) (token rest : List Char) : List Char × List Char :=
  match amountsIn units (afterGap rest) with
  | some (more, left) => (token ++ gap rest ++ more, left)
  | none => (token, rest)

theorem furtherIn_append (units : List TimeUnit) (front token rest : List Char) :
    furtherIn units (front ++ token) rest
      = (front ++ (furtherIn units token rest).1, (furtherIn units token rest).2) := by
  unfold furtherIn
  split <;> simp

/-- An amount in the largest unit is gone on with amounts in the smaller ones. -/
theorem amountsIn_cons {unit : TimeUnit} {smaller : List TimeUnit} {text token rest : List Char}
    (hamount : amountWithUnit text = some (unit, token, rest)) :
    amountsIn (unit :: smaller) text = some (furtherIn smaller token rest) := by
  unfold furtherIn
  cases hmore : amountsIn smaller (afterGap rest) with
  | none => exact amountsIn_ends hamount hmore
  | some cut =>
      obtain ⟨more, left⟩ := cut
      have hspace : gap rest ≠ [] := by
        intro hgap
        rw [amountsIn_of_gap (stops_of_amountWithUnit hamount) hgap] at hmore
        cases hmore
      have hcut : more ++ left = afterGap rest := amountsIn_lossless smaller hmore
      rw [← gap_append_afterGap rest, ← hcut] at hamount
      rw [← hcut] at hmore
      exact amountsIn_goesOn hspace (isGap_gap rest) hamount hmore

/-- Amounts that are written in the order of their units are taken as a whole, and gone on with what
follows them in the units that may still come. -/
theorem WritesAmounts.amountsIn_append {units : List TimeUnit} {amounts : List (TimeUnit × Nat)}
    {text rest : List Char} (h : WritesAmounts amounts text)
    (hunits : (amounts.map Prod.fst).Sublist units) (hrest : Stops isWordChar rest) :
    ∃ smaller : List TimeUnit,
      (∀ later, later ∈ smaller ↔ (amounts.map Prod.fst ++ [later]).Sublist units) ∧
        amountsIn units (text ++ rest) = some (furtherIn smaller text rest) := by
  induction units generalizing amounts text with
  | nil =>
      rw [List.sublist_nil, List.map_eq_nil_iff] at hunits
      subst hunits
      cases h
  | cons unit smaller ih =>
      cases amounts with
      | nil => cases h
      | cons amount others =>
          by_cases hunit : amount.1 = unit
          · subst hunit
            have hsmaller := List.cons_sublist_cons.mp hunits
            cases h with
            | last hdigits hne hspace hname =>
                have hamount := amountWithUnit_written hdigits hne hspace hname rest hrest
                exact ⟨smaller, by simp, amountsIn_cons hamount⟩
            | @more unit digits space name between text amounts hdigits hne hspace hname hbetween
                hgap hmore =>
                obtain ⟨behind, hbehind, htaken⟩ := ih hmore hsmaller
                have hamount := amountWithUnit_written hdigits hne hspace hname
                  (between ++ (text ++ rest)) (stops_word_of_gap hbetween hgap _)
                have hcut := amountsIn_lossless smaller htaken
                rw [← hcut] at hamount htaken
                refine ⟨behind, by simpa using hbehind, ?_⟩
                rw [List.append_assoc, List.append_assoc, ← hcut, furtherIn_append]
                exact amountsIn_goesOn hbetween hgap hamount htaken
          · have hfirst := h.first hrest
            obtain ⟨behind, hbehind, htaken⟩ := ih h (List.Sublist.of_cons_of_ne hunit hunits)
            refine ⟨behind, ?_, ?_⟩
            · intro later
              rw [hbehind]
              exact ⟨List.Sublist.cons unit, List.Sublist.of_cons_of_ne hunit⟩
            · refine amountsIn_of_amounts (.skips ?_ htaken)
              simpa [hfirst] using hunit

/-- Amounts that are written in the order of their units are one duration. -/
theorem amountsIn_written {units : List TimeUnit} {amounts : List (TimeUnit × Nat)}
    {text : List Char} (h : WritesAmounts amounts text)
    (hunits : (amounts.map Prod.fst).Sublist units) : amountsIn units text = some (text, []) := by
  have hend : Stops isWordChar [] := nofun
  obtain ⟨smaller, -, htaken⟩ := h.amountsIn_append hunits hend
  have hnone : amountsIn smaller (afterGap []) = none := amountsIn_eq_none rfl smaller
  rwa [List.append_nil, furtherIn, hnone] at htaken

end Written
end TypedConfig.Token
