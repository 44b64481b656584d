import TypedConfig.Proofs.Literal.Duration
import TypedConfig.Proofs.Token.Steady

/-!
How scalars are written.  A string is quoted, a number is written in decimal, a long with its
suffix, and a duration as its amounts in words.  What is written is a whole token of its kind, and
it is decoded to the scalar.
-/

namespace TypedConfig

open Token (IsDigits IsToken WritesAmounts Suffixed Numeral)

theorem Text.isDigits_ofNat (n : Nat) : IsDigits (Text.ofNat n) :=
  ⟨Nat.toDigits_ne_nil, fun _ hc => Nat.isDigit_of_mem_toDigits (by decide) (by decide) hc⟩

/-- The decimal text of a number that is not negative. -/
theorem Text.ofInt_eq {value : Int} (h : 0 ≤ value) :
    Text.ofInt value = Text.ofNat value.toNat := by
  obtain ⟨n, rfl⟩ := Int.eq_ofNat_of_zero_le h
  rfl

namespace Period

variable {period : Period} {unit : TimeUnit}

/-- The amounts of a period that are not zero, in the order of their units. -/
def amounts (period : Period) : List (TimeUnit × Nat) :=
  (TimeUnit.all.filter fun unit => period.amount unit != 0).map fun unit =>
    (unit, (period.amount unit).toInt.toNat)

theorem units_amounts (period : Period) :
    period.amounts.map Prod.fst = TimeUnit.all.filter fun unit => period.amount unit != 0 := by
  rw [amounts, List.map_map]
  exact List.map_id' _

theorem units_amounts_sublist (period : Period) :
    (period.amounts.map Prod.fst).Sublist TimeUnit.all := by
  rw [units_amounts]
  exact List.filter_sublist

theorem mem_units_amounts : unit ∈ period.amounts.map Prod.fst ↔ period.amount unit ≠ 0 := by
  rw [units_amounts, List.mem_filter, bne_iff_ne]
  exact and_iff_right unit.mem_all

/-- A period is put together again from its amounts. -/
theorem setAll_amounts (h : ∀ unit, 0 ≤ (period.amount unit).toInt) :
    zero.setAll period.amounts = period := by
  apply ext_amount
  intro unit
  by_cases hunit : period.amount unit = 0
  · rw [amount_setAll_of_not_mem zero (mt mem_units_amounts.mp (not_not.mpr hunit)), hunit]
    cases unit <;> rfl
  · have hmem : (unit, (period.amount unit).toInt.toNat) ∈ period.amounts := by
      apply List.mem_map_of_mem
      rw [List.mem_filter, bne_iff_ne]
      exact ⟨unit.mem_all, hunit⟩
    have hnodup : (period.amounts.map Prod.fst).Nodup :=
      (units_amounts_sublist period).nodup (by decide)
    rw [amount_setAll_of_mem zero hnodup hmem, ← Int64.ofInt_eq_ofNat, Int.toNat_of_nonneg (h unit),
      Int64.ofInt_toInt]

theorem amounts_le : ∀ amount ∈ period.amounts, amount.2 ≤ amountLimit := by
  intro amount hamount
  obtain ⟨unit, -, rfl⟩ := List.mem_map.mp hamount
  have hle := (period.amount unit).toInt_le
  exact Int.toNat_le.mpr hle

theorem eq_zero_of_amounts_eq_nil (h : period.amounts = []) : period = zero := by
  apply ext_amount
  intro unit
  have hnot : unit ∉ period.amounts.map Prod.fst := by simp [h]
  rw [mem_units_amounts, not_not] at hnot
  rw [hnot]
  cases unit <;> rfl

/-- Amounts in words, with a space in front of each word and between the amounts. -/
theorem exists_writesAmounts {amounts : List (TimeUnit × Nat)} (hne : amounts ≠ []) :
    ∃ text, WritesAmounts amounts text := by
  have hgap : Token.IsGap [' '] := by
    intro c hc
    rw [List.mem_singleton] at hc
    subst hc
    decide
  induction amounts with
  | nil => exact absurd rfl hne
  | cons amount others ih =>
      obtain ⟨unit, value⟩ := amount
      have hdigits := Text.isDigits_ofNat value
      obtain ⟨name, hname⟩ : ∃ name, name ∈ unit.spellings := by
        cases unit <;> exact ⟨_, List.mem_cons_self⟩
      cases others with
      | nil =>
          have hlast := WritesAmounts.last hdigits (List.cons_ne_nil _ _) hgap hname
          rw [Text.decimalValue_ofNat] at hlast
          exact ⟨_, hlast⟩
      | cons next more =>
          obtain ⟨text, hmore⟩ := ih (List.cons_ne_nil _ _)
          have hwhole := WritesAmounts.more hdigits (List.cons_ne_nil _ _) hgap hname
            (List.cons_ne_nil _ _) hgap hmore
          rw [Text.decimalValue_ofNat] at hwhole
          exact ⟨_, hwhole⟩

end Period

/-- How a scalar is written, and as a literal of which kind.  A period is written as those of its
amounts that are not zero, in words, unless all are zero. -/
inductive Scalar.WrittenAs : Scalar → LiteralKind → List Char → Prop
  | string (text : String) : WrittenAs (.string text) .string (Token.quote text.toList)
  | integer {value : Int32} : 0 ≤ value.toInt →
      WrittenAs (.integer value) .integer (Text.ofInt value.toInt)
  | long {value : Int64} : 0 ≤ value.toInt →
      WrittenAs (.long value) .long (Text.ofInt value.toInt ++ ['L'])
  | yes : WrittenAs (.boolean true) .boolean "true".toList
  | no : WrittenAs (.boolean false) .boolean "false".toList
  | noTime : WrittenAs (.duration .zero) (.duration .iso8601) "PT0S".toList
  | duration {period : Period} {text : List Char} : (∀ unit, 0 ≤ (period.amount unit).toInt) →
      WritesAmounts period.amounts text → WrittenAs (.duration period) (.duration .simple) text

namespace Token

variable {token : List Char}

theorem isToken_quote (text : List Char) : IsToken .string (quote text) := by
  refine ⟨string, by simp [alternatives], ?_⟩
  have hquoted := quoted_quote text []
  rw [List.append_nil] at hquoted
  exact string_of_quoted hquoted

theorem isToken_long {digits : List Char} (h : IsDigits digits) :
    IsToken .long (digits ++ ['L']) := by
  refine ⟨long, by simp [alternatives], ?_⟩
  have hstops : Stops Char.isDigit ['L'] := stops_cons (by decide)
  have hsuffix : withSuffix [['l'], ['L']] digits ['L'] = some (digits ++ [] ++ ['L'], []) := rfl
  rw [List.append_nil] at hsuffix
  simp [long, Token.digits, afterDigits, takeWhile_run h.digits hstops,
    dropWhile_run h.digits hstops, h.ne_nil, hsuffix]

theorem isToken_amounts {amounts : List (TimeUnit × Nat)} (h : WritesAmounts amounts token)
    (hunits : (amounts.map Prod.fst).Sublist TimeUnit.all) :
    IsToken (.duration .simple) token :=
  ⟨simpleDuration, by simp [alternatives], amountsIn_written h hunits⟩

end Token

namespace Literal

theorem value_ofDigits (n : Nat) : (Numeral.ofDigits (Text.isDigits_ofNat n)).value = n := by
  rw [Numeral.value, Numeral.ofDigits, List.append_nil, Text.decimalValue_ofNat]

theorem decodeInteger?_written {value : Int32} (h : 0 ≤ value.toInt) :
    decodeInteger? (Text.ofInt value.toInt) = some value := by
  have hlimit : value.toInt.toNat ≤ integerLimit := Int.toNat_le.mpr value.toInt_le
  have hdecode : decodeInteger? (Text.ofNat value.toInt.toNat) = _ :=
    decodeInteger?_eq (n := .ofDigits (Text.isDigits_ofNat value.toInt.toNat)) rfl rfl
  rw [Text.ofInt_eq h, hdecode, value_ofDigits, if_pos hlimit, ← Int32.ofInt_eq_ofNat,
    Int.toNat_of_nonneg h, Int32.ofInt_toInt]

theorem decodeLong?_written {value : Int64} (h : 0 ≤ value.toInt) :
    decodeLong? (Text.ofInt value.toInt ++ ['L']) = some value := by
  have hlimit : value.toInt.toNat ≤ longLimit := Int.toNat_le.mpr value.toInt_le
  have hsuffix : Suffixed [['l'], ['L']] (Text.ofNat value.toInt.toNat)
      (Text.ofNat value.toInt.toNat ++ ['L']) :=
    ⟨[], ['L'], List.forall_mem_nil _, by decide, by rw [List.append_nil]⟩
  have hdecode : decodeLong? (Text.ofNat value.toInt.toNat ++ ['L']) = _ :=
    decodeLong?_eq (n := .ofDigits (Text.isDigits_ofNat value.toInt.toNat)) rfl hsuffix
  rw [Text.ofInt_eq h, hdecode, value_ofDigits, if_pos hlimit, ← Int64.ofInt_eq_ofNat,
    Int.toNat_of_nonneg h, Int64.ofInt_toInt]

end Literal

namespace Scalar.WrittenAs

variable {scalar : Scalar} {kind : LiteralKind} {token : List Char}

/-- What a scalar is written as is one whole token. -/
theorem isToken (h : scalar.WrittenAs kind token) : IsToken kind token := by
  cases h with
  | string text => exact Token.isToken_quote text.toList
  | @integer value hvalue =>
      rw [Text.ofInt_eq hvalue]
      have hdigits := Text.isDigits_ofNat value.toInt.toNat
      exact Token.isToken_digits hdigits.ne_nil hdigits.digits
  | @long value hvalue =>
      rw [Text.ofInt_eq hvalue]
      exact Token.isToken_long (Text.isDigits_ofNat value.toInt.toNat)
  | yes => exact ⟨Token.boolean, by simp [Token.alternatives], by decide⟩
  | no => exact ⟨Token.boolean, by simp [Token.alternatives], by decide⟩
  | noTime => exact ⟨Token.isoDuration, by simp [Token.alternatives], by decide⟩
  | @duration period _ _ hamounts =>
      exact Token.isToken_amounts hamounts period.units_amounts_sublist

/-- What a scalar is written as is decoded to the scalar. -/
theorem decodeAs_eq (h : scalar.WrittenAs kind token) :
    Literal.decodeAs kind (String.ofList token) = .ok scalar := by
  cases h with
  | string text =>
      simp only [Literal.decodeAs, String.toList_ofList, Token.decodeString_quote,
        String.ofList_toList]
  | integer hvalue =>
      simp only [Literal.decodeAs, String.toList_ofList, Literal.decodeInteger?_written hvalue,
        Literal.numberOr]
  | long hvalue =>
      simp only [Literal.decodeAs, String.toList_ofList, Literal.decodeLong?_written hvalue,
        Literal.numberOr]
  | yes => rfl
  | no => rfl
  | noTime => rfl
  | @duration period _ hperiod hamounts =>
      have hwords := Period.ofWords?_eq hamounts period.units_amounts_sublist
      rw [if_pos Period.amounts_le, Period.setAll_amounts hperiod] at hwords
      simp only [Literal.decodeAs, String.toList_ofList, Literal.decodeDuration?, hwords]

end Scalar.WrittenAs

end TypedConfig
