import TypedConfig.Proofs.Document.Ending
import TypedConfig.Proofs.Literal.Agreement
import TypedConfig.Proofs.Period.Iso

/-!
Durations in words in front of any text.  A duration is read as far as its amounts go from larger to
smaller units, with nothing but gaps between them, and it is decoded as the amounts that are
written.
-/

namespace TypedConfig

open Token (IsDigits IsGap Stops WritesAmounts)

namespace Token

/-- A text goes on with an amount in a unit: behind a gap stand digits, another gap and a word for
the unit, which ends there. -/
inductive Continues (unit : TimeUnit) : List Char → Prop
  | amount {space digits between name behind : List Char} :
      space ≠ [] → IsGap space → IsDigits digits → between ≠ [] → IsGap between →
        name ∈ unit.spellings → Stops isWordChar behind →
          Continues unit (space ++ (digits ++ between ++ name ++ behind))

section Continuing

variable {text rest token left : List Char} {unit : TimeUnit} {units : List TimeUnit}

theorem stops_gap_of_digits {digits : List Char} (h : IsDigits digits) (behind : List Char) :
    Stops isGap (digits ++ behind) :=
  stops_gap_of_word h.ne_nil (fun c hc => isWordChar_of_isDigit (h.digits c hc)) behind

theorem leadingUnit_of_continues (h : Continues unit rest) :
    leadingUnit (afterGap rest) = some unit := by
  cases h with
  | @amount space digits between name behind _ hspace hdigits hne hbetween hname hbehind =>
      have hafter : afterGap (space ++ (digits ++ between ++ name ++ behind))
          = digits ++ between ++ name ++ behind := by
        apply dropWhile_run hspace
        simpa using stops_gap_of_digits hdigits (between ++ (name ++ behind))
      rw [hafter, leadingUnit, amountWithUnit_written hdigits hne hbetween hname behind hbehind,
        Option.map_some]

/-- At a boundary the text goes on with the amount that is behind the gap there. -/
theorem continues_iff (hrest : Stops isWordChar rest) :
    Continues unit rest ↔ leadingUnit (afterGap rest) = some unit := by
  refine ⟨leadingUnit_of_continues, ?_⟩
  intro h
  obtain ⟨⟨found, token, left⟩, hamount, rfl⟩ := Option.map_eq_some_iff.mp h
  obtain ⟨digits, between, name, hdigits, hne, hbetween, hname, rfl⟩ := amountWithUnit_shape hamount
  have hspace : gap rest ≠ [] := by
    intro hgap
    have hnone := amountsIn_of_gap hrest hgap [found]
    rw [amountsIn_cons hamount] at hnone
    cases hnone
  have hcut := amountWithUnit_lossless hamount
  have hsplit := gap_append_afterGap rest
  rw [← hcut] at hsplit
  rw [← hsplit]
  exact .amount hspace (isGap_gap rest) hdigits hne hbetween hname (stops_of_amountWithUnit hamount)

theorem literal_of_simpleDuration (h : simpleDuration text = some (token, left)) :
    literal text = some (.duration .simple, token, left) := by
  rw [(literal_of_digits (simpleDuration_digits h)).2]
  simp [alternatives, firstMatch, h]

/-- A token ends where no amount in one of the units follows. -/
theorem furtherIn_ends (h : ∀ unit ∈ units, leadingUnit (afterGap rest) ≠ some unit) :
    furtherIn units token rest = (token, rest) := by
  rw [furtherIn, amountsIn_eq_none_iff.mpr h]

/-- A token goes on where an amount in one of the units follows. -/
theorem furtherIn_goesOn (hunit : unit ∈ units) (h : leadingUnit (afterGap rest) = some unit) :
    ∃ more left, more ≠ [] ∧ rest = more ++ left ∧
      furtherIn units token rest = (token ++ more, left) := by
  cases hmore : amountsIn units (afterGap rest) with
  | none => exact absurd h (amountsIn_eq_none_iff.mp hmore unit hunit)
  | some cut =>
      obtain ⟨more, left⟩ := cut
      refine ⟨gap rest ++ more, left, ?_, ?_, ?_⟩
      · exact List.append_ne_nil_of_right_ne_nil _ (opens_amountsIn hmore).ne_nil
      · rw [List.append_assoc, amountsIn_lossless units hmore, gap_append_afterGap]
      · simp only [furtherIn, hmore, List.append_assoc]

end Continuing

end Token

/-- What is written in words is decoded as a period with these amounts. -/
theorem Literal.decodeAs_written {amounts : List (TimeUnit × Nat)} {text : List Char}
    (hwritten : WritesAmounts amounts text) (horder : (amounts.map Prod.fst).Sublist TimeUnit.all)
    (hwithin : ∀ amount ∈ amounts, amount.2 ≤ Period.amountLimit) :
    ∃ period, decodeAs (.duration .simple) (String.ofList text) = .ok (.duration period) ∧
      period.Holds amounts := by
  have hwords := Period.ofWords?_eq hwritten horder
  rw [if_pos hwithin] at hwords
  refine ⟨_, ?_, Period.holds_setAll (horder.nodup (by decide)) hwithin⟩
  simp only [decodeAs, decodeDuration?, String.toList_ofList, hwords]

/-- Amounts in words, from larger to strictly smaller units, are read in front of a boundary as one
duration, and decoded as these amounts.  The duration ends behind them unless an amount in a still
smaller unit follows; then it goes on.  An amount in a unit that is larger or the same ends it. -/
theorem Document.readLiteral_amounts {amounts : List (TimeUnit × Nat)} {text rest : List Char}
    (hwritten : WritesAmounts amounts text) (horder : (amounts.map Prod.fst).Sublist TimeUnit.all)
    (hwithin : ∀ amount ∈ amounts, amount.2 ≤ 9223372036854775807)
    (hrest : Stops Token.isWordChar rest) (place : Text.Place) :
    (∃ period, Literal.decodeAs (.duration .simple) (String.ofList text) = .ok (.duration period) ∧
      period.Holds amounts) ∧
    ((∀ later, (amounts.map Prod.fst ++ [later]).Sublist TimeUnit.all → ¬Token.Continues later rest) →
      readLiteral ⟨text ++ rest, place⟩ = .found (.literal ⟨.duration .simple, String.ofList text,
        .between place (place.afterAll text)⟩) ⟨rest, place.afterAll text⟩) ∧
    (∀ later, (amounts.map Prod.fst ++ [later]).Sublist TimeUnit.all → Token.Continues later rest →
      ∃ more left, more ≠ [] ∧ rest = more ++ left ∧
        readLiteral ⟨text ++ rest, place⟩
          = .found (.literal ⟨.duration .simple, String.ofList (text ++ more),
              .between place (place.afterAll (text ++ more))⟩) ⟨left, place.afterAll (text ++ more)⟩) ∧
    (∀ other, ¬(amounts.map Prod.fst ++ [other]).Sublist TimeUnit.all → Token.Continues other rest →
      readLiteral ⟨text ++ rest, place⟩ = .found (.literal ⟨.duration .simple, String.ofList text,
        .between place (place.afterAll text)⟩) ⟨rest, place.afterAll text⟩) := by
  obtain ⟨smaller, hsmaller, htaken⟩ := hwritten.amountsIn_append horder hrest
  have hends : (∀ later, (amounts.map Prod.fst ++ [later]).Sublist TimeUnit.all →
      ¬Token.Continues later rest) →
      readLiteral ⟨text ++ rest, place⟩ = .found (.literal ⟨.duration .simple, String.ofList text,
        .between place (place.afterAll text)⟩) ⟨rest, place.afterAll text⟩ := by
    intro hnone
    have hfurther : Token.furtherIn smaller text rest = (text, rest) := by
      apply Token.furtherIn_ends
      intro unit hunit hleading
      exact hnone unit ((hsmaller unit).mp hunit) ((Token.continues_iff hrest).mpr hleading)
    rw [hfurther] at htaken
    exact readLiteral_of_literal (Token.literal_of_simpleDuration htaken)
  refine ⟨Literal.decodeAs_written hwritten horder hwithin, hends, ?_, ?_⟩
  · intro later hlater hcontinues
    obtain ⟨more, left, hne, hcut, hfurther⟩ := Token.furtherIn_goesOn ((hsmaller later).mpr hlater)
      (Token.leadingUnit_of_continues hcontinues)
    rw [hfurther] at htaken
    exact ⟨more, left, hne, hcut, readLiteral_of_literal (Token.literal_of_simpleDuration htaken)⟩
  · intro other hother hcontinues
    apply hends
    intro later hlater hlaterContinues
    have hsame := (Token.leadingUnit_of_continues hlaterContinues).symm.trans
      (Token.leadingUnit_of_continues hcontinues)
    exact hother (Option.some.inj hsame ▸ hlater)

/-- An hour and a half ends in front of two more hours, and goes on with seconds. -/
theorem halfPastOne_amounts :
    (∃ period, Literal.decodeAs (.duration .simple) "1 hour\t030 minutes" = .ok (.duration period) ∧
      period.Holds [(.hours, 1), (.minutes, 30)]) ∧
    Document.readLiteral ⟨"1 hour\t030 minutes 2 hours".toList, .start⟩
      = .found (.literal ⟨.duration .simple, "1 hour\t030 minutes", ⟨0, 18, 1, 1⟩⟩)
          ⟨" 2 hours".toList, ⟨18, 1, 19⟩⟩ ∧
    ∃ more left, more ≠ [] ∧ " 5 seconds,".toList = more ++ left ∧
      Document.readLiteral ⟨"1 hour\t030 minutes 5 seconds,".toList, .start⟩
        = .found (.literal ⟨.duration .simple, String.ofList ("1 hour\t030 minutes".toList ++ more),
            .between .start (Text.Place.start.afterAll ("1 hour\t030 minutes".toList ++ more))⟩)
          ⟨left, Text.Place.start.afterAll ("1 hour\t030 minutes".toList ++ more)⟩ := by
  have hblank : IsGap " ".toList := List.forall_mem_singleton.mpr (by decide)
  have htab : IsGap "\t".toList := List.forall_mem_singleton.mpr (by decide)
  have hdigits : ∀ {digits : List Char}, digits ≠ [] → digits.all Char.isDigit = true →
      IsDigits digits := fun hne hall => ⟨hne, List.all_eq_true.mp hall⟩
  have hminutes : WritesAmounts [(.minutes, 30)] "030 minutes".toList :=
    @WritesAmounts.last .minutes "030".toList " ".toList "minutes".toList
      (hdigits (by decide) (by decide)) (by decide) hblank (by decide)
  have hwritten : WritesAmounts [(.hours, 1), (.minutes, 30)] "1 hour\t030 minutes".toList :=
    @WritesAmounts.more .hours "1".toList " ".toList "hour".toList "\t".toList _ _
      (hdigits (by decide) (by decide)) (by decide) hblank (by decide) (by decide) htab hminutes
  have hhours : Token.Continues .hours " 2 hours".toList :=
    @Token.Continues.amount .hours " ".toList "2".toList " ".toList "hours".toList []
      (by decide) hblank (hdigits (by decide) (by decide)) (by decide) hblank (by decide) nofun
  have hseconds : Token.Continues .seconds " 5 seconds,".toList :=
    @Token.Continues.amount .seconds " ".toList "5".toList " ".toList "seconds".toList ",".toList
      (by decide) hblank (hdigits (by decide) (by decide)) (by decide) hblank (by decide)
      (by rintro _ ⟨⟩; decide)
  have hspace : Stops Token.isWordChar " 2 hours".toList := by rintro _ ⟨⟩; decide
  have hbehind : Stops Token.isWordChar " 5 seconds,".toList := by rintro _ ⟨⟩; decide
  obtain ⟨hdecode, -, -, hends⟩ :=
    Document.readLiteral_amounts hwritten (by decide) (by decide) hspace .start
  obtain ⟨-, -, hgoesOn, -⟩ :=
    Document.readLiteral_amounts hwritten (by decide) (by decide) hbehind .start
  exact ⟨hdecode, hends .hours (by decide) hhours, hgoesOn .seconds (by decide) hseconds⟩

end TypedConfig
