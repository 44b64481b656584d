import TypedConfig.Proofs.Literal.Agreement
import TypedConfig.Proofs.Literal.Written
import TypedConfig.Proofs.Period.Iso

/-!
What the ISO text of a period says.  The text is always one of the grammar, and it shows every
amount as it is, milliseconds apart: these are shown as the fraction of a second, so a thousand of
them or more are read back as fewer.
-/

namespace TypedConfig

namespace Period

/-- The amount of a unit as a text shows it, unless it is zero. -/
def shown (unit : TimeUnit) (amount : Int64) : List (TimeUnit × Nat) :=
  if amount = 0 then [] else [(unit, amount.toInt.toNat)]

/-- The milliseconds that are read back from the fraction of a second. -/
def shownMillis (millis : Int64) : Nat := millisOf (Text.ofIntPadded 3 millis.toInt)

/-- The seconds and milliseconds that the text of a period shows. -/
def shownSeconds (period : Period) : List (TimeUnit × Nat) :=
  if period.millis = 0 then shown .seconds period.seconds
  else [(.seconds, period.seconds.toInt.toNat), (.millis, shownMillis period.millis)]

/-- The amounts of some units as a text shows them. -/
def shownAmounts (period : Period) (units : List TimeUnit) : List (TimeUnit × Nat) :=
  units.flatMap fun unit => shown unit (period.amount unit)

/-- The period that is read back from the text of a period. -/
def readBack (period : Period) : Period :=
  { period with millis := if period.millis = 0 then 0 else Int64.ofNat (shownMillis period.millis) }

section Millis

/-- Up to three digits are filled up to three, and more of them are left alone. -/
theorem millisOf_ofIntPadded (n : Nat) :
    millisOf (Text.ofIntPadded 3 (Int.ofNat n))
      = Text.decimalValue ((List.replicate (3 - (Text.ofNat n).length) '0' ++ Text.ofNat n).take 3) := by
  have hlong : 3 ≤ (List.replicate (3 - (Text.ofNat n).length) '0' ++ Text.ofNat n).length := by
    rw [List.length_append, List.length_replicate]
    omega
  rw [Text.ofIntPadded, millisOf, List.take_append_of_le_length hlong]

theorem isDigit_padded (n : Nat) : ∀ c ∈ Text.ofIntPadded 3 (Int.ofNat n), c.isDigit = true := by
  intro c hc
  rcases List.mem_append.mp hc with hzero | hdigit
  · rw [List.eq_of_mem_replicate hzero]
    decide
  · exact (Text.isDigits_ofNat n).digits c hdigit

/-- The fraction of a second shows less than a thousand milliseconds as they are, and never more. -/
theorem millisOf_ofIntPadded_eq_iff (n : Nat) :
    millisOf (Text.ofIntPadded 3 (Int.ofNat n)) = n ↔ n < 1000 := by
  constructor
  · intro h
    exact h ▸ millisOf_lt (isDigit_padded n)
  · intro h
    have hshort : (Text.ofNat n).length ≤ 3 := by
      rw [Text.ofNat, Nat.length_toDigits_le_iff (by decide) (by decide)]
      exact h
    have hlength : (List.replicate (3 - (Text.ofNat n).length) '0' ++ Text.ofNat n).length = 3 := by
      rw [List.length_append, List.length_replicate]
      omega
    rw [millisOf_ofIntPadded, List.take_of_length_le hlength.le, decimalValue_append,
      Text.decimalValue_ofNat, Text.decimalValue, Nat.ofDigitChars_replicate_zero]
    simp

end Millis

section Written

variable {period : Period} {unit : TimeUnit} {amount : Int64}

theorem isAmount_amountText (h : 0 ≤ amount.toInt) :
    IsAmount (amountText amount) amount.toInt.toNat := by
  have hle := amount.toInt_le
  refine ⟨?_, ?_, Int.toNat_le.mpr hle⟩
  · rw [amountText, Text.ofInt_eq h]
    exact Text.isDigits_ofNat _
  · rw [amountText, Text.ofInt_eq h, Text.decimalValue_ofNat]

/-- A component that is not zero, in front of others. -/
theorem WritesComponents.component {designator : Char} {more : List (Char × TimeUnit)}
    {amounts : List (TimeUnit × Nat)} {text : List Char} (hamount : 0 ≤ amount.toInt)
    (h : WritesComponents more amounts text) :
    WritesComponents ((designator, unit) :: more) (shown unit amount ++ amounts)
      (componentText amount designator ++ text) := by
  unfold shown componentText
  split
  · exact .absent h
  · rw [List.append_assoc, List.singleton_append]
    exact .present (isAmount_amountText hamount) h

theorem writesSeconds_secondsText (hseconds : 0 ≤ period.seconds.toInt)
    (hmillis : 0 ≤ period.millis.toInt) :
    WritesSeconds period.shownSeconds period.secondsText := by
  unfold shownSeconds secondsText
  split
  · unfold shown componentText
    split
    · exact .absent
    · exact .whole (isAmount_amountText hseconds)
  · obtain ⟨n, hn⟩ := Int.eq_ofNat_of_zero_le hmillis
    refine .point (isAmount_amountText hseconds) ?_
    rw [hn]
    exact isDigit_padded n

theorem mem_shown {other : TimeUnit} {n : Nat} :
    (other, n) ∈ shown unit amount ↔ other = unit ∧ amount ≠ 0 ∧ n = amount.toInt.toNat := by
  unfold shown
  split <;> simp_all

theorem mem_shownAmounts {units : List TimeUnit} {n : Nat} :
    (unit, n) ∈ period.shownAmounts units ↔
      unit ∈ units ∧ period.amount unit ≠ 0 ∧ n = (period.amount unit).toInt.toNat := by
  simp only [shownAmounts, List.mem_flatMap, mem_shown]
  constructor
  · rintro ⟨other, hmem, rfl, h⟩
    exact ⟨hmem, h⟩
  · rintro ⟨hmem, h⟩
    exact ⟨unit, hmem, rfl, h⟩

theorem mem_shownSeconds {n : Nat} (h : (unit, n) ∈ period.shownSeconds) :
    (unit = .seconds ∧ n = period.seconds.toInt.toNat) ∨
      (unit = .millis ∧ period.millis ≠ 0 ∧ n = shownMillis period.millis) := by
  unfold shownSeconds at h
  split at h
  · obtain ⟨hunit, -, hn⟩ := mem_shown.mp h
    exact .inl ⟨hunit, hn⟩
  · rename_i hmillis
    simp only [List.mem_cons, Prod.mk.injEq, List.not_mem_nil, or_false] at h
    exact h.imp_right fun hpair => ⟨hpair.1, hmillis, hpair.2⟩

theorem mem_shownSeconds_of_ne (h : period.seconds ≠ 0) :
    (.seconds, period.seconds.toInt.toNat) ∈ period.shownSeconds := by
  unfold shownSeconds
  split
  · exact mem_shown.mpr ⟨rfl, h, rfl⟩
  · exact List.mem_cons_self

/-- All amounts that the text of a period shows. -/
def isoAmounts (period : Period) : List (TimeUnit × Nat) :=
  period.shownAmounts [.years, .months, .days]
    ++ (period.shownAmounts [.hours, .minutes] ++ period.shownSeconds)

/-- Every unit of which there is something is shown. -/
theorem mem_isoAmounts (h : period.amount unit ≠ 0) :
    unit ∈ period.isoAmounts.map Prod.fst := by
  have hshown : ∀ {units : List TimeUnit}, unit ∈ units →
      unit ∈ (period.shownAmounts units).map Prod.fst :=
    fun hunit => List.mem_map.mpr ⟨_, mem_shownAmounts.mpr ⟨hunit, h, rfl⟩, rfl⟩
  simp only [isoAmounts, List.map_append, List.mem_append]
  cases unit with
  | years => exact .inl (hshown (by decide))
  | months => exact .inl (hshown (by decide))
  | days => exact .inl (hshown (by decide))
  | hours => exact .inr (.inl (hshown (by decide)))
  | minutes => exact .inr (.inl (hshown (by decide)))
  | seconds =>
      exact .inr (.inr (List.mem_map.mpr ⟨_, mem_shownSeconds_of_ne h, rfl⟩))
  | millis =>
      have hmillis : period.millis ≠ 0 := h
      refine .inr (.inr ?_)
      simp [shownSeconds, hmillis]

theorem hasTime_of_shown
    (h : period.shownAmounts [.hours, .minutes] ++ period.shownSeconds ≠ []) :
    period.hasTime = true := by
  by_contra hnone
  simp only [hasTime, Bool.or_eq_true, bne_iff_ne, not_or, not_not] at hnone
  obtain ⟨⟨⟨hhours, hminutes⟩, hseconds⟩, hmillis⟩ := hnone
  exact h (by simp [shownAmounts, shownSeconds, shown, amount, hhours, hminutes, hseconds, hmillis])

theorem shown_of_hasTime (h : period.hasTime = true) :
    period.shownAmounts [.hours, .minutes] ++ period.shownSeconds ≠ [] := by
  simp only [hasTime, Bool.or_eq_true, bne_iff_ne] at h
  rw [ne_eq, List.append_eq_nil_iff, not_and_or]
  rcases h with ((hhours | hminutes) | hseconds) | hmillis
  · have hamount : period.amount .hours ≠ 0 := hhours
    exact .inl (List.ne_nil_of_mem (mem_shownAmounts.mpr ⟨by decide, hamount, rfl⟩))
  · have hamount : period.amount .minutes ≠ 0 := hminutes
    exact .inl (List.ne_nil_of_mem (mem_shownAmounts.mpr ⟨by decide, hamount, rfl⟩))
  · exact .inr (List.ne_nil_of_mem (mem_shownSeconds_of_ne hseconds))
  · exact .inr (by simp [shownSeconds, hmillis])

/-- A period that is not zero is written in ISO form, with the amounts that its text shows. -/
theorem writesIso_isoText (h : ∀ unit, 0 ≤ (period.amount unit).toInt) (hne : period ≠ zero) :
    WritesIso period.isoAmounts period.isoText := by
  have hdays : WritesComponents [('Y', .years), ('M', .months), ('D', .days)]
      (period.shownAmounts [.years, .months, .days]) (componentText period.years 'Y'
        ++ (componentText period.months 'M' ++ (componentText period.days 'D' ++ []))) :=
    .component (h .years) (.component (h .months) (.component (h .days) .done))
  have hhours : WritesComponents [('H', .hours), ('M', .minutes)]
      (period.shownAmounts [.hours, .minutes]) (componentText period.hours 'H'
        ++ (componentText period.minutes 'M' ++ [])) :=
    .component (h .hours) (.component (h .minutes) .done)
  have hseconds := writesSeconds_secondsText (h .seconds) (h .millis)
  have hzero : period.isZero = false := by simpa [isZero] using hne
  unfold isoText
  rw [hzero]
  cases htime : period.hasTime with
  | true =>
      have hwritten := WritesIso.time hdays hhours hseconds (shown_of_hasTime htime)
      simpa [timeText, isoAmounts] using hwritten
  | false =>
      have hnone : period.shownAmounts [.hours, .minutes] ++ period.shownSeconds = [] := by
        by_contra hshown
        simp [hasTime_of_shown hshown] at htime
      have hamounts : period.isoAmounts = period.shownAmounts [.years, .months, .days] := by
        rw [isoAmounts, hnone, List.append_nil]
      have hsome : period.isoAmounts ≠ [] := by
        intro hempty
        refine hne (ext_amount fun unit => ?_)
        by_contra hunit
        have hmem : period.amount unit ≠ 0 := by
          intro hzero
          exact hunit (hzero.trans (by cases unit <;> rfl))
        simpa [hempty] using mem_isoAmounts hmem
      rw [hamounts] at hsome ⊢
      have hwritten := WritesIso.date hdays hsome
      simpa using hwritten

/-- What the fraction of a second is read back as. -/
theorem shownMillis_lt (h : 0 ≤ period.millis.toInt) : shownMillis period.millis < 1000 := by
  obtain ⟨n, hn⟩ := Int.eq_ofNat_of_zero_le h
  rw [shownMillis, hn]
  exact millisOf_lt (isDigit_padded n)

theorem amount_readBack (h : unit ≠ .millis) :
    period.readBack.amount unit = period.amount unit := by
  cases unit <;> first | rfl | exact absurd rfl h

/-- What the text of a period shows are the amounts of what is read back. -/
theorem holds_isoAmounts (h : ∀ unit, 0 ≤ (period.amount unit).toInt) :
    period.readBack.Holds period.isoAmounts := by
  constructor
  · intro unit n hmem
    have hsame : unit ≠ .millis → n = (period.amount unit).toInt.toNat →
        (period.readBack.amount unit).toInt = n := by
      rintro hunit rfl
      rw [amount_readBack hunit, Int.toNat_of_nonneg (h unit)]
    rw [isoAmounts, List.mem_append, List.mem_append] at hmem
    rcases hmem with hmem | hmem | hmem
    · obtain ⟨hunit, -, hn⟩ := mem_shownAmounts.mp hmem
      exact hsame (by rintro rfl; simp at hunit) hn
    · obtain ⟨hunit, -, hn⟩ := mem_shownAmounts.mp hmem
      exact hsame (by rintro rfl; simp at hunit) hn
    · rcases mem_shownSeconds hmem with ⟨rfl, hn⟩ | ⟨rfl, hmillis, rfl⟩
      · exact hsame (by decide) hn
      · have hvalue : period.readBack.amount .millis = Int64.ofNat (shownMillis period.millis) :=
          if_neg hmillis
        rw [hvalue]
        exact Literal.toInt_int64 ((shownMillis_lt (h .millis)).le.trans (by decide))
  · intro unit hmem
    have hzero : period.amount unit = 0 := by
      by_contra hsome
      exact hmem (mem_isoAmounts hsome)
    by_cases hunit : unit = .millis
    · subst hunit
      exact if_pos hzero
    · rw [amount_readBack hunit, hzero]

/-- The text of a period without negative amounts is read, and only its milliseconds may differ. -/
theorem ofIso?_isoText (h : ∀ unit, 0 ≤ (period.amount unit).toInt) :
    ofIso? period.isoText = some period.readBack := by
  -- The text of zero shows an amount of zero, which no other text does.
  by_cases hzero : period = zero
  · subst hzero
    decide
  · exact ofIso?_eq_some_iff.mpr ⟨_, writesIso_isoText h hzero, holds_isoAmounts h⟩

/-- Milliseconds are read back as they are if there are less than a thousand of them. -/
theorem millis_readBack_eq_iff (h : 0 ≤ period.millis.toInt) :
    period.readBack.millis.toInt = period.millis.toInt ↔ period.millis.toInt < 1000 := by
  obtain ⟨n, hn⟩ := Int.eq_ofNat_of_zero_le h
  by_cases hzero : period.millis = 0
  · simp [readBack, hzero]
  · have hmillis : period.readBack.millis.toInt = millisOf (Text.ofIntPadded 3 (Int.ofNat n)) := by
      have hvalue : period.readBack.millis = Int64.ofNat (shownMillis period.millis) := if_neg hzero
      rw [hvalue, Literal.toInt_int64 ((shownMillis_lt h).le.trans (by decide)), shownMillis, hn]
      rfl
    have hiff := millisOf_ofIntPadded_eq_iff n
    rw [hmillis, hn]
    omega

end Written

end Period

/-- No amount of a literal in words is negative. -/
theorem Literal.amount_nonneg {leaf : Literal} (h : leaf.Agrees)
    (hkind : leaf.kind = .duration .simple) {period : Period}
    (hdecode : leaf.decode = .ok (.duration period)) (unit : TimeUnit) :
    0 ≤ (period.amount unit).toInt := by
  rw [Agrees, hkind] at h
  obtain ⟨amounts, -, -, hiff⟩ := h
  have hlimit : ∀ amount ∈ amounts, amount.2 ≤ 9223372036854775807 := by
    by_contra hover
    rw [hiff.refuses hover] at hdecode
    cases hdecode
  obtain ⟨scalar, hscalar, same, rfl, hwritten, habsent⟩ := hiff.decodes hlimit
  rw [hdecode] at hscalar
  cases hscalar
  have hholds : period.Holds amounts := ⟨hwritten, habsent⟩
  exact hholds.nonneg unit

/-- The ISO text of a period that a document gives in words is always decoded, as a period with the
same years, months, days, hours and minutes.  What it says of seconds and milliseconds together is
the same exactly if there are less than a thousand milliseconds. -/
theorem Document.parse_isoText {text : String} {document : Document}
    (h : Document.parse text = .ok document) {leaf : Literal} (hleaf : document.root.HasLiteral leaf)
    (hkind : leaf.kind = .duration .simple) {period : Period}
    (hdecode : leaf.decode = .ok (.duration period)) :
    ∃ read, Literal.decodeAs (.duration .iso8601) (String.ofList period.isoText)
        = .ok (.duration read) ∧
      read.years = period.years ∧ read.months = period.months ∧ read.days = period.days ∧
      read.hours = period.hours ∧ read.minutes = period.minutes ∧
      (1000 * read.seconds.toInt + read.millis.toInt
          = 1000 * period.seconds.toInt + period.millis.toInt ↔
        period.millis.toInt < 1000) := by
  obtain ⟨lead, body, trail, -, -, hwritten, -⟩ := Document.written_of_parse h
  obtain ⟨rest, hliteral⟩ := hleaf.style_literal hwritten
  have hnonneg := Literal.amount_nonneg (Literal.agrees_of_literal hliteral) hkind hdecode
  refine ⟨period.readBack, ?_, rfl, rfl, rfl, rfl, rfl, ?_⟩
  · simp only [Literal.decodeAs, Literal.decodeDuration?, String.toList_ofList,
      Period.ofIso?_isoText hnonneg]
  · have hseconds : period.readBack.seconds = period.seconds := rfl
    rw [hseconds, Int.add_right_inj]
    exact Period.millis_readBack_eq_iff (hnonneg .millis)

/-- A second and a half, and one with too many milliseconds for that. -/
def pauses : Document :=
  ⟨[⟨⟨"a", ⟨1, 2, 1, 2⟩⟩, .literal ⟨.duration .simple, "1 second 500 millis", ⟨3, 22, 1, 4⟩⟩,
      ⟨1, 22, 1, 2⟩⟩,
    ⟨⟨"b", ⟨23, 24, 1, 24⟩⟩, .literal ⟨.duration .simple, "1 second 1500 millis", ⟨25, 45, 1, 26⟩⟩,
      ⟨23, 45, 1, 24⟩⟩], ⟨0, 46, 1, 1⟩⟩

theorem pauses_isoText :
    Document.parse "\x7ba:1 second 500 millis,b:1 second 1500 millis\x7d" = .ok pauses ∧
      (∃ read, Literal.decodeAs (.duration .iso8601) "PT1.500S" = .ok (.duration read) ∧
        1000 * read.seconds.toInt + read.millis.toInt = 1500) ∧
      ∃ read, Literal.decodeAs (.duration .iso8601) "PT1.1500S" = .ok (.duration read) ∧
        1000 * read.seconds.toInt + read.millis.toInt ≠ 2500 := by
  have hparse : Document.parse "\x7ba:1 second 500 millis,b:1 second 1500 millis\x7d"
      = .ok pauses := rfl
  have hshort : Literal.decode ⟨.duration .simple, "1 second 500 millis", ⟨3, 22, 1, 4⟩⟩
      = .ok (.duration ⟨0, 0, 0, 0, 0, 1, 500⟩) := rfl
  have hlong : Literal.decode ⟨.duration .simple, "1 second 1500 millis", ⟨25, 45, 1, 26⟩⟩
      = .ok (.duration ⟨0, 0, 0, 0, 0, 1, 1500⟩) := rfl
  refine ⟨hparse, ?_, ?_⟩
  · obtain ⟨read, hread, -, -, -, -, -, hiff⟩ :=
      Document.parse_isoText hparse (.field List.mem_cons_self .literal) rfl hshort
    exact ⟨read, hread, hiff.mpr (by decide)⟩
  · obtain ⟨read, hread, -, -, -, -, -, hiff⟩ :=
      Document.parse_isoText hparse (.field (List.mem_cons_of_mem _ List.mem_cons_self) .literal)
        rfl hlong
    exact ⟨read, hread, mt hiff.mp (by decide)⟩

/-!
Where writing and reading a period in ISO form are inverse.  What is read never has a negative
amount, nor a full second of milliseconds, and these are exactly the periods whose text is read back
as they are.
-/

namespace Period

/-- A period as ISO texts give it: no amount is negative, and the milliseconds make no full second.
-/
structure IsNormal (period : Period) : Prop where
  nonneg : ∀ unit, 0 ≤ (period.amount unit).toInt
  millis : period.millis.toInt ≤ 999

section Milliseconds

variable {amounts : List (TimeUnit × Nat)} {text : List Char} {n : Nat}

theorem WritesSeconds.millis_lt (h : WritesSeconds amounts text) (hmem : (.millis, n) ∈ amounts) :
    n < 1000 := by
  cases h with
  | absent => exact absurd hmem List.not_mem_nil
  | whole _ => simp at hmem
  | @point digits fraction amount _ hfraction =>
      have hn : n = millisOf fraction := by simpa using hmem
      rw [hn]
      exact millisOf_lt hfraction

theorem WritesComponents.not_mem_millis {designators : List (Char × TimeUnit)}
    (h : WritesComponents designators amounts text)
    (hother : TimeUnit.millis ∉ designators.map Prod.snd) : (.millis, n) ∉ amounts :=
  fun hmem => hother (h.units.subset (List.mem_map_of_mem hmem))

/-- Milliseconds are written as the fraction of a second alone. -/
theorem WritesIso.millis_lt (h : WritesIso amounts text) (hmem : (.millis, n) ∈ amounts) :
    n < 1000 := by
  cases h with
  | date hdays _ => exact absurd hmem (hdays.not_mem_millis (by decide))
  | time hdays hhours hseconds _ =>
      rw [List.mem_append, List.mem_append] at hmem
      rcases hmem with hmem | hmem | hmem
      · exact absurd hmem (hdays.not_mem_millis (by decide))
      · exact absurd hmem (hhours.not_mem_millis (by decide))
      · exact hseconds.millis_lt hmem

end Milliseconds

section Normal

variable {period : Period} {text : List Char}

/-- What is read is normal. -/
theorem isNormal_of_ofIso? (h : ofIso? text = some period) : period.IsNormal := by
  obtain ⟨amounts, hwrites, hholds⟩ := ofIso?_eq_some_iff.mp h
  refine ⟨hholds.nonneg, ?_⟩
  by_cases hmillis : .millis ∈ amounts.map Prod.fst
  · obtain ⟨⟨_, n⟩, hmem, rfl⟩ := List.mem_map.mp hmillis
    have hvalue : period.millis.toInt = n := hholds.written _ _ hmem
    have hlt := hwrites.millis_lt hmem
    omega
  · have hvalue : period.millis = 0 := hholds.absent _ hmillis
    rw [hvalue]
    decide

theorem IsNormal.readBack_eq (h : period.IsNormal) : period.readBack = period := by
  apply ext_amount
  intro unit
  by_cases hunit : unit = .millis
  · subst hunit
    have hmillis : period.millis.toInt < 1000 := Int.lt_add_one_of_le h.millis
    exact Int64.toInt_inj.mp ((millis_readBack_eq_iff (h.nonneg .millis)).mpr hmillis)
  · exact amount_readBack hunit

/-- The text of a period is read as that period exactly if the period is normal. -/
theorem isNormal_iff : period.IsNormal ↔ ofIso? period.isoText = some period := by
  constructor
  · intro h
    rw [ofIso?_isoText h.nonneg, h.readBack_eq]
  · exact isNormal_of_ofIso?

end Normal

end Period

theorem Literal.decodeAs_iso_ok {text : String} {value : Scalar} :
    decodeAs (.duration .iso8601) text = .ok value ↔
      ∃ period, Period.ofIso? text.toList = some period ∧ value = .duration period := by
  cases hread : Period.ofIso? text.toList with
  | none => simp [decodeAs, decodeDuration?, hread]
  | some period => simp [decodeAs, decodeDuration?, hread, eq_comm]

/-- The ISO text of a period is decoded as that period exactly if no amount of it is negative and
its milliseconds make no full second.  Every period that is decoded from an ISO text is of this
kind, so writing it and decoding that gives it again. -/
theorem Literal.decodeAs_isoText :
    (∀ period : Period, period.IsNormal ↔
      decodeAs (.duration .iso8601) (String.ofList period.isoText) = .ok (.duration period)) ∧
    ∀ text value, decodeAs (.duration .iso8601) text = .ok value →
      ∃ period : Period, value = .duration period ∧ period.IsNormal ∧
        decodeAs (.duration .iso8601) (String.ofList period.isoText) = .ok value := by
  have hinverse : ∀ period : Period, period.IsNormal ↔
      decodeAs (.duration .iso8601) (String.ofList period.isoText) = .ok (.duration period) := by
    intro period
    rw [Period.isNormal_iff, decodeAs_iso_ok, String.toList_ofList]
    simp
  refine ⟨hinverse, ?_⟩
  intro text value h
  obtain ⟨period, hread, rfl⟩ := decodeAs_iso_ok.mp h
  have hnormal := Period.isNormal_of_ofIso? hread
  exact ⟨period, rfl, hnormal, (hinverse period).mp hnormal⟩

/-- A fraction that is longer than milliseconds, and leading zeros. -/
theorem longFraction_isoText :
    Literal.decodeAs (.duration .iso8601) "P007DT6.0259S"
        = .ok (.duration ⟨0, 0, 7, 0, 0, 6, 25⟩) ∧
      (⟨0, 0, 7, 0, 0, 6, 25⟩ : Period).IsNormal ∧
      Literal.decodeAs (.duration .iso8601) "P7DT6.025S"
        = .ok (.duration ⟨0, 0, 7, 0, 0, 6, 25⟩) := by
  have hdecode : Literal.decodeAs (.duration .iso8601) "P007DT6.0259S"
      = .ok (.duration ⟨0, 0, 7, 0, 0, 6, 25⟩) := rfl
  obtain ⟨period, hperiod, hnormal, hagain⟩ := Literal.decodeAs_isoText.2 _ _ hdecode
  cases hperiod
  exact ⟨hdecode, hnormal, hagain⟩

end TypedConfig
