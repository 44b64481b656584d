import TypedConfig.Proofs.Literal.Duration

/-!
Which texts are periods in ISO form.  The grammar lists the components in their order, each of which
may be absent; the decoder peels them off one by one, with numbers that may hold points, and checks
afterwards that nothing is left.  Both accept the same texts, and the period has the amounts that
are written and no other ones.
-/

namespace TypedConfig

namespace Period

open Token (IsDigits Stops)

/-- The period has these amounts in their units, and nothing in any other unit. -/
structure Holds (period : Period) (amounts : List (TimeUnit × Nat)) : Prop where
  written : ∀ unit amount, (unit, amount) ∈ amounts → (period.amount unit).toInt = amount
  absent : ∀ unit, unit ∉ amounts.map Prod.fst → period.amount unit = 0

/-- An amount as it is written: in digits, and within the limit. -/
structure IsAmount (text : List Char) (amount : Nat) : Prop where
  digits : IsDigits text
  value : Text.decimalValue text = amount
  within : amount ≤ 9223372036854775807

/-- The text of components with some designators in their order, each of which may be absent. -/
inductive WritesComponents : List (Char × TimeUnit) → List (TimeUnit × Nat) → List Char → Prop
  | done : WritesComponents [] [] []
  | absent {designator : Char} {unit : TimeUnit} {more : List (Char × TimeUnit)}
      {amounts : List (TimeUnit × Nat)} {text : List Char} :
      WritesComponents more amounts text →
        WritesComponents ((designator, unit) :: more) amounts text
  | present {designator : Char} {unit : TimeUnit} {more : List (Char × TimeUnit)}
      {amounts : List (TimeUnit × Nat)} {digits text : List Char} {amount : Nat} :
      IsAmount digits amount → WritesComponents more amounts text →
        WritesComponents ((designator, unit) :: more) ((unit, amount) :: amounts)
          (digits ++ designator :: text)

/-- The milliseconds of the digits behind a point: the first three of them, filled up with zeros. -/
def millisOf (fraction : List Char) : Nat :=
  Text.decimalValue ((fraction ++ ['0', '0', '0']).take 3)

/-- The text of seconds, which may be absent: a whole number, and possibly a point with any number
of digits behind it. -/
inductive WritesSeconds : List (TimeUnit × Nat) → List Char → Prop
  | absent : WritesSeconds [] []
  | whole {digits : List Char} {amount : Nat} : IsAmount digits amount →
      WritesSeconds [(.seconds, amount)] (digits ++ ['S'])
  | point {digits fraction : List Char} {amount : Nat} : IsAmount digits amount →
      (∀ c ∈ fraction, c.isDigit = true) →
        WritesSeconds [(.seconds, amount), (.millis, millisOf fraction)]
          (digits ++ '.' :: fraction ++ ['S'])

/-- The text of a period in ISO form.  It has a component, and if there is a `T` one behind it. -/
inductive WritesIso : List (TimeUnit × Nat) → List Char → Prop
  | date {amounts : List (TimeUnit × Nat)} {text : List Char} :
      WritesComponents [('Y', .years), ('M', .months), ('D', .days)] amounts text → amounts ≠ [] →
        WritesIso amounts ('P' :: text)
  | time {days hours seconds : List (TimeUnit × Nat)} {date time rest : List Char} :
      WritesComponents [('Y', .years), ('M', .months), ('D', .days)] days date →
        WritesComponents [('H', .hours), ('M', .minutes)] hours time → WritesSeconds seconds rest →
          hours ++ seconds ≠ [] →
            WritesIso (days ++ (hours ++ seconds)) ('P' :: (date ++ 'T' :: (time ++ rest)))

section Amounts

variable {amounts : List (TimeUnit × Nat)} {period : Period}

theorem setAll_append (period : Period) (first second : List (TimeUnit × Nat)) :
    period.setAll (first ++ second) = (period.setAll first).setAll second :=
  List.foldl_append

/-- A period that is put together from amounts has these amounts. -/
theorem holds_setAll (hnodup : (amounts.map Prod.fst).Nodup)
    (hwithin : ∀ amount ∈ amounts, amount.2 ≤ amountLimit) :
    (zero.setAll amounts).Holds amounts := by
  constructor
  · intro unit amount hmem
    rw [amount_setAll_of_mem zero hnodup hmem]
    exact Literal.toInt_int64 (hwithin _ hmem)
  · intro unit hmem
    rw [amount_setAll_of_not_mem zero hmem]
    cases unit <;> rfl

/-- Amounts leave no choice of a period. -/
theorem Holds.eq {other : Period} (h : period.Holds amounts) (hother : other.Holds amounts) :
    period = other := by
  apply ext_amount
  intro unit
  by_cases hmem : unit ∈ amounts.map Prod.fst
  · obtain ⟨⟨_, amount⟩, hamount, rfl⟩ := List.mem_map.mp hmem
    apply Int64.toInt_inj.mp
    rw [h.written _ _ hamount, hother.written _ _ hamount]
  · rw [h.absent _ hmem, hother.absent _ hmem]

theorem Holds.nonneg (h : period.Holds amounts) (unit : TimeUnit) :
    0 ≤ (period.amount unit).toInt := by
  by_cases hmem : unit ∈ amounts.map Prod.fst
  · obtain ⟨⟨_, amount⟩, hamount, rfl⟩ := List.mem_map.mp hmem
    rw [h.written _ _ hamount]
    exact Int.natCast_nonneg amount
  · rw [h.absent unit hmem]
    decide

end Amounts

section Components

variable {designator : Char} {text number rest : List Char}

theorem isNumberChar_of_isDigit {c : Char} (h : c.isDigit = true) : isNumberChar c = true := by
  simp [isNumberChar, h]

theorem component?_number {other : Char} (hnumber : ∀ c ∈ number, isNumberChar c = true)
    (hother : isNumberChar other = false) :
    component? designator (number ++ other :: rest)
      = if other = designator && !number.isEmpty then some (number, rest) else none := by
  have hstops : Stops isNumberChar (other :: rest) := Token.stops_cons hother
  simp only [component?, Token.takeWhile_run hnumber hstops, Token.dropWhile_run hnumber hstops]

/-- A component is a number in front of its designator. -/
theorem component?_eq_some (h : component? designator text = some (number, rest)) :
    number ≠ [] ∧ (∀ c ∈ number, isNumberChar c = true) ∧ text = number ++ designator :: rest := by
  have htext : text.takeWhile isNumberChar ++ text.dropWhile isNumberChar = text :=
    List.takeWhile_append_dropWhile
  unfold component? at h
  simp only at h
  split at h
  · rename_i c left hleft
    simp only [Option.ite_none_right_eq_some, Option.some.injEq, Prod.mk.injEq, Bool.and_eq_true,
      decide_eq_true_eq, Bool.not_eq_true', List.isEmpty_eq_false_iff] at h
    obtain ⟨⟨rfl, hne⟩, rfl, rfl⟩ := h
    exact ⟨hne, fun c hc => List.mem_takeWhile_imp hc, by rw [← hleft, htext]⟩
  · cases h

/-- Only digits in range are an amount. -/
theorem amount?_eq_some_iff {value : Int64} :
    amount? number = some value ↔ ∃ amount, IsAmount number amount ∧ value = Int64.ofNat amount := by
  rw [amount?, Option.map_eq_some_iff]
  constructor
  · rintro ⟨amount, hamount, rfl⟩
    obtain ⟨hdigits, hvalue, hwithin⟩ := Literal.decimalUpTo?_eq_some_iff.mp hamount
    exact ⟨amount, ⟨hdigits, hvalue, hwithin⟩, rfl⟩
  · rintro ⟨amount, h, rfl⟩
    exact ⟨amount, Literal.decimalUpTo?_eq_some_iff.mpr ⟨h.digits, h.value, h.within⟩, rfl⟩

theorem IsAmount.number_chars {digits : List Char} {amount : Nat} (h : IsAmount digits amount) :
    ∀ c ∈ digits, isNumberChar c = true :=
  fun c hc => isNumberChar_of_isDigit (h.digits.digits c hc)

end Components

/-- Reading has gone on over a piece of the text, in which some amounts are written. -/
structure Progress.Reads (before after : Progress) (amounts : List (TimeUnit × Nat))
    (piece : List Char) : Prop where
  rest : before.rest = piece ++ after.rest
  period : after.period = before.period.setAll amounts
  components : before.components ≤ after.components
  same : after.components = before.components ↔ amounts = []

namespace Progress

theorem Reads.refl (progress : Progress) : progress.Reads progress [] [] :=
  ⟨rfl, rfl, le_rfl, by simp⟩

theorem Reads.trans {before between after : Progress} {first second : List (TimeUnit × Nat)}
    {piece more : List Char} (hfirst : before.Reads between first piece)
    (hsecond : between.Reads after second more) :
    before.Reads after (first ++ second) (piece ++ more) := by
  refine ⟨by rw [hfirst.rest, hsecond.rest, List.append_assoc], ?_,
    hfirst.components.trans hsecond.components, ?_⟩
  · rw [hsecond.period, hfirst.period, setAll_append]
  · have hle := hfirst.components
    have hmore := hsecond.components
    rw [List.append_eq_nil_iff, ← hfirst.same, ← hsecond.same]
    omega

end Progress

/-- One component that was read. -/
theorem reads_component {before : Progress} {number rest : List Char} {designator : Char}
    {unit : TimeUnit} {amount : Nat} (hrest : before.rest = number ++ designator :: rest) :
    before.Reads ⟨before.period.set unit (Int64.ofNat amount), before.components + 1, rest⟩
      [(unit, amount)] (number ++ [designator]) := by
  refine ⟨?_, rfl, Nat.le_succ _, ?_⟩
  · rw [hrest, List.append_assoc, List.singleton_append]
  · simp

section Reading

variable {designators : List (Char × TimeUnit)} {before after : Progress}
  {amounts : List (TimeUnit × Nat)} {piece rest : List Char}

/-- What is read as components was written as components. -/
theorem writes_of_readComponents (h : readComponents designators before = some after) :
    ∃ amounts piece, WritesComponents designators amounts piece ∧
      before.Reads after amounts piece := by
  induction designators generalizing before with
  | nil =>
      cases h
      exact ⟨[], [], .done, .refl _⟩
  | cons entry more ih =>
      obtain ⟨designator, unit⟩ := entry
      rw [readComponents] at h
      split at h
      · obtain ⟨amounts, piece, hwrites, hreads⟩ := ih h
        exact ⟨amounts, piece, .absent hwrites, hreads⟩
      · rename_i number rest hcomponent
        split at h
        · cases h
        · rename_i value hvalue
          obtain ⟨amount, hamount, rfl⟩ := amount?_eq_some_iff.mp hvalue
          obtain ⟨-, -, hrest⟩ := component?_eq_some hcomponent
          obtain ⟨amounts, piece, hwrites, hreads⟩ := ih h
          have hwhole := (reads_component hrest).trans hreads
          rw [List.append_assoc, List.singleton_append] at hwhole
          exact ⟨(unit, amount) :: amounts, number ++ designator :: piece, .present hamount hwrites,
            hwhole⟩

/-- Components are not taken for one with a designator that none of them has. -/
theorem WritesComponents.component?_eq_none (h : WritesComponents designators amounts piece)
    (hends : ∀ entry ∈ designators, isNumberChar entry.1 = false) {designator : Char}
    (hother : designator ∉ designators.map Prod.fst) (hrest : component? designator rest = none) :
    component? designator (piece ++ rest) = none := by
  induction h with
  | done => exact hrest
  | absent _ ih =>
      rw [List.map_cons, List.mem_cons, not_or] at hother
      exact ih (fun entry hentry => hends entry (List.mem_cons_of_mem _ hentry)) hother.2
  | @present own unit more amounts digits text amount hamount _ _ =>
      rw [List.map_cons, List.mem_cons, not_or] at hother
      have hown : isNumberChar own = false := hends _ List.mem_cons_self
      rw [List.append_assoc, List.cons_append, component?_number hamount.number_chars hown]
      simp [Ne.symm hother.1]

/-- What is written as components is read, where none of them goes on behind it. -/
theorem WritesComponents.reads (h : WritesComponents designators amounts piece)
    (hends : ∀ entry ∈ designators, isNumberChar entry.1 = false)
    (hnodup : (designators.map Prod.fst).Nodup)
    (hrest : ∀ entry ∈ designators, component? entry.1 rest = none)
    (hbefore : before.rest = piece ++ rest) :
    ∃ after, readComponents designators before = some after ∧ before.Reads after amounts piece ∧
      after.rest = rest := by
  induction h generalizing before with
  | done => exact ⟨before, rfl, .refl before, hbefore⟩
  | @absent designator unit more amounts text hwrites ih =>
      obtain ⟨-, hmore⟩ := List.forall_mem_cons.mp hends
      obtain ⟨hhere, hthere⟩ := List.forall_mem_cons.mp hrest
      obtain ⟨hfresh, hothers⟩ := List.nodup_cons.mp hnodup
      have hnone : component? designator before.rest = none := by
        rw [hbefore]
        exact hwrites.component?_eq_none hmore hfresh hhere
      rw [readComponents, hnone]
      exact ih hmore hothers hthere hbefore
  | @present designator unit more amounts digits text amount hamount hwrites ih =>
      obtain ⟨hdesignator, hmore⟩ := List.forall_mem_cons.mp hends
      obtain ⟨-, hthere⟩ := List.forall_mem_cons.mp hrest
      have hfront : before.rest = digits ++ designator :: (text ++ rest) := by
        rw [hbefore, List.append_assoc, List.cons_append]
      have hcomponent : component? designator before.rest = some (digits, text ++ rest) := by
        rw [hfront, component?_number hamount.number_chars hdesignator]
        simp [hamount.digits.ne_nil]
      have hvalue : amount? digits = some (Int64.ofNat amount) :=
        amount?_eq_some_iff.mpr ⟨amount, hamount, rfl⟩
      obtain ⟨after, hafter, hreads, hleft⟩ :=
        @ih ⟨before.period.set unit (Int64.ofNat amount), before.components + 1, text ++ rest⟩ hmore
          (List.nodup_cons.mp hnodup).2 hthere rfl
      refine ⟨after, ?_, ?_, hleft⟩
      · rw [readComponents, hcomponent]
        simp only [hvalue]
        exact hafter
      · have hwhole := (reads_component hfront).trans hreads
        rw [List.append_assoc, List.singleton_append] at hwhole
        exact hwhole

end Reading

section Seconds

variable {before after : Progress} {seconds : List (TimeUnit × Nat)}
  {number whole fraction piece : List Char}

theorem fractionMillis?_eq (fraction : List Char) :
    fractionMillis? fraction
      = if fraction.all Char.isDigit then some (Int64.ofNat (millisOf fraction)) else none := by
  have hpad : fraction.take 3 ++ List.replicate (3 - (fraction.take 3).length) '0'
      = (fraction ++ ['0', '0', '0']).take 3 := by
    have hlength : 3 - min 3 fraction.length = min (3 - fraction.length) 3 := by omega
    rw [List.take_append, List.length_take, hlength, ← List.take_replicate]
    rfl
  simp only [fractionMillis?, hpad, millisOf]

theorem bne_point_of_isDigit {c : Char} (h : c.isDigit = true) : (c != '.') = true := by
  rw [bne_iff_ne]
  rintro rfl
  exact absurd h (by decide)

theorem secondsAndMillis?_whole {value : Int64} (hwhole : ∀ c ∈ whole, c.isDigit = true)
    (h : amount? whole = some value) : secondsAndMillis? whole = some (value, 0) := by
  have hrun : ∀ c ∈ whole, (c != '.') = true := fun c hc => bne_point_of_isDigit (hwhole c hc)
  rw [secondsAndMillis?, List.takeWhile_eq_self_iff.mpr hrun, List.dropWhile_eq_nil_iff.mpr hrun, h]
  rfl

theorem secondsAndMillis?_point {value : Int64} (hwhole : ∀ c ∈ whole, c.isDigit = true)
    (hfraction : ∀ c ∈ fraction, c.isDigit = true) (h : amount? whole = some value) :
    secondsAndMillis? (whole ++ '.' :: fraction)
      = some (value, Int64.ofNat (millisOf fraction)) := by
  have hrun : ∀ c ∈ whole, (c != '.') = true := fun c hc => bne_point_of_isDigit (hwhole c hc)
  have hstops : Stops (· != '.') ('.' :: fraction) := Token.stops_cons (by decide)
  rw [secondsAndMillis?, Token.takeWhile_run hrun hstops, Token.dropWhile_run hrun hstops, h,
    List.drop_one, List.tail_cons, fractionMillis?_eq, if_pos (List.all_eq_true.mpr hfraction)]
  rfl

/-- What stands for seconds is a whole number of them, with or without a point behind it. -/
theorem secondsAndMillis?_cases {value millis : Int64}
    (h : secondsAndMillis? number = some (value, millis)) :
    ∃ whole amount, IsAmount whole amount ∧ value = Int64.ofNat amount ∧
      (number = whole ∧ millis = 0 ∨
        ∃ fraction, number = whole ++ '.' :: fraction ∧ (∀ c ∈ fraction, c.isDigit = true) ∧
          millis = Int64.ofNat (millisOf fraction)) := by
  have htext : number.takeWhile (· != '.') ++ number.dropWhile (· != '.') = number :=
    List.takeWhile_append_dropWhile
  obtain ⟨found, hfound, hrest⟩ := Option.bind_eq_some_iff.mp h
  obtain ⟨part, hpart, hpair⟩ := Option.bind_eq_some_iff.mp hrest
  cases hpair
  obtain ⟨amount, hamount, rfl⟩ := amount?_eq_some_iff.mp hfound
  refine ⟨_, amount, hamount, rfl, ?_⟩
  rw [fractionMillis?_eq, Option.ite_none_right_eq_some, Option.some.injEq, List.all_eq_true] at hpart
  obtain ⟨hdigits, rfl⟩ := hpart
  cases hbehind : number.dropWhile (· != '.') with
  | nil =>
      rw [hbehind, List.append_nil] at htext
      exact .inl ⟨htext.symm, rfl⟩
  | cons c fraction =>
      have hpoint : c = '.' := by
        have hstop := Token.stops_dropWhile (· != '.') number c (by rw [hbehind]; rfl)
        simpa using hstop
      subst hpoint
      rw [hbehind] at htext hdigits
      exact .inr ⟨fraction, htext.symm, hdigits, rfl⟩

/-- What is read as seconds was written as seconds. -/
theorem writes_of_readSeconds (hmillis : before.period.millis = 0)
    (h : readSeconds before = some after) :
    ∃ seconds piece, WritesSeconds seconds piece ∧ before.Reads after seconds piece := by
  unfold readSeconds at h
  split at h
  · cases h
    exact ⟨[], [], .absent, .refl before⟩
  · rename_i number rest hcomponent
    obtain ⟨⟨value, millis⟩, hseconds, hafter⟩ := Option.bind_eq_some_iff.mp h
    cases hafter
    obtain ⟨-, -, hrest⟩ := component?_eq_some hcomponent
    obtain ⟨whole, amount, hamount, rfl, ⟨rfl, rfl⟩ | ⟨fraction, rfl, hfraction, rfl⟩⟩ :=
      secondsAndMillis?_cases hseconds
    · refine ⟨_, _, .whole hamount, ?_, ?_, Nat.le_succ _, by simp⟩
      · rw [hrest, List.append_assoc, List.singleton_append]
      · rw [← hmillis]
        rfl
    · refine ⟨_, _, .point hamount hfraction, ?_, rfl, Nat.le_succ _, by simp⟩
      rw [hrest]
      simp

/-- Seconds that are there are a number with its designator. -/
theorem WritesSeconds.exists_number (h : WritesSeconds seconds piece) (hne : seconds ≠ []) :
    ∃ number value millis, piece = number ++ ['S'] ∧ number ≠ [] ∧
      (∀ c ∈ number, isNumberChar c = true) ∧ secondsAndMillis? number = some (value, millis) ∧
      ∀ period : Period, period.millis = 0 →
        period.setAll seconds = { period with seconds := value, millis } := by
  cases h with
  | absent => exact absurd rfl hne
  | @whole digits amount hamount =>
      refine ⟨digits, Int64.ofNat amount, 0, rfl, hamount.digits.ne_nil, hamount.number_chars,
        secondsAndMillis?_whole hamount.digits.digits
          (amount?_eq_some_iff.mpr ⟨amount, hamount, rfl⟩), ?_⟩
      intro period hmillis
      rw [← hmillis]
      rfl
  | @point digits fraction amount hamount hfraction =>
      refine ⟨digits ++ '.' :: fraction, Int64.ofNat amount, Int64.ofNat (millisOf fraction), rfl,
        by simp, ?_, secondsAndMillis?_point hamount.digits.digits hfraction
          (amount?_eq_some_iff.mpr ⟨amount, hamount, rfl⟩), fun period _ => rfl⟩
      refine List.forall_mem_append.mpr ⟨hamount.number_chars, List.forall_mem_cons.mpr ?_⟩
      exact ⟨by decide, fun c hc => isNumberChar_of_isDigit (hfraction c hc)⟩

theorem WritesSeconds.piece_eq_nil (h : WritesSeconds [] piece) : piece = [] := by
  cases h
  rfl

/-- What is written as seconds is read. -/
theorem WritesSeconds.reads (h : WritesSeconds seconds piece) (hmillis : before.period.millis = 0)
    (hbefore : before.rest = piece) :
    ∃ after, readSeconds before = some after ∧ before.Reads after seconds piece ∧
      after.rest = [] := by
  by_cases hne : seconds = []
  · subst hne
    obtain rfl := h.piece_eq_nil
    have hnone : component? 'S' before.rest = none := by rw [hbefore]; rfl
    exact ⟨before, by rw [readSeconds, hnone], .refl before, hbefore⟩
  · obtain ⟨number, value, millis, rfl, hnumber, hchars, hseconds, hperiod⟩ := h.exists_number hne
    have hcomponent : component? 'S' before.rest = some (number, []) := by
      rw [hbefore, component?_number hchars (by decide)]
      simp [hnumber]
    refine ⟨⟨{ before.period with seconds := value, millis }, before.components + 1, []⟩, ?_,
      ⟨?_, (hperiod _ hmillis).symm, Nat.le_succ _, by simp [hne]⟩, rfl⟩
    · rw [readSeconds, hcomponent]
      simp only [hseconds]
      rfl
    · rw [hbefore, List.append_nil]

/-- Seconds are not taken for a larger unit. -/
theorem WritesSeconds.component?_eq_none (h : WritesSeconds seconds piece) {designator : Char}
    (hother : designator ≠ 'S') : component? designator piece = none := by
  by_cases hne : seconds = []
  · subst hne
    obtain rfl := h.piece_eq_nil
    rfl
  · obtain ⟨number, -, -, rfl, -, hchars, -⟩ := h.exists_number hne
    rw [component?_number hchars (by decide)]
    simp [Ne.symm hother]

end Seconds

section Units

variable {designators : List (Char × TimeUnit)} {amounts : List (TimeUnit × Nat)}
  {text : List Char}

theorem WritesComponents.units (h : WritesComponents designators amounts text) :
    (amounts.map Prod.fst).Sublist (designators.map Prod.snd) := by
  induction h with
  | done => exact .slnil
  | absent _ ih => exact ih.cons _
  | present _ _ ih => exact ih.cons_cons _

/-- Components of other units leave the milliseconds as they are. -/
theorem WritesComponents.millis (h : WritesComponents designators amounts text)
    (hother : TimeUnit.millis ∉ designators.map Prod.snd) (period : Period) :
    (period.setAll amounts).millis = period.millis :=
  amount_setAll_of_not_mem period fun hmem => hother (h.units.subset hmem)

theorem WritesSeconds.units (h : WritesSeconds amounts text) :
    (amounts.map Prod.fst).Sublist [.seconds, .millis] := by
  cases h with
  | absent => exact List.nil_sublist _
  | whole _ => exact (List.nil_sublist _).cons_cons _
  | point _ _ => exact .refl _

/-- The units of a written period go from larger to smaller ones. -/
theorem WritesIso.units (h : WritesIso amounts text) :
    (amounts.map Prod.fst).Sublist TimeUnit.all := by
  cases h with
  | date hdays _ => exact hdays.units.trans (by decide)
  | time hdays hhours hseconds _ =>
      rw [List.map_append, List.map_append]
      exact hdays.units.append (hhours.units.append hseconds.units)

theorem WritesComponents.within (h : WritesComponents designators amounts text) :
    ∀ amount ∈ amounts, amount.2 ≤ amountLimit := by
  induction h with
  | done => exact List.forall_mem_nil _
  | absent _ ih => exact ih
  | present hamount _ ih => exact List.forall_mem_cons.mpr ⟨hamount.within, ih⟩

theorem decimalValue_append (first second : List Char) :
    Text.decimalValue (first ++ second)
      = 10 ^ second.length * Text.decimalValue first + Text.decimalValue second := by
  rw [Text.decimalValue, Nat.ofDigitChars_append, Nat.ofDigitChars_eq_ofDigitChars_zero]
  rfl

/-- Digits stand for less than the next power of ten. -/
theorem decimalValue_lt {digits : List Char} (h : ∀ c ∈ digits, c.isDigit = true) :
    Text.decimalValue digits < 10 ^ digits.length := by
  induction digits with
  | nil => decide
  | cons c rest ih =>
      obtain ⟨hc, hrest⟩ := List.forall_mem_cons.mp h
      have hdigit : Text.decimalValue [c] ≤ 9 := by
        have hbounds : 48 ≤ c.toNat ∧ c.toNat ≤ 57 := Char.isDigit_iff_toNat.mp hc
        have hvalue : Text.decimalValue [c] = c.toNat - 48 := by
          simp [Text.decimalValue, Nat.ofDigitChars]
        omega
      have hsplit := decimalValue_append [c] rest
      rw [List.singleton_append] at hsplit
      calc Text.decimalValue (c :: rest)
          = 10 ^ rest.length * Text.decimalValue [c] + Text.decimalValue rest := hsplit
        _ < 10 ^ rest.length * Text.decimalValue [c] + 10 ^ rest.length :=
            Nat.add_lt_add_left (ih hrest) _
        _ = 10 ^ rest.length * (Text.decimalValue [c] + 1) := (Nat.mul_succ _ _).symm
        _ ≤ 10 ^ rest.length * 10 := Nat.mul_le_mul_left _ (Nat.succ_le_succ hdigit)
        _ = 10 ^ (c :: rest).length := by rw [List.length_cons, Nat.pow_succ]

theorem millisOf_lt {fraction : List Char} (h : ∀ c ∈ fraction, c.isDigit = true) :
    millisOf fraction < 1000 := by
  have hdigits : ∀ c ∈ (fraction ++ ['0', '0', '0']).take 3, c.isDigit = true := by
    intro c hc
    rcases List.mem_append.mp (List.mem_of_mem_take hc) with hmem | hmem
    · exact h c hmem
    · have hzero : c = '0' := by simpa using hmem
      rw [hzero]
      decide
  have hlength : ((fraction ++ ['0', '0', '0']).take 3).length = 3 := by
    simp
  have hlt := decimalValue_lt hdigits
  rwa [hlength] at hlt

theorem WritesSeconds.within (h : WritesSeconds amounts text) :
    ∀ amount ∈ amounts, amount.2 ≤ amountLimit := by
  cases h with
  | absent => exact List.forall_mem_nil _
  | whole hamount => exact List.forall_mem_singleton.mpr hamount.within
  | point hamount hfraction =>
      have hmillis := millisOf_lt hfraction
      refine List.forall_mem_cons.mpr ⟨hamount.within, List.forall_mem_singleton.mpr ?_⟩
      exact hmillis.le.trans (by decide)

theorem WritesIso.within (h : WritesIso amounts text) :
    ∀ amount ∈ amounts, amount.2 ≤ amountLimit := by
  cases h with
  | date hdays _ => exact hdays.within
  | time hdays hhours hseconds _ =>
      refine List.forall_mem_append.mpr ⟨hdays.within, List.forall_mem_append.mpr ?_⟩
      exact ⟨hhours.within, hseconds.within⟩

/-- A written period has the amounts that it is put together from. -/
theorem WritesIso.holds (h : WritesIso amounts text) : (zero.setAll amounts).Holds amounts :=
  holds_setAll (h.units.nodup (by decide)) h.within

end Units

section Whole

variable {text : List Char} {date after : Progress} {days : List (TimeUnit × Nat)}

/-- All of a text in front of `T` is read, or none of it. -/
theorem writes_of_readDate (h : readDate text = some date) :
    ∃ days, WritesComponents dateDesignators days text ∧ date.period = zero.setAll days ∧
      (date.components = 0 ↔ days = []) := by
  obtain ⟨hread, hempty⟩ := Option.filter_eq_some_iff.mp h
  obtain ⟨days, piece, hwrites, hreads⟩ := writes_of_readComponents hread
  have htext : text = piece := by
    have hwhole : text = piece ++ date.rest := hreads.rest
    rwa [List.isEmpty_iff.mp hempty, List.append_nil] at hwhole
  subst htext
  exact ⟨days, hwrites, hreads.period, hreads.same⟩

theorem readDate_of_writes (h : WritesComponents dateDesignators days text) :
    ∃ date, readDate text = some date ∧ date.period = zero.setAll days ∧
      (date.components = 0 ↔ days = []) := by
  obtain ⟨date, hread, hreads, hrest⟩ :=
    @WritesComponents.reads dateDesignators ⟨zero, 0, text⟩ days text [] h (by decide) (by decide)
      (fun _ _ => rfl) (List.append_nil text).symm
  refine ⟨date, ?_, hreads.period, hreads.same⟩
  rw [readDate, Option.filter_eq_some_iff]
  exact ⟨hread, List.isEmpty_iff.mpr hrest⟩

/-- All of a text behind `T` is read, if something is written there. -/
theorem writes_of_readTime (hmillis : date.period.millis = 0)
    (h : readTime date text = some after) :
    ∃ hours seconds time rest, text = time ++ rest ∧ WritesComponents timeDesignators hours time ∧
      WritesSeconds seconds rest ∧ hours ++ seconds ≠ [] ∧
        after.period = date.period.setAll (hours ++ seconds) := by
  obtain ⟨hread, hend⟩ := Option.filter_eq_some_iff.mp h
  obtain ⟨between, htime, hseconds⟩ := Option.bind_eq_some_iff.mp hread
  obtain ⟨hours, time, hhours, hfirst⟩ := writes_of_readComponents htime
  have hbetween : between.period.millis = 0 := by
    rw [hfirst.period, hhours.millis (by decide), hmillis]
  obtain ⟨seconds, rest, hwritten, hsecond⟩ := writes_of_readSeconds hbetween hseconds
  have hreads := hfirst.trans hsecond
  rw [Bool.and_eq_true, List.isEmpty_iff, decide_eq_true_eq] at hend
  obtain ⟨hempty, hcomponents⟩ := hend
  refine ⟨hours, seconds, time, rest, ?_, hhours, hwritten, ?_, hreads.period⟩
  · have hwhole : text = time ++ rest ++ after.rest := hreads.rest
    rwa [hempty, List.append_nil] at hwhole
  · rw [Ne, ← hreads.same]
    exact Nat.ne_of_gt hcomponents

theorem readTime_of_writes (hmillis : date.period.millis = 0)
    {hours seconds : List (TimeUnit × Nat)} {time rest : List Char}
    (hhours : WritesComponents timeDesignators hours time) (hseconds : WritesSeconds seconds rest)
    (hne : hours ++ seconds ≠ []) :
    ∃ after, readTime date (time ++ rest) = some after ∧ after.components ≠ 0 ∧
      after.period = date.period.setAll (hours ++ seconds) := by
  have hother : ∀ entry ∈ timeDesignators, component? entry.1 rest = none := by
    have hletters : ∀ entry ∈ timeDesignators, entry.1 ≠ 'S' := by decide
    exact fun entry hentry => hseconds.component?_eq_none (hletters entry hentry)
  obtain ⟨between, htime, hfirst, hrest⟩ :=
    @WritesComponents.reads timeDesignators { date with rest := time ++ rest } hours time rest hhours
      (by decide) (by decide) hother rfl
  have hbetween : between.period.millis = 0 := by
    rw [hfirst.period, hhours.millis (by decide), hmillis]
  obtain ⟨after, hafter, hsecond, hempty⟩ := hseconds.reads hbetween hrest
  have hreads := hfirst.trans hsecond
  have hmore : date.components < after.components :=
    Nat.lt_of_le_of_ne hreads.components (Ne.symm (mt hreads.same.mp hne))
  refine ⟨after, ?_, Nat.ne_of_gt (Nat.zero_lt_of_lt hmore), hreads.period⟩
  rw [readTime, Option.filter_eq_some_iff]
  refine ⟨Option.bind_eq_some_iff.mpr ⟨between, htime, hafter⟩, ?_⟩
  rw [Bool.and_eq_true, List.isEmpty_iff, decide_eq_true_eq]
  exact ⟨hempty, hmore⟩

/-- No text of components holds another letter than their designators. -/
theorem WritesComponents.not_mem {designators : List (Char × TimeUnit)}
    (h : WritesComponents designators days text) {letter : Char} (hletter : letter.isDigit = false)
    (hother : letter ∉ designators.map Prod.fst) : letter ∉ text := by
  induction h with
  | done => exact List.not_mem_nil
  | absent _ ih => exact ih fun hmem => hother (List.mem_cons_of_mem _ hmem)
  | @present designator unit more amounts digits text amount hamount _ ih =>
      rw [List.map_cons, List.mem_cons, not_or] at hother
      rw [List.mem_append, List.mem_cons, not_or, not_or]
      refine ⟨fun hmem => ?_, hother.1, ih hother.2⟩
      simp [hamount.digits.digits letter hmem] at hletter

theorem ofIso?_cons (text : List Char) :
    ofIso? ('P' :: text) = (readDate (text.takeWhile (· != 'T'))).bind fun date =>
      (match text.dropWhile (· != 'T') with
        | _ :: time => readTime date time
        | [] => some date).bind fun whole =>
          if whole.components = 0 then none else some whole.period := by
  rw [ofIso?]
  cases text.dropWhile (· != 'T') <;> rfl

/-- What is read as a period in ISO form was written as one, with its amounts. -/
theorem writes_of_ofIso? {period : Period} (h : ofIso? text = some period) :
    ∃ amounts, WritesIso amounts text ∧ period = zero.setAll amounts := by
  obtain ⟨text, rfl⟩ : ∃ rest, text = 'P' :: rest := by
    unfold ofIso? at h
    split at h
    · exact ⟨_, rfl⟩
    · cases h
  rw [ofIso?_cons] at h
  have htext : text.takeWhile (· != 'T') ++ text.dropWhile (· != 'T') = text :=
    List.takeWhile_append_dropWhile
  obtain ⟨date, hdate, hrest⟩ := Option.bind_eq_some_iff.mp h
  obtain ⟨whole, hwhole, hperiod⟩ := Option.bind_eq_some_iff.mp hrest
  rw [Option.ite_none_left_eq_some, Option.some.injEq] at hperiod
  obtain ⟨hcomponents, rfl⟩ := hperiod
  obtain ⟨days, hdays, hfirst, hsame⟩ := writes_of_readDate hdate
  split at hwhole
  · rename_i c time hbehind
    have hmark : c = 'T' := by
      have hstop := Token.stops_dropWhile (· != 'T') text c (by rw [hbehind]; rfl)
      simpa using hstop
    have hmillis : date.period.millis = 0 := by
      rw [hfirst]
      exact hdays.millis (by decide) zero
    obtain ⟨hours, seconds, before, behind, rfl, hhours, hseconds, hne, hsecond⟩ :=
      writes_of_readTime hmillis hwhole
    have hwrites := WritesIso.time hdays hhours hseconds hne
    rw [hbehind, hmark] at htext
    rw [htext] at hwrites
    exact ⟨_, hwrites, by rw [hsecond, hfirst, ← setAll_append]⟩
  · rename_i hbehind
    cases hwhole
    rw [hbehind, List.append_nil] at htext
    rw [htext] at hdays
    exact ⟨days, .date hdays (mt hsame.mpr hcomponents), hfirst⟩

/-- What is written as a period in ISO form is read, with its amounts. -/
theorem WritesIso.ofIso?_eq {amounts : List (TimeUnit × Nat)} (h : WritesIso amounts text) :
    ofIso? text = some (zero.setAll amounts) := by
  have hrun : ∀ {days : List (TimeUnit × Nat)} {date : List Char},
      WritesComponents dateDesignators days date → ∀ c ∈ date, (c != 'T') = true := by
    intro days date hdays c hc
    rw [bne_iff_ne]
    rintro rfl
    exact hdays.not_mem (by decide) (by decide) hc
  cases h with
  | @date _ text hdays hne =>
      obtain ⟨date, hdate, hfirst, hsame⟩ := readDate_of_writes hdays
      rw [ofIso?_cons, List.takeWhile_eq_self_iff.mpr (hrun hdays),
        List.dropWhile_eq_nil_iff.mpr (hrun hdays), hdate]
      simp only [Option.bind_some, if_neg (mt hsame.mp hne), hfirst]
  | @time days hours seconds date time rest hdays hhours hseconds hne =>
      obtain ⟨day, hday, hfirst, -⟩ := readDate_of_writes hdays
      have hmillis : day.period.millis = 0 := by
        rw [hfirst]
        exact hdays.millis (by decide) zero
      have hstops : Stops (· != 'T') ('T' :: (time ++ rest)) := Token.stops_cons (by decide)
      obtain ⟨after, hafter, hcomponents, hsecond⟩ := readTime_of_writes hmillis hhours hseconds hne
      rw [ofIso?_cons, Token.takeWhile_run (hrun hdays) hstops,
        Token.dropWhile_run (hrun hdays) hstops, hday]
      simp only [Option.bind_some, hafter, if_neg hcomponents]
      rw [hsecond, hfirst, ← setAll_append]

/-- The grammar is that of the decoder, and the amounts are those of the period. -/
theorem ofIso?_eq_some_iff {period : Period} :
    ofIso? text = some period ↔ ∃ amounts, WritesIso amounts text ∧ period.Holds amounts := by
  constructor
  · intro h
    obtain ⟨amounts, hwrites, rfl⟩ := writes_of_ofIso? h
    exact ⟨amounts, hwrites, hwrites.holds⟩
  · rintro ⟨amounts, hwrites, hholds⟩
    rw [hwrites.ofIso?_eq, hholds.eq hwrites.holds]

end Whole

end Period

/-- A text is decoded as a period in ISO form exactly if it is written in the grammar, as the period
that has the amounts that are written and nothing in any other unit; every other text is refused. -/
theorem Literal.decodeAs_iso (text : String) :
    (∀ value, decodeAs (.duration .iso8601) text = .ok value ↔
      ∃ amounts period, Period.WritesIso amounts text.toList ∧ period.Holds amounts ∧
        value = .duration period) ∧
    ((¬ ∃ amounts, Period.WritesIso amounts text.toList) →
      decodeAs (.duration .iso8601) text = .error (.duration text)) := by
  have hsome : ∀ period, Period.ofIso? text.toList = some period →
      decodeAs (.duration .iso8601) text = .ok (.duration period) := by
    intro period hperiod
    simp only [decodeAs, decodeDuration?, hperiod]
  have hnone : Period.ofIso? text.toList = none →
      decodeAs (.duration .iso8601) text = .error (.duration text) := by
    intro hrefused
    simp only [decodeAs, decodeDuration?, hrefused]
  constructor
  · intro value
    constructor
    · intro h
      cases hperiod : Period.ofIso? text.toList with
      | none =>
          rw [hnone hperiod] at h
          cases h
      | some period =>
          rw [hsome period hperiod] at h
          obtain ⟨amounts, hwrites, hholds⟩ := Period.ofIso?_eq_some_iff.mp hperiod
          exact ⟨amounts, period, hwrites, hholds, (Except.ok.inj h).symm⟩
    · rintro ⟨amounts, period, hwrites, hholds, rfl⟩
      exact hsome period (Period.ofIso?_eq_some_iff.mpr ⟨amounts, hwrites, hholds⟩)
  · intro hunwritten
    apply hnone
    by_contra hread
    obtain ⟨period, hperiod⟩ := Option.ne_none_iff_exists'.mp hread
    obtain ⟨amounts, hwrites, -⟩ := Period.ofIso?_eq_some_iff.mp hperiod
    exact hunwritten ⟨amounts, hwrites⟩

end TypedConfig
