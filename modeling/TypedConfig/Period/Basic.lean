/-!
Periods: durations kept unit by unit, exactly as they were written.  Ninety minutes stay ninety
minutes; nothing is carried from one unit into another.
-/

namespace TypedConfig

/-- The units of a period, from the largest to the smallest. -/
inductive TimeUnit where
  | years | months | days | hours | minutes | seconds | millis
deriving DecidableEq, Repr

/-- All units in order, largest first. -/
def TimeUnit.all : List TimeUnit :=
  [.years, .months, .days, .hours, .minutes, .seconds, .millis]

theorem TimeUnit.mem_all (unit : TimeUnit) : unit ∈ TimeUnit.all := by
  cases unit <;> decide

/-- The words that name a unit beside an amount. -/
def TimeUnit.spellings : TimeUnit → List (List Char)
  | .years => ["years".toList, "year".toList]
  | .months => ["months".toList, "month".toList]
  | .days => ["days".toList, "day".toList]
  | .hours => ["hours".toList, "hour".toList]
  | .minutes => ["minutes".toList, "minute".toList]
  | .seconds => ["seconds".toList, "second".toList]
  | .millis => ["milliseconds".toList, "millisecond".toList, "millis".toList, "milli".toList]

def TimeUnit.ofWord? (word : List Char) : Option TimeUnit :=
  TimeUnit.all.find? fun unit => unit.spellings.contains word

/-- Every spelling names its own unit. -/
theorem TimeUnit.ofWord?_of_mem_spellings {unit : TimeUnit} {word : List Char}
    (hword : word ∈ unit.spellings) : TimeUnit.ofWord? word = some unit := by
  cases unit <;> simp only [TimeUnit.spellings, List.mem_cons, List.not_mem_nil, or_false] at hword
    <;> rcases hword with rfl | rfl | rfl | rfl <;> decide

/-- An amount for each unit. -/
structure Period where
  years : Int64
  months : Int64
  days : Int64
  hours : Int64
  minutes : Int64
  seconds : Int64
  millis : Int64
deriving DecidableEq, Repr

namespace Period

def zero : Period := ⟨0, 0, 0, 0, 0, 0, 0⟩

def isZero (period : Period) : Bool := period == zero

/-- The amount in one unit. -/
def amount (period : Period) : TimeUnit → Int64
  | .years => period.years
  | .months => period.months
  | .days => period.days
  | .hours => period.hours
  | .minutes => period.minutes
  | .seconds => period.seconds
  | .millis => period.millis

/-- The period with another amount in one unit. -/
def set (period : Period) (unit : TimeUnit) (amount : Int64) : Period :=
  match unit with
  | .years => { period with years := amount }
  | .months => { period with months := amount }
  | .days => { period with days := amount }
  | .hours => { period with hours := amount }
  | .minutes => { period with minutes := amount }
  | .seconds => { period with seconds := amount }
  | .millis => { period with millis := amount }

/-- Setting one unit changes that unit alone. -/
theorem amount_set (period : Period) (unit other : TimeUnit) (value : Int64) :
    (period.set unit value).amount other = if other = unit then value else period.amount other := by
  cases unit <;> cases other <;> rfl

/-- A period is its amounts. -/
theorem ext_amount {first second : Period} (h : ∀ unit, first.amount unit = second.amount unit) :
    first = second := by
  obtain ⟨⟩ := first
  obtain ⟨⟩ := second
  have hyears := h .years
  have hmonths := h .months
  have hdays := h .days
  have hhours := h .hours
  have hminutes := h .minutes
  have hseconds := h .seconds
  have hmillis := h .millis
  simp only [amount] at hyears hmonths hdays hhours hminutes hseconds hmillis
  subst hyears hmonths hdays hhours hminutes hseconds hmillis
  rfl

end Period

end TypedConfig
