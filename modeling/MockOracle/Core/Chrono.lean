import MockOracle.Core.Value
import MockOracle.Semantics.Calendar

/-!
# Dates and times of day

What the engine takes from the date library: the parts of a date/time, and a date/time from its
parts. A date/time is kept as its Unix timestamp; taking it apart and putting the parts together
gives it back.
-/

namespace MockOracle

open Semantics.Calendar

/-- The number of 1 January 1970. -/
def epochDay : Int := 719468

/-- A date, if there is one in the years the library supports. -/
def fromYmdOpt (year : Int) (month day : Nat) : Option Civil :=
  let date : Civil := ⟨year, month, day⟩
  if -262143 ≤ year ∧ year ≤ 262142 ∧ date.Valid then some date else none

/-- A date with a time of day. A leap second is more than 10^9 nanoseconds in the last second of a
minute. -/
def andHmsNanoOpt (date : Civil) (hour minute second nano : Nat) : Option NaiveDateTime :=
  if hour < 24 ∧ minute < 60 ∧ second < 60 ∧ (nano < 1000000000 ∨ second = 59 ∧ nano < 2000000000) then
    some ⟨(dayNumber date - epochDay) * 86400 + (hour * 3600 + minute * 60 + second : Nat), nano⟩
  else none

namespace NaiveDateTime

/-- The day of a date/time. -/
def date (d : NaiveDateTime) : Civil := civil (d.timestamp / 86400 + epochDay)

/-- The year of a date/time. -/
def year (d : NaiveDateTime) : Int := d.date.year

/-- The month of a date/time, from one. -/
def month (d : NaiveDateTime) : Nat := d.date.month

/-- The day of the month, from one. -/
def day (d : NaiveDateTime) : Nat := d.date.day

/-- The seconds since midnight. -/
def secondOfDay (d : NaiveDateTime) : Nat := (d.timestamp % 86400).toNat

/-- The hour of a date/time. -/
def hour (d : NaiveDateTime) : Nat := d.secondOfDay / 3600

/-- The minute of a date/time. -/
def minute (d : NaiveDateTime) : Nat := d.secondOfDay / 60 % 60

/-- The second of a date/time. -/
def second (d : NaiveDateTime) : Nat := d.secondOfDay % 60

/-- The days since Monday; the epoch is a Thursday. -/
def weekday (d : NaiveDateTime) : Nat := ((d.timestamp / 86400 + 3) % 7).toNat

/-- The number of the day in its year, from one. -/
def ordinal (d : NaiveDateTime) : Nat :=
  (dayNumber d.date - dayNumber ⟨d.year, 1, 1⟩ + 1).toNat

/-- The date/time some minutes later, for one that is not in a leap second. -/
def addMinutes (d : NaiveDateTime) (minutes : Int) : NaiveDateTime :=
  { d with timestamp := d.timestamp + minutes * 60 }

/-- Every date/time has a day that there is. -/
theorem valid_date (d : NaiveDateTime) : d.date.Valid := valid_civil _

/-- A day has 86400 seconds. -/
theorem secondOfDay_lt (d : NaiveDateTime) : d.secondOfDay < 86400 := by
  unfold secondOfDay
  omega

/-- A day has 24 hours. -/
theorem hour_lt (d : NaiveDateTime) : d.hour < 24 := by
  have := d.secondOfDay_lt
  unfold hour
  omega

/-- An hour has 60 minutes. -/
theorem minute_lt (d : NaiveDateTime) : d.minute < 60 := Nat.mod_lt _ (by decide)

/-- A minute has 60 seconds. -/
theorem second_lt (d : NaiveDateTime) : d.second < 60 := Nat.mod_lt _ (by decide)

/-- A year has 12 months. -/
theorem month_bounds (d : NaiveDateTime) : 1 ≤ d.month ∧ d.month ≤ 12 :=
  ⟨d.valid_date.1, d.valid_date.2.1⟩

/-- A month has 31 days at most. -/
theorem day_bounds (d : NaiveDateTime) : 1 ≤ d.day ∧ d.day ≤ 31 := by
  obtain ⟨-, -, first, last⟩ := d.valid_date
  refine ⟨first, last.trans ?_⟩
  unfold daysInMonth
  split
  · split <;> decide
  · split <;> decide

/-- The day of a date/time is made from its year, month and day, if the library supports the year.
-/
theorem fromYmdOpt_date (d : NaiveDateTime) (supported : -262143 ≤ d.year ∧ d.year ≤ 262142) :
    fromYmdOpt d.year d.month d.day = some d.date := by
  have holds : -262143 ≤ d.year ∧ d.year ≤ 262142 ∧ Civil.Valid ⟨d.year, d.month, d.day⟩ :=
    ⟨supported.1, supported.2, d.valid_date⟩
  exact if_pos holds

/-- The parts of a date/time make it up. -/
theorem andHmsNanoOpt_parts (d : NaiveDateTime) {nano : Nat} (isNano : nano < 1000000000) :
    andHmsNanoOpt d.date d.hour d.minute d.second nano = some { d with nanos := nano } := by
  have days : dayNumber d.date = d.timestamp / 86400 + epochDay := dayNumber_civil _
  have clock : d.hour * 3600 + d.minute * 60 + d.second = d.secondOfDay := by
    unfold hour minute second
    omega
  rw [andHmsNanoOpt, if_pos ⟨d.hour_lt, d.minute_lt, d.second_lt, Or.inl isNano⟩, clock, days]
  simp only [Option.some.injEq, NaiveDateTime.mk.injEq, and_true, secondOfDay]
  omega

/-- Within a day the year changes by two at most. -/
theorem year_addMinutes (d : NaiveDateTime) {minutes : Int} (near : |minutes| ≤ 1440) :
    |(d.addMinutes minutes).year - d.year| ≤ 2 := by
  have before := year_civil (d.timestamp / 86400 + epochDay)
  have after := year_civil ((d.timestamp + minutes * 60) / 86400 + epochDay)
  simp only [year, date, addMinutes]
  rw [abs_le] at near ⊢
  omega

end NaiveDateTime

end MockOracle
