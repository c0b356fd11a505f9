import Mathlib.Data.Int.Order.Basic
import Mathlib.Tactic.Linarith
import Mathlib.Tactic.IntervalCases

/-!
# The proleptic Gregorian calendar

Days are numbered from 1 March of the year 0, so that the leap day is the last day of a year that
starts in March. `dayNumber` counts the days before a date and `civil` gives the date of a day;
counting the days before that date gives the day back.
-/

namespace MockOracle.Semantics.Calendar

/-- A date by year, month and day. -/
structure Civil where
  year : Int
  month : Nat
  day : Nat
  deriving DecidableEq, Repr

def isLeap (year : Int) : Bool := year % 4 = 0 && (year % 100 != 0 || year % 400 = 0)

def daysInMonth (year : Int) (month : Nat) : Nat :=
  if month = 2 then if isLeap year then 29 else 28
  else if month = 4 ∨ month = 6 ∨ month = 9 ∨ month = 11 then 30
  else 31

/-- The date exists. -/
def Civil.Valid (c : Civil) : Prop :=
  1 ≤ c.month ∧ c.month ≤ 12 ∧ 1 ≤ c.day ∧ c.day ≤ daysInMonth c.year c.month

instance (c : Civil) : Decidable c.Valid := inferInstanceAs (Decidable (_ ∧ _))

/-- The days before a year that starts in March. -/
def daysBefore (year : Int) : Int := 365 * year + year / 4 - year / 100 + year / 400

/-- The days from 1 March to the first of a month, months counted from March. -/
def monthStart (fromMarch : Nat) : Nat := (153 * fromMarch + 2) / 5

/-- The number of a date. -/
def dayNumber (c : Civil) : Int :=
  if c.month ≤ 2 then daysBefore (c.year - 1) + monthStart (c.month + 9) + c.day - 1
  else daysBefore c.year + monthStart (c.month - 3) + c.day - 1

/-- The year that starts in March and the day in it, counted from zero. Of 400 years the first
centuries have a leap day less than the last one, and of a century the last four years. -/
def yearAndDay (number : Int) : Int × Nat :=
  let inEra := (number % 146097).toNat
  let century := min 3 (inEra / 36524)
  let inCentury := inEra - century * 36524
  let four := inCentury / 1461
  let inFour := inCentury - four * 1461
  let one := min 3 (inFour / 365)
  (400 * (number / 146097) + (100 * century + 4 * four + one : Nat), inFour - one * 365)

/-- The date of a day. -/
def civil (number : Int) : Civil :=
  let (year, day) := yearAndDay number
  let fromMarch := (5 * day + 2) / 153
  let inMonth := day - monthStart fromMarch + 1
  if fromMarch < 10 then ⟨year, fromMarch + 3, inMonth⟩ else ⟨year + 1, fromMarch - 9, inMonth⟩

/-- The days before the year and those in it are all, and the last one is in leap years only. -/
theorem yearAndDay_spec (number : Int) :
    daysBefore (yearAndDay number).1 + (yearAndDay number).2 = number ∧ (yearAndDay number).2 ≤ 365 ∧
      ((yearAndDay number).2 = 365 → isLeap ((yearAndDay number).1 + 1) = true) := by
  obtain ⟨inEra, whole, small⟩ : ∃ inEra : Nat, number = 146097 * (number / 146097) + inEra ∧
      inEra < 146097 := ⟨(number % 146097).toNat, by omega, by omega⟩
  have rest : (number % 146097).toNat = inEra := by omega
  unfold yearAndDay
  simp only [rest]
  generalize number / 146097 = era at whole ⊢
  obtain ⟨century, isCentury⟩ : ∃ century, min 3 (inEra / 36524) = century := ⟨_, rfl⟩
  obtain ⟨inCentury, isInCentury⟩ : ∃ rest, inEra - century * 36524 = rest := ⟨_, rfl⟩
  obtain ⟨four, isFour⟩ : ∃ four, inCentury / 1461 = four := ⟨_, rfl⟩
  obtain ⟨inFour, isInFour⟩ : ∃ rest, inCentury - four * 1461 = rest := ⟨_, rfl⟩
  obtain ⟨one, isOne⟩ : ∃ one, min 3 (inFour / 365) = one := ⟨_, rfl⟩
  simp only [isCentury, isInCentury, isFour, isInFour, isOne]
  have centuries : century ≤ 3 ∧ inEra = century * 36524 + inCentury ∧
      (century < 3 → inCentury < 36524) ∧ inCentury ≤ 36524 := by omega
  have fours : inCentury = four * 1461 + inFour ∧ inFour ≤ 1460 ∧ four ≤ 24 := by omega
  have ones : one ≤ 3 ∧ inFour = one * 365 + (inFour - one * 365) ∧ inFour - one * 365 ≤ 365 ∧
      (inFour - one * 365 = 365 → one = 3 ∧ inFour = 1460) := by omega
  generalize inFour - one * 365 = day at ones ⊢
  -- In the year that is cut off, its multiples of 4, 100 and 400 can be read off.
  obtain ⟨year, isYear⟩ : ∃ year : Int,
      400 * era + (100 * century + 4 * four + one : Nat) = year := ⟨_, rfl⟩
  have quarters : year / 4 = 100 * era + 25 * century + four ∧ year / 100 = 4 * era + century ∧
      year / 400 = era := by omega
  refine ⟨?_, ones.2.2.1, fun last => ?_⟩
  · simp only [isYear, daysBefore, quarters]
    omega
  · simp only [isYear, isLeap, Bool.and_eq_true, decide_eq_true_eq, Bool.or_eq_true, bne_iff_ne]
    omega

/-- Counting the days before the date of a day gives the day. -/
theorem dayNumber_civil (number : Int) : dayNumber (civil number) = number := by
  obtain ⟨whole, inYear, -⟩ := yearAndDay_spec number
  unfold civil
  generalize yearAndDay number = cut at whole inYear
  obtain ⟨year, day⟩ := cut
  simp only at whole inYear ⊢
  have start : monthStart ((5 * day + 2) / 153) ≤ day := by
    unfold monthStart
    omega
  split
  · next early =>
      simp only [dayNumber, if_neg (show ¬ (5 * day + 2) / 153 + 3 ≤ 2 by omega), Nat.add_sub_cancel]
      omega
  · next late =>
      have month : (5 * day + 2) / 153 - 9 + 9 = (5 * day + 2) / 153 := by omega
      simp only [dayNumber, if_pos (show (5 * day + 2) / 153 - 9 ≤ 2 by omega), month]
      rw [add_sub_cancel_right]
      omega

theorem valid_civil (number : Int) : (civil number).Valid := by
  obtain ⟨-, inYear, leap⟩ := yearAndDay_spec number
  unfold civil
  generalize yearAndDay number = cut at inYear leap
  obtain ⟨year, day⟩ := cut
  simp only at inYear leap ⊢
  obtain ⟨month, isMonth⟩ : ∃ month, (5 * day + 2) / 153 = month := ⟨_, rfl⟩
  have last : month ≤ 11 := by omega
  rw [isMonth]
  -- Only the last month depends on the year.
  by_cases february : month = 11
  · subst february
    show 1 ≤ 2 ∧ 2 ≤ 12 ∧ 1 ≤ day - 337 + 1 ∧ day - 337 + 1 ≤ if isLeap (year + 1) then 29 else 28
    by_cases leapDay : day = 365
    · simp [leap leapDay, leapDay]
    · have short : day - 337 + 1 ≤ 28 := by omega
      refine ⟨by decide, by decide, by omega, ?_⟩
      split <;> omega
  · have days : day - monthStart month + 1 ≤
        daysInMonth 0 (if month < 10 then month + 3 else month - 9) := by
      interval_cases month <;> simp [monthStart, daysInMonth] <;> omega
    have others : ∀ year' m, m ≠ 2 → daysInMonth year' m = daysInMonth 0 m := by
      intro year' m other
      simp only [daysInMonth, if_neg other]
    split
    · next early =>
        rw [if_pos early] at days
        simp only [Civil.Valid]
        refine ⟨by omega, by omega, by omega, ?_⟩
        rw [others _ _ (by omega)]
        exact days
    · next late =>
        rw [if_neg late] at days
        simp only [Civil.Valid]
        refine ⟨by omega, by omega, by omega, ?_⟩
        rw [others _ _ (by omega)]
        exact days

/-- The year of a day, up to a year: 400 years have 146097 days. -/
theorem year_civil (number : Int) : 146097 * (civil number).year - 146796 ≤ 400 * number ∧
    400 * number ≤ 146097 * (civil number).year + 146396 := by
  obtain ⟨whole, inYear, -⟩ := yearAndDay_spec number
  unfold civil
  generalize yearAndDay number = cut at whole inYear
  obtain ⟨year, day⟩ := cut
  simp only [daysBefore] at whole inYear ⊢
  split
  · simp only
    omega
  · simp only
    omega

end MockOracle.Semantics.Calendar
