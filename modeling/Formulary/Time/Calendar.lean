/-!
# The civil calendar

Days are counted from 1970-01-01 in the Gregorian calendar, which is extended in both directions.
Counting is done in years that begin in March, so that a leap day is the last day of its year; four
hundred such years have 146097 days. `Date.toDays` counts the day of a date and `Date.ofDays` names
a day. A triple of numbers is a date when it is the name of the day that it counts to.
-/

namespace Formulary

/-- A year that begins in March, a month of it from 0 and a day of the month from 0. -/
structure MarchDate where
  year : Int
  month : Int
  day : Int
deriving DecidableEq, Repr

namespace MarchDate

/-- Days from 0000-03-01 to the date. -/
def toDays (date : MarchDate) : Int :=
  let year := date.year % 400
  date.year / 400 * 146097
    + (year * 365 + year / 4 - year / 100 + ((153 * date.month + 2) / 5 + date.day))

/-- The century of a day of a cycle. The last day of the cycle is a leap day and belongs to the
fourth century. -/
def centuryOf (day : Int) : Int := min (day / 36524) 3

/-- The four years that hold a day of a century. -/
def leapPeriodOf (day : Int) : Int := day / 1461

/-- The year of a day of four years, whose last day is a leap day. -/
def yearOf (day : Int) : Int := min (day / 365) 3

/-- The year of a cycle and the day of that year which a day of the cycle is. -/
def splitCycle (day : Int) : Int × Int :=
  let century := centuryOf day
  let dayOfCentury := day - century * 36524
  let period := leapPeriodOf dayOfCentury
  let dayOfPeriod := dayOfCentury - period * 1461
  let year := yearOf dayOfPeriod
  (century * 100 + period * 4 + year, dayOfPeriod - year * 365)

def monthOfYear (day : Int) : Int := (5 * day + 2) / 153

/-- The date of the day that is `days` after 0000-03-01. -/
def ofDays (days : Int) : MarchDate :=
  let split := splitCycle (days % 146097)
  ⟨split.1 + days / 146097 * 400, monthOfYear split.2,
    split.2 - (153 * monthOfYear split.2 + 2) / 5⟩

theorem splitCycle_bounds (day : Int) (h : 0 ≤ day ∧ day < 146097) :
    (0 ≤ (splitCycle day).1 ∧ (splitCycle day).1 < 400) ∧
      0 ≤ (splitCycle day).2 ∧ (splitCycle day).2 ≤ 365 := by
  simp only [splitCycle, centuryOf, leapPeriodOf, yearOf]
  omega

/-- The year and the day of the year give back the day of the cycle. -/
theorem day_of_splitCycle (day : Int) (h : 0 ≤ day ∧ day < 146097) :
    (splitCycle day).1 * 365 + (splitCycle day).1 / 4 - (splitCycle day).1 / 100
      + (splitCycle day).2 = day := by
  simp only [splitCycle]
  have hc : 0 ≤ centuryOf day ∧ centuryOf day ≤ 3 := by unfold centuryOf; omega
  have hr : 0 ≤ day - centuryOf day * 36524 := by unfold centuryOf; omega
  have hp : 0 ≤ leapPeriodOf (day - centuryOf day * 36524) ∧
      leapPeriodOf (day - centuryOf day * 36524) ≤ 24 := by
    unfold leapPeriodOf centuryOf; omega
  have hs : 0 ≤ day - centuryOf day * 36524
      - leapPeriodOf (day - centuryOf day * 36524) * 1461 := by
    unfold leapPeriodOf; omega
  generalize centuryOf day = century at *
  generalize leapPeriodOf (day - century * 36524) = period at *
  have hy : 0 ≤ yearOf (day - century * 36524 - period * 1461) ∧
      yearOf (day - century * 36524 - period * 1461) ≤ 3 := by
    unfold yearOf; omega
  generalize yearOf (day - century * 36524 - period * 1461) = year at *
  have hfour : (century * 100 + period * 4 + year) / 4 = century * 25 + period := by omega
  have hhundred : (century * 100 + period * 4 + year) / 100 = century := by omega
  rw [hfour, hhundred]
  omega

theorem toDays_ofDays (days : Int) : (ofDays days).toDays = days := by
  have hb := splitCycle_bounds (days % 146097) (by omega)
  have hd := day_of_splitCycle (days % 146097) (by omega)
  simp only [ofDays, toDays]
  generalize splitCycle (days % 146097) = split at *
  generalize monthOfYear _ = month
  have hyear : (split.1 + days / 146097 * 400) % 400 = split.1 := by omega
  have hcycle : (split.1 + days / 146097 * 400) / 400 = days / 146097 := by omega
  rw [hyear, hcycle]
  omega

theorem month_ofDays (days : Int) : 0 ≤ (ofDays days).month ∧ (ofDays days).month ≤ 11 := by
  have hb := splitCycle_bounds (days % 146097) (by omega)
  simp only [ofDays, monthOfYear]
  omega

end MarchDate

structure Date where
  year : Int
  month : Int
  day : Int
deriving DecidableEq, Repr

namespace Date

def toMarch (date : Date) : MarchDate :=
  if date.month ≤ 2 then ⟨date.year - 1, date.month + 9, date.day - 1⟩
  else ⟨date.year, date.month - 3, date.day - 1⟩

def ofMarch (date : MarchDate) : Date :=
  if date.month < 10 then ⟨date.year, date.month + 3, date.day + 1⟩
  else ⟨date.year + 1, date.month - 9, date.day + 1⟩

/-- Days from 0000-03-01 to 1970-01-01. -/
def epoch : Int := 719468

/-- Days from 1970-01-01 to the date. -/
def toDays (date : Date) : Int := date.toMarch.toDays - epoch

/-- The date of the day that is `days` after 1970-01-01. -/
def ofDays (days : Int) : Date := ofMarch (MarchDate.ofDays (days + epoch))

def isValid (date : Date) : Bool := ofDays date.toDays == date

/-- The day of the week of a day, Monday being 1. -/
def weekday (days : Int) : Int := (days + 3) % 7 + 1

theorem toMarch_ofMarch {date : MarchDate} (h : 0 ≤ date.month ∧ date.month ≤ 11) :
    (ofMarch date).toMarch = date := by
  unfold ofMarch
  split
  · have : ¬ date.month + 3 ≤ 2 := by omega
    simp [toMarch, this]
  · have : date.month - 9 ≤ 2 := by omega
    simp [toMarch, this]

/-- Counting to the date of a day gives the day back. -/
theorem toDays_ofDays (days : Int) : (ofDays days).toDays = days := by
  rw [toDays, ofDays, toMarch_ofMarch (MarchDate.month_ofDays _), MarchDate.toDays_ofDays]
  omega

/-- The name of a day is a date. -/
theorem isValid_ofDays (days : Int) : (ofDays days).isValid = true := by
  simp [isValid, toDays_ofDays]

example : toDays ⟨2024, 2, 29⟩ = 19782 := by decide
example : isValid ⟨2023, 2, 29⟩ = false := by decide
example : isValid ⟨1900, 2, 29⟩ = false := by decide
example : isValid ⟨2000, 2, 29⟩ = true := by decide
example : weekday (toDays ⟨2024, 1, 1⟩) = 1 := by decide

end Date

end Formulary
