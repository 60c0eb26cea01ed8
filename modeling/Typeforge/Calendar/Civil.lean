/-
# `Typeforge.Calendar.Civil` — days and civil dates

The Gregorian calendar, extended without change to all years: a day is counted
from 1970-01-01, a civil date is a year, a month and a day.  Both directions
count in eras of four hundred years that begin on a first of March, so that a
leap day is the last of its year.
-/

namespace Typeforge

/-- A date of the Gregorian calendar, year zero and negative years included. -/
structure Civil where
  year : Int
  month : Nat
  day : Nat
deriving Repr, DecidableEq

namespace Civil

/-- Every fourth year is a leap year, but of the hundreds only every fourth. -/
def isLeap (year : Int) : Bool :=
  decide (year % 4 = 0 ∧ (year % 100 ≠ 0 ∨ year % 400 = 0))

def monthLength (year : Int) (month : Nat) : Nat :=
  if month = 2 then if isLeap year then 29 else 28
  else if month = 4 ∨ month = 6 ∨ month = 9 ∨ month = 11 then 30
  else 31

/-- Whether month and day exist in the year. -/
def isValid (c : Civil) : Bool :=
  decide (1 ≤ c.month ∧ c.month ≤ 12 ∧ 1 ≤ c.day ∧ c.day ≤ monthLength c.year c.month)

/-- The number of a date's day, counted from 1970-01-01. -/
def toDay (c : Civil) : Int :=
  let year : Int := if c.month ≤ 2 then c.year - 1 else c.year
  let era := year / 400
  let yearOfEra := year - era * 400
  let monthFromMarch : Int := if 2 < c.month then (c.month : Int) - 3 else (c.month : Int) + 9
  let dayOfYear := (153 * monthFromMarch + 2) / 5 + (c.day : Int) - 1
  let dayOfEra := yearOfEra * 365 + yearOfEra / 4 - yearOfEra / 100 + dayOfYear
  era * 146097 + dayOfEra - 719468

/-- The date of a day. -/
def ofDay (day : Int) : Civil :=
  let shifted := day + 719468
  let era := shifted / 146097
  let dayOfEra := shifted - era * 146097
  let yearOfEra := (dayOfEra - dayOfEra / 1460 + dayOfEra / 36524 - dayOfEra / 146096) / 365
  let dayOfYear := dayOfEra - (365 * yearOfEra + yearOfEra / 4 - yearOfEra / 100)
  let monthFromMarch := (5 * dayOfYear + 2) / 153
  let dayOfMonth := dayOfYear - (153 * monthFromMarch + 2) / 5 + 1
  let month := if monthFromMarch < 10 then monthFromMarch + 3 else monthFromMarch - 9
  let year := yearOfEra + era * 400 + (if month ≤ 2 then 1 else 0)
  ⟨year, month.toNat, dayOfMonth.toNat⟩

end Civil

end Typeforge
