import Cadence.Calendar.Weekday
import Cadence.Text.Numeral

/-!
# Dates

A date is the number of a day in the Gregorian calendar, carried backwards
before its introduction, with day 1 on the first of January of year 1.  Year 0
precedes year 1.  Day arithmetic is then arithmetic of integers, and year,
month and day of the month are read off the number.

Dates outside the supported years are never produced: `Date.ofYmd?` and
`Date.addDays?` give nothing instead.
-/

namespace Cadence

/-- Every fourth year is a leap year, except for three centuries out of four. -/
def isLeapYear (year : Int) : Bool :=
  (year % 4 = 0 && year % 100 ≠ 0) || year % 400 = 0

/-- The number of days in a month.  A month number outside 1 to 12 counts 31. -/
def daysInMonth (year : Int) (month : Nat) : Nat :=
  match month with
  | 2 => if isLeapYear year then 29 else 28
  | 4 | 6 | 9 | 11 => 30
  | _ => 31

/-- The number of the last day before a year. -/
def daysBeforeYear (year : Int) : Int :=
  365 * (year - 1) + (year - 1) / 4 - (year - 1) / 100 + (year - 1) / 400

/-- How many days of a year lie before a month. -/
def daysBeforeMonth (year : Int) : (month : Nat) → Nat
  | 0 => 0
  | 1 => 0
  | month + 2 => daysBeforeMonth year (month + 1) + daysInMonth year (month + 1)

/-- The latest of the first `month` months that starts before the `day`th day
of a year. -/
def monthOfDay (year : Int) (day : Nat) : (month : Nat) → Nat
  | 0 => 1
  | month + 1 =>
    if daysBeforeMonth year (month + 1) < day then month + 1 else monthOfDay year day month

/-- A day of the calendar. -/
structure Date where
  dayNumber : Int
  deriving DecidableEq, Repr

namespace Date

instance : LE Date := ⟨fun a b => a.dayNumber ≤ b.dayNumber⟩
instance : LT Date := ⟨fun a b => a.dayNumber < b.dayNumber⟩
instance (a b : Date) : Decidable (a ≤ b) :=
  inferInstanceAs (Decidable (a.dayNumber ≤ b.dayNumber))
instance (a b : Date) : Decidable (a < b) :=
  inferInstanceAs (Decidable (a.dayNumber < b.dayNumber))

/-- The first supported year. -/
def leastYear : Int := -262143

/-- The last supported year. -/
def greatestYear : Int := 262142

/-- The first supported date. -/
def least : Date := ⟨daysBeforeYear leastYear + 1⟩

/-- The last supported date. -/
def greatest : Date := ⟨daysBeforeYear (greatestYear + 1)⟩

/-- The date with a day number, if it is supported. -/
def ofDayNumber? (dayNumber : Int) : Option Date :=
  if least.dayNumber ≤ dayNumber ∧ dayNumber ≤ greatest.dayNumber then some ⟨dayNumber⟩ else none

/-- The date of a year, month and day of the month, if there is such a day. -/
def ofYmd? (year : Int) (month day : Nat) : Option Date :=
  if leastYear ≤ year ∧ year ≤ greatestYear ∧
      1 ≤ month ∧ month ≤ 12 ∧ 1 ≤ day ∧ day ≤ daysInMonth year month then
    some ⟨daysBeforeYear year + daysBeforeMonth year month + day⟩
  else none

/-- The year of a date.  A mean year has 146097/400 days, so the quotient is
off by at most one. -/
def year (date : Date) : Int :=
  let guess := (date.dayNumber - 1) * 400 / 146097 + 1
  if date.dayNumber ≤ daysBeforeYear guess then guess - 1
  else if daysBeforeYear (guess + 1) < date.dayNumber then guess + 1
  else guess

/-- The position of a date in its year, starting from 1. -/
def dayOfYear (date : Date) : Nat :=
  (date.dayNumber - daysBeforeYear date.year).toNat

/-- The month of a date, 1 to 12. -/
def month (date : Date) : Nat :=
  monthOfDay date.year date.dayOfYear 12

/-- The day of the month of a date. -/
def day (date : Date) : Nat :=
  date.dayOfYear - daysBeforeMonth date.year date.month

/-- The weekday of a date. -/
def weekday (date : Date) : Weekday :=
  .ofDayNumber date.dayNumber

/-- Whether a date falls on a Saturday or Sunday. -/
def isWeekend (date : Date) : Bool :=
  date.weekday.isWeekend

/-- The date a number of days later, or earlier if the number is negative. -/
def addDays? (date : Date) (days : Int) : Option Date :=
  ofDayNumber? (date.dayNumber + days)

/-- How many days `date` lies after `reference`. -/
def daysSince (date reference : Date) : Int :=
  date.dayNumber - reference.dayNumber

/-- The Monday of the week a date lies in. -/
def monday? (date : Date) : Option Date :=
  date.addDays? (-date.weekday.index)

/-- A year in four digits; outside 0 to 9999 it carries a sign. -/
def yearText (year : Int) : String :=
  if 0 ≤ year ∧ year ≤ 9999 then Numeral.padded 4 year.toNat
  else (if year < 0 then "-" else "+") ++ Numeral.padded 4 year.natAbs

/-- A date as year, month and day, such as `2026-03-15`. -/
def text (date : Date) : String :=
  yearText date.year ++ "-" ++ Numeral.padded 2 date.month ++ "-" ++ Numeral.padded 2 date.day

/-- Reads `YYYY-MM-DD`; nothing unless there is such a day. -/
def ofText? (text : List Char) : Option Date :=
  match text with
  | [y₁, y₂, y₃, y₄, '-', m₁, m₂, '-', d₁, d₂] =>
    if [y₁, y₂, y₃, y₄, m₁, m₂, d₁, d₂].all Char.isDigit then
      ofYmd? (Nat.ofDigitChars 10 [y₁, y₂, y₃, y₄] 0)
        (Nat.ofDigitChars 10 [m₁, m₂] 0) (Nat.ofDigitChars 10 [d₁, d₂] 0)
    else none
  | _ => none

end Date

end Cadence
