import Cadence.Schedule.Basic
import Cadence.Text.Blank

/-!
# Well-formed schedules

What an expression can say: counts from 1 upward, lists with at least one entry,
times on the clock, days that their month can have and a zone name that is one
word.
-/

namespace Cadence

/-- A day of every year is one its month can have; a date has a year of four
digits. -/
def CalendarDay.WellFormed : CalendarDay → Prop
  | yearly month day => 1 ≤ day ∧ day ≤ month.maxDays
  | fixed date => 0 ≤ date.year ∧ date.year ≤ 9999

/-- Days lie in 1 to 31 and ranges ascend. -/
def MonthDays.WellFormed : MonthDays → Prop
  | single day => 1 ≤ day ∧ day ≤ 31
  | range start stop => 1 ≤ start ∧ start ≤ stop ∧ stop ≤ 31

def MonthTarget.WellFormed : MonthTarget → Prop
  | days entries => entries ≠ [] ∧ ∀ entry ∈ entries, entry.WellFormed
  | nearestBusinessDay day _ => 1 ≤ day ∧ day ≤ 31
  | _ => True

def YearTarget.WellFormed : YearTarget → Prop
  | date month day => 1 ≤ day ∧ day ≤ month.maxDays
  | dayOfMonth day month => 1 ≤ day ∧ day ≤ month.maxDays
  | _ => True

def DayFilter.WellFormed : DayFilter → Prop
  | listed days => days ≠ []
  | _ => True

/-- A list of times has an entry, and all lie on the clock. -/
def TimesWellFormed (times : List TimeOfDay) : Prop :=
  times ≠ [] ∧ ∀ time ∈ times, time.IsOnClock

/-- An interval is a count of at least 1. -/
def IntervalWellFormed (interval : Nat) : Prop :=
  1 ≤ interval ∧ interval ≤ Numeral.countLimit

/-- A repetition over several days has no weekday filter besides. -/
def Recurrence.WellFormed : Recurrence → Prop
  | window interval _ start stop days =>
    IntervalWellFormed interval ∧ start.IsOnClock ∧ stop.IsOnClock ∧
      ∀ filter ∈ days, filter.WellFormed
  | daily interval days times =>
    IntervalWellFormed interval ∧ days.WellFormed ∧ (1 < interval → days = .every) ∧
      TimesWellFormed times
  | weekly interval days times =>
    IntervalWellFormed interval ∧ days ≠ [] ∧ TimesWellFormed times
  | monthly interval target times =>
    IntervalWellFormed interval ∧ target.WellFormed ∧ TimesWellFormed times
  | ordinal interval _ _ times => IntervalWellFormed interval ∧ TimesWellFormed times
  | once day times => day.WellFormed ∧ TimesWellFormed times
  | yearly interval target times =>
    IntervalWellFormed interval ∧ target.WellFormed ∧ TimesWellFormed times

/-- A zone name is a word: not empty and without blanks. -/
def ZoneNameWellFormed (name : String) : Prop :=
  name ≠ "" ∧ ∀ c ∈ name.toList, isAsciiBlank c = false

structure Schedule.WellFormed (schedule : Schedule) : Prop where
  recurrence : schedule.recurrence.WellFormed
  skipped : ∀ day ∈ schedule.skipped, day.WellFormed
  lastDay : ∀ day ∈ schedule.lastDay, day.WellFormed
  anchor : ∀ date ∈ schedule.anchor, 0 ≤ date.year ∧ date.year ≤ 9999
  zone : ∀ name ∈ schedule.zone, ZoneNameWellFormed name

end Cadence
