import Cadence.Calendar.CalendarDay
import Cadence.Clock.TimeOfDay

/-!
# Schedules

A schedule is one recurrence together with the clauses that narrow it: days it
skips, a day after which it ends, a date its intervals are counted from, the
months it is confined to and the zone it runs in.

`Schedule.WellFormed` states what every schedule read from an expression
satisfies.  A schedule built by hand need not: its interval may be zero, its
lists empty and its days missing from every month.
-/

namespace Cadence

/-- The unit in which the step of a window is given. -/
inductive StepUnit where
  | minutes
  | hours
  deriving DecidableEq, Repr

namespace StepUnit

def text : StepUnit → String
  | minutes => "min"
  | hours => "hours"

/-- The spelling after a count. -/
def textFor (unit : StepUnit) (count : Nat) : String :=
  match unit with
  | minutes => if count = 1 then "minute" else "min"
  | hours => if count = 1 then "hour" else "hours"

/-- A number of units in minutes, at most `Numeral.countLimit`. -/
def inMinutes (unit : StepUnit) (count : Nat) : Nat :=
  match unit with
  | minutes => count
  | hours => min (count * 60) Numeral.countLimit

end StepUnit

/-- One entry of a list of days of the month. -/
inductive MonthDays where
  | single (day : Nat)
  | range (start stop : Nat)
  deriving DecidableEq, Repr

namespace MonthDays

/-- The days of an entry, ascending; none if the range is reversed. -/
def days : MonthDays → List Nat
  | single day => [day]
  | range start stop => List.range' start (stop + 1 - start)

end MonthDays

/-- What a monthly repetition fires on. -/
inductive MonthTarget where
  | days (entries : List MonthDays)
  | lastDay
  | lastBusinessDay
  | nearestBusinessDay (day : Nat) (direction : Option Direction)
  | positioned (position : Position) (weekday : Weekday)
  deriving DecidableEq, Repr

namespace MonthTarget

/-- The listed days of the month, ascending and without repetitions. -/
def listedDays : MonthTarget → List Nat
  | days entries => ((entries.flatMap MonthDays.days).mergeSort (· ≤ ·)).eraseReps
  | _ => []

/-- The dates a target picks in a month, ascending. -/
def datesIn (target : MonthTarget) (ym : YearMonth) : List Date :=
  match target with
  | days _ => target.listedDays.filterMap ym.date?
  | lastDay => ym.lastDate?.toList
  | lastBusinessDay => ym.lastBusinessDate?.toList
  | nearestBusinessDay day direction => (ym.nearestBusinessDate? day direction).toList
  | positioned position weekday => (ym.positionedWeekday? position weekday).toList

/-- Whether a target may pick a date outside the month it is asked for. -/
def mayLeaveMonth : MonthTarget → Bool
  | nearestBusinessDay _ (some _) => true
  | _ => false

end MonthTarget

/-- What a yearly repetition fires on. -/
inductive YearTarget where
  | date (month : Month) (day : Nat)
  | positioned (position : Position) (weekday : Weekday) (month : Month)
  | dayOfMonth (day : Nat) (month : Month)
  | lastBusinessDay (month : Month)
  deriving DecidableEq, Repr

/-- The date a target picks in a year, if that year has it. -/
def YearTarget.dateIn? (target : YearTarget) (year : Int) : Option Date :=
  match target with
  | date month day => Date.ofYmd? year month.number day
  | dayOfMonth day month => Date.ofYmd? year month.number day
  | positioned position weekday month =>
    YearMonth.positionedWeekday? ⟨year, month.number⟩ position weekday
  | lastBusinessDay month => YearMonth.lastBusinessDate? ⟨year, month.number⟩

/-- The seven shapes of a schedule. -/
inductive Recurrence where
  /-- Steps through a window of every day that passes the filter. -/
  | window (interval : Nat) (unit : StepUnit) (start stop : TimeOfDay)
      (days : Option DayFilter)
  /-- Every so many days. -/
  | daily (interval : Nat) (days : DayFilter) (times : List TimeOfDay)
  /-- On some weekdays of every so many weeks. -/
  | weekly (interval : Nat) (days : List Weekday) (times : List TimeOfDay)
  /-- On days of every so many months. -/
  | monthly (interval : Nat) (target : MonthTarget) (times : List TimeOfDay)
  /-- On one weekday of every so many months. -/
  | ordinal (interval : Nat) (position : Position) (weekday : Weekday)
      (times : List TimeOfDay)
  /-- On one day. -/
  | once (day : CalendarDay) (times : List TimeOfDay)
  /-- On one day of every so many years. -/
  | yearly (interval : Nat) (target : YearTarget) (times : List TimeOfDay)
  deriving DecidableEq, Repr

/-- A recurrence with its clauses. -/
structure Schedule where
  recurrence : Recurrence
  /-- The name of the zone; universal time if there is none. -/
  zone : Option String
  /-- Days on which the schedule does not fire. -/
  skipped : List CalendarDay
  /-- The last day on which the schedule fires. -/
  lastDay : Option CalendarDay
  /-- The date from which intervals are counted. -/
  anchor : Option Date
  /-- The months the schedule is confined to; all if the list is empty. -/
  season : List Month
  deriving DecidableEq, Repr

namespace Schedule

/-- A recurrence without clauses. -/
def ofRecurrence (recurrence : Recurrence) : Schedule :=
  ⟨recurrence, none, [], none, none, []⟩

/-- The same schedule with its intervals counted from another date. -/
def withAnchor (schedule : Schedule) (anchor : Date) : Schedule :=
  { schedule with anchor := some anchor }

end Schedule

end Cadence
