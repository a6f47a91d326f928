import Cadence.Schedule.Basic

/-!
# Writing cron expressions

A schedule is written as cron only if cron can say exactly the same.  The zone
is left out, for cron has none, and an anchor has nothing to count for intervals
of one.
-/

namespace Cadence.Cron

/-- What keeps a schedule from being written as cron. -/
inductive Obstacle where
  | skippedDays
  | lastDay
  | season
  | dayInterval
  | weekInterval
  | monthInterval
  | severalTimes
  | partOfDay
  | filteredWindow
  | unevenMinutes (interval : Nat)
  /-- A step of no minutes: what it leaves of the hour is asked for, and there is no remainder by
  zero. -/
  | noMinutes
  | lastDayOfMonth
  | lastBusinessDay
  | nearestBusinessDay
  | positionedWeekday
  | singleDate
  | yearly
  deriving DecidableEq, Repr

namespace Obstacle

def reason : Obstacle → String
  | skippedDays => "except clauses not supported"
  | lastDay => "until clauses not supported"
  | season => "during clauses not supported"
  | dayInterval => "multi-day intervals not supported"
  | weekInterval => "multi-week intervals not supported"
  | monthInterval => "multi-month intervals not supported"
  | severalTimes => "multiple times not supported"
  | partOfDay => "partial-day interval windows not supported"
  | filteredWindow => "interval with day filter not supported"
  | unevenMinutes interval => "*/" ++ Nat.repr interval ++ " breaks at hour boundaries"
  | noMinutes => "*/0 never advances"
  | lastDayOfMonth => "last day of month not supported"
  | lastBusinessDay => "last weekday of month not supported"
  | nearestBusinessDay => "nearest weekday not supported"
  | positionedWeekday => "ordinal weekday of month not supported"
  | singleDate => "single dates are not repeating"
  | yearly => "yearly schedules not supported in 5-field cron"

def message (obstacle : Obstacle) : String :=
  "not expressible as cron (" ++ obstacle.reason ++ ")"

end Obstacle

/-- Joins five fields. -/
def line (minute hour dayOfMonth month weekday : String) : String :=
  joined " " [minute, hour, dayOfMonth, month, weekday]

/-- The only time of a list. -/
def singleTime : List TimeOfDay → Except Obstacle TimeOfDay
  | [time] => .ok time
  | _ => .error .severalTimes

/-- The weekday field of a listed filter, in ascending cron numbers. -/
def listedWeekdayField (days : List Weekday) : String :=
  let numbers := ((days.map Weekday.cronNumber).mergeSort (· ≤ ·)).eraseReps
  joined "," (numbers.map Nat.repr)

/-- The weekday field of a filter. -/
def weekdayField : DayFilter → String
  | .every => "*"
  | .business => "1-5"
  | .weekend => "0,6"
  | .listed days => match DayFilter.ofDays days with
    | .business => "1-5"
    | .weekend => "0,6"
    | _ => listedWeekdayField days

/-- An entry of the day-of-month field. -/
def monthDaysField : MonthDays → String
  | .single day => Nat.repr day
  | .range start stop => Nat.repr start ++ "-" ++ Nat.repr stop

/-- The day-of-month field of a target. -/
def dayOfMonthField : MonthTarget → Except Obstacle String
  | .days entries => .ok (joined "," (entries.map monthDaysField))
  | .lastDay => .error .lastDayOfMonth
  | .lastBusinessDay => .error .lastBusinessDay
  | .nearestBusinessDay _ _ => .error .nearestBusinessDay
  | .positioned _ _ => .error .positionedWeekday

/-- The line of a window.  A step of minutes has to go into the hour evenly; a
step of hours starts over at midnight in cron as it does in a window. -/
def windowLine (interval : Nat) (unit : StepUnit) (start stop : TimeOfDay)
    (days : Option DayFilter) : Except Obstacle String :=
  if start ≠ .midnight ∨ stop ≠ .lastMinute then .error .partOfDay
  else if days.isSome then .error .filteredWindow
  else match unit with
    | .minutes =>
      if interval = 0 then .error .noMinutes
      else if 60 % interval ≠ 0 then .error (.unevenMinutes interval)
      else .ok (line ("*/" ++ Nat.repr interval) "*" "*" "*" "*")
    | .hours => .ok (line "0" ("*/" ++ Nat.repr interval) "*" "*" "*")

/-- The line of a recurrence. -/
def recurrenceLine : Recurrence → Except Obstacle String
  | .window interval unit start stop days => windowLine interval unit start stop days
  | .daily interval days times => do
    if 1 < interval then .error .dayInterval
    let time ← singleTime times
    return line (Nat.repr time.minute) (Nat.repr time.hour) "*" "*" (weekdayField days)
  | .weekly interval days times => do
    if 1 < interval then .error .weekInterval
    let time ← singleTime times
    return line (Nat.repr time.minute) (Nat.repr time.hour) "*" "*" (weekdayField (.listed days))
  | .monthly interval target times => do
    if 1 < interval then .error .monthInterval
    let time ← singleTime times
    return line (Nat.repr time.minute) (Nat.repr time.hour) (← dayOfMonthField target) "*" "*"
  | .ordinal _ _ _ _ => .error .positionedWeekday
  | .once _ _ => .error .singleDate
  | .yearly _ _ _ => .error .yearly

end Cadence.Cron

namespace Cadence

/-- Writes a schedule as a cron expression. -/
def Schedule.toCron (schedule : Schedule) : Except Cron.Obstacle String :=
  if !schedule.skipped.isEmpty then .error .skippedDays
  else if schedule.lastDay.isSome then .error .lastDay
  else if !schedule.season.isEmpty then .error .season
  else Cron.recurrenceLine schedule.recurrence

end Cadence
