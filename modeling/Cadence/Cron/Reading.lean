import Cadence.Cron.Field
import Cadence.Schedule.Basic

/-!
# Reading cron expressions

A cron expression has five fields: minute, hour, day of the month, month and
weekday.  The first two and the day fields decide the recurrence, the month
field becomes the season.  Some common schedules also have a name that starts
with `@`.

Cron starts a minute step over every hour.  Such a step is a steady interval
only if the last slot of one hour and the first of the next are one step apart;
otherwise it is refused, unless the reader is asked to be approximate.
-/

namespace Cadence.Cron

/-- How minute steps that cron starts over every hour are treated. -/
inductive Precision where
  /-- Refused unless they keep a steady interval. -/
  | exact
  /-- Taken for the steady interval they look like. -/
  | approximate
  deriving DecidableEq, Repr

/-- The recurrence a shortcut stands for, in any ASCII case. -/
def shortcut? (text : String) : Option Recurrence :=
  match text.toLower with
  | "@yearly" | "@annually" => some (.yearly 1 (.date .january 1) [.midnight])
  | "@monthly" => some (.monthly 1 (.days [.single 1]) [.midnight])
  | "@weekly" => some (.daily 1 (.listed [.sunday]) [.midnight])
  | "@daily" | "@midnight" => some (.daily 1 .every [.midnight])
  | "@hourly" => some (.window 1 .hours .midnight .lastMinute none)
  | _ => none

/-- The fields that decide the recurrence. -/
structure Fields where
  minute : List Char
  hour : List Char
  dayOfMonth : List Char
  weekday : List Char
  precision : Precision

/-- In the day fields a question mark says the same as an asterisk. -/
def dayField (field : List Char) : List Char :=
  if field = ['?'] then ['*'] else field

/-- Reads a month by number or name. -/
def readMonth (text : List Char) : Except ReadError Nat :=
  match Month.ofName? (String.ofList text) with
  | some month => .ok month.number
  | none => FieldKind.month.value text

/-- The months a field lists, each once; none if it does not restrict them. -/
def readSeason (field : List Char) : Except ReadError (List Month) :=
  if field = ['*'] then .ok []
  else do
    let numbers ← readList .month readMonth field
    return (numbers.filterMap Month.ofNumber?).eraseDups

/-- Reads one entry of the days of the month.  A range stays a range, a step is
spelled out. -/
def readMonthDays (entry : List Char) : Except ReadError (List MonthDays) :=
  match (if entry.contains '/' then none else splitFirst? '-' entry) with
  | some (start, stop) => do
    let (start, stop) ← readRange FieldKind.dayOfMonth.value start stop
    return [.range start stop]
  | none => do
    let days ← readEntry .dayOfMonth FieldKind.dayOfMonth.value entry
    return days.map .single

/-- Reads the days of the month. -/
def readMonthTarget (field : List Char) : Except ReadError MonthTarget := do
  let entries ← (splitAll ',' field).mapM readMonthDays
  return .days entries.flatten

/-- Reads the cron number of a weekday, by number or name.  The number 7 is kept
apart from 0, so that a range may end on it. -/
def readWeekdayNumber (text : List Char) : Except ReadError Nat :=
  match Numeral.read? Numeral.countLimit text with
  | some number => if number ≤ 7 then .ok number else .error (.valueOutOfRange "DOW" 0 7 number)
  | none => match Weekday.ofName? (String.ofList text) with
    | some day => .ok day.cronNumber
    | none => .error (.invalidWeekday (String.ofList text))

/-- Reads a single weekday. -/
def readWeekday (text : List Char) : Except ReadError Weekday := do
  let number ← readWeekdayNumber text
  match Weekday.ofCronNumber? number with
  | some day => return day
  | none => .error (.invalidWeekday (String.ofList text))

/-- Reads the weekdays, each once. -/
def readDayFilter (field : List Char) : Except ReadError DayFilter :=
  if field = ['*'] then .ok .every
  else do
    let numbers ← readList .weekday readWeekdayNumber field
    return .ofDays (numbers.filterMap Weekday.ofCronNumber?).eraseDups

namespace Fields

/-- The time of day of fields that hold one value each.  The hour is judged
first. -/
def time (fields : Fields) : Except ReadError TimeOfDay := do
  let hour ← FieldKind.hour.value fields.hour
  let minute ← FieldKind.minute.value fields.minute
  return ⟨hour, minute⟩

/-- Reads the rank in `5#2`. -/
def readRank (text : List Char) : Except ReadError Position :=
  match Numeral.read? Numeral.countLimit text with
  | none => .error (.invalidRank (String.ofList text))
  | some rank => match Position.ofRank? rank with
    | some position => .ok position
    | none => .error (.rankOutOfRange rank)

/-- A weekday field that picks one weekday of the month: `5#2` for the second
Friday, `5L` for the last. -/
def positioned? (fields : Fields) : Except ReadError (Option Recurrence) :=
  match splitFirst? '#' fields.weekday with
  | some (day, rank) => do
    let position ← readRank rank
    let weekday ← readWeekday day
    if fields.dayOfMonth = ['*'] then
      return some (.ordinal 1 position weekday [← fields.time])
    else .error .dayWithRank
  | none => match dropFinal? 'L' fields.weekday with
    | none | some [] => .ok none
    | some day => do
      let weekday ← readWeekday day
      if fields.dayOfMonth = ['*'] then
        return some (.ordinal 1 .last weekday [← fields.time])
      else .error .dayWithLast

/-- A day field that depends on the length or the weekends of the month: `L`,
`LW` or `15W`. -/
def specialDay? (fields : Fields) : Except ReadError (Option Recurrence) := do
  let target : Option MonthTarget ←
    if fields.dayOfMonth = ['L'] then pure (some .lastDay)
    else if fields.dayOfMonth = ['L', 'W'] then pure (some .lastBusinessDay)
    else match dropFinal? 'W' fields.dayOfMonth with
      | none => pure none
      | some day => pure (some (.nearestBusinessDay (← FieldKind.dayOfMonth.value day) none))
  match target with
  | none => return none
  | some target =>
    if fields.weekday = ['*'] then return some (.monthly 1 target [← fields.time])
    else .error .weekdayWithSpecialDay

/-- Reads the hours in which a minute step runs. -/
def hourWindow (fields : Fields) : Except ReadError (Nat × Nat) :=
  if fields.hour.contains '/' then .error .twoSteps
  else match splitFirst? '-' fields.hour with
    | some (start, stop) => readRange FieldKind.hour.value start stop
    | none =>
      if fields.hour = ['*'] then .ok (0, 23)
      else do
        let hour ← FieldKind.hour.value fields.hour
        return (hour, hour)

/-- Steps through the minutes of one or more hours. -/
def minuteSteps (fields : Fields) (range step : List Char) : Except ReadError Recurrence := do
  let interval ← readStep step
  let (startMinute, stopMinute) ← readBounds .minute FieldKind.minute.value range
  let (startHour, stopHour) ← fields.hourWindow
  if fields.dayOfMonth ≠ ['*'] then .error .minuteStepWithDay
  let days ←
    if fields.weekday = ['*'] then pure none
    else some <$> readDayFilter fields.weekday
  let slots := (stopMinute - startMinute) / (← divisor interval)
  let lastMinute := startMinute + slots * interval
  if fields.precision = .exact then
    if 60 ≤ interval then .error (.longMinuteStep interval)
    if startHour ≠ stopHour ∧ lastMinute + interval ≠ startMinute + 60 then
      .error (.unsteadyMinuteStep (String.ofList fields.minute) interval)
  let stop : TimeOfDay :=
    if startHour = 0 ∧ stopHour = 23 ∧ startMinute = 0 then .lastMinute
    else ⟨stopHour, lastMinute⟩
  return .window interval .minutes ⟨startHour, startMinute⟩ stop days

/-- Steps through the hours of the day, on the hour. -/
def hourSteps (fields : Fields) (range step : List Char) : Except ReadError Recurrence := do
  let interval ← readStep step
  let (startHour, stopHour) ← readBounds .hour FieldKind.hour.value range
  if fields.dayOfMonth ≠ ['*'] ∨ fields.weekday ≠ ['*'] then .error .hourStepWithDays
  let stopMinute := if startHour = 0 ∧ stopHour = 23 then 59 else 0
  return .window interval .hours ⟨startHour, 0⟩ ⟨stopHour, stopMinute⟩ none

/-- One time of day, on the days of whichever day field restricts them. -/
def atOneTime (fields : Fields) : Except ReadError Recurrence := do
  let time ← fields.time
  if fields.dayOfMonth = ['*'] then
    return .daily 1 (← readDayFilter fields.weekday) [time]
  else if fields.weekday = ['*'] then
    return .monthly 1 (← readMonthTarget fields.dayOfMonth) [time]
  else .error .bothDayFields

/-- The recurrence of the fields. -/
def recurrence (fields : Fields) : Except ReadError Recurrence := do
  match ← fields.positioned? with
  | some recurrence => return recurrence
  | none =>
    match ← fields.specialDay? with
    | some recurrence => return recurrence
    | none =>
      match splitFirst? '/' fields.minute with
      | some (range, step) => fields.minuteSteps range step
      | none =>
        match splitFirst? '/' fields.hour with
        | some (range, step) =>
          if fields.minute = ['0'] ∨ fields.minute = ['0', '0'] then fields.hourSteps range step
          else fields.atOneTime
        | none => fields.atOneTime

end Fields

/-- Reads a cron expression. -/
def read (precision : Precision) (text : String) : Except ReadError Schedule :=
  let text := trimmed text.toList
  if text.head? = some '@' then
    match shortcut? (String.ofList text) with
    | some recurrence => .ok (.ofRecurrence recurrence)
    | none => .error (.unknownShortcut (String.ofList text))
  else match words text with
    | [minute, hour, dayOfMonth, month, weekday] => do
      let fields : Fields := ⟨minute, hour, dayField dayOfMonth, dayField weekday, precision⟩
      let recurrence ← fields.recurrence
      let season ← readSeason month
      return { Schedule.ofRecurrence recurrence with season }
    | fields => .error (.fieldCount fields.length)

end Cadence.Cron

/-- The schedule of a cron expression, exactly. -/
def Cadence.Schedule.ofCron (text : String) : Except Cadence.Cron.ReadError Cadence.Schedule :=
  Cadence.Cron.read .exact text
