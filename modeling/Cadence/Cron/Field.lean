import Cadence.Calendar.YearMonth
import Cadence.Text.Blank
import Cadence.Text.Numeral
import Cadence.Text.Split

/-!
# Cron fields

A field of a cron expression is a list of values, ranges and steps.  This module
reads the pieces that all fields have in common and names everything that can be
wrong with a cron expression.

Steps are divided by.  A step of zero is refused where it is read; to divide by one
all the same is an error of its own, which no expression leads to.
-/

namespace Cadence.Cron

/-- What is wrong with a cron expression. -/
inductive ReadError where
  | fieldCount (count : Nat)
  | unknownShortcut (text : String)
  | invalidValue (field text : String)
  | valueOutOfRange (field : String) (least greatest value : Nat)
  | invalidStep (text : String)
  | zeroStep
  /-- A step of zero that has been let through to where it divides. -/
  | divisionByZero
  | reversedRange (start stop : Nat)
  | emptyEntry (field : String)
  | invalidWeekday (text : String)
  | invalidRank (text : String)
  | rankOutOfRange (rank : Nat)
  | dayWithRank
  | dayWithLast
  | weekdayWithSpecialDay
  | bothDayFields
  | twoSteps
  | minuteStepWithDay
  | longMinuteStep (step : Nat)
  | unsteadyMinuteStep (field : String) (step : Nat)
  | hourStepWithDays
  deriving DecidableEq, Repr

namespace ReadError

def message : ReadError → String
  | fieldCount count => "expected 5 cron fields, got " ++ Nat.repr count
  | unknownShortcut text => "unknown @ shortcut: " ++ text
  | invalidValue field text => "invalid " ++ field ++ " field: " ++ text
  | valueOutOfRange field least greatest value =>
    field ++ " must be " ++ Nat.repr least ++ "-" ++ Nat.repr greatest ++
      ", got " ++ Nat.repr value
  | invalidStep text => "invalid step value: " ++ text
  | zeroStep => "step cannot be 0"
  | divisionByZero => "division by a step of zero"
  | reversedRange start stop =>
    "range start must be <= end: " ++ Nat.repr start ++ "-" ++ Nat.repr stop
  | emptyEntry field => "empty " ++ field ++ " list entry"
  | invalidWeekday text => "invalid DOW: " ++ text
  | invalidRank text => "invalid nth value: " ++ text
  | rankOutOfRange rank => "nth must be 1-5, got " ++ Nat.repr rank
  | dayWithRank => "DOM must be * when using # for nth weekday"
  | dayWithLast => "DOM must be * when using nL for last weekday"
  | weekdayWithSpecialDay => "DOW must be * when using L, LW or W in DOM"
  | bothDayFields => "day-of-month and day-of-week cannot both be restricted"
  | twoSteps => "minute and hour steps cannot be combined"
  | minuteStepWithDay => "minute intervals with a day-of-month field are not supported"
  | longMinuteStep step => "minute step must be below 60, got " ++ Nat.repr step
  | unsteadyMinuteStep field step =>
    "minute step " ++ field ++ " restarts every hour, not a steady " ++ Nat.repr step ++
      "-min interval"
  | hourStepWithDays => "hour intervals with day fields are not supported"

end ReadError

/-- A kind of field: its name in messages and the values it ranges over. -/
structure FieldKind where
  name : String
  least : Nat
  greatest : Nat

namespace FieldKind

def minute : FieldKind := ⟨"minute", 0, 59⟩
def hour : FieldKind := ⟨"hour", 0, 23⟩
def dayOfMonth : FieldKind := ⟨"DOM", 1, 31⟩
def month : FieldKind := ⟨"month", 1, 12⟩

/-- Weekdays from 0 to 6; a single value may also be 7, which is Sunday. -/
def weekday : FieldKind := ⟨"DOW", 0, 6⟩

/-- Reads one value of a field. -/
def value (kind : FieldKind) (text : List Char) : Except ReadError Nat :=
  match Numeral.read? Numeral.countLimit text with
  | none => .error (.invalidValue kind.name (String.ofList text))
  | some value =>
    if kind.least ≤ value ∧ value ≤ kind.greatest then .ok value
    else .error (.valueOutOfRange kind.name kind.least kind.greatest value)

end FieldKind

/-- Reads a step. -/
def readStep (text : List Char) : Except ReadError Nat :=
  match Numeral.read? Numeral.countLimit text with
  | none => .error (.invalidStep (String.ofList text))
  | some 0 => .error .zeroStep
  | some step => .ok step

/-- A step as that by which something is divided or counted: there is no quotient and no
remainder by zero. -/
def divisor (step : Nat) : Except ReadError Nat :=
  if step = 0 then .error .divisionByZero else .ok step

/-- Requires that a range does not descend. -/
def ordered (start stop : Nat) : Except ReadError (Nat × Nat) :=
  if start ≤ stop then .ok (start, stop) else .error (.reversedRange start stop)

/-- Reads both ends of a range. -/
def readRange (readOne : List Char → Except ReadError Nat) (start stop : List Char) :
    Except ReadError (Nat × Nat) := do
  let first ← readOne start
  let final ← readOne stop
  ordered first final

/-- Reads what stands before a step: everything, a range, or a value from which
to go on to the greatest. -/
def readBounds (kind : FieldKind) (readOne : List Char → Except ReadError Nat)
    (text : List Char) : Except ReadError (Nat × Nat) :=
  if text = ['*'] then .ok (kind.least, kind.greatest)
  else match splitFirst? '-' text with
    | some (start, stop) => readRange readOne start stop
    | none => do
      let start ← readOne text
      return (start, kind.greatest)

/-- Every `step`th value from `start` up to `stop`. -/
def stepped (start stop step : Nat) : List Nat :=
  if stop < start then [] else List.range' start ((stop - start) / step + 1) step

/-- Reads one entry of a list of values. -/
def readEntry (kind : FieldKind) (readOne : List Char → Except ReadError Nat)
    (entry : List Char) : Except ReadError (List Nat) :=
  match splitFirst? '/' entry with
  | some (bounds, step) => do
    let step ← readStep step
    let (start, stop) ← readBounds kind readOne bounds
    return stepped start stop (← divisor step)
  | none => match splitFirst? '-' entry with
    | some (start, stop) => do
      let (start, stop) ← readRange readOne start stop
      return stepped start stop 1
    | none =>
      if entry.isEmpty then .error (.emptyEntry kind.name)
      else return [← readOne entry]

/-- Reads a list of values, ranges and steps, in the order they are written. -/
def readList (kind : FieldKind) (readOne : List Char → Except ReadError Nat)
    (field : List Char) : Except ReadError (List Nat) := do
  let entries ← (splitAll ',' field).mapM (readEntry kind readOne)
  return entries.flatten

end Cadence.Cron
