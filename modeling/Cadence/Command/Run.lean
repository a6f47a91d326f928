import Cadence.Command.Arguments
import Cadence.Cron.Explanation
import Cadence.Cron.Writing
import Cadence.Occurrence.Stream
import Cadence.Report
import Cadence.Settings

/-!
# Running commands

A command answers with the text to print.  The zone of the settings is looked up
first, then the expression is read, then the instant; instants are printed in
the zone of the settings.
-/

namespace Cadence

namespace Command

/-- Why a command has no answer. -/
inductive RunError where
  | report (report : Report)
  | invalidInstant (input : String) (fault : Timestamp.Fault)
  deriving DecidableEq, Repr

def RunError.message : RunError → String
  | .report told => told.message
  | .invalidInstant input fault => "invalid instant '" ++ input ++ "': " ++ fault.message

/-- Reads an expression, with a report on what is wrong. -/
def readExpression (text : String) : Except RunError Schedule :=
  (Schedule.ofText text).mapError fun error => .report (.ofExpressionError text error)

/-- Reads an instant. -/
def readInstant (text : String) : Except RunError Instant :=
  match Timestamp.read text with
  | .ok stamp => .ok stamp.instant
  | .error fault => .error (.invalidInstant text fault)

/-- The instant a command starts from: the one it names, or the present. -/
def reference (start : Option String) (now : Instant) : Except RunError Instant :=
  match start with
  | some text => readInstant text
  | none => .ok now

/-- Reports a zone that is not in the table. -/
def knownZone {α : Type} (outcome : Except Zone.Unknown α) : Except RunError α :=
  outcome.mapError fun zone => .report (.ofUnknownZone zone)

/-- Reports what is wrong with a cron expression. -/
def readableCron {α : Type} (outcome : Except Cron.ReadError α) : Except RunError α :=
  outcome.mapError fun error => .report (.cron error.message)

/-- The lines of a list of occurrences. -/
def occurrenceLines (zone : Zone) (hits : List Timestamp) : String :=
  if hits.isEmpty then "no upcoming occurrences"
  else joined "\n" (hits.map fun hit => (zone.timestamp hit.instant).text)

/-- The answer to a command. -/
def run (command : Command) (settings : Settings) (now : Instant) : Except RunError String := do
  let zone ← knownZone (Zone.named (some settings.zone))
  match command with
  | .next expression count start =>
    let schedule ← readExpression expression
    let start ← reference start now
    let hits ← knownZone (schedule.upcoming start (count.getD settings.count))
    return occurrenceLines zone hits
  | .previous expression start =>
    let schedule ← readExpression expression
    let start ← reference start now
    match ← knownZone (schedule.previous start) with
    | some hit => return (zone.timestamp hit.instant).text
    | none => return "no earlier occurrence"
  | .firesAt expression moment =>
    let schedule ← readExpression expression
    let moment ← readInstant moment
    let fires ← knownZone (schedule.isOccurrence moment)
    return if fires then "true" else "false"
  | .toCron expression =>
    let schedule ← readExpression expression
    match schedule.toCron with
    | .ok line => return line
    | .error obstacle => .error (.report (.cron obstacle.message))
  | .fromCron cron =>
    let schedule ← readableCron (Schedule.ofCron cron)
    return schedule.text
  | .explain cron => readableCron (Cron.explain cron)
  | .check expression =>
    let schedule ← readExpression expression
    return schedule.text

end Command

end Cadence
