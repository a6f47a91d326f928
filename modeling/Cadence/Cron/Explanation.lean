import Cadence.Cron.Reading
import Cadence.Schedule.Text

/-!
# Explaining cron expressions

A cron expression is explained by the text of its schedule.  A minute step that
does not go into the hour evenly gets a note besides, because cron starts it
over every hour.
-/

namespace Cadence.Cron

/-- The step of a minute field of the form `*/n`. -/
def minuteStep? (text : String) : Option Nat :=
  match (words text.toList).head? with
  | some ('*' :: '/' :: step) => Numeral.read? Numeral.countLimit step
  | _ => none

/-- The note on a minute step: the minutes of each hour at which cron fires. -/
def stepNote (step : Nat) : String :=
  let minutes := (stepped 0 59 step).map fun minute => ":" ++ Numeral.padded 2 minute
  "\nnote: cron */" ++ Nat.repr step ++ " actually fires at " ++ joined " and " minutes ++
    " each hour, not true " ++ Nat.repr step ++ "-min intervals"

/-- Explains a cron expression. -/
def explain (text : String) : Except ReadError String := do
  let schedule ← read .approximate text
  match minuteStep? text with
  | some step => return schedule.text ++ if 60 % (← divisor step) ≠ 0 then stepNote step else ""
  | none => return schedule.text

end Cadence.Cron
