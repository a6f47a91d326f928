import Cadence.Command.Run
import Std.Time.DateTime.Timestamp

/-!
# The program

Reads the arguments, looks at the clock and prints the answer.  An error in the
arguments gives exit code 2, any other error exit code 1.
-/

open Cadence

/-- How the program is called. -/
def usageText : String :=
  joined "\n"
    [ "Usage: cadence <COMMAND>",
      "",
      "Commands:",
      "  next EXPR [-n N] [--from INSTANT]   print the next occurrences of an expression",
      "  previous EXPR [--from INSTANT]      print the last occurrence before an instant",
      "  matches EXPR INSTANT                say whether an expression fires at an instant",
      "  to-cron EXPR                        write an expression as cron",
      "  from-cron CRON                      write a cron expression as an expression",
      "  explain CRON                        explain a cron expression",
      "  check EXPR                          print the canonical form of an expression" ]

/-- What is printed for arguments that name no command to run. -/
def usageMessage : UsageError → String
  | .help | .noArguments => usageText
  | .version => "cadence 0.1.0"
  | .unknownCommand => "error: unrecognized command"
  | .unknownArgument => "error: unexpected argument"
  | .missingArgument => "error: a required argument is missing"
  | .missingValue => "error: an option needs a value"
  | .attachedValue => "error: an option takes no value"
  | .invalidCount => "error: the count is not a number"
  | .repeatedOption => "error: an option is given twice"

/-- The present instant. -/
def present : IO Instant := do
  let stamp ← Std.Time.Timestamp.now
  let second := stamp.toSecondsSinceUnixEpoch.val
  return ⟨epochDay * daySeconds + second, 0⟩

def main (arguments : List String) : IO UInt32 := do
  match Command.ofArguments arguments with
  | .error error =>
    if error = .help ∨ error = .version then
      IO.println (usageMessage error)
      return 0
    else
      IO.eprintln (usageMessage error)
      return 2
  | .ok command =>
    match command.run .standard (← present) with
    | .ok answer =>
      IO.println answer
      return 0
    | .error (.report report) =>
      IO.eprintln report.text
      return 1
    | .error error =>
      IO.eprintln ("Error: " ++ error.message)
      return 1
