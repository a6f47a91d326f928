import Cadence.Text.Numeral
import Cadence.Text.Split

/-!
# Command-line arguments

The first argument names a command, the others are its values and options.  An
option takes its value from the next argument or has it attached, as in `-n4`
and `--count=4`.  After `--` every argument is a value.

Arguments are read from left to right.  An option that still waits for its value
is settled when the next argument that is known arrives; an argument that is not
known is reported first.
-/

namespace Cadence

/-- What a user asks for. -/
inductive Command where
  | next (expression : String) (count : Option Nat) (start : Option String)
  | previous (expression : String) (start : Option String)
  | firesAt (expression : String) (moment : String)
  | toCron (expression : String)
  | fromCron (cron : String)
  | explain (cron : String)
  | check (expression : String)
  deriving DecidableEq, Repr

/-- Why arguments name no command to run. -/
inductive UsageError where
  | help
  | version
  | noArguments
  | unknownCommand
  | unknownArgument
  | missingArgument
  /-- An option stands without the value it needs. -/
  | missingValue
  /-- A switch has a value attached. -/
  | attachedValue
  | invalidCount
  | repeatedOption
  deriving DecidableEq, Repr

namespace Command

/-- The options that take a value. -/
inductive ValueOption where
  | count
  | start
  deriving DecidableEq, Repr

/-- The commands by their names. -/
inductive Name where
  | next
  | previous
  | matching
  | toCron
  | fromCron
  | explain
  | check
  deriving DecidableEq, Repr

namespace Name

def ofText? : String → Option Name
  | "next" => some next
  | "previous" => some previous
  | "matches" => some matching
  | "to-cron" => some toCron
  | "from-cron" => some fromCron
  | "explain" => some explain
  | "check" => some check
  | _ => none

/-- How many values a command needs. -/
def arity : Name → Nat
  | matching => 2
  | _ => 1

/-- Whether a command takes an option. -/
def takes : Name → ValueOption → Bool
  | next, _ => true
  | previous, .start => true
  | _, _ => false

end Name

/-- The largest count that can be asked for: 64 bits, unsigned. -/
def countLimit : Nat := 18446744073709551615

/-- The arguments of a command, as far as they are read. -/
structure Reading where
  values : List String
  count : Option Nat
  start : Option String
  /-- An option and its value, once that is there, still to be settled. -/
  pending : Option (ValueOption × Option String)
  /-- Whether `--` has been read. -/
  valuesOnly : Bool

namespace Reading

def empty : Reading := ⟨[], none, none, none, false⟩

/-- Gives an option its value.  No option is given twice. -/
def store (reading : Reading) (option : ValueOption) (value : String) :
    Except UsageError Reading :=
  match option with
  | .count =>
    if reading.count.isSome then .error .repeatedOption
    else match Numeral.read? countLimit value.toList with
      | some count => .ok { reading with count := some count }
      | none => .error .invalidCount
  | .start =>
    if reading.start.isSome then .error .repeatedOption
    else .ok { reading with start := some value }

/-- Settles the option that waits. -/
def settle (reading : Reading) : Except UsageError Reading :=
  match reading.pending with
  | none => .ok reading
  | some (_, none) => .error .missingValue
  | some (option, some value) => { reading with pending := none }.store option value

/-- Reads an option with the value attached to it, if any. -/
def option (reading : Reading) (option : ValueOption) (attached : Option String) :
    Except UsageError Reading := do
  let settled ← reading.settle
  match attached with
  | some value => settled.store option value
  | none => return { settled with pending := some (option, none) }

/-- Settles the option that waits, then gives help. -/
def giveHelp (reading : Reading) : Except UsageError Reading := do
  let _ ← reading.settle
  .error .help

/-- Reads an argument that starts with two hyphens. -/
def longOption (reading : Reading) (name : Name) (body : List Char) :
    Except UsageError Reading :=
  let (word, attached) := match splitFirst? '=' body with
    | some (word, value) => (String.ofList word, some (String.ofList value))
    | none => (String.ofList body, none)
  match word with
  | "help" => if attached.isSome then .error .attachedValue else reading.giveHelp
  | "count" =>
    if name.takes .count then reading.option .count attached else .error .unknownArgument
  | "from" =>
    if name.takes .start then reading.option .start attached else .error .unknownArgument
  | _ => .error .unknownArgument

/-- Reads an argument that starts with one hyphen. -/
def shortOption (reading : Reading) (name : Name) (letter : Char) (rest : List Char) :
    Except UsageError Reading :=
  if letter = 'h' then reading.giveHelp
  else if letter = 'n' ∧ name.takes .count then
    reading.option .count <| match rest with
      | [] => none
      | '=' :: value => some (String.ofList value)
      | value => some (String.ofList value)
  else .error .unknownArgument

/-- Reads a value of the command. -/
def value (reading : Reading) (name : Name) (text : String) : Except UsageError Reading :=
  if reading.values.length < name.arity then do
    let settled ← reading.settle
    return { settled with values := settled.values ++ [text] }
  else .error .unknownArgument

/-- Reads one argument. -/
def argument (name : Name) (reading : Reading) (text : String) : Except UsageError Reading :=
  if reading.valuesOnly then reading.value name text
  else match text.toList with
    | ['-', '-'] => .ok { reading with valuesOnly := true }
    | '-' :: '-' :: body => reading.longOption name body
    | '-' :: letter :: rest => reading.shortOption name letter rest
    | _ => match reading.pending with
      | some (option, none) => .ok { reading with pending := some (option, some text) }
      | _ => reading.value name text

/-- The command that was read. -/
def command (reading : Reading) (name : Name) : Except UsageError Command := do
  let settled ← reading.settle
  match name, settled.values with
  | .next, [expression] => return .next expression settled.count settled.start
  | .previous, [expression] => return .previous expression settled.start
  | .matching, [expression, moment] => return .firesAt expression moment
  | .toCron, [expression] => return .toCron expression
  | .fromCron, [cron] => return .fromCron cron
  | .explain, [cron] => return .explain cron
  | .check, [expression] => return .check expression
  | _, _ => .error .missingArgument

end Reading

/-- Reads what follows `help`: nothing or the name of a command. -/
def helpOn : List String → UsageError
  | [] => .help
  | [topic] => if topic = "help" ∨ (Name.ofText? topic).isSome then .help else .unknownCommand
  | _ => .unknownCommand

/-- Reads an argument that stands before any command and starts with a hyphen. -/
def leadingOption : List Char → UsageError
  | '-' :: body => match splitFirst? '=' body with
    | some (word, _) =>
      if word = "help".toList ∨ word = "version".toList then .attachedValue else .unknownArgument
    | none =>
      if body = "help".toList then .help
      else if body = "version".toList then .version
      else .unknownArgument
  | 'h' :: _ => .help
  | 'V' :: _ => .version
  | _ => .unknownArgument

/-- Reads what follows a `--` before any command. -/
def afterDashes : List String → UsageError
  | [] => .noArguments
  | text :: _ =>
    if text = "help" ∨ (Name.ofText? text).isSome then .unknownArgument else .unknownCommand

/-- Reads the arguments of a program. -/
def ofArguments : List String → Except UsageError Command
  | [] => .error .noArguments
  | first :: rest => match first.toList with
    | ['-', '-'] => .error (afterDashes rest)
    | '-' :: c :: body => .error (leadingOption (c :: body))
    | _ =>
      if first = "help" then .error (helpOn rest)
      else match Name.ofText? first with
        | none => .error .unknownCommand
        | some name => do
          let reading ← rest.foldlM (Reading.argument name) .empty
          reading.command name

end Command

end Cadence
