import Cadence.Text.Blank

/-!
# Settings

What a user may set once for all commands.  Settings are checked before they are
used; the first thing wrong is reported.
-/

namespace Cadence

/-- The settings of the command line. -/
structure Settings where
  /-- How much is logged. -/
  level : String
  /-- How many occurrences are printed when a command does not say. -/
  count : Nat
  /-- The zone in which instants are printed. -/
  zone : String
  deriving DecidableEq, Repr

namespace Settings

/-- The settings in force where nothing is set. -/
def standard : Settings := ⟨"warn", 5, "UTC"⟩

/-- What makes settings unusable. -/
inductive Fault where
  | zeroCount
  | blankLevel
  | blankZone
  deriving DecidableEq, Repr

def Fault.message : Fault → String
  | zeroCount => "Configuration error: output.count must be at least 1"
  | blankLevel => "Configuration error: logging.level must not be empty"
  | blankZone => "Configuration error: output.timezone must not be empty"

/-- Whether a text is empty but for white space. -/
def isBlank (text : String) : Bool := (trimmed text.toList).isEmpty

/-- The first thing wrong with settings, if any. -/
def fault? (settings : Settings) : Option Fault :=
  if settings.count = 0 then some .zeroCount
  else if isBlank settings.level then some .blankLevel
  else if isBlank settings.zone then some .blankZone
  else none

end Settings

end Cadence
