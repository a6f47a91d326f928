import Cadence.Text.Numeral
import Cadence.Text.Split

/-!
# Times of day

A time of day has minute precision.  The hour and minute are not confined to a
real clock: a schedule built by hand may name 25:70, which counts as so many
minutes after midnight.
-/

namespace Cadence

/-- A wall-clock time in hours and minutes. -/
structure TimeOfDay where
  hour : Nat
  minute : Nat
  deriving DecidableEq, Repr

namespace TimeOfDay

def midnight : TimeOfDay := ⟨0, 0⟩

/-- The last minute of a day. -/
def lastMinute : TimeOfDay := ⟨23, 59⟩

/-- Minutes after midnight. -/
def minutes (time : TimeOfDay) : Nat := time.hour * 60 + time.minute

/-- The time a number of minutes after midnight. -/
def ofMinutes (minutes : Nat) : TimeOfDay := ⟨minutes / 60, minutes % 60⟩

/-- Seconds after midnight on a clock that starts over every 24 hours. -/
def secondOfDay (time : TimeOfDay) : Nat := time.minutes * 60 % 86400

/-- Whether a time lies on the clock. -/
def IsOnClock (time : TimeOfDay) : Prop := time.hour < 24 ∧ time.minute < 60

instance (time : TimeOfDay) : Decidable time.IsOnClock :=
  inferInstanceAs (Decidable (_ ∧ _))

/-- Times are ordered by the hour, then by the minute. -/
instance : LE TimeOfDay :=
  ⟨fun a b => a.hour < b.hour ∨ a.hour = b.hour ∧ a.minute ≤ b.minute⟩

instance (a b : TimeOfDay) : Decidable (a ≤ b) :=
  inferInstanceAs (Decidable (a.hour < b.hour ∨ a.hour = b.hour ∧ a.minute ≤ b.minute))

instance : Max TimeOfDay := maxOfLe

/-- A time in two-digit figures, such as `09:00`. -/
def text (time : TimeOfDay) : String :=
  Numeral.padded 2 time.hour ++ ":" ++ Numeral.padded 2 time.minute

/-- Times in figures, separated by commas. -/
def listText (times : List TimeOfDay) : String :=
  joined ", " (times.map text)

end TimeOfDay

/-- The clock reading of a second of the day, such as `09:00:00`. -/
def clockText (secondOfDay : Nat) : String :=
  Numeral.padded 2 (secondOfDay / 3600) ++ ":" ++ Numeral.padded 2 (secondOfDay / 60 % 60) ++
    ":" ++ Numeral.padded 2 (secondOfDay % 60)

end Cadence
