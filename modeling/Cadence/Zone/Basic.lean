import Cadence.Clock.Instant
import Cadence.Clock.TimeOfDay

/-!
# Time zones

A zone is a history of offsets from universal time: one offset at the beginning
and a list of moments from which another one holds.  At every second universal
time has exactly one local reading, `Zone.localSecond`.

The way back is not a function.  Where the offset grows, some local readings are
skipped; where it shrinks, some are shown twice.  `Zone.resolve` picks the
earliest second that shows a local reading.  A skipped reading is taken with the
offset in force a day before, which moves it forward by the length of the gap.
-/

namespace Cadence

/-- From a second of universal time on, an offset in seconds east. -/
structure Transition where
  moment : Int
  offset : Int
  deriving DecidableEq, Repr

/-- A named history of offsets, transitions in ascending order. -/
structure Zone where
  name : String
  initial : Int
  transitions : List Transition
  deriving DecidableEq, Repr

/-- The offset at `second`, given the offset before the listed transitions. -/
def offsetAfter (current : Int) : List Transition → (second : Int) → Int
  | [], _ => current
  | transition :: later, second =>
    if second < transition.moment then current
    else offsetAfter transition.offset later second

namespace Zone

/-- The offset in force at a second of universal time. -/
def offsetAt (zone : Zone) (second : Int) : Int :=
  offsetAfter zone.initial zone.transitions second

/-- The local reading of a second of universal time. -/
def localSecond (zone : Zone) (second : Int) : Int :=
  second + zone.offsetAt second

/-- Every offset the zone ever has. -/
def offsets (zone : Zone) : List Int :=
  (zone.initial :: zone.transitions.map Transition.offset).eraseDups

/-- The seconds of universal time that show a local reading.  Each lies one of
the zone's offsets away from it. -/
def secondsShowing (zone : Zone) (reading : Int) : List Int :=
  (zone.offsets.map (reading - ·)).filter fun second => zone.localSecond second = reading

/-- The second of universal time meant by a local reading: the earliest that
shows it, or, for a skipped reading, the one reached with the offset in force a
day before. -/
def resolve (zone : Zone) (reading : Int) : Int :=
  match (zone.secondsShowing reading).min? with
  | some second => second
  | none => reading - zone.offsetAt (reading - daySeconds)

/-- The instant at which a clock in the zone reaches a time of day on a date. -/
def instantAt (zone : Zone) (date : Date) (time : TimeOfDay) : Instant :=
  .ofSecond (zone.resolve (secondOf date time.secondOfDay))

/-- The local date of an instant. -/
def dateOf (zone : Zone) (instant : Instant) : Date :=
  dateOfSecond (zone.localSecond instant.second)

/-- The local time of day of an instant, to the minute below. -/
def timeOf (zone : Zone) (instant : Instant) : TimeOfDay :=
  .ofMinutes (clockOfSecond (zone.localSecond instant.second) / 60)

/-- Universal time, under any of its names. -/
def universal (name : String) : Zone := ⟨name, 0, []⟩

/-- The zone of schedules that name none. -/
def utc : Zone := universal "UTC"

/-- The name of a zone that is not in the table. -/
structure Unknown where
  name : String
  deriving DecidableEq, Repr

def Unknown.message (zone : Unknown) : String := "unknown timezone: " ++ zone.name

end Zone

/-- Every local reading is shown in universal time, by exactly one second. -/
theorem Zone.utc_resolve (name : String) (reading : Int) :
    (Zone.universal name).resolve reading = reading := by
  have hoffsets : (Zone.universal name).offsets = [0] := rfl
  have hlocal (second : Int) : (Zone.universal name).localSecond second = second := by
    simp [Zone.localSecond, Zone.offsetAt, Zone.universal, offsetAfter]
  simp [Zone.resolve, Zone.secondsShowing, hoffsets, hlocal]

end Cadence
