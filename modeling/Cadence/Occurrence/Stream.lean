import Cadence.Occurrence.Search

/-!
# Streams of occurrences

A stream yields the occurrences after an instant one by one, each search
starting from the occurrence before.  The closing date is resolved once, when
the stream begins.  A stream that has ended stays at its end.
-/

namespace Cadence

/-- The occurrences still to come, up to and including `stop` if there is one. -/
structure Occurrences where
  schedule : Schedule
  zone : Zone
  closing : Option Date
  stop : Option Instant
  /-- The instant after which to go on; none at the end. -/
  cursor : Option Instant

namespace Occurrences

/-- The occurrences of a schedule strictly after an instant. -/
def after (schedule : Schedule) (start : Instant) : Except Zone.Unknown Occurrences := do
  let zone ← Zone.named schedule.zone
  return {
    schedule, zone
    closing := schedule.closingDate? (zone.dateOf start)
    stop := none
    cursor := some start }

/-- The occurrences strictly after one instant and not after another. -/
def between (schedule : Schedule) (start stop : Instant) :
    Except Zone.Unknown Occurrences := do
  let unbounded ← after schedule start
  return { unbounded with stop := some stop }

/-- The occurrence that comes next. -/
def head? (occurrences : Occurrences) : Option Instant := do
  let cursor ← occurrences.cursor
  let hit ← occurrences.schedule.searchForward occurrences.zone occurrences.closing
    Reach.resumptions cursor
  if occurrences.stop.any (· < hit) then none else some hit

/-- The stream that goes on after an occurrence, or has ended. -/
def resumeAfter (occurrences : Occurrences) (cursor : Option Instant) : Occurrences :=
  { occurrences with cursor }

/-- The next occurrence, written in the zone of the schedule, and the rest. -/
def next (occurrences : Occurrences) : Option Timestamp × Occurrences :=
  let hit := occurrences.head?
  (hit.map occurrences.zone.timestamp, occurrences.resumeAfter hit)

/-- The stream without its first `count` occurrences. -/
def drop : (count : Nat) → Occurrences → Occurrences
  | 0, occurrences => occurrences
  | count + 1, occurrences => match occurrences.head? with
    | some hit => drop count (occurrences.resumeAfter (some hit))
    | none => occurrences.resumeAfter none

/-- The first `count` occurrences, or as many as there are. -/
def take : (count : Nat) → Occurrences → List Instant
  | 0, _ => []
  | count + 1, occurrences => match occurrences.head? with
    | some hit => hit :: take count (occurrences.resumeAfter (some hit))
    | none => []

/-- The first `count` occurrences, written in the zone of the schedule. -/
def timestamps (count : Nat) (occurrences : Occurrences) : List Timestamp :=
  (occurrences.take count).map occurrences.zone.timestamp

end Occurrences

/-- Up to `count` occurrences strictly after an instant. -/
def Schedule.upcoming (schedule : Schedule) (start : Instant) (count : Nat) :
    Except Zone.Unknown (List Timestamp) := do
  return (← Occurrences.after schedule start).timestamps count

end Cadence
