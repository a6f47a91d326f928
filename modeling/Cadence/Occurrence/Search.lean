import Cadence.Occurrence.Backward
import Cadence.Occurrence.Forward
import Cadence.Occurrence.Membership
import Cadence.Clock.Timestamp
import Cadence.Zone.Table

/-!
# Occurrences of a schedule

The clauses of a schedule filter what its recurrence offers.  When a search
lands on a date that a clause rejects, it is resumed at the closest date beyond
the rejected ones.  Occurrences are given with the offset of the schedule's
zone.
-/

namespace Cadence

namespace Schedule

/-- Whether a date is one of the skipped days. -/
def skips (schedule : Schedule) (date : Date) : Bool :=
  schedule.skipped.any (·.covers date)

/-- The last date on which the schedule fires, as seen from a date.  A day that
no year has closes the schedule altogether. -/
def closingDate? (schedule : Schedule) (reference : Date) : Option Date :=
  schedule.lastDay.map fun day => (day.resolveFrom? reference).getD Date.least

/-- Whether the recurrence checks the season by itself, month by month. -/
def seasonInRecurrence (schedule : Schedule) : Bool :=
  match schedule.recurrence with
  | .monthly _ target _ => target.mayLeaveMonth
  | _ => false

/-- The search for the first occurrence after a cursor, resumed at most
`resumptions` times. -/
def searchForward (schedule : Schedule) (zone : Zone) (closing : Option Date) :
    (resumptions : Nat) → (cursor : Instant) → Option Instant
  | 0, _ => none
  | resumptions + 1, cursor => do
    let frame := Frame.ofSchedule schedule zone
    let candidate ← frame.nextOf schedule.recurrence cursor
    let date := zone.dateOf candidate
    if closing.any (· < date) then none
    else if !schedule.seasonInRecurrence && !inSeason schedule.season date then
      let resume ← nextSeasonStart? schedule.season date
      searchForward schedule zone closing resumptions (frame.startOfDay resume)
    else if schedule.skips date then
      let resume ← date.addDays? 1
      searchForward schedule zone closing resumptions (frame.startOfDay resume)
    else some candidate

/-- The search for the last occurrence before a cursor.  It ends at the anchor. -/
def searchBackward (schedule : Schedule) (zone : Zone) (closing : Option Date) :
    (resumptions : Nat) → (cursor : Instant) → Option Instant
  | 0, _ => none
  | resumptions + 1, cursor => do
    let frame := Frame.ofSchedule schedule zone
    let candidate ← frame.previousOf schedule.recurrence cursor
    let date := zone.dateOf candidate
    if schedule.anchor.any (date < ·) then none
    else match closing.filter (· < date) with
      | some last =>
        searchBackward schedule zone closing resumptions (frame.endOfDay last)
      | none =>
        if !inSeason schedule.season date then
          let resume ← previousSeasonEnd? schedule.season date
          searchBackward schedule zone closing resumptions (frame.endOfDay resume)
        else if schedule.skips date then
          let resume ← date.addDays? (-1)
          searchBackward schedule zone closing resumptions (frame.endOfDay resume)
        else some candidate

/-- The first occurrence strictly after `now` in a given zone. -/
def nextIn (schedule : Schedule) (zone : Zone) (now : Instant) : Option Instant :=
  schedule.searchForward zone (schedule.closingDate? (zone.dateOf now)) Reach.resumptions now

/-- The last occurrence strictly before `now` in a given zone. -/
def previousIn (schedule : Schedule) (zone : Zone) (now : Instant) : Option Instant :=
  schedule.searchBackward zone (schedule.closingDate? (zone.dateOf now)) Reach.resumptions now

/-- Whether the schedule fires at an instant in a given zone, to the minute. -/
def firesIn (schedule : Schedule) (zone : Zone) (moment : Instant) : Bool :=
  let date := zone.dateOf moment
  inSeason schedule.season date && !schedule.skips date &&
    !(schedule.closingDate? date).any (· < date) &&
    (Frame.ofSchedule schedule zone).fires schedule.recurrence moment

/-- The first occurrence strictly after `now`. -/
def next (schedule : Schedule) (now : Instant) : Except Zone.Unknown (Option Timestamp) := do
  let zone ← Zone.named schedule.zone
  return (schedule.nextIn zone now).map zone.timestamp

/-- The last occurrence strictly before `now`. -/
def previous (schedule : Schedule) (now : Instant) :
    Except Zone.Unknown (Option Timestamp) := do
  let zone ← Zone.named schedule.zone
  return (schedule.previousIn zone now).map zone.timestamp

/-- Whether the schedule fires at an instant, to the minute. -/
def isOccurrence (schedule : Schedule) (moment : Instant) : Except Zone.Unknown Bool := do
  let zone ← Zone.named schedule.zone
  return schedule.firesIn zone moment

end Schedule

end Cadence
