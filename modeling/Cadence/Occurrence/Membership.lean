import Cadence.Occurrence.Frame

/-!
# Membership

Whether a recurrence fires at an instant, clauses left aside.  An instant counts
by its local minute; a listed time that a gap in the zone moves forward also
counts at the instant it is moved to.
-/

namespace Cadence

namespace Frame

/-- Whether one of the listed times of a date is meant by an instant. -/
def showsTime (frame : Frame) (date : Date) (times : List TimeOfDay) (moment : Instant) : Bool :=
  times.any fun time =>
    frame.zone.timeOf moment = time || frame.zone.instantAt date time = moment

/-- Whether a month is aligned with the interval. -/
def monthAligned (frame : Frame) (ym : YearMonth) (interval : Nat) : Bool :=
  isAligned (ym.monthsSince (monthAnchor frame.anchor)) interval

/-- Whether a minute of the day is a slot of a window. -/
def isSlot (start stop step current : Nat) : Bool :=
  start ≤ current && current ≤ stop && (current - start) % step = 0

/-- Whether a recurrence fires at an instant. -/
def fires (frame : Frame) (recurrence : Recurrence) (moment : Instant) : Bool :=
  let date := frame.zone.dateOf moment
  match recurrence with
  | .window interval unit start stop days =>
    days.all (·.allows date.weekday) &&
      isSlot start.minutes stop.minutes (max (unit.inMinutes interval) 1)
        (frame.zone.timeOf moment).minutes
  | .daily interval days times =>
    days.allows date.weekday && frame.showsTime date times moment &&
      isAligned (date.dayNumber - dayAnchor frame.anchor) interval
  | .weekly interval days times =>
    days.contains date.weekday && frame.showsTime date times moment &&
      (Date.ofDayNumber? (weekAnchor frame.anchor)).any fun monday =>
        isAligned (date.daysSince monday / 7) interval
  | .monthly interval target times =>
    let ym := YearMonth.ofDate date
    frame.showsTime date times moment &&
      [ym.previous, ym, ym.next].any fun near =>
        frame.monthAligned near interval && (target.datesIn near).contains date
  | .ordinal interval position weekday times =>
    let ym := YearMonth.ofDate date
    frame.showsTime date times moment && frame.monthAligned ym interval &&
      ym.positionedWeekday? position weekday = some date
  | .once day times => day.covers date && frame.showsTime date times moment
  | .yearly interval target times =>
    frame.showsTime date times moment &&
      isAligned (date.year - yearAnchor frame.anchor) interval &&
      target.dateIn? date.year = some date

end Frame

end Cadence
