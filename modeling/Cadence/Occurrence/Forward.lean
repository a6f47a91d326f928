import Cadence.Occurrence.Frame

/-!
# Searching forward

For each shape of recurrence, the first occurrence strictly after an instant,
clauses left aside.  Each search lists the days, weeks, months or years it may
land on in ascending order and takes the first that has an occurrence to offer.
-/

namespace Cadence

namespace Frame

/-- The next occurrence of a daily recurrence.  A weekday filter is looked at
only when the interval is a single day. -/
def nextDaily (frame : Frame) (interval : Nat) (days : DayFilter) (times : List TimeOfDay)
    (now : Instant) : Option Instant :=
  let today := frame.zone.dateOf now
  if interval ≤ 1 then
    (List.range (Reach.days + 1)).findSome? fun (k : Nat) =>
      (today.addDays? k).bind fun date =>
        if days.allows date.weekday then frame.earliestAfter date times now else none
  else
    let lead := stepsAhead (today.dayNumber - dayAnchor frame.anchor) interval
    (List.range Reach.manyDays).findSome? fun (k : Nat) =>
      (today.addDays? (lead + k * interval : Nat)).bind fun date =>
        frame.earliestAfter date times now

/-- The first minute of a window that is later than the current minute of the
day, in steps from the start of the window. -/
def slotAfter (start step current : Nat) : Nat :=
  if current < start then start else start + ((current - start) / step + 1) * step

/-- The next occurrence of a window: one candidate a day, the first slot that is
still to come. -/
def nextWindow (frame : Frame) (interval : Nat) (unit : StepUnit) (start stop : TimeOfDay)
    (days : Option DayFilter) (now : Instant) : Option Instant :=
  let today := frame.zone.dateOf now
  let step := max (unit.inMinutes interval) 1
  (List.range Reach.manyDays).findSome? fun (k : Nat) =>
    (today.addDays? k).bind fun date =>
      let slot :=
        if k = 0 then slotAfter start.minutes step (frame.zone.timeOf now).minutes
        else start.minutes
      let hit := frame.zone.instantAt date (.ofMinutes slot)
      if days.all (·.allows date.weekday) ∧ slot ≤ stop.minutes ∧ now < hit then some hit
      else none

/-- The next occurrence of a weekly recurrence. -/
def nextWeekly (frame : Frame) (interval : Nat) (days : List Weekday) (times : List TimeOfDay)
    (now : Instant) : Option Instant := do
  let anchor ← Date.ofDayNumber? (weekAnchor frame.anchor)
  let monday ← (frame.zone.dateOf now).monday?
  let lead := stepsAhead (monday.daysSince anchor / 7) interval
  (List.range Reach.weeks).findSome? fun (k : Nat) =>
    (monday.addDays? (7 * (lead + k * stepOf interval) : Nat)).bind fun week =>
      (sortedWeekdays days).findSome? fun day =>
        (week.addDays? day.index).bind fun date => frame.earliestAfter date times now

/-- The next occurrence of a recurrence that picks dates month by month.  The
search starts a month early, because a date picked for one month may lie in the
one after. -/
def nextMonthly (frame : Frame) (interval : Nat) (dates : YearMonth → List Date)
    (seasonal : Bool) (times : List TimeOfDay) (now : Instant) : Option Instant :=
  let start := (YearMonth.ofDate (frame.zone.dateOf now)).previous
  let lead := stepsAhead (start.monthsSince (monthAnchor frame.anchor)) interval
  (List.range (Reach.months + 1)).findSome? fun (k : Nat) =>
    let ahead := lead + k * stepOf interval
    let ym := YearMonth.ofIndex (start.index + ahead)
    if ahead ≤ Reach.months * stepOf interval ∧
        (!seasonal || (ym.date? 1).any (inSeason frame.season)) then
      ((dates ym).filterMap fun date => frame.earliestAfter date times now).min?
    else none

/-- The next occurrence of a schedule that fires on one day. -/
def nextOnce (frame : Frame) (day : CalendarDay) (times : List TimeOfDay) (now : Instant) :
    Option Instant :=
  match day with
  | .fixed date => frame.earliestAfter date times now
  | .yearly month day =>
    (List.range Reach.years).findSome? fun (k : Nat) =>
      (Date.ofYmd? ((frame.zone.dateOf now).year + k) month.number day).bind fun date =>
        frame.earliestAfter date times now

/-- The next occurrence of a yearly recurrence. -/
def nextYearly (frame : Frame) (interval : Nat) (target : YearTarget) (times : List TimeOfDay)
    (now : Instant) : Option Instant :=
  let start := (frame.zone.dateOf now).year
  let lead := stepsAhead (start - yearAnchor frame.anchor) interval
  (List.range Reach.years).findSome? fun (k : Nat) =>
    (target.dateIn? (start + (lead + k * stepOf interval : Nat))).bind fun date =>
      frame.earliestAfter date times now

/-- The first occurrence of a recurrence strictly after `now`. -/
def nextOf (frame : Frame) (recurrence : Recurrence) (now : Instant) : Option Instant :=
  match recurrence with
  | .window interval unit start stop days =>
    frame.nextWindow interval unit start stop days now
  | .daily interval days times => frame.nextDaily interval days times now
  | .weekly interval days times => frame.nextWeekly interval days times now
  | .monthly interval target times =>
    frame.nextMonthly interval target.datesIn target.mayLeaveMonth times now
  | .ordinal interval position weekday times =>
    frame.nextMonthly interval (fun ym => (ym.positionedWeekday? position weekday).toList)
      false times now
  | .once day times => frame.nextOnce day times now
  | .yearly interval target times => frame.nextYearly interval target times now

end Frame

end Cadence
