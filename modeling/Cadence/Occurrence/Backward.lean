import Cadence.Occurrence.Frame

/-!
# Searching backward

For each shape of recurrence, the last occurrence strictly before an instant,
clauses left aside.  Days, weeks, months and years are tried in descending
order.
-/

namespace Cadence

namespace Frame

/-- The previous occurrence of a daily recurrence.  A weekday filter is looked
at only when the interval is a single day. -/
def previousDaily (frame : Frame) (interval : Nat) (days : DayFilter) (times : List TimeOfDay)
    (now : Instant) : Option Instant :=
  let today := frame.zone.dateOf now
  if interval ≤ 1 then
    (List.range (Reach.days + 1)).findSome? fun (k : Nat) =>
      (today.addDays? (-k)).bind fun date =>
        if days.allows date.weekday then frame.latestOn date times now else none
  else
    let lag := stepsBehind (today.dayNumber - dayAnchor frame.anchor) interval
    (List.range Reach.alignedDaysBack).findSome? fun (k : Nat) =>
      (today.addDays? (-(lag + k * interval : Nat))).bind fun date =>
        frame.latestOn date times now

/-- The slots of a window that start no later than a minute of the day, latest
first. -/
def slotsDown (start step final : Nat) : List Nat :=
  if final < start then []
  else (List.range ((final - start) / step + 1)).reverse.map fun k => start + k * step

/-- The previous occurrence of a window.  Slots are compared as instants,
because a gap can push one past `now` and `now` may lie inside a minute. -/
def previousWindow (frame : Frame) (interval : Nat) (unit : StepUnit) (start stop : TimeOfDay)
    (days : Option DayFilter) (now : Instant) : Option Instant :=
  let today := frame.zone.dateOf now
  let step := max (unit.inMinutes interval) 1
  (List.range Reach.days).findSome? fun (k : Nat) =>
    (today.addDays? (-k)).bind fun date =>
      if days.all (·.allows date.weekday) then
        let final :=
          if k = 0 then min (frame.zone.timeOf now).minutes stop.minutes else stop.minutes
        (slotsDown start.minutes step final).findSome? fun slot =>
          let hit := frame.zone.instantAt date (.ofMinutes slot)
          if hit < now then some hit else none
      else none

/-- Whether the calendar reaches every listed day of the week a Monday begins. -/
def reachesWeekdays (monday : Date) (days : List Weekday) : Bool :=
  days.all fun day => (monday.addDays? day.index).isSome

/-- The previous occurrence of a weekly recurrence.  The days of a week are
tried from the last one down, so a search that begins in a week the calendar
ends within, ahead of a listed day, finds nothing. -/
def previousWeekly (frame : Frame) (interval : Nat) (days : List Weekday)
    (times : List TimeOfDay) (now : Instant) : Option Instant := do
  let anchor ← Date.ofDayNumber? (weekAnchor frame.anchor)
  let monday ← (frame.zone.dateOf now).monday?
  let lag := stepsBehind (monday.daysSince anchor / 7) interval
  let latest ← monday.addDays? (-(7 * lag : Nat))
  if reachesWeekdays latest days then
    (List.range Reach.weeks).findSome? fun (k : Nat) =>
      (latest.addDays? (-(7 * (k * stepOf interval) : Nat))).bind fun week =>
        (sortedWeekdays days).reverse.findSome? fun day =>
          (week.addDays? day.index).bind fun date => frame.latestOn date times now
  else none

/-- The previous occurrence of a recurrence that picks dates month by month.
The search starts a month late, because a date picked for one month may lie in
the one before. -/
def previousMonthly (frame : Frame) (interval : Nat) (dates : YearMonth → List Date)
    (times : List TimeOfDay) (now : Instant) : Option Instant :=
  let start := (YearMonth.ofDate (frame.zone.dateOf now)).next
  let lag := stepsBehind (start.monthsSince (monthAnchor frame.anchor)) interval
  (List.range (Reach.months + 1)).findSome? fun (k : Nat) =>
    let behind := lag + k * stepOf interval
    if behind ≤ Reach.months * stepOf interval then
      (dates (YearMonth.ofIndex (start.index - behind))).reverse.findSome? fun date =>
        frame.latestOn date times now
    else none

/-- The previous occurrence of a schedule that fires on one day. -/
def previousOnce (frame : Frame) (day : CalendarDay) (times : List TimeOfDay)
    (now : Instant) : Option Instant :=
  match day with
  | .fixed date => frame.latestOn date times now
  | .yearly month day =>
    (List.range Reach.years).findSome? fun (k : Nat) =>
      (Date.ofYmd? ((frame.zone.dateOf now).year - k) month.number day).bind fun date =>
        frame.latestOn date times now

/-- The previous occurrence of a yearly recurrence. -/
def previousYearly (frame : Frame) (interval : Nat) (target : YearTarget)
    (times : List TimeOfDay) (now : Instant) : Option Instant :=
  let start := (frame.zone.dateOf now).year
  let lag := stepsBehind (start - yearAnchor frame.anchor) interval
  (List.range Reach.years).findSome? fun (k : Nat) =>
    (target.dateIn? (start - (lag + k * stepOf interval : Nat))).bind fun date =>
      frame.latestOn date times now

/-- The last occurrence of a recurrence strictly before `now`. -/
def previousOf (frame : Frame) (recurrence : Recurrence) (now : Instant) : Option Instant :=
  match recurrence with
  | .window interval unit start stop days =>
    frame.previousWindow interval unit start stop days now
  | .daily interval days times => frame.previousDaily interval days times now
  | .weekly interval days times => frame.previousWeekly interval days times now
  | .monthly interval target times => frame.previousMonthly interval target.datesIn times now
  | .ordinal interval position weekday times =>
    frame.previousMonthly interval (fun ym => (ym.positionedWeekday? position weekday).toList)
      times now
  | .once day times => frame.previousOnce day times now
  | .yearly interval target times => frame.previousYearly interval target times now

end Frame

end Cadence
