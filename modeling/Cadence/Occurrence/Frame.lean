import Cadence.Occurrence.Alignment
import Cadence.Schedule.Basic
import Cadence.Zone.Basic

/-!
# The frame of a search

Every search for occurrences takes place in one zone, with intervals counted
from one anchor.  This module turns dates and times of day into instants of that
zone and picks the closest of them.  It also states how far each search goes.
-/

namespace Cadence

/-- The zone, anchor and season in which a recurrence is read. -/
structure Frame where
  zone : Zone
  anchor : Option Date
  season : List Month

namespace Frame

/-- The frame of a schedule in its zone. -/
def ofSchedule (schedule : Schedule) (zone : Zone) : Frame :=
  ⟨zone, schedule.anchor, schedule.season⟩

/-- The earliest listed time on a date that comes after `now`. -/
def earliestAfter (frame : Frame) (date : Date) (times : List TimeOfDay) (now : Instant) :
    Option Instant :=
  ((times.map (frame.zone.instantAt date)).filter (now < ·)).min?

/-- The latest listed time on a date that comes before `now`. -/
def latestBefore (frame : Frame) (date : Date) (times : List TimeOfDay) (now : Instant) :
    Option Instant :=
  ((times.map (frame.zone.instantAt date)).filter (· < now)).max?

/-- The last listed time of a date. -/
def lastTime (frame : Frame) (date : Date) (times : List TimeOfDay) : Option Instant :=
  times.max?.map (frame.zone.instantAt date)

/-- The latest listed time on a date as seen from `now`: on the day of `now`
the latest that has passed, on an earlier day the last one, and none later. -/
def latestOn (frame : Frame) (date : Date) (times : List TimeOfDay) (now : Instant) :
    Option Instant :=
  let today := frame.zone.dateOf now
  if today < date then none
  else if date = today then frame.latestBefore date times now
  else frame.lastTime date times

/-- An instant after every minute of a date, from which to search backward. -/
def endOfDay (frame : Frame) (date : Date) : Instant :=
  (frame.zone.instantAt date .lastMinute).shift 1

/-- An instant before every minute of a date, from which to search forward. -/
def startOfDay (frame : Frame) (date : Date) : Instant :=
  (frame.zone.instantAt date .midnight).shift (-1)

end Frame

/-! ## How far searches go -/

namespace Reach

/-- How often a search is resumed behind a date that a clause rejects. -/
def resumptions : Nat := 1000

/-- Days tried besides the current one for daily schedules, and days tried
backward for windows. -/
def days : Nat := 8

/-- Aligned days tried for intervals of several days, and days tried forward
for windows. -/
def manyDays : Nat := 400

/-- Aligned days tried backward: the current one and the one before. -/
def alignedDaysBack : Nat := 2

/-- Aligned weeks tried. -/
def weeks : Nat := 54

/-- Months tried, for each month of the interval. -/
def months : Nat := 24

/-- Years tried, for each year of the interval. -/
def years : Nat := 8

end Reach

end Cadence
