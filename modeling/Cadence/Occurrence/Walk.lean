import Cadence.Occurrence.Search

/-!
# Searches that walk

`Frame.nextOf` and `Frame.previousOf` go straight from one aligned month or year to the
next, and count years without a bound.  The same searches can be walked: month after
month or year after year is tried, passing over those that are not aligned, and every
year is held in a signed word of 32 bits.  A walk that comes to a year, or to a distance
of years, which the word does not hold ends in an overflow.

Where a walk would end is known beforehand.  `Frame.staysInWord` says whether one that
finds nothing gets there without an overflow, and `Schedule.jumpIn` uses it to come to
the outcome of a walk at once.
-/

namespace Cadence

/-! ## Words -/

/-- What ends a walk: a number that a signed word of 32 bits does not hold. -/
inductive Overflow where
  | overflow
  deriving DecidableEq, Repr

namespace Word

/-- The greatest number that a signed word of 32 bits holds. -/
def greatest : Nat := 2147483647

/-- Whether a signed word of 32 bits holds a number. -/
def holds (number : Int) : Bool :=
  -2147483648 ≤ number ∧ number ≤ greatest

/-- A number, if a word holds it. -/
def ofInt (number : Int) : Except Overflow Int :=
  if holds number then .ok number else .error .overflow

end Word

/-- A month, if a word holds its year. -/
def YearMonth.inWord (ym : YearMonth) : Except Overflow YearMonth :=
  if Word.holds ym.year then .ok ym else .error .overflow

/-! ## Walks over years and months -/

/-- Which way a walk goes. -/
inductive Heading where
  | ahead
  | behind
  deriving DecidableEq, Repr

namespace Heading

/-- So many steps on from a year, or from the index of a month. -/
def move : Heading → (start : Int) → (steps : Nat) → Int
  | ahead, start, steps => start + steps
  | behind, start, steps => start - steps

/-- The month to which a walk goes on. -/
def month : Heading → YearMonth → YearMonth
  | ahead, ym => ym.next
  | behind, ym => ym.previous

/-- The month in which a walk starts: a step back from the current one. -/
def firstMonth : Heading → (today : Date) → YearMonth
  | ahead, today => (YearMonth.ofDate today).previous
  | behind, today => (YearMonth.ofDate today).next

end Heading

/-- Whether a year is aligned.  The distance from the anchor is only computed for intervals
of several years. -/
def yearAligned (year anchor : Int) (interval : Nat) : Except Overflow Bool :=
  if 1 < interval then (isAligned · interval) <$> Word.ofInt (year - anchor) else .ok true

/-- Tries one year after another.  The counter has to be a word before it is added to the
year of the start or taken from it: a counter that is too large ends the walk with nothing
found.  Of the sum and of the distance from the anchor nobody asks. -/
def walkYears (heading : Heading) (start anchor : Int) (interval : Nat)
    (attempt : Int → Option Instant) :
    (remaining counter : Nat) → Except Overflow (Option Instant)
  | 0, _ => .ok none
  | remaining + 1, counter =>
    if Word.greatest < counter then .ok none
    else do
      let year ← Word.ofInt (heading.move start counter)
      let aligned ← yearAligned year anchor interval
      match if aligned then attempt year else none with
      | some hit => return some hit
      | none => walkYears heading start anchor interval attempt remaining (counter + 1)

/-- Tries one month after another.  After the last one there is a step to the next as well. -/
def walkMonths (heading : Heading) (anchor : YearMonth) (interval : Nat)
    (attempt : YearMonth → Option Instant) :
    (remaining : Nat) → YearMonth → Except Overflow (Option Instant)
  | 0, _ => .ok none
  | remaining + 1, ym =>
    let aligned := interval ≤ 1 || isAligned (ym.monthsSince anchor) interval
    match if aligned then attempt ym else none with
    | some hit => .ok (some hit)
    | none => do
      let ym ← (heading.month ym).inWord
      walkMonths heading anchor interval attempt remaining ym

/-- Whether the last year of a walk, with its distance from the anchor, is a word: that of the
last value of the counter, or of its last value that is a word. -/
def Heading.yearsStay (heading : Heading) (start anchor : Int) (interval : Nat) : Bool :=
  let final := heading.move start (min (Reach.years * stepOf interval - 1) Word.greatest)
  Word.holds final && (interval ≤ 1 || Word.holds (final - anchor))

/-- Whether the year of the last month of a walk is a word: the month after the last one that
is tried. -/
def Heading.monthsStay (heading : Heading) (start : YearMonth) (interval : Nat) : Bool :=
  let final := heading.move start.index (Reach.months * stepOf interval + 1)
  Word.holds (YearMonth.ofIndex final).year

namespace Frame

/-- What a search ahead or behind looks for on a date. -/
def onDate (frame : Frame) : Heading → Date → List TimeOfDay → (now : Instant) → Option Instant
  | .ahead => frame.earliestAfter
  | .behind => frame.latestOn

/-- What a search ahead or behind looks for in a month.  Only a search ahead asks for the
season of the month. -/
def inMonth (frame : Frame) (heading : Heading) (dates : YearMonth → List Date)
    (seasonal : Bool) (times : List TimeOfDay) (now : Instant) (ym : YearMonth) :
    Option Instant :=
  match heading with
  | .ahead =>
    if !seasonal || (ym.date? 1).any (inSeason frame.season) then
      ((dates ym).filterMap fun date => frame.earliestAfter date times now).min?
    else none
  | .behind => (dates ym).reverse.findSome? fun date => frame.latestOn date times now

/-- The walk over the months of a recurrence. -/
def walkMonthly (frame : Frame) (heading : Heading) (interval : Nat)
    (attempt : YearMonth → Option Instant) (now : Instant) : Except Overflow (Option Instant) := do
  let start ← (heading.firstMonth (frame.zone.dateOf now)).inWord
  walkMonths heading (monthAnchor frame.anchor) interval attempt
    (Reach.months * stepOf interval + 1) start

/-- The walk over the years of a recurrence. -/
def walkYearly (frame : Frame) (heading : Heading) (interval : Nat)
    (date? : Int → Option Date) (times : List TimeOfDay) (now : Instant) :
    Except Overflow (Option Instant) :=
  walkYears heading (frame.zone.dateOf now).year (yearAnchor frame.anchor) interval
    (fun year => (date? year).bind fun date => frame.onDate heading date times now)
    (Reach.years * stepOf interval) 0

/-- The closest occurrence of a recurrence ahead of or behind `now`. -/
def closestOf (frame : Frame) : Heading → Recurrence → (now : Instant) → Option Instant
  | .ahead => frame.nextOf
  | .behind => frame.previousOf

/-- The search of `closestOf`, walked.  Only searches over months and years compute years. -/
def walkOf (frame : Frame) (heading : Heading) (recurrence : Recurrence) (now : Instant) :
    Except Overflow (Option Instant) :=
  match recurrence with
  | .monthly interval target times =>
    frame.walkMonthly heading interval
      (frame.inMonth heading target.datesIn target.mayLeaveMonth times now) now
  | .ordinal interval position weekday times =>
    frame.walkMonthly heading interval
      (frame.inMonth heading (fun ym => (ym.positionedWeekday? position weekday).toList) false
        times now) now
  | .once (.yearly month day) times =>
    frame.walkYearly heading 1 (fun year => Date.ofYmd? year month.number day) times now
  | .yearly interval target times => frame.walkYearly heading interval target.dateIn? times now
  | .once (.fixed _) _ | .window _ _ _ _ _ | .daily _ _ _ | .weekly _ _ _ =>
    .ok (frame.closestOf heading recurrence now)

/-- Whether a walk that finds nothing stays in the word up to its end. -/
def staysInWord (frame : Frame) (heading : Heading) (recurrence : Recurrence) (now : Instant) :
    Bool :=
  let today := frame.zone.dateOf now
  match recurrence with
  | .monthly interval _ _ | .ordinal interval _ _ _ =>
    heading.monthsStay (heading.firstMonth today) interval
  | .yearly interval _ _ => heading.yearsStay today.year (yearAnchor frame.anchor) interval
  | .window _ _ _ _ _ | .daily _ _ _ | .weekly _ _ _ | .once _ _ => true

/-- The outcome of a search that finds something in time or stays in the word. -/
def outcome (found : Option Instant) (stays : Bool) : Except Overflow (Option Instant) :=
  match found with
  | some hit => .ok (some hit)
  | none => if stays then .ok none else .error .overflow

/-- What `walkOf` comes to. -/
def jumpOf (frame : Frame) (heading : Heading) (recurrence : Recurrence) (now : Instant) :
    Except Overflow (Option Instant) :=
  outcome (frame.closestOf heading recurrence now) (frame.staysInWord heading recurrence now)

end Frame

/-! ## Clauses -/

/-- `seasonMonth?`, with years in words. -/
def walkSeason (season : List Month) (heading : Heading) :
    (fuel : Nat) → YearMonth → Except Overflow (Option YearMonth)
  | 0, _ => .ok none
  | fuel + 1, ym => do
    let there ← (heading.month ym).inWord
    if season.any (·.number = there.month) then return some there
    else walkSeason season heading fuel there

/-- `nextSeasonStart?`, with years in words. -/
def walkToSeasonStart (season : List Month) (date : Date) : Except Overflow (Option Date) := do
  return (← walkSeason season .ahead 12 (.ofDate date)).bind (·.date? 1)

/-- `previousSeasonEnd?`, with years in words. -/
def walkToSeasonEnd (season : List Month) (date : Date) : Except Overflow (Option Date) := do
  match ← walkSeason season .behind 12 (.ofDate date) with
  | some ym => return ym.lastDate?
  | none => return date.addDays? (-1)

/-- What becomes of a candidate. -/
inductive Verdict where
  | accepted
  | closed
  /-- The search goes on from elsewhere. -/
  | resumed (cursor : Instant)
  deriving DecidableEq, Repr

/-- A search goes on at the edge of a date, if there is such a date. -/
def Verdict.resumedAt (edge : Date → Instant) : Option Date → Verdict
  | some date => resumed (edge date)
  | none => closed

namespace Schedule

/-- `closingDate?`, with years in words: those that a day of every year is looked for in. -/
def walkToClosingDate (schedule : Schedule) (reference : Date) : Except Overflow (Option Date) :=
  match schedule.lastDay with
  | some (.yearly _ _) => do
    let _ ← Word.ofInt (reference.year + CalendarDay.lookahead)
    return schedule.closingDate? reference
  | some (.fixed _) | none => .ok (schedule.closingDate? reference)

/-- What becomes of a candidate of a forward search. -/
def judgeAhead (schedule : Schedule) (zone : Zone) (closing : Option Date)
    (candidate : Instant) : Except Overflow Verdict := do
  let startOfDay := (Frame.ofSchedule schedule zone).startOfDay
  let date := zone.dateOf candidate
  if closing.any (· < date) then return .closed
  else if !schedule.seasonInRecurrence && !inSeason schedule.season date then
    return .resumedAt startOfDay (← walkToSeasonStart schedule.season date)
  else if schedule.skips date then return .resumedAt startOfDay (date.addDays? 1)
  else return .accepted

/-- What becomes of a candidate of a backward search. -/
def judgeBehind (schedule : Schedule) (zone : Zone) (closing : Option Date)
    (candidate : Instant) : Except Overflow Verdict := do
  let endOfDay := (Frame.ofSchedule schedule zone).endOfDay
  let date := zone.dateOf candidate
  if schedule.anchor.any (date < ·) then return .closed
  else match closing.filter (· < date) with
    | some last => return .resumed (endOfDay last)
    | none =>
      if !inSeason schedule.season date then
        return .resumedAt endOfDay (← walkToSeasonEnd schedule.season date)
      else if schedule.skips date then return .resumedAt endOfDay (date.addDays? (-1))
      else return .accepted

def judge (schedule : Schedule) : Heading → (zone : Zone) → (closing : Option Date) →
    (candidate : Instant) → Except Overflow Verdict
  | .ahead => schedule.judgeAhead
  | .behind => schedule.judgeBehind

end Schedule

/-! ## Whole searches -/

/-- Looks for a candidate from a cursor, judges it, and looks again from where the verdict
says, as often as the search may be resumed. -/
def lookAndJudge (look : Instant → Except Overflow (Option Instant))
    (judge : Instant → Except Overflow Verdict) :
    (resumptions : Nat) → (cursor : Instant) → Except Overflow (Option Instant)
  | 0, _ => .ok none
  | resumptions + 1, cursor => do
    match ← look cursor with
    | none => return none
    | some candidate =>
      match ← judge candidate with
      | .accepted => return some candidate
      | .closed => return none
      | .resumed cursor => lookAndJudge look judge resumptions cursor

namespace Schedule

/-- The closest occurrence ahead of or behind `now`. -/
def closestIn (schedule : Schedule) : Heading → Zone → (now : Instant) → Option Instant
  | .ahead => schedule.nextIn
  | .behind => schedule.previousIn

/-- The search of `closestIn`, with the given way to look for candidates. -/
def searchIn (schedule : Schedule) (heading : Heading) (zone : Zone)
    (look : Recurrence → Instant → Except Overflow (Option Instant)) (now : Instant) :
    Except Overflow (Option Instant) := do
  let closing ← schedule.walkToClosingDate (zone.dateOf now)
  lookAndJudge (look schedule.recurrence) (schedule.judge heading zone closing)
    Reach.resumptions now

/-- The search of `closestIn`, walked. -/
def walkIn (schedule : Schedule) (heading : Heading) (zone : Zone) :
    (now : Instant) → Except Overflow (Option Instant) :=
  schedule.searchIn heading zone ((Frame.ofSchedule schedule zone).walkOf heading)

/-- What `walkIn` comes to. -/
def jumpIn (schedule : Schedule) (heading : Heading) (zone : Zone) :
    (now : Instant) → Except Overflow (Option Instant) :=
  schedule.searchIn heading zone ((Frame.ofSchedule schedule zone).jumpOf heading)

end Schedule

end Cadence
