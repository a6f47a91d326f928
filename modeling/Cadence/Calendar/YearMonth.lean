import Cadence.Calendar.Date
import Cadence.Calendar.Month

/-!
# Months of a year and the days they offer

A `YearMonth` names one month of one year.  Besides stepping from month to
month, this module picks days out of a month: its last day, its last working
day, the `n`th or last of a weekday, and the working day nearest to a given
day.
-/

namespace Cadence

/-- Which of the days falling on a weekday is meant within a month. -/
inductive Position where
  | first
  | second
  | third
  | fourth
  | fifth
  | last
  deriving DecidableEq, Repr

namespace Position

def text : Position → String
  | first => "first"
  | second => "second"
  | third => "third"
  | fourth => "fourth"
  | fifth => "fifth"
  | last => "last"

/-- The rank from the start of the month; `last` has none. -/
def rank? : Position → Option Nat
  | first => some 1
  | second => some 2
  | third => some 3
  | fourth => some 4
  | fifth => some 5
  | last => none

/-- The position with a rank from 1 to 5. -/
def ofRank? : Nat → Option Position
  | 1 => some first
  | 2 => some second
  | 3 => some third
  | 4 => some fourth
  | 5 => some fifth
  | _ => none

end Position

/-- Which way to move from a weekend to a working day. -/
inductive Direction where
  | next
  | previous
  deriving DecidableEq, Repr

def Direction.text : Direction → String
  | .next => "next"
  | .previous => "previous"

/-- A month of a particular year, as a number that is usually 1 to 12. -/
structure YearMonth where
  year : Int
  month : Nat
  deriving DecidableEq, Repr

namespace YearMonth

/-- The month a date lies in. -/
def ofDate (date : Date) : YearMonth := ⟨date.year, date.month⟩

/-- The following month. -/
def next (ym : YearMonth) : YearMonth :=
  if 12 ≤ ym.month then ⟨ym.year + 1, 1⟩ else ⟨ym.year, ym.month + 1⟩

/-- The month before. -/
def previous (ym : YearMonth) : YearMonth :=
  if ym.month ≤ 1 then ⟨ym.year - 1, 12⟩ else ⟨ym.year, ym.month - 1⟩

/-- Months counted through all years, with the month number in the last place. -/
def index (ym : YearMonth) : Int := ym.year * 12 + ym.month

/-- The month with an index; its number lies in 1 to 12. -/
def ofIndex (index : Int) : YearMonth :=
  ⟨(index - 1) / 12, ((index - 1) % 12).toNat + 1⟩

theorem index_ofIndex (i : Int) : (ofIndex i).index = i := by
  simp only [ofIndex, index]
  omega

theorem ofIndex_index {ym : YearMonth} (hlow : 1 ≤ ym.month) (hhigh : ym.month ≤ 12) :
    ofIndex ym.index = ym := by
  obtain ⟨year, month⟩ := ym
  simp only [ofIndex, index, mk.injEq] at *
  omega

/-- How many months `ym` lies after `reference`. -/
def monthsSince (ym reference : YearMonth) : Int := ym.index - reference.index

/-- The date of a day of this month, if the month has such a day. -/
def date? (ym : YearMonth) (day : Nat) : Option Date :=
  Date.ofYmd? ym.year ym.month day

/-- The number of the last day. -/
def lastDay (ym : YearMonth) : Nat := daysInMonth ym.year ym.month

/-- The date of the last day. -/
def lastDate? (ym : YearMonth) : Option Date := ym.date? ym.lastDay

/-- The last day from Monday to Friday. -/
def lastBusinessDate? (ym : YearMonth) : Option Date :=
  ym.lastDate?.bind fun date => match date.weekday with
    | .saturday => date.addDays? (-1)
    | .sunday => date.addDays? (-2)
    | _ => some date

/-- The `n`th day falling on a weekday, counted from 1. -/
def nthWeekday? (ym : YearMonth) (weekday : Weekday) (n : Nat) : Option Date :=
  if n = 0 then none
  else (ym.date? 1).bind fun first =>
    let ahead := (7 + weekday.index - first.weekday.index) % 7
    ym.date? ((n - 1) * 7 + ahead + 1)

/-- The last day falling on a weekday. -/
def lastWeekday? (ym : YearMonth) (weekday : Weekday) : Option Date :=
  ym.lastDate?.bind fun last =>
    let back := (7 + last.weekday.index - weekday.index) % 7
    last.addDays? (-back)

/-- The day falling on a weekday at a position of the month. -/
def positionedWeekday? (ym : YearMonth) (position : Position) (weekday : Weekday) :
    Option Date :=
  match position.rank? with
  | some n => ym.nthWeekday? weekday n
  | none => ym.lastWeekday? weekday

/-- The working day nearest to a day of the month.

Without a direction the result stays in the month: a Saturday gives way to the
Friday before unless it is the first, a Sunday to the Monday after unless it is
the last day.  With a direction the move always goes that way and may leave the
month.  Nothing if the month lacks the day. -/
def nearestBusinessDate? (ym : YearMonth) (day : Nat) (direction : Option Direction) :
    Option Date :=
  (ym.date? day).bind fun date =>
    match date.weekday, direction with
    | .saturday, none => date.addDays? (if day = 1 then 2 else -1)
    | .saturday, some .previous => date.addDays? (-1)
    | .saturday, some .next => date.addDays? 2
    | .sunday, none => date.addDays? (if ym.lastDay ≤ day then -2 else 1)
    | .sunday, some .previous => date.addDays? (-2)
    | .sunday, some .next => date.addDays? 1
    | _, _ => some date

end YearMonth

/-- Whether a date lies in one of the listed months; an empty list allows all. -/
def inSeason (season : List Month) (date : Date) : Bool :=
  season.isEmpty || season.any (·.number = date.month)

/-- The first listed month among the next `fuel` ones, walked by `step`. -/
def seasonMonth? (season : List Month) (step : YearMonth → YearMonth) :
    (fuel : Nat) → YearMonth → Option YearMonth
  | 0, _ => none
  | fuel + 1, ym =>
    let there := step ym
    if season.any (·.number = there.month) then some there
    else seasonMonth? season step fuel there

/-- The first day of the next listed month after the month of `date`. -/
def nextSeasonStart? (season : List Month) (date : Date) : Option Date :=
  (seasonMonth? season YearMonth.next 12 (.ofDate date)).bind (·.date? 1)

/-- The last day of the closest listed month before the month of `date`; with
no month listed, the day before. -/
def previousSeasonEnd? (season : List Month) (date : Date) : Option Date :=
  match seasonMonth? season YearMonth.previous 12 (.ofDate date) with
  | some ym => ym.lastDate?
  | none => date.addDays? (-1)

end Cadence
