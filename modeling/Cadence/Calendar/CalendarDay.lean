import Cadence.Calendar.YearMonth

/-!
# Days named with or without a year

A clause may name a day of one year, such as `2026-01-01`, or a day of every
year, such as `dec 25`.  A day of every year can be missing in some of them.
-/

namespace Cadence

/-- A day of every year, or one date. -/
inductive CalendarDay where
  | yearly (month : Month) (day : Nat)
  | fixed (date : Date)
  deriving DecidableEq, Repr

namespace CalendarDay

def text : CalendarDay → String
  | yearly month day => month.name ++ " " ++ Nat.repr day
  | fixed date => date.text

/-- Whether a date is the named day. -/
def covers : CalendarDay → Date → Bool
  | yearly month day, date => date.month = month.number && date.day = day
  | fixed named, date => named = date

/-- How many years ahead a day of every year is looked for.  Leap days are at
most eight years apart. -/
def lookahead : Nat := 8

/-- The date that a closing day stands for when seen from `reference`: the
date itself, or the first such day of a year on or after `reference`. -/
def resolveFrom? : CalendarDay → (reference : Date) → Option Date
  | fixed date, _ => some date
  | yearly month day, reference =>
    (List.range (lookahead + 1)).findSome? fun (years : Nat) =>
      (Date.ofYmd? (reference.year + years) month.number day).filter (reference ≤ ·)

end CalendarDay

end Cadence
