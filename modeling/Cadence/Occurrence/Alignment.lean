import Cadence.Calendar.YearMonth

/-!
# Alignment of intervals

An interval of several days, weeks, months or years is counted from an anchor:
the date a schedule starts from, or a day near the first of January 1970.  A
day, week, month or year is aligned when its distance from the anchor is a
multiple of the interval.  Distances are signed, so alignment is the same
before the anchor and after it.
-/

namespace Cadence

/-- The first of January 1970. -/
def epochDay : Int := 719163

/-- The first Monday after the first of January 1970. -/
def epochMonday : Int := epochDay + 4

def epochYear : Int := 1970

/-- The day from which intervals of days are counted. -/
def dayAnchor : Option Date → Int
  | some date => date.dayNumber
  | none => epochDay

/-- The Monday from which intervals of weeks are counted. -/
def weekAnchor : Option Date → Int
  | some date => date.dayNumber - date.weekday.index
  | none => epochMonday

/-- The month from which intervals of months are counted. -/
def monthAnchor : Option Date → YearMonth
  | some date => .ofDate date
  | none => ⟨epochYear, 1⟩

/-- The year from which intervals of years are counted. -/
def yearAnchor : Option Date → Int
  | some date => date.year
  | none => epochYear

/-- The step of an interval; an interval of zero counts as one. -/
def stepOf (interval : Nat) : Nat := max interval 1

/-- Whether a distance from the anchor is a multiple of the interval. -/
def isAligned (distance : Int) (interval : Nat) : Bool :=
  distance % stepOf interval = 0

/-- How far ahead of a distance the next aligned one lies. -/
def stepsAhead (distance : Int) (interval : Nat) : Nat :=
  ((-distance) % stepOf interval).toNat

/-- How far behind a distance the last aligned one lies. -/
def stepsBehind (distance : Int) (interval : Nat) : Nat :=
  (distance % stepOf interval).toNat

theorem isAligned_add_stepsAhead (distance : Int) (interval : Nat) :
    isAligned (distance + stepsAhead distance interval) interval = true := by
  have hpos : (0 : Int) < stepOf interval := by simp only [stepOf]; omega
  have hnonneg := Int.emod_nonneg (-distance) (Int.ne_of_gt hpos)
  simp only [isAligned, stepsAhead, decide_eq_true_eq, Int.toNat_of_nonneg hnonneg]
  rw [Int.add_emod, Int.emod_emod, ← Int.add_emod, Int.add_right_neg, Int.zero_emod]

theorem isAligned_sub_stepsBehind (distance : Int) (interval : Nat) :
    isAligned (distance - stepsBehind distance interval) interval = true := by
  have hpos : (0 : Int) < stepOf interval := by simp only [stepOf]; omega
  have hnonneg := Int.emod_nonneg distance (Int.ne_of_gt hpos)
  simp only [isAligned, stepsBehind, decide_eq_true_eq, Int.toNat_of_nonneg hnonneg]
  rw [Int.sub_emod, Int.emod_emod, Int.sub_self, Int.zero_emod]

end Cadence
