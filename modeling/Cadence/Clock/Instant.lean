import Cadence.Calendar.Date

/-!
# Instants

An instant is a moment of universal time, in whole seconds and nanoseconds.
Seconds are counted so that day `n` of the calendar begins at second
`86400 * n`; the second of an instant therefore carries its date.

A leap second has no second of its own.  It is written as the second before it
with a billion nanoseconds or more, so it comes after every ordinary instant of
that second and before the next one.
-/

namespace Cadence

/-- The length of a day in seconds. -/
def daySeconds : Int := 86400

/-- The length of a second in nanoseconds. -/
def secondNanos : Nat := 1000000000

/-- A moment of universal time. -/
structure Instant where
  second : Int
  nano : Nat
  deriving DecidableEq, Repr

namespace Instant

/-- Instants are ordered by second, then by nanosecond. -/
instance : LE Instant :=
  ⟨fun a b => a.second < b.second ∨ a.second = b.second ∧ a.nano ≤ b.nano⟩

instance : LT Instant :=
  ⟨fun a b => a.second < b.second ∨ a.second = b.second ∧ a.nano < b.nano⟩

instance (a b : Instant) : Decidable (a ≤ b) :=
  inferInstanceAs (Decidable (a.second < b.second ∨ a.second = b.second ∧ a.nano ≤ b.nano))

instance (a b : Instant) : Decidable (a < b) :=
  inferInstanceAs (Decidable (a.second < b.second ∨ a.second = b.second ∧ a.nano < b.nano))

instance : Min Instant := minOfLe
instance : Max Instant := maxOfLe

/-- The instant at the start of a second. -/
def ofSecond (second : Int) : Instant := ⟨second, 0⟩

/-- Moves an instant by whole seconds.  Leaving a leap second forwards takes
one second less, backwards it starts from the second that follows. -/
def shift (instant : Instant) (seconds : Int) : Instant :=
  if instant.nano < secondNanos then ⟨instant.second + seconds, instant.nano⟩
  else if 0 < seconds then ⟨instant.second + seconds, instant.nano - secondNanos⟩
  else if seconds < 0 then ⟨instant.second + 1 + seconds, instant.nano - secondNanos⟩
  else instant

end Instant

/-- The date of a second on some local clock. -/
def dateOfSecond (second : Int) : Date := ⟨second / daySeconds⟩

/-- The seconds since midnight of a second on some local clock. -/
def clockOfSecond (second : Int) : Nat := (second % daySeconds).toNat

/-- The second at which a clock on `date` shows `secondOfDay`. -/
def secondOf (date : Date) (secondOfDay : Nat) : Int :=
  date.dayNumber * daySeconds + secondOfDay

theorem dateOfSecond_secondOf {date : Date} {secondOfDay : Nat}
    (hday : secondOfDay < 86400) : dateOfSecond (secondOf date secondOfDay) = date := by
  obtain ⟨dayNumber⟩ := date
  simp only [dateOfSecond, secondOf, daySeconds, Date.mk.injEq]
  omega

theorem clockOfSecond_secondOf {date : Date} {secondOfDay : Nat}
    (hday : secondOfDay < 86400) : clockOfSecond (secondOf date secondOfDay) = secondOfDay := by
  simp only [clockOfSecond, secondOf, daySeconds]
  omega

theorem secondOf_date_clock (second : Int) :
    secondOf (dateOfSecond second) (clockOfSecond second) = second := by
  simp only [clockOfSecond, dateOfSecond, secondOf, daySeconds]
  omega

end Cadence
