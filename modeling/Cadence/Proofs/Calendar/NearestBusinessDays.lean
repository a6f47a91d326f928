import Cadence.Proofs.Calendar.MonthPositions
import Cadence.Proofs.Calendar.MonthTargets

/-!
# Working days near a day of every month

The working day that is picked for a day of the month stays in the month without a
direction.  With one it is the first working day from that day on, or the last up to it, in
whatever month this may be.  From month to month the picked days come later all the same:
a day is never moved by more than two days, and months are longer than that.
-/

namespace Cadence

/-- Whether a date is met no later than another one on the way in a direction. -/
def Direction.Meets : Direction → (first second : Date) → Prop
  | next, first, second => first ≤ second
  | previous, first, second => second ≤ first

/-- The working day that is met first on the way from a date, this date included. -/
structure Date.IsBusinessDayTowards (direction : Direction) (asked date : Date) : Prop where
  working : date.isWeekend = false
  onTheWay : direction.Meets asked date
  first : ∀ other : Date, direction.Meets asked other → other.isWeekend = false →
    direction.Meets date other

namespace YearMonth

variable {ym : YearMonth} {day : Nat} {asked date : Date}

/-- With a direction the picked day is the working day that is met first from the day on. -/
theorem isBusinessDayTowards_of_nearestBusinessDate? {direction : Direction}
    (hasked : ym.date? day = some asked)
    (hdate : ym.nearestBusinessDate? day (some direction) = some date) :
    asked.IsBusinessDayTowards direction date := by
  rw [nearestBusinessDate?, hasked, Option.bind_some] at hdate
  have hindex := asked.weekday_index
  suffices hplace : (date.dayNumber - 1) % 7 < 5 ∧ direction.Meets asked date ∧ ∀ other : Date,
      direction.Meets asked other → (other.dayNumber - 1) % 7 < 5 → direction.Meets date other from
    ⟨Date.isWeekend_eq_false_iff.mpr hplace.1, hplace.2.1, fun other hmeets hworking =>
      hplace.2.2 other hmeets (Date.isWeekend_eq_false_iff.mp hworking)⟩
  have hle : ∀ first second : Date, first ≤ second ↔ first.dayNumber ≤ second.dayNumber :=
    fun _ _ => Iff.rfl
  cases hweekday : asked.weekday <;> rw [hweekday] at hdate hindex <;>
    simp only [Weekday.index] at hindex
  case saturday | sunday =>
    cases direction <;> obtain ⟨hshift, _⟩ := Date.addDays?_eq_some_iff.mp hdate <;>
      simp only [Direction.Meets, hle] <;>
      exact ⟨by omega, by omega, fun number _ _ => by omega⟩
  all_goals
    obtain rfl := Option.some.inj hdate
    refine ⟨by omega, ?_, fun other hmeets _ => hmeets⟩
    cases direction <;> exact Int.le_refl _

/-- A month that has a day has a working day for it.  Without a direction it lies in the month
and no working day of the month is nearer to the day; with one it is the working day that is
met first.  For later months later days are picked, and each lies in the month it is picked
for or in a neighbour of it.  A month that lacks the day has no working day for it. -/
theorem nearestBusinessDate?_isNearest_and_ascends (ym : YearMonth) (day : Nat)
    (direction : Option Direction) :
    (∀ asked, ym.date? day = some asked → ∃ date,
      ym.nearestBusinessDate? day direction = some date ∧ date.isWeekend = false ∧
        (direction = none → ym.IsNearestBusinessDay day date) ∧
        (∀ towards ∈ direction, asked.IsBusinessDayTowards towards date) ∧
        (ym.index - 1 ≤ (ofDate date).index ∧ (ofDate date).index ≤ ym.index + 1) ∧
        ∀ (later : YearMonth) (laterDate : Date), ym.index < later.index →
          later.nearestBusinessDate? day direction = some laterDate → date < laterDate) ∧
      (ym.date? day = none → ym.nearestBusinessDate? day direction = none) := by
  refine ⟨fun asked hasked => ?_, fun hlacks => ?_⟩
  · obtain ⟨date, hdate⟩ := exists_nearestBusinessDate? hasked direction
    have hpicked : date ∈ (MonthTarget.nearestBusinessDay day direction).datesIn ym :=
      Option.mem_toList.mpr hdate
    have hnearest : direction = none → ym.IsNearestBusinessDay day date := by
      rintro rfl
      exact (isNearestBusinessDay_of_nearestBusinessDate? hdate).2
    have htowards : ∀ towards ∈ direction, asked.IsBusinessDayTowards towards date := by
      rintro towards rfl
      exact isBusinessDayTowards_of_nearestBusinessDate? hasked hdate
    refine ⟨date, hdate, ?_, hnearest, htowards, MonthTarget.index_of_mem_datesIn hpicked, ?_⟩
    · cases direction with
      | none => exact (hnearest rfl).working
      | some towards => exact (htowards towards rfl).working
    · intro later laterDate hlt hlater
      exact MonthTarget.lt_of_mem_datesIn hpicked (Option.mem_toList.mpr hlater) hlt
  · rw [nearestBusinessDate?, hlacks, Option.bind_none]

/-- The last of May 2026 is a Sunday, and the next working day the first of June.  June has
no such day; the next one is that of July, a Friday. -/
theorem nearestBusinessDate?_isNearest_and_ascends_over_month_end :
    (⟨2026, 5⟩ : YearMonth).nearestBusinessDate? 31 (some .next) = some ⟨739768⟩ ∧
      Date.IsBusinessDayTowards .next ⟨739767⟩ ⟨739768⟩ ∧
      (⟨2026, 6⟩ : YearMonth).nearestBusinessDate? 31 (some .next) = none ∧
      (⟨2026, 7⟩ : YearMonth).nearestBusinessDate? 31 (some .next) = some ⟨739828⟩ ∧
      (⟨739768⟩ : Date) < ⟨739828⟩ := by
  obtain ⟨hmay, -⟩ := nearestBusinessDate?_isNearest_and_ascends ⟨2026, 5⟩ 31 (some .next)
  obtain ⟨-, hjune⟩ := nearestBusinessDate?_isNearest_and_ascends ⟨2026, 6⟩ 31 (some .next)
  obtain ⟨date, hdate, -, -, htowards, -, hascends⟩ := hmay ⟨739767⟩ (by decide)
  have hfirst : (⟨2026, 5⟩ : YearMonth).nearestBusinessDate? 31 (some .next) = some ⟨739768⟩ := by
    decide
  have hjuly : (⟨2026, 7⟩ : YearMonth).nearestBusinessDate? 31 (some .next) = some ⟨739828⟩ := by
    decide
  obtain rfl : date = ⟨739768⟩ := Option.some.inj (hdate.symm.trans hfirst)
  exact ⟨hdate, htowards .next rfl, hjune (by decide), hjuly,
    hascends ⟨2026, 7⟩ _ (by decide) hjuly⟩

end YearMonth

end Cadence
