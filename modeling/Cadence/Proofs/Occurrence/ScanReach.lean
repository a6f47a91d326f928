import Cadence.Proofs.Occurrence.BackwardSearch
import Cadence.Proofs.Occurrence.ForwardSearch

/-!
# How far scans reach

A recurrence that picks at most one date of a year or month is searched by
scanning a fixed number of years or months.  The scan finds an occurrence
exactly if there is one within that reach.  Dates that are rarer than the reach
is long can therefore be missed.
-/

namespace Cadence

namespace Recurrence

/-- The recurrences that are searched year by year, or month by month for a
weekday at a position. -/
def IsScanned : Recurrence → Prop
  | yearly _ _ _ | ordinal _ _ _ _ | monthly _ (.positioned _ _) _ | once (.yearly _ _) _ => True
  | _ => False

/-- Whether a forward scan that starts at one date gets as far as another.  The
scan counts years from that of the start and ends before the last one. -/
def ScansTo : Recurrence → (start date : Date) → Prop
  | yearly interval _ _, start, date =>
    date.year < start.year + (Reach.years * stepOf interval : Nat)
  | once _ _, start, date => date.year < start.year + Reach.years
  | ordinal interval _ _ _, start, date | monthly interval _ _, start, date =>
    (YearMonth.ofDate date).index + 1 ≤
      (YearMonth.ofDate start).index + (Reach.months * stepOf interval : Nat)
  | _, _, _ => True

/-- Whether a backward scan that starts at one date gets back to another. -/
def ScansBackTo : Recurrence → (start date : Date) → Prop
  | yearly interval _ _, start, date =>
    start.year < date.year + (Reach.years * stepOf interval : Nat)
  | once _ _, start, date => start.year < date.year + Reach.years
  | ordinal interval _ _ _, start, date | monthly interval _ _, start, date =>
    (YearMonth.ofDate start).index + 1 ≤
      (YearMonth.ofDate date).index + (Reach.months * stepOf interval : Nat)
  | _, _, _ => True

variable {recurrence : Recurrence} {start first second : Date}

/-- A forward scan that gets to a date gets to the dates before it. -/
theorem ScansTo.of_le (hle : first ≤ second) (hscans : recurrence.ScansTo start second) :
    recurrence.ScansTo start first := by
  have hyear := Date.year_mono hle
  have hmonth := YearMonth.index_ofDate_mono hle
  cases recurrence with
  | yearly interval target times => exact Int.lt_of_le_of_lt hyear hscans
  | once day times => exact Int.lt_of_le_of_lt hyear hscans
  | ordinal interval position weekday times =>
    exact Int.le_trans (Int.add_le_add_right hmonth 1) hscans
  | monthly interval target times => exact Int.le_trans (Int.add_le_add_right hmonth 1) hscans
  | window | daily | weekly => trivial

/-- A backward scan that gets back to a date gets back to the dates after it. -/
theorem ScansBackTo.of_ge (hle : first ≤ second) (hscans : recurrence.ScansBackTo start first) :
    recurrence.ScansBackTo start second := by
  have hyear := Date.year_mono hle
  have hmonth := YearMonth.index_ofDate_mono hle
  cases recurrence with
  | yearly interval target times =>
    exact Int.lt_of_lt_of_le hscans (Int.add_le_add_right hyear _)
  | once day times => exact Int.lt_of_lt_of_le hscans (Int.add_le_add_right hyear _)
  | ordinal interval position weekday times =>
    exact Int.le_trans hscans (Int.add_le_add_right hmonth _)
  | monthly interval target times => exact Int.le_trans hscans (Int.add_le_add_right hmonth _)
  | window | daily | weekly => trivial

end Recurrence

namespace Frame

variable {frame : Frame} {times : List TimeOfDay} {now moment : Instant}

/-- A bound on the dates of offered instants, read off the instants. -/
theorem shownBy_within_iff (hzone : frame.zone.KeepsDates) (recurrence : Recurrence)
    (within : Date → Prop) :
    ShownBy (frame.OnDate recurrence.times) (fun date =>
        (date.IsSupported ∧ recurrence.Selects frame.anchor date) ∧ within date) moment ↔
      frame.Offers recurrence moment ∧ within (frame.zone.dateOf moment) := by
  constructor
  · rintro ⟨date, ⟨⟨hsupported, hselects⟩, hwithin⟩, time, htime, rfl⟩
    rw [hzone.dateOf_instantAt]
    exact ⟨⟨date, hsupported, hselects, time, htime, rfl⟩, hwithin⟩
  · rintro ⟨⟨date, hsupported, hselects, time, htime, rfl⟩, hwithin⟩
    rw [hzone.dateOf_instantAt] at hwithin
    exact ⟨date, ⟨⟨hsupported, hselects⟩, hwithin⟩, time, htime, rfl⟩

/-- For a target that stays in its month, the month of a picked date is the one
it is picked for. -/
theorem shownBy_month_within_iff (hzone : frame.zone.KeepsDates) {target : MonthTarget}
    (hstays : target.mayLeaveMonth = false) {interval : Nat} (within : YearMonth → Prop) :
    ShownBy (frame.OnDate times) (fun date => ∃ ym : YearMonth,
        (isAligned (ym.monthsSince (monthAnchor frame.anchor)) interval = true ∧
          date ∈ target.datesIn ym) ∧ within ym) moment ↔
      frame.Offers (.monthly interval target times) moment ∧
        within (YearMonth.ofDate (frame.zone.dateOf moment)) := by
  constructor
  · rintro ⟨date, ⟨ym, hym, hwithin⟩, time, htime, rfl⟩
    obtain ⟨hsupported, rfl⟩ := MonthTarget.ofDate_of_mem_datesIn hstays hym.2
    rw [hzone.dateOf_instantAt]
    exact ⟨⟨date, hsupported, ⟨_, hym⟩, time, htime, rfl⟩, hwithin⟩
  · rintro ⟨⟨date, _, ⟨ym, hym⟩, time, htime, rfl⟩, hwithin⟩
    obtain ⟨_, rfl⟩ := MonthTarget.ofDate_of_mem_datesIn hstays hym.2
    rw [hzone.dateOf_instantAt] at hwithin
    exact ⟨date, ⟨_, hym, hwithin⟩, time, htime, rfl⟩

/-- What a forward scan is right about. -/
abbrev ScansAhead (frame : Frame) (recurrence : Recurrence) (now : Instant) : Prop :=
  Finds (· < ·) (fun moment => frame.Offers recurrence moment ∧
      recurrence.ScansTo (frame.zone.dateOf now) (frame.zone.dateOf moment))
    now (frame.nextOf recurrence now)

/-- What a backward scan is right about. -/
abbrev ScansBehind (frame : Frame) (recurrence : Recurrence) (now : Instant) : Prop :=
  Finds (· > ·) (fun moment => frame.Offers recurrence moment ∧
      recurrence.ScansBackTo (frame.zone.dateOf now) (frame.zone.dateOf moment))
    now (frame.previousOf recurrence now)

theorem scansAhead_monthly {interval : Nat} (target : MonthTarget)
    (hzone : frame.zone.KeepsDates) (hstays : target.mayLeaveMonth = false) :
    frame.ScansAhead (.monthly interval target times) now := by
  have htries : ∀ ym, frame.TriesMonth target.mayLeaveMonth ym := fun ym => by
    rw [hstays]
    exact rfl
  apply ((tries_nextMonthly tries_earliestAfter).finds
    (searchOrder_forward hzone exists_time_of_onDate)).congr
  intro moment _
  simp only [htries, true_and]
  exact shownBy_month_within_iff hzone hstays fun ym => ym.index + 1 ≤
    (YearMonth.ofDate (frame.zone.dateOf now)).index + (Reach.months * stepOf interval : Nat)

theorem scansBehind_monthly {interval : Nat} (target : MonthTarget)
    (huniversal : frame.zone.IsUniversal) (hclock : ∀ time ∈ times, time.IsOnClock)
    (hstays : target.mayLeaveMonth = false) :
    frame.ScansBehind (.monthly interval target times) now := by
  have hzone := huniversal.keepsDates
  apply ((tries_previousMonthly (triesBehind_latestOn huniversal hclock)).finds
    (searchOrder_backward hzone exists_time_of_onDate)).congr
  intro moment _
  exact shownBy_month_within_iff hzone hstays fun ym =>
    (YearMonth.ofDate (frame.zone.dateOf now)).index + 1 ≤
      ym.index + (Reach.months * stepOf interval : Nat)

theorem scansAhead_yearly (hzone : frame.zone.KeepsDates) {interval : Nat} {target : YearTarget} :
    frame.ScansAhead (.yearly interval target times) now :=
  ((tries_nextYearly tries_earliestAfter).finds
    (searchOrder_forward hzone exists_time_of_onDate)).congr
      fun _ _ => shownBy_within_iff hzone _ _

theorem scansBehind_yearly (huniversal : frame.zone.IsUniversal)
    (hclock : ∀ time ∈ times, time.IsOnClock) {interval : Nat} {target : YearTarget} :
    frame.ScansBehind (.yearly interval target times) now :=
  have hzone := huniversal.keepsDates
  ((tries_previousYearly (triesBehind_latestOn huniversal hclock)).finds
    (searchOrder_backward hzone exists_time_of_onDate)).congr
    fun _ _ => shownBy_within_iff hzone _ _

/-- A forward scan finds the closest offered instant within its reach. -/
theorem scansAhead (hzone : frame.zone.KeepsDates) {recurrence : Recurrence}
    (hscanned : recurrence.IsScanned) : frame.ScansAhead recurrence now := by
  cases recurrence with
  | yearly interval target times => exact scansAhead_yearly hzone
  | ordinal interval position weekday times =>
    exact scansAhead_monthly (.positioned position weekday) hzone rfl
  | monthly interval target times =>
    cases target with
    | positioned position weekday => exact scansAhead_monthly _ hzone rfl
    | _ => exact hscanned.elim
  | once day times =>
    cases day with
    | yearly month day =>
      rw [ScansAhead, nextOf, nextOnce_yearly, offers_once_yearly]
      exact scansAhead_yearly hzone
    | fixed date => exact hscanned.elim
  | window | daily | weekly => exact hscanned.elim

/-- A backward scan finds the closest offered instant within its reach. -/
theorem scansBehind (huniversal : frame.zone.IsUniversal) {recurrence : Recurrence}
    (hwell : recurrence.WellFormed) (hscanned : recurrence.IsScanned) :
    frame.ScansBehind recurrence now := by
  have hclock : ∀ time ∈ recurrence.times, time.IsOnClock := fun _ => hwell.isOnClock
  cases recurrence with
  | yearly interval target times => exact scansBehind_yearly huniversal hclock
  | ordinal interval position weekday times =>
    exact scansBehind_monthly (.positioned position weekday) huniversal hclock rfl
  | monthly interval target times =>
    cases target with
    | positioned position weekday => exact scansBehind_monthly _ huniversal hclock rfl
    | _ => exact hscanned.elim
  | once day times =>
    cases day with
    | yearly month day =>
      rw [ScansBehind, previousOf, previousOnce_yearly, offers_once_yearly]
      exact scansBehind_yearly huniversal hclock
    | fixed date => exact hscanned.elim
  | window | daily | weekly => exact hscanned.elim

end Frame

end Cadence
