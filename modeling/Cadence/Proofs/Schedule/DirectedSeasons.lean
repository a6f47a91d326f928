import Mathlib
import Cadence.Proofs.Occurrence.LaterStart
import Cadence.Proofs.Schedule.Occurrences

/-!
# Directed targets and seasons

The working day next to a day of the month, in a given direction, may lie outside
that month.  Such a date then belongs to two months: the one it is picked for and
the one it lies in.  A forward search asks whether the first of them is in season,
membership and the backward search ask about the second.  So an occurrence that the
forward search finds is one for the other two exactly if its own month is in
season, and of what these take for an occurrence the forward search finds exactly
what is picked for a month in season.
-/

namespace Cadence

/-! ## Neighbouring minutes -/

namespace Instant.IsWholeMinute

variable {first : Instant}

/-- Within a minute of an instant the date changes by one day at most. -/
theorem dateOf_shift {zone : Zone} (huniversal : zone.IsUniversal) (hfirst : first.IsWholeMinute)
    {seconds : Int} (hseconds : seconds.natAbs ≤ 60) :
    ((zone.dateOf (first.shift seconds)).dayNumber - (zone.dateOf first).dayNumber).natAbs ≤ 1 := by
  obtain ⟨number, _⟩ := first
  obtain rfl : _ = 0 := hfirst.1
  rw [show (⟨number, 0⟩ : Instant) = .ofSecond number from rfl, shift_ofSecond,
    huniversal.dateOf, huniversal.dateOf]
  simp only [ofSecond]
  omega

end Instant.IsWholeMinute

namespace Schedule

/-- A schedule without clauses apart from its season and its zone. -/
structure HasOnlySeason (schedule : Schedule) : Prop where
  skipped : schedule.skipped = []
  lastDay : schedule.lastDay = none
  anchor : schedule.anchor = none

variable {schedule : Schedule} {zone : Zone} {now hit : Instant}

namespace HasOnlySeason

variable (honly : schedule.HasOnlySeason)
include honly

theorem closingDate?_eq (reference : Date) : schedule.closingDate? reference = none := by
  rw [closingDate?, honly.lastDay, Option.map_none]

theorem admits_iff {date : Date} :
    schedule.Admits none date ↔ inSeason schedule.season date = true := by
  refine ⟨Admits.inSeason, fun hin => ⟨hin, ?_, nofun⟩⟩
  rw [skips, honly.skipped, List.any_nil]

/-- A search that asks about the season month by month accepts every date. -/
theorem passes (hchecks : schedule.recurrence.mayLeaveMonth = true) (date : Date) :
    schedule.Passes none date where
  inSeason hnot := by
    rw [seasonInRecurrence_eq, hchecks] at hnot
    cases hnot
  notSkipped := by rw [skips, honly.skipped, List.any_nil]
  notClosed := nofun

section Universal

variable (huniversal : zone.IsUniversal) (hwell : schedule.recurrence.WellFormed)
  (hoffers : (Frame.ofSchedule schedule zone).Offers schedule.recurrence hit)
include huniversal hwell hoffers

theorem firesIn_iff : schedule.firesIn zone hit = true ↔
    inSeason schedule.season (zone.dateOf hit) = true := by
  obtain ⟨hminute, hsupported⟩ := hoffers.isWholeMinute huniversal hwell
  rw [firesIn_iff_offers huniversal hwell hminute hsupported, honly.closingDate?_eq, Offers,
    and_iff_right hoffers, honly.admits_iff]

/-- A backward search from the next minute finds what is offered, if its date is in
season. -/
theorem previousIn_shift_iff
    (hreaches : (Frame.ofSchedule schedule zone).ReachesBack schedule.recurrence
      (zone.dateOf (hit.shift 60)) (zone.dateOf hit)) :
    schedule.previousIn zone (hit.shift 60) = some hit ↔
      inSeason schedule.season (zone.dateOf hit) = true := by
  have hframe : (Frame.ofSchedule schedule zone).zone.IsUniversal := huniversal
  obtain ⟨hminute, _⟩ := hoffers.isWholeMinute huniversal hwell
  rw [previousIn, honly.closingDate?_eq]
  constructor
  · intro hprevious
    exact (nearest_of_searchBackward huniversal hwell hprevious).1.holds.2.inSeason
  · intro hin
    obtain ⟨hdate, hon⟩ := hoffers.onOwnDate hframe.isOrderly
    have hcandidate : (Frame.ofSchedule schedule zone).previousOf schedule.recurrence
        (hit.shift 60) = some hit := by
      refine Frame.previousOf_eq_some hframe hwell ⟨⟨_, ⟨hdate, hreaches⟩, hon⟩, ?_, ?_⟩
      · exact (hminute.lt_shift_iff hminute).mpr (Instant.lt_irrefl hit)
      · rintro moment ⟨date, ⟨⟨hsupported, hselects⟩, _⟩, hmoment⟩ hbefore
        have hwhole := (Frame.Offers.isWholeMinute hframe hwell
          ⟨date, hsupported, hselects, hmoment⟩).1
        exact (hminute.lt_shift_iff hwhole).mp hbefore
    have hskips : schedule.skips (zone.dateOf hit) = false := by
      rw [skips, honly.skipped, List.any_nil]
    rw [show Reach.resumptions = 999 + 1 from rfl, searchBackward]
    simp only [hcandidate, honly.anchor, hin, hskips, Option.bind_eq_bind, Option.bind_some,
      Option.any_none, Option.filter_none, Bool.not_true, Bool.false_eq_true, if_false]

/-- A forward search from the minute before finds what is offered, if it may land on
its date. -/
theorem nextIn_shift_iff (hchecks : schedule.recurrence.mayLeaveMonth = true)
    (hreaches : Frame.Reaches schedule.recurrence
      (zone.dateOf (hit.shift (-60))) (zone.dateOf hit)) :
    schedule.nextIn zone (hit.shift (-60)) = some hit ↔
      (Frame.ofSchedule schedule zone).Proposes schedule.recurrence (zone.dateOf hit) := by
  have hframe : (Frame.ofSchedule schedule zone).zone.IsUniversal := huniversal
  obtain ⟨hminute, _⟩ := hoffers.isWholeMinute huniversal hwell
  rw [nextIn, honly.closingDate?_eq]
  constructor
  · exact fun hnext => (passes_of_searchForward huniversal.isOrderly hwell hnext).1
  · intro hproposes
    obtain ⟨_, hon⟩ := hoffers.onOwnDate hframe.isOrderly
    have hcandidate : (Frame.ofSchedule schedule zone).nextOf schedule.recurrence
        (hit.shift (-60)) = some hit := by
      refine Frame.nextOf_eq_some hframe hwell ⟨⟨_, ⟨hproposes, hreaches⟩, hon⟩, ?_, ?_⟩
      · exact hminute.shift_neg_lt
      · rintro moment ⟨date, ⟨hmoment, _⟩, hseen⟩ hafter
        have hwhole := (Frame.Offers.isWholeMinute hframe hwell
          ⟨date, hmoment.selects.1, hmoment.selects.2, hseen⟩).1
        exact (hminute.shift_lt_iff hwhole).mp hafter
    rw [show Reach.resumptions = 999 + 1 from rfl, searchForward_succ, hcandidate,
      Option.bind_some]
    exact settle_of_passes (honly.passes hchecks _)

end Universal

end HasOnlySeason

/-! ## The two months of a date -/

section Directed

variable {text : String} {interval day : Nat} {direction : Direction} {times : List TimeOfDay}

/-- The dates that a forward search may land on are picked for a month in season. -/
theorem proposes_directed_iff {frame : Frame} {date : Date} (hseason : frame.season ≠ [])
    (hselects : (Recurrence.monthly interval (.nearestBusinessDay day (some direction))
      times).Selects frame.anchor date) :
    frame.Proposes (.monthly interval (.nearestBusinessDay day (some direction)) times) date ↔
      ∃ ym : YearMonth, ym.nearestBusinessDate? day (some direction) = some date ∧
        ym.isListed frame.season = true := by
  have htries : ∀ {ym : YearMonth},
      date ∈ (MonthTarget.nearestBusinessDay day (some direction)).datesIn ym →
        (frame.TriesMonth true ym ↔ ym.isListed frame.season = true) := by
    intro ym hmem
    obtain ⟨first, hfirst⟩ := Frame.exists_first_of_mem_datesIn hmem
    obtain ⟨_, rfl, _⟩ := YearMonth.date?_eq_some_iff.mp hfirst
    rw [Frame.TriesMonth, hfirst, Option.any_some, Bool.not_true, Bool.false_or, inSeason,
      List.isEmpty_eq_false_iff.mpr hseason, Bool.false_or]
    rfl
  constructor
  · rintro ⟨ym, ⟨_, hmem⟩, htried⟩
    exact ⟨ym, Option.mem_toList.mp hmem, (htries hmem).mp htried⟩
  · rintro ⟨ym, hdate, hlisted⟩
    obtain ⟨other, haligned, hmem⟩ := hselects
    obtain rfl := MonthTarget.eq_of_mem_datesIn hmem (Option.mem_toList.mpr hdate)
    exact ⟨other, ⟨haligned, hmem⟩, (htries hmem).mpr hlisted⟩

/-- A monthly search gets from a neighbouring minute to what is offered. -/
theorem reaches_neighbour {target : MonthTarget} {seconds : Int} (huniversal : zone.IsUniversal)
    (hmonthly : schedule.recurrence = .monthly interval target times)
    (hwell : schedule.recurrence.WellFormed) (hseconds : seconds.natAbs ≤ 60)
    (hoffers : (Frame.ofSchedule schedule zone).Offers schedule.recurrence hit) :
    Frame.Reaches schedule.recurrence (zone.dateOf (hit.shift seconds)) (zone.dateOf hit) ∧
      (Frame.ofSchedule schedule zone).ReachesBack schedule.recurrence
        (zone.dateOf (hit.shift seconds)) (zone.dateOf hit) := by
  have hframe : (Frame.ofSchedule schedule zone).zone.IsUniversal := huniversal
  have hnear := (hoffers.isWholeMinute hframe hwell).1.dateOf_shift huniversal hseconds
  have hselects := (hoffers.onOwnDate hframe.isOrderly).1.2
  rw [hmonthly] at hselects ⊢
  obtain ⟨ym, _, hmem⟩ := hselects
  have hmonths : ym.index - 1 ≤ (YearMonth.ofDate (zone.dateOf hit)).index ∧
      (YearMonth.ofDate (zone.dateOf hit)).index ≤ ym.index + 1 :=
    MonthTarget.index_of_mem_datesIn hmem
  have hbefore := @YearMonth.index_ofDate_le_of_near (zone.dateOf hit)
    (zone.dateOf (hit.shift seconds)) (by omega)
  have hafter := @YearMonth.index_ofDate_le_of_near (zone.dateOf (hit.shift seconds))
    (zone.dateOf hit) (by omega)
  have hmany : Reach.months * 1 ≤ Reach.months * stepOf interval :=
    Nat.mul_le_mul_left _ (stepOf_pos interval)
  have hmonthCount : Reach.months = 24 := rfl
  exact ⟨⟨ym, hmem, by omega⟩, ym, hmem, by omega⟩

/-- An occurrence that the next search finds is one for membership and for the
previous search exactly if it lies in season, and what membership takes for an
occurrence the next search finds exactly if it is picked for a month in season. -/
theorem next_directed_iff (hread : Schedule.ofText text = .ok schedule)
    (hzone : Zone.named schedule.zone = .ok zone) (huniversal : zone.IsUniversal)
    (hdirected : schedule.recurrence =
      .monthly interval (.nearestBusinessDay day (some direction)) times)
    (honly : schedule.HasOnlySeason) (hseason : schedule.season ≠ []) :
    (∀ now stamp, schedule.next now = .ok (some stamp) →
      (schedule.isOccurrence stamp.instant = .ok true ↔
        inSeason schedule.season (zone.dateOf stamp.instant) = true) ∧
      (schedule.previous (stamp.instant.shift 60) = .ok (some stamp) ↔
        inSeason schedule.season (zone.dateOf stamp.instant) = true)) ∧
    ∀ moment : Instant, moment.IsWholeMinute → (zone.dateOf moment).IsSupported →
      schedule.isOccurrence moment = .ok true →
      (schedule.next (moment.shift (-60)) = .ok (some (zone.timestamp moment)) ↔
        ∃ ym : YearMonth, ym.nearestBusinessDate? day (some direction) =
          some (zone.dateOf moment) ∧ ym.isListed schedule.season = true) := by
  have hwell := (wellFormed_of_ofText hread).recurrence
  have hchecks : schedule.recurrence.mayLeaveMonth = true := by rw [hdirected]; rfl
  constructor
  · intro now stamp hnext
    obtain ⟨hit, hfound, rfl⟩ := (next_eq_ok_some_iff hzone).mp hnext
    obtain ⟨date, ⟨hproposes, _⟩, hsees⟩ :=
      (nearest_shown_of_searchForward huniversal.isOrderly hwell hfound).holds
    have hoffers : (Frame.ofSchedule schedule zone).Offers schedule.recurrence hit :=
      ⟨date, hproposes.selects.1, hproposes.selects.2, (Frame.of_lookAhead? hsees).1⟩
    have hreaches := reaches_neighbour huniversal hdirected hwell (show (60 : Int).natAbs ≤ 60 by
      decide) hoffers
    rw [isOccurrence_eq_ok hzone, Except.ok.injEq]
    exact ⟨honly.firesIn_iff huniversal hwell hoffers, (previous_eq_ok_timestamp_iff hzone).trans
      (honly.previousIn_shift_iff huniversal hwell hoffers hreaches.2)⟩
  · intro moment hminute hsupported hoccurs
    rw [isOccurrence_eq_ok hzone, Except.ok.injEq,
      firesIn_iff_offers huniversal hwell hminute hsupported] at hoccurs
    have hoffers := hoccurs.1
    have hreaches := reaches_neighbour huniversal hdirected hwell
      (show (-60 : Int).natAbs ≤ 60 by decide) hoffers
    have hframe : (Frame.ofSchedule schedule zone).zone.IsOrderly := huniversal.isOrderly
    have hselects := (hoffers.onOwnDate hframe).1.2
    rw [next_eq_ok_timestamp_iff hzone,
      honly.nextIn_shift_iff huniversal hwell hoffers hchecks hreaches.1]
    rw [hdirected] at hselects ⊢
    exact proposes_directed_iff hseason hselects

/-- From Tuesday, 2026-01-20.  The last day of January is a Saturday, and the Monday
after it, 2026-02-02, lies in season as well. -/
theorem next_directed_iff_over_january :
    ∃ schedule, Schedule.ofText
        "every month on the next nearest weekday to 31st at 09:00 during jan, feb" = .ok schedule ∧
      schedule.next (.ofSecond 63904550400) = .ok (some ⟨.ofSecond 63905706000, 0⟩) ∧
      schedule.isOccurrence (.ofSecond 63905706000) = .ok true ∧
      schedule.previous (.ofSecond 63905706060) = .ok (some ⟨.ofSecond 63905706000, 0⟩) ∧
      schedule.next (.ofSecond 63905705940) = .ok (some ⟨.ofSecond 63905706000, 0⟩) := by
  let schedule : Schedule := ⟨.monthly 1 (.nearestBusinessDay 31 (some .next)) [⟨9, 0⟩], none, [],
    none, none, [.january, .february]⟩
  have hread : Schedule.ofText
      "every month on the next nearest weekday to 31st at 09:00 during jan, feb" =
        .ok schedule := by cbv
  have hfound : schedule.nextIn .utc (.ofSecond 63904550400) = some (.ofSecond 63905706000) := by
    decide
  have hnext : schedule.next (.ofSecond 63904550400) = .ok (some ⟨.ofSecond 63905706000, 0⟩) :=
    (next_eq_ok_timestamp_iff rfl).mpr hfound
  have hseason : inSeason schedule.season (Zone.utc.dateOf (.ofSecond 63905706000)) = true := by
    decide
  obtain ⟨hagree, hoccurs⟩ := next_directed_iff hread rfl (Zone.isUniversal_universal _) rfl
    ⟨rfl, rfl, rfl⟩ (List.cons_ne_nil _ _)
  obtain ⟨hmembership, hprevious⟩ := hagree _ _ hnext
  have hoccurrence := hmembership.mpr hseason
  refine ⟨schedule, hread, hnext, hoccurrence, hprevious.mpr hseason, ?_⟩
  exact (hoccurs _ (by decide) (by decide) hoccurrence).mpr ⟨⟨2026, 1⟩, by decide, by decide⟩

/-- The Monday after the last day of January is found in a season of January alone, but
it is no occurrence. -/
theorem next_directed_ne_in_february :
    ∃ schedule, Schedule.ofText
        "every month on the next nearest weekday to 31st at 09:00 during jan" = .ok schedule ∧
      schedule.next (.ofSecond 63904550400) = .ok (some ⟨.ofSecond 63905706000, 0⟩) ∧
      schedule.isOccurrence (.ofSecond 63905706000) = .ok false := by
  let schedule : Schedule := ⟨.monthly 1 (.nearestBusinessDay 31 (some .next)) [⟨9, 0⟩], none, [],
    none, none, [.january]⟩
  have hfound : schedule.nextIn .utc (.ofSecond 63904550400) = some (.ofSecond 63905706000) := by
    decide
  refine ⟨schedule, ?_, (next_eq_ok_timestamp_iff rfl).mpr hfound, ?_⟩
  · cbv
  · cbv

end Directed

end Schedule

end Cadence
