import Mathlib
import Cadence.Proofs.Schedule.ScanReach
import Cadence.Proofs.Zone.SpacedZones

/-!
# Listed times where clocks change

A search of listed times takes the first day, week, month or year that has one of them
ahead.  If clocks are changed at intervals and keep to their dates, the times of a
date come before those of all later ones, however a change reorders or merges them,
and what the search finds is the earliest of all that lie ahead.
-/

namespace Cadence

namespace Schedule

variable {schedule : Schedule} {zone : Zone} {now hit : Instant}

/-- The next occurrence is the earliest ahead of the instants at which selected dates reach
listed times.  A time that is shown is reached when it is shown first, and a time that is
passed over comes later by the length of the gap. -/
theorem nextIn_listed_isNearest {text : String} (hread : Schedule.ofText text = .ok schedule)
    (hlisted : schedule.recurrence.isWindow = false) (hfree : schedule.IsClauseFree)
    (hspaced : zone.HasSpacedChanges) (hfolds : zone.FoldsKeepDates)
    (hgaps : zone.GapsKeepDates) (hnext : schedule.nextIn zone now = some hit) :
    IsNearest (· < ·) ((Frame.ofSchedule schedule zone).Offers schedule.recurrence) now hit ∧
      ∀ date time, zone.ShowsFirst (zone.instantAt date time).second
          (secondOf date time.secondOfDay) ∨
        ∃ change, zone.PassesOver (secondOf date time.secondOfDay) change ∧
          zone.localSecond (zone.instantAt date time).second =
            secondOf date time.secondOfDay + (change.after - change.before) := by
  have hwell := (wellFormed_of_ofText hread).recurrence
  rw [nextIn_of_isClauseFree hfree] at hnext
  constructor
  · exact Frame.nearest_offer_of_nextOf (hspaced.keepsDates hfolds hgaps) hwell
      (fun _ => hfree.season) (fun date => Frame.tries_lookAhead?_of_listed hlisted date) hnext
  · intro date time
    rcases hspaced.showsFirst_or_passesOver (secondOf date time.secondOfDay) with
      hshown | ⟨change, hpasses, hresolve⟩
    · exact .inl hshown
    · refine .inr ⟨change, hpasses, ?_⟩
      rw [← hpasses.localSecond_sub_before, ← hresolve]
      rfl

/-- In New York 02:30 is skipped on 2026-03-08 and moved to 03:30, behind 03:15. -/
theorem nextIn_listed_isNearest_over_gap :
    ∃ schedule, Schedule.ofText "every day at 02:30, 03:15 in America/New_York" =
        .ok schedule ∧
      IsNearest (· < ·) ((Frame.ofSchedule schedule (.easternTime "America/New_York")).Offers
        schedule.recurrence) (.ofSecond 63908637300) (.ofSecond 63908638200) := by
  let zone := Zone.easternTime "America/New_York"
  let schedule : Schedule :=
    ⟨.daily 1 .every [⟨2, 30⟩, ⟨3, 15⟩], some "America/New_York", [], none, none, []⟩
  have hread : Schedule.ofText "every day at 02:30, 03:15 in America/New_York" =
      .ok schedule := by cbv
  have hzone : Zone.named schedule.zone = .ok zone := by cbv
  have horderly := Zone.isOrderly_of_named hzone (by decide)
  have hnext : schedule.nextIn zone (.ofSecond 63908637300) = some (.ofSecond 63908638200) := by
    decide +kernel
  exact ⟨schedule, hread, (nextIn_listed_isNearest hread rfl ⟨rfl, rfl, rfl⟩
    horderly.hasSpacedChanges horderly.foldsKeepDates horderly.gapsKeepDates hnext).1⟩

end Schedule

end Cadence
