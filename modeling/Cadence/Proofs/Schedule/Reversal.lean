import Cadence.Proofs.Occurrence.ReachBack
import Cadence.Proofs.Schedule.ScanReach

/-!
# Back from the next occurrence

From an occurrence to the next one and back leads to the same occurrence only if
it is the last one on the clock as well.  A gap may break this: it moves a time
that it skips behind a later one, and the backward search looks for the later
one.
-/

namespace Cadence

namespace Schedule

variable {schedule : Schedule} {zone : Zone} {now first second : Instant}

/-- The occurrence before the next one is the one the search came from, if it shows
the last time on the clock.  A weekly schedule is not searched backward from the
last week of the calendar. -/
theorem previousIn_nextIn_iff {text : String} (hread : Schedule.ofText text = .ok schedule)
    (hfree : schedule.IsClauseFree) (hanchor : schedule.anchor = none) (horderly : zone.IsOrderly)
    (hfirst : schedule.nextIn zone now = some first)
    (hsecond : schedule.nextIn zone first = some second) :
    schedule.previousIn zone second = some first ↔
      (Frame.ofSchedule schedule zone).IsLastOnClock schedule.recurrence second first ∧
        Frame.WeekInCalendar schedule.recurrence (zone.dateOf second) := by
  have hwell := (wellFormed_of_ofText hread).recurrence
  rw [nextIn_of_isClauseFree hfree] at hfirst hsecond
  have hoffers := Frame.offers_of_nextOf hwell hfirst
  have hselects := ((Frame.offers_of_nextOf hwell hsecond).onOwnDate horderly).1.2
  have hseason : schedule.recurrence.mayLeaveMonth = true →
      (Frame.ofSchedule schedule zone).season = [] := fun _ => hfree.season
  rw [previousIn_eq_some_iff hfree, hanchor]
  constructor
  · rintro ⟨hprevious, _⟩
    exact ⟨Frame.isLastOnClock_of_previousOf horderly hwell hsecond hprevious,
      Frame.weekInCalendar_of_previousOf hwell hselects hprevious⟩
  · rintro ⟨hlast, hweek⟩
    have hreach := Frame.reachesBack_of_nextOf horderly hwell hseason hoffers hsecond hweek
    exact ⟨Frame.previousOf_of_isLastOnClock horderly hwell hsecond hseason hoffers hreach hlast,
      nofun⟩

/-- From Tuesday's last time to Wednesday's first one and back. -/
theorem previousIn_nextIn_iff_overnight :
    ∃ schedule, Schedule.ofText "every day at 02:30, 03:15 in America/New_York" = .ok schedule ∧
      Zone.named schedule.zone = .ok (.easternTime "America/New_York") ∧
      schedule.nextIn (.easternTime "America/New_York") (.ofSecond 63908810100) =
        some (.ofSecond 63908893800) ∧
      schedule.previousIn (.easternTime "America/New_York") (.ofSecond 63908893800) =
        some (.ofSecond 63908810100) := by
  let zone := Zone.easternTime "America/New_York"
  let schedule : Schedule :=
    ⟨.daily 1 .every [⟨2, 30⟩, ⟨3, 15⟩], some "America/New_York", [], none, none, []⟩
  have hread : Schedule.ofText "every day at 02:30, 03:15 in America/New_York" =
      .ok schedule := by cbv
  have hzone : Zone.named schedule.zone = .ok zone := by cbv
  have horderly : zone.IsOrderly := Zone.isOrderly_of_named hzone (by decide)
  have hfirst : schedule.nextIn zone (.ofSecond 63908808300) = some (.ofSecond 63908810100) := by
    cbv
  have hsecond : schedule.nextIn zone (.ofSecond 63908810100) = some (.ofSecond 63908893800) := by
    cbv
  have hfree : schedule.IsClauseFree := ⟨rfl, rfl, rfl⟩
  refine ⟨schedule, hread, hzone, hsecond, ?_⟩
  refine (previousIn_nextIn_iff hread hfree rfl horderly hfirst hsecond).mpr ⟨?_, trivial⟩
  rw [nextIn_of_isClauseFree hfree] at hfirst hsecond
  have hwell := (wellFormed_of_ofText hread).recurrence
  have hshown : zone.instantAt (zone.dateOf (.ofSecond 63908810100)) ⟨3, 15⟩ =
      .ofSecond 63908810100 := by cbv
  refine (Frame.isLastOnClock_iff_of_listed horderly hwell (by rintro ⟨⟩)
    (Frame.offers_of_nextOf hwell hfirst) hsecond rfl).mpr (.inr ⟨⟨3, 15⟩, ?_, hshown, ?_⟩)
  · decide
  · decide

/-- In New York 02:30 is moved behind 03:15 on 2026-03-08, and the search back from
the next day finds 03:15. -/
theorem previous_next_ne_over_gap :
    ∃ schedule, Schedule.ofText "every day at 02:30, 03:15 in America/New_York" = .ok schedule ∧
      schedule.next (.ofSecond 63908637300) = .ok (some ⟨.ofSecond 63908638200, -14400⟩) ∧
      schedule.next (.ofSecond 63908638200) = .ok (some ⟨.ofSecond 63908721000, -14400⟩) ∧
      schedule.previous (.ofSecond 63908721000) = .ok (some ⟨.ofSecond 63908637300, -14400⟩) := by
  refine ⟨⟨.daily 1 .every [⟨2, 30⟩, ⟨3, 15⟩], some "America/New_York", [], none, none, []⟩,
    ?_, ?_, ?_, ?_⟩
  · cbv
  · cbv
  · cbv
  · cbv

end Schedule

end Cadence
