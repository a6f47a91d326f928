import Cadence.Proofs.Expression.ParsedSchedules
import Cadence.Proofs.Occurrence.FoundOffers
import Cadence.Proofs.Schedule.ScanReach
import Cadence.Proofs.Zone.OrderlyZones

/-!
# Membership of what is found

A listed time that a gap skips is moved forward, and a search finds the instant
it is moved to.  Membership counts that instant for every recurrence but windows:
there it asks whether the clock shows a slot, and a gap may move a slot to a
minute that is none.
-/

namespace Cadence

/-- Whether a gap moves a listed time of a date to a minute that is not listed. -/
def Zone.MovesOff (zone : Zone) (times : List TimeOfDay) (date : Date) (time : TimeOfDay) : Prop :=
  zone.Skips date time ∧ zone.timeOf (zone.instantAt date time) ∉ times

namespace Frame

variable {frame : Frame} {recurrence : Recurrence} {hit : Instant}

/-- A recurrence fires at the instants it offers, except for slots of a window
that are moved off the slots. -/
theorem fires_iff_not_movesOff (hgaps : frame.zone.GapsKeepDates) (hwell : recurrence.WellFormed)
    (hoffers : frame.Offers recurrence hit) :
    frame.fires recurrence hit = true ↔
      (recurrence.isWindow = true → ∀ slot ∈ recurrence.times,
        frame.zone.instantAt (frame.zone.dateOf hit) slot = hit →
          ¬ frame.zone.MovesOff recurrence.times (frame.zone.dateOf hit) slot) := by
  obtain ⟨date, _, hselects, time, htime, rfl⟩ := hoffers
  rw [fires_iff_shows, hgaps.dateOf_instantAt]
  constructor
  · rintro ⟨_, hlisted | ⟨hnot, _⟩⟩ hwindow slot _ hsame ⟨_, hoff⟩
    · exact hoff (hsame ▸ hlisted)
    · exact absurd hwindow (Bool.eq_false_iff.mp hnot)
  · refine fun hon => ⟨hselects, ?_⟩
    cases hwindow : recurrence.isWindow with
    | false => exact .inr ⟨hwindow, by rw [hgaps.dateOf_instantAt]; exact ⟨time, htime, rfl⟩⟩
    | true =>
      refine .inl ?_
      by_cases hskipped : frame.zone.Skips date time
      · exact Decidable.not_not.mp fun hoff => hon hwindow time htime rfl ⟨hskipped, hoff⟩
      · rwa [Zone.timeOf_instantAt_of_shown (hwell.isOnClock htime) hskipped]

end Frame

namespace Schedule

variable {schedule : Schedule} {zone : Zone} {now hit : Instant}

/-- What a search finds without clauses is offered. -/
theorem IsClauseFree.offers_of_found (hfree : schedule.IsClauseFree)
    (hwell : schedule.recurrence.WellFormed)
    (hfound : schedule.nextIn zone now = some hit ∨ schedule.previousIn zone now = some hit) :
    (Frame.ofSchedule schedule zone).Offers schedule.recurrence hit := by
  rcases hfound with hnext | hprevious
  · rw [nextIn_of_isClauseFree hfree] at hnext
    exact Frame.offers_of_nextOf hwell hnext
  · exact Frame.offers_of_previousOf hwell ((previousIn_eq_some_iff hfree).mp hprevious).1

/-- What either search finds is an occurrence, unless it is a slot of a window that
a gap has moved off the slots. -/
theorem firesIn_found_iff {text : String} (hread : Schedule.ofText text = .ok schedule)
    (hfree : schedule.IsClauseFree) (hgaps : zone.GapsKeepDates)
    (hfound : schedule.nextIn zone now = some hit ∨ schedule.previousIn zone now = some hit) :
    schedule.firesIn zone hit = true ↔
      (schedule.recurrence.isWindow = true → ∀ slot ∈ schedule.recurrence.times,
        zone.instantAt (zone.dateOf hit) slot = hit →
          ¬ zone.MovesOff schedule.recurrence.times (zone.dateOf hit) slot) := by
  have hwell := (wellFormed_of_ofText hread).recurrence
  have hoffers := hfree.offers_of_found hwell hfound
  rw [hfree.firesIn_eq]
  exact Frame.fires_iff_not_movesOff hgaps hwell hoffers

/-- In New York 02:00 is skipped on 2026-03-08; it is moved to 03:00, which is a
slot as well. -/
theorem firesIn_found_iff_over_gap :
    ∃ schedule, Schedule.ofText "every 30 min from 01:00 to 23:59 in America/New_York" =
        .ok schedule ∧
      Zone.named schedule.zone = .ok (.easternTime "America/New_York") ∧
      schedule.nextIn (.easternTime "America/New_York") (.ofSecond 63908635800) =
        some (.ofSecond 63908636400) ∧
      schedule.firesIn (.easternTime "America/New_York") (.ofSecond 63908636400) = true := by
  let zone := Zone.easternTime "America/New_York"
  let schedule : Schedule :=
    ⟨.window 30 .minutes ⟨1, 0⟩ ⟨23, 59⟩ none, some "America/New_York", [], none, none, []⟩
  have hread : Schedule.ofText "every 30 min from 01:00 to 23:59 in America/New_York" =
      .ok schedule := by cbv
  have hzone : Zone.named schedule.zone = .ok zone := by cbv
  have hgaps : zone.GapsKeepDates := (Zone.isOrderly_of_named hzone (by decide)).gapsKeepDates
  have hfound : schedule.nextIn zone (.ofSecond 63908635800) = some (.ofSecond 63908636400) := by
    cbv
  have hlisted : zone.timeOf (.ofSecond 63908636400) ∈ schedule.recurrence.times := by decide
  refine ⟨schedule, hread, hzone, hfound, ?_⟩
  refine (firesIn_found_iff hread ⟨rfl, rfl, rfl⟩ hgaps (.inl hfound)).mpr ?_
  rintro _ slot _ hsame ⟨_, hoff⟩
  rw [hsame] at hoff
  exact hoff hlisted

/-- In New York 02:30 is skipped on 2026-03-08; it is moved to 03:30, which is no
slot. -/
theorem next_not_occurrence_over_gap :
    ∃ schedule, Schedule.ofText "every 45 min from 01:00 to 23:59 in America/New_York" =
        .ok schedule ∧
      (Zone.easternTime "America/New_York").GapsKeepDates ∧
      schedule.next (.ofSecond 63908635800) = .ok (some ⟨.ofSecond 63908638200, -14400⟩) ∧
      schedule.isOccurrence (.ofSecond 63908638200) = .ok false := by
  let schedule : Schedule :=
    ⟨.window 45 .minutes ⟨1, 0⟩ ⟨23, 59⟩ none, some "America/New_York", [], none, none, []⟩
  have hzone : Zone.named schedule.zone = .ok (.easternTime "America/New_York") := by cbv
  refine ⟨schedule, ?_, (Zone.isOrderly_of_named hzone (by decide)).gapsKeepDates, ?_, ?_⟩
  · cbv
  · cbv
  · cbv

end Schedule

end Cadence
