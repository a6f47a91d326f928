import Cadence.Proofs.Occurrence.CompleteSearches
import Cadence.Proofs.Schedule.ScanReach

/-!
# When searches miss nothing

Without clauses a schedule is searched once in each direction, and the limits of this
search lose nothing if the dates of the recurrence come round.  A search that finds
nothing is then right about it.
-/

namespace Cadence

namespace Schedule

variable {schedule : Schedule} {zone : Zone} {now moment : Instant}

section ComesRound

variable (hwell : schedule.WellFormed) (hzone : Zone.named schedule.zone = .ok zone)
  (huniversal : zone.IsUniversal) (hfree : schedule.IsClauseFree)
  (hround : schedule.recurrence.ComesRound) (hnow : (zone.dateOf now).HasFourDigitYear)
include hwell hzone huniversal hfree hround hnow

theorem not_isAhead_of_next_eq_none (hnone : schedule.next now = .ok none) :
    ¬ schedule.IsAhead zone now moment := by
  intro hahead
  have hframe : (Frame.ofSchedule schedule zone).zone.IsUniversal := huniversal
  obtain ⟨hlater, _, hoffers⟩ := (isAhead_iff hwell hzone huniversal hfree hnow).mp hahead
  obtain ⟨hit, hfound⟩ := Frame.exists_nextOf_of_offers hframe hwell.recurrence hnow hround
    (fun _ => hfree.season) hoffers hlater
  rw [next_eq_ok hzone, nextIn_of_isClauseFree hfree, hfound, Option.map_some] at hnone
  cases Except.ok.inj hnone

/-- What the search finds is no earlier than an occurrence behind, so the anchor does not
cut it off. -/
theorem not_isBehind_of_previous_eq_none (hnone : schedule.previous now = .ok none) :
    ¬ schedule.IsBehind zone now moment := by
  intro hbehind
  have hframe : (Frame.ofSchedule schedule zone).zone.IsUniversal := huniversal
  obtain ⟨hearlier, hyear, hanchor, hoffers⟩ :=
    (isBehind_iff hwell hzone huniversal hfree hnow).mp hbehind
  obtain ⟨hit, hfound⟩ := Frame.exists_previousOf_of_offers hframe hwell.recurrence hnow
    hround.not_maySitOut hoffers hearlier hyear
  have hle : zone.dateOf moment ≤ zone.dateOf hit := Int.not_lt.mp fun hlt =>
    (Frame.nearest_of_previousOf hframe hwell.recurrence hfound).closest moment hoffers
      hearlier (huniversal.lt_of_dateOf_lt hlt)
  have hprevious : schedule.previousIn zone now = some hit := (previousIn_eq_some_iff hfree).mpr
    ⟨hfound, fun first hfirst => Int.le_trans (hanchor first hfirst) hle⟩
  rw [previous_eq_ok hzone, hprevious, Option.map_some] at hnone
  cases Except.ok.inj hnone

theorem searches_complete_of_comesRound :
    (schedule.next now = .ok none → ∀ moment, ¬ schedule.IsAhead zone now moment) ∧
      (schedule.previous now = .ok none → ∀ moment, ¬ schedule.IsBehind zone now moment) := by
  constructor
  · intro hnone moment
    exact not_isAhead_of_next_eq_none hwell hzone huniversal hfree hround hnow hnone
  · intro hnone moment
    exact not_isBehind_of_previous_eq_none hwell hzone huniversal hfree hround hnow hnone

end ComesRound

/-- Searches for days of the month never end it too early, however long the interval and
wherever it is counted from. -/
theorem searches_complete_of_picksDaysOfMonth {text : String}
    (hread : Schedule.ofText text = .ok schedule) (hzone : Zone.named schedule.zone = .ok zone)
    (huniversal : zone.IsUniversal) (hfree : schedule.IsClauseFree)
    (hpicks : schedule.recurrence.PicksDaysOfMonth) (hnow : (zone.dateOf now).HasFourDigitYear) :
    (schedule.next now = .ok none → ∀ moment, ¬ schedule.IsAhead zone now moment) ∧
      (schedule.previous now = .ok none → ∀ moment, ¬ schedule.IsBehind zone now moment) := by
  have hwell := wellFormed_of_ofText hread
  exact searches_complete_of_comesRound hwell hzone huniversal hfree hpicks.comesRound hnow

/-- Every twelfth month from February on has no 30th, so from 2026-01-01 there is none in
either direction. -/
theorem searches_complete_of_picksDaysOfMonth_in_february :
    ∃ schedule, Schedule.ofText "every 12 months on the 30th at 09:00 starting 2024-02-01" =
        .ok schedule ∧
      schedule.next (.ofSecond 63902908800) = .ok none ∧
      schedule.previous (.ofSecond 63902908800) = .ok none ∧
      (∀ moment, ¬ schedule.IsAhead .utc (.ofSecond 63902908800) moment) ∧
      ∀ moment, ¬ schedule.IsBehind .utc (.ofSecond 63902908800) moment := by
  let schedule : Schedule :=
    ⟨.monthly 12 (.days [.single 30]) [⟨9, 0⟩], none, [], none, some ⟨738917⟩, []⟩
  have hread : Schedule.ofText "every 12 months on the 30th at 09:00 starting 2024-02-01" =
      .ok schedule := by cbv
  have hnow : (Zone.utc.dateOf (.ofSecond 63902908800)).HasFourDigitYear := by decide
  have hnext : schedule.next (.ofSecond 63902908800) = .ok none := by cbv
  have hprevious : schedule.previous (.ofSecond 63902908800) = .ok none := by cbv
  obtain ⟨hahead, hbehind⟩ := searches_complete_of_picksDaysOfMonth hread rfl
    (Zone.isUniversal_universal _) ⟨rfl, rfl, rfl⟩ trivial hnow
  exact ⟨schedule, hread, hnext, hprevious, hahead hnext, hbehind hprevious⟩

/-- From 2096-03-01 the leap day of 2104 is found, eight aligned months on. -/
example : ∃ schedule,
    Schedule.ofText "every 12 months on the 29th at 12:00 starting 2096-02-01" = .ok schedule ∧
      schedule.next (.ofSecond 66117081600) = .ok (some ⟨.ofSecond 66369412800, 0⟩) := by
  refine ⟨⟨.monthly 12 (.days [.single 29]) [⟨12, 0⟩], none, [], none, some ⟨765215⟩, []⟩, ?_, ?_⟩
  · cbv
  · cbv

/-- Searches that count days or weeks never end it too early, however long the interval and
wherever it is counted from. -/
theorem searches_complete_of_countsDays {text : String}
    (hread : Schedule.ofText text = .ok schedule) (hzone : Zone.named schedule.zone = .ok zone)
    (huniversal : zone.IsUniversal) (hfree : schedule.IsClauseFree)
    (hcounts : schedule.recurrence.CountsDays) (hnow : (zone.dateOf now).HasFourDigitYear) :
    (schedule.next now = .ok none → ∀ moment, ¬ schedule.IsAhead zone now moment) ∧
      (schedule.previous now = .ok none → ∀ moment, ¬ schedule.IsBehind zone now moment) := by
  have hwell := wellFormed_of_ofText hread
  exact searches_complete_of_comesRound hwell hzone huniversal hfree hcounts.comesRound hnow

/-- After the week of 2024-01-01 the next one whose turn it is lies beyond the calendar, and so
does the one before: at 09:00 on this Monday there is nothing in either direction. -/
theorem searches_complete_of_countsDays_beyond_calendar :
    ∃ schedule, Schedule.ofText "every 4294967295 weeks on monday at 09:00 starting 2024-01-01" =
        .ok schedule ∧
      schedule.next (.ofSecond 63839782800) = .ok none ∧
      (∀ moment, ¬ schedule.IsAhead .utc (.ofSecond 63839782800) moment) ∧
      schedule.previous (.ofSecond 63839782800) = .ok none ∧
      ∀ moment, ¬ schedule.IsBehind .utc (.ofSecond 63839782800) moment := by
  let schedule : Schedule :=
    ⟨.weekly 4294967295 [.monday] [⟨9, 0⟩], none, [], none, some ⟨738886⟩, []⟩
  have hread : Schedule.ofText "every 4294967295 weeks on monday at 09:00 starting 2024-01-01" =
      .ok schedule := by cbv
  have hnow : (Zone.utc.dateOf (.ofSecond 63839782800)).HasFourDigitYear := by decide
  have hnext : schedule.next (.ofSecond 63839782800) = .ok none := by cbv
  have hprevious : schedule.previous (.ofSecond 63839782800) = .ok none := by cbv
  obtain ⟨hahead, hbehind⟩ := searches_complete_of_countsDays hread rfl
    (Zone.isUniversal_universal _) ⟨rfl, rfl, rfl⟩ trivial hnow
  exact ⟨schedule, hread, hnext, hahead hnext, hprevious, hbehind hprevious⟩

end Schedule

end Cadence
