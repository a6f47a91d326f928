import Mathlib
import Cadence.Proofs.Expression.ParsedSchedules
import Cadence.Proofs.Occurrence.Adjacent

/-!
# Occurrences of expressions

For schedules read from expressions the searches and the membership test fit
together without further conditions on the schedule: reading has established
what they need.
-/

namespace Cadence

namespace Schedule

variable {schedule : Schedule} {zone : Zone} {now moment : Instant} {stamp : Timestamp}

/-! ## Searches by the name of the zone -/

theorem next_eq_ok (hzone : Zone.named schedule.zone = .ok zone) :
    schedule.next now = .ok ((schedule.nextIn zone now).map zone.timestamp) := by
  rw [next, hzone]
  rfl

theorem previous_eq_ok (hzone : Zone.named schedule.zone = .ok zone) :
    schedule.previous now = .ok ((schedule.previousIn zone now).map zone.timestamp) := by
  rw [previous, hzone]
  rfl

theorem next_eq_ok_some_iff (hzone : Zone.named schedule.zone = .ok zone) :
    schedule.next now = .ok (some stamp) ↔
      ∃ hit, schedule.nextIn zone now = some hit ∧ zone.timestamp hit = stamp := by
  rw [next_eq_ok hzone, Except.ok.injEq, Option.map_eq_some_iff]

theorem previous_eq_ok_some_iff (hzone : Zone.named schedule.zone = .ok zone) :
    schedule.previous now = .ok (some stamp) ↔
      ∃ hit, schedule.previousIn zone now = some hit ∧ zone.timestamp hit = stamp := by
  rw [previous_eq_ok hzone, Except.ok.injEq, Option.map_eq_some_iff]

theorem isOccurrence_eq_ok (hzone : Zone.named schedule.zone = .ok zone) (moment : Instant) :
    schedule.isOccurrence moment = .ok (schedule.firesIn zone moment) := by
  rw [isOccurrence, hzone]
  rfl

theorem next_eq_ok_timestamp_iff (hzone : Zone.named schedule.zone = .ok zone) :
    schedule.next now = .ok (some (zone.timestamp moment)) ↔
      schedule.nextIn zone now = some moment := by
  rw [next_eq_ok_some_iff hzone]
  constructor
  · rintro ⟨hit, hhit, hsame⟩
    rwa [← show hit = moment from congrArg Timestamp.instant hsame]
  · exact fun hnext => ⟨moment, hnext, rfl⟩

theorem previous_eq_ok_timestamp_iff (hzone : Zone.named schedule.zone = .ok zone) :
    schedule.previous now = .ok (some (zone.timestamp moment)) ↔
      schedule.previousIn zone now = some moment := by
  rw [previous_eq_ok_some_iff hzone]
  constructor
  · rintro ⟨hit, hhit, hsame⟩
    rwa [← show hit = moment from congrArg Timestamp.instant hsame]
  · exact fun hprevious => ⟨moment, hprevious, rfl⟩

/-! ## Agreement with membership -/

/-- The next occurrence is a whole minute ahead at which the schedule fires, and
no whole minute in between is one.  Left aside are the monthly recurrences that
may pick a date outside the month they look at and are confined to a season. -/
theorem next_adjacent {text : String} (hread : Schedule.ofText text = .ok schedule)
    (hzone : Zone.named schedule.zone = .ok zone) (huniversal : zone.IsUniversal)
    (hseason : schedule.recurrence.mayLeaveMonth = true → schedule.season = [])
    (hnow : (zone.dateOf now).HasFourDigitYear) (hnext : schedule.next now = .ok (some stamp)) :
    stamp.instant.IsWholeMinute ∧ now < stamp.instant ∧
      schedule.isOccurrence stamp.instant = .ok true ∧
      ∀ moment : Instant, moment.IsWholeMinute → now < moment → moment < stamp.instant →
        schedule.isOccurrence moment = .ok false := by
  obtain ⟨hit, hhit, rfl⟩ := (next_eq_ok_some_iff hzone).mp hnext
  have hnearest := nextIn_isNearest huniversal (wellFormed_of_ofText hread) hseason hnow hhit
  simp only [isOccurrence_eq_ok hzone, Except.ok.injEq]
  refine ⟨hnearest.holds.1, hnearest.isBeyond, hnearest.holds.2, ?_⟩
  intro moment hminute hmoment hearlier
  exact Bool.eq_false_iff.mpr fun hfires =>
    hnearest.closest moment ⟨hminute, hfires⟩ hmoment hearlier

/-- From Thursday, 2026-12-24 at 10:00, over Christmas to Monday at 09:00. -/
theorem next_adjacent_over_christmas :
    ∃ schedule, Schedule.ofText "every weekday at 09:00 except dec 25" = .ok schedule ∧
      schedule.isOccurrence (.ofSecond 63934131600) = .ok true ∧
      ∀ moment : Instant, moment.IsWholeMinute → .ofSecond 63933789600 < moment →
        moment < .ofSecond 63934131600 → schedule.isOccurrence moment = .ok false := by
  let schedule : Schedule :=
    ⟨.daily 1 .business [⟨9, 0⟩], none, [.yearly .december 25], none, none, []⟩
  have hread : Schedule.ofText "every weekday at 09:00 except dec 25" = .ok schedule := by cbv
  have hnow : (Zone.utc.dateOf (.ofSecond 63933789600)).HasFourDigitYear := by decide
  have hnext : schedule.next (.ofSecond 63933789600) = .ok (some ⟨.ofSecond 63934131600, 0⟩) := by
    cbv
  exact ⟨schedule, hread,
    (next_adjacent hread rfl (Zone.isUniversal_universal _) (fun _ => rfl) hnow hnext).2.2⟩

/-- The previous occurrence is a whole minute behind at which the schedule fires,
on a date not before the anchor, and no whole minute in between is one. -/
theorem previous_adjacent {text : String} (hread : Schedule.ofText text = .ok schedule)
    (hzone : Zone.named schedule.zone = .ok zone) (huniversal : zone.IsUniversal)
    (hnow : (zone.dateOf now).HasFourDigitYear)
    (hprevious : schedule.previous now = .ok (some stamp)) :
    stamp.instant.IsWholeMinute ∧ stamp.instant < now ∧
      schedule.isOccurrence stamp.instant = .ok true ∧
      (∀ first ∈ schedule.anchor, first ≤ zone.dateOf stamp.instant) ∧
      ∀ moment : Instant, moment.IsWholeMinute → stamp.instant < moment → moment < now →
        schedule.isOccurrence moment = .ok false := by
  obtain ⟨hit, hhit, rfl⟩ := (previous_eq_ok_some_iff hzone).mp hprevious
  obtain ⟨hnearest, hanchor⟩ :=
    previousIn_isNearest huniversal (wellFormed_of_ofText hread) hnow hhit
  simp only [isOccurrence_eq_ok hzone, Except.ok.injEq]
  refine ⟨hnearest.holds.1, hnearest.isBeyond, hnearest.holds.2, hanchor, ?_⟩
  intro moment hminute hlater hmoment
  exact Bool.eq_false_iff.mpr fun hfires =>
    hnearest.closest moment ⟨hminute, hfires⟩ hmoment hlater

/-- From Monday, 2026-12-28 at 09:00, over Christmas back to Thursday at 09:00. -/
theorem previous_adjacent_over_christmas :
    ∃ schedule, Schedule.ofText "every weekday at 09:00 except dec 25 starting 2026-12-01" =
        .ok schedule ∧
      schedule.isOccurrence (.ofSecond 63933786000) = .ok true ∧
      ∀ moment : Instant, moment.IsWholeMinute → .ofSecond 63933786000 < moment →
        moment < .ofSecond 63934131600 → schedule.isOccurrence moment = .ok false := by
  let schedule : Schedule :=
    ⟨.daily 1 .business [⟨9, 0⟩], none, [.yearly .december 25], none, some ⟨739951⟩, []⟩
  have hread : Schedule.ofText "every weekday at 09:00 except dec 25 starting 2026-12-01" =
      .ok schedule := by cbv
  have hnow : (Zone.utc.dateOf (.ofSecond 63934131600)).HasFourDigitYear := by decide
  have hprevious : schedule.previous (.ofSecond 63934131600) =
      .ok (some ⟨.ofSecond 63933786000, 0⟩) := by cbv
  obtain ⟨_, _, hfires, _, hnone⟩ :=
    previous_adjacent hread rfl (Zone.isUniversal_universal _) hnow hprevious
  exact ⟨schedule, hread, hfires, hnone⟩

end Schedule

end Cadence
