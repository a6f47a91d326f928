import Mathlib
import Cadence.Proofs.Occurrence.AlikeAnchors
import Cadence.Proofs.Schedule.Occurrences

/-!
# Schedules with anchors a multiple of the interval apart

A forward search and the membership test read the anchor of a schedule only to
count its interval, so they do not tell apart two anchors that count alike.
Backward searches do: they end at the anchor itself.
-/

namespace Cadence

namespace Schedule

variable {schedule : Schedule} {zone : Zone} {first second : Date}

/-- At every resumption the two searches stand at the same cursor. -/
theorem searchForward_withAnchor_congr (hfirst : first.HasFourDigitYear)
    (hsecond : second.HasFourDigitYear)
    (halike : schedule.recurrence.CountsAlike first second) (closing : Option Date)
    (resumptions : Nat) (cursor : Instant) :
    (schedule.withAnchor first).searchForward zone closing resumptions cursor =
      (schedule.withAnchor second).searchForward zone closing resumptions cursor := by
  induction resumptions generalizing cursor with
  | zero => rfl
  | succ resumptions ih =>
    have hnext : (Frame.ofSchedule (schedule.withAnchor first) zone).nextOf
          schedule.recurrence cursor =
        (Frame.ofSchedule (schedule.withAnchor second) zone).nextOf schedule.recurrence cursor :=
      (Frame.ofSchedule schedule zone).nextOf_congr hfirst hsecond halike cursor
    have hsettle : (schedule.withAnchor first).settle zone closing resumptions =
        (schedule.withAnchor second).settle zone closing resumptions := by
      funext candidate
      simp only [settle, ih]
      rfl
    rw [searchForward_succ, searchForward_succ, hsettle]
    exact congrArg (Option.bind · _) hnext

theorem nextIn_withAnchor_congr (hfirst : first.HasFourDigitYear)
    (hsecond : second.HasFourDigitYear)
    (halike : schedule.recurrence.CountsAlike first second) (zone : Zone) (now : Instant) :
    (schedule.withAnchor first).nextIn zone now = (schedule.withAnchor second).nextIn zone now :=
  searchForward_withAnchor_congr hfirst hsecond halike _ _ now

theorem firesIn_withAnchor_congr (hfirst : first.HasFourDigitYear)
    (hsecond : second.HasFourDigitYear)
    (halike : schedule.recurrence.CountsAlike first second) (zone : Zone) (moment : Instant) :
    (schedule.withAnchor first).firesIn zone moment =
      (schedule.withAnchor second).firesIn zone moment := by
  have hfires : (Frame.ofSchedule (schedule.withAnchor first) zone).fires
        schedule.recurrence moment =
      (Frame.ofSchedule (schedule.withAnchor second) zone).fires schedule.recurrence moment :=
    (Frame.ofSchedule schedule zone).fires_congr hfirst hsecond halike moment
  rw [firesIn, firesIn]
  exact congrArg (_ && ·) hfires

/-- Anchors that count alike give the same next occurrences and the same membership, at
every instant and in every zone: the ones before the anchors as well as after. -/
theorem occurrences_eq_of_countsAlike (hfirst : first.HasFourDigitYear)
    (hsecond : second.HasFourDigitYear)
    (halike : schedule.recurrence.CountsAlike first second) :
    (∀ (zone : Zone) (moment : Instant),
      (schedule.withAnchor first).nextIn zone moment =
          (schedule.withAnchor second).nextIn zone moment ∧
        (schedule.withAnchor first).firesIn zone moment =
          (schedule.withAnchor second).firesIn zone moment) ∧
    ∀ moment : Instant,
      (schedule.withAnchor first).next moment = (schedule.withAnchor second).next moment ∧
        (schedule.withAnchor first).isOccurrence moment =
          (schedule.withAnchor second).isOccurrence moment := by
  have hnext := nextIn_withAnchor_congr hfirst hsecond halike
  have hfires := firesIn_withAnchor_congr hfirst hsecond halike
  refine ⟨fun zone moment => ⟨hnext zone moment, hfires zone moment⟩, fun moment => ⟨?_, ?_⟩⟩
  · simp only [next, hnext]
    rfl
  · simp only [isOccurrence, hfires]
    rfl

/-- Every three days from 2026-01-01 or from 2026-01-31: on 2025-06-01 the next one is the day
after, whichever of the two anchors counts. -/
theorem occurrences_eq_of_countsAlike_before_anchors :
    ∃ schedule, Schedule.ofText "every 3 days at 09:00" = .ok schedule ∧
      (schedule.withAnchor ⟨739617⟩).next (.ofSecond 63884462400) =
        .ok (some ⟨.ofSecond 63884538000, 0⟩) ∧
      (schedule.withAnchor ⟨739617⟩).next (.ofSecond 63884462400) =
        (schedule.withAnchor ⟨739647⟩).next (.ofSecond 63884462400) ∧
      (schedule.withAnchor ⟨739617⟩).isOccurrence (.ofSecond 63884538000) =
        (schedule.withAnchor ⟨739647⟩).isOccurrence (.ofSecond 63884538000) := by
  let schedule : Schedule := .ofRecurrence (.daily 3 .every [⟨9, 0⟩])
  have hread : Schedule.ofText "every 3 days at 09:00" = .ok schedule := by cbv
  have hfirst : (⟨739617⟩ : Date).HasFourDigitYear := by decide
  have hsecond : (⟨739647⟩ : Date).HasFourDigitYear := by decide
  have halike : schedule.recurrence.CountsAlike ⟨739617⟩ ⟨739647⟩ := ⟨-10, rfl⟩
  have hnext : (schedule.withAnchor ⟨739617⟩).next (.ofSecond 63884462400) =
      .ok (some ⟨.ofSecond 63884538000, 0⟩) := by cbv
  obtain ⟨_, halways⟩ := occurrences_eq_of_countsAlike hfirst hsecond halike
  exact ⟨schedule, hread, hnext, (halways _).1, (halways _).2⟩

end Schedule

end Cadence
