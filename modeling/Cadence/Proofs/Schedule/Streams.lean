import Mathlib
import Cadence.Occurrence.Stream
import Cadence.Proofs.Occurrence.FoundOffers
import Cadence.Proofs.Occurrence.Rejections
import Cadence.Proofs.Schedule.LaterStart
import Cadence.Proofs.Zone.SpacedZones

/-!
# Streams of occurrences

A stream resolves its closing date once, while each search for the next occurrence
resolves it anew from where it starts.  Up to the closing date both come to the same,
so a stream yields what one search after the other finds.  Every search goes forward,
also when it is resumed behind rejected dates, and therefore a stream with an end
yields the occurrences of the endless one up to there.
-/

namespace Cadence

/-- The stream of a schedule in a given zone. -/
def Occurrences.inZone (schedule : Schedule) (zone : Zone) (start : Instant)
    (stop : Option Instant) : Occurrences where
  schedule := schedule
  zone := zone
  closing := schedule.closingDate? (zone.dateOf start)
  stop := stop
  cursor := some start

namespace Schedule

variable {schedule : Schedule} {zone : Zone} {closing : Option Date} {reference : Date}
  {resumptions count : Nat} {cursor start stop hit : Instant}

/-- The occurrences that are found one from the other, `count` of them at most. -/
def successive (schedule : Schedule) (zone : Zone) : (count : Nat) → (start : Instant) → List Instant
  | 0, _ => []
  | count + 1, start => match schedule.nextIn zone start with
    | some hit => hit :: successive schedule zone count hit
    | none => []

/-! ## Streams by the name of the zone -/

theorem after_eq_ok (hzone : Zone.named schedule.zone = .ok zone) (start : Instant) :
    Occurrences.after schedule start = .ok (.inZone schedule zone start none) := by
  rw [Occurrences.after, hzone]
  rfl

theorem between_eq_ok (hzone : Zone.named schedule.zone = .ok zone) (start stop : Instant) :
    Occurrences.between schedule start stop = .ok (.inZone schedule zone start (some stop)) := by
  rw [Occurrences.between, after_eq_ok hzone]
  rfl

theorem upcoming_eq_ok (hzone : Zone.named schedule.zone = .ok zone) (start : Instant)
    (count : Nat) : schedule.upcoming start count =
      .ok (((Occurrences.inZone schedule zone start none).take count).map zone.timestamp) := by
  rw [upcoming, after_eq_ok hzone]
  rfl

/-! ## The end of a stream -/

/-- A stream yields what is found from its cursor, unless that lies behind its end. -/
theorem head?_eq (hsame : schedule.closingDate? (zone.dateOf cursor) = closing)
    (stop : Option Instant) :
    Occurrences.head? ⟨schedule, zone, closing, stop, some cursor⟩ =
      (schedule.nextIn zone cursor).filter fun hit => !stop.any (· < hit) := by
  rw [nextIn, hsame]
  cases hsearch : schedule.searchForward zone closing Reach.resumptions cursor with
  | none => simp only [Occurrences.head?, Option.bind_eq_bind, Option.bind_some, hsearch]; rfl
  | some hit =>
    simp only [Occurrences.head?, Option.bind_eq_bind, Option.bind_some, hsearch,
      Option.filter_some]
    cases stop.any (· < hit) <;> rfl

theorem any_lt_of_lt {stop : Option Instant} {later : Instant} (hstop : stop.any (· < hit) = true)
    (hlt : hit < later) : stop.any (· < later) = true := by
  rw [Option.any_eq_true] at hstop ⊢
  obtain ⟨last, hlast, hbehind⟩ := hstop
  exact ⟨last, hlast, decide_eq_true (Instant.lt_trans (of_decide_eq_true hbehind) hlt)⟩

section Spaced

variable (hwell : schedule.recurrence.WellFormed) (hspaced : zone.HasSpacedChanges)
  (hfolds : zone.FoldsKeepDates)
include hwell hspaced hfolds

/-! ## Searches go forward -/

/-- What a search lands on lies ahead, at the start of a second. -/
theorem LandsOn.isAhead (hlands : schedule.LandsOn zone closing count cursor hit) :
    cursor < hit ∧ hit.nano = 0 := by
  induction hlands with
  | first hnext =>
    obtain ⟨_, _, _, time, _, rfl⟩ := Frame.offers_of_nextOf hwell hnext
    exact ⟨Frame.isAhead_of_nextOf hwell hnext, rfl⟩
  | @resumed _ cursor rejected hit resume hnext _ hresumes _ ih =>
    obtain ⟨hstart, hnano⟩ := ih
    -- The day at which the search is resumed begins after the cursor.
    have hdate : zone.dateOf cursor < resume := Int.lt_of_le_of_lt
      (hspaced.dateOf_mono hfolds (Instant.le_of_lt (Frame.isAhead_of_nextOf hwell hnext)))
      hresumes.lt
    have hmidnight := hspaced.lt_instantAt hfolds hdate .midnight
    rw [Frame.startOfDay, Zone.instantAt, Instant.shift_ofSecond, Instant.ofSecond_lt_iff] at hstart
    rw [Zone.instantAt, Instant.lt_ofSecond_iff] at hmidnight
    change zone.resolve _ + -1 < _ ∨ _ at hstart
    refine ⟨Instant.lt_def.mpr (Or.inl ?_), hnano⟩
    omega

theorem isAhead_of_searchForward
    (hsearch : schedule.searchForward zone closing resumptions cursor = some hit) :
    cursor < hit := by
  obtain ⟨_, _, hlands, _⟩ := searchForward_eq_some_iff.mp hsearch
  exact (hlands.isAhead hwell hspaced hfolds).1

/-- The closing date stays what it is from one occurrence to the next. -/
theorem closingDate?_of_nextIn (hreference : reference.IsSupported)
    (hfrom : reference ≤ zone.dateOf cursor)
    (hsame : schedule.closingDate? (zone.dateOf cursor) = schedule.closingDate? reference)
    (hnext : schedule.nextIn zone cursor = some hit) :
    reference ≤ zone.dateOf hit ∧
      schedule.closingDate? (zone.dateOf hit) = schedule.closingDate? reference := by
  rw [nextIn, hsame] at hnext
  obtain ⟨_, _, _, hpasses⟩ := searchForward_eq_some_iff.mp hnext
  have hto : reference ≤ zone.dateOf hit := Int.le_trans hfrom
    (hspaced.dateOf_mono hfolds
      (Instant.le_of_lt (isAhead_of_searchForward hwell hspaced hfolds hnext)))
  exact ⟨hto, closingDate?_congr hreference hto (Int.le_refl _) hpasses.notClosed⟩

/-! ## Runs -/

/-- Occurrences found one from the other are in order. -/
theorem pairwise_successive (count : Nat) (start : Instant) :
    (start :: schedule.successive zone count start).Pairwise (· < ·) := by
  induction count generalizing start with
  | zero => exact List.pairwise_singleton _ _
  | succ count ih =>
    rw [successive]
    cases hnext : schedule.nextIn zone start with
    | none => exact List.pairwise_singleton _ _
    | some hit =>
      have hahead : start < hit := isAhead_of_searchForward hwell hspaced hfolds hnext
      refine List.pairwise_cons.mpr
        ⟨List.forall_mem_cons.mpr ⟨hahead, fun later hlater => ?_⟩, ih hit⟩
      exact Instant.lt_trans hahead (List.rel_of_pairwise_cons (ih hit) hlater)

/-- From a cursor on, a stream that closes as it is seen from there yields the occurrences
that are found one from the other, up to its end. -/
theorem take_eq_filter (hreference : reference.IsSupported)
    (hfrom : reference ≤ zone.dateOf cursor)
    (hsame : schedule.closingDate? (zone.dateOf cursor) = schedule.closingDate? reference)
    (stop : Option Instant) (count : Nat) :
    Occurrences.take count
        ⟨schedule, zone, schedule.closingDate? reference, stop, some cursor⟩ =
      (schedule.successive zone count cursor).filter fun hit => !stop.any (· < hit) := by
  induction count generalizing cursor with
  | zero => rfl
  | succ count ih =>
    rw [Occurrences.take, head?_eq hsame, successive]
    cases hnext : schedule.nextIn zone cursor with
    | none => rfl
    | some hit =>
      obtain ⟨hfrom, hsame⟩ :=
        closingDate?_of_nextIn hwell hspaced hfolds hreference hfrom hsame hnext
      cases hstop : stop.any (· < hit) with
      | false =>
        simp only [Option.filter_some, List.filter_cons, hstop, Bool.not_false, if_true]
        exact congrArg (hit :: ·) (ih hfrom hsame)
      | true =>
        -- What comes after an occurrence behind the end lies behind the end as well.
        have hbehind : ∀ later ∈ schedule.successive zone count hit,
            stop.any (· < later) = true := fun later hmem => any_lt_of_lt hstop
          (List.rel_of_pairwise_cons (pairwise_successive hwell hspaced hfolds count hit) hmem)
        simp only [Option.filter_some, List.filter_cons, hstop, Bool.not_true, Bool.false_eq_true,
          if_false]
        refine (List.filter_eq_nil_iff.mpr fun later hmem => ?_).symm
        rw [hbehind later hmem]
        exact Bool.false_ne_true

end Spaced

/-- A stream yields the occurrences that are found one from the other.  They are in
order, and a stream with an end yields those of them that do not lie behind it. -/
theorem take_eq_successive {text : String} (hread : Schedule.ofText text = .ok schedule)
    (hspaced : zone.HasSpacedChanges) (hfolds : zone.FoldsKeepDates)
    (hstart : (zone.dateOf start).IsSupported) (count : Nat) (stop : Instant) :
    (Occurrences.inZone schedule zone start none).take count =
        schedule.successive zone count start ∧
      (start :: schedule.successive zone count start).Pairwise (· < ·) ∧
      (Occurrences.inZone schedule zone start (some stop)).take count =
        ((Occurrences.inZone schedule zone start none).take count).filter (· ≤ stop) ∧
      (Zone.named schedule.zone = .ok zone →
        schedule.upcoming start count =
            .ok ((schedule.successive zone count start).map zone.timestamp) ∧
          Occurrences.after schedule start = .ok (.inZone schedule zone start none) ∧
          Occurrences.between schedule start stop =
            .ok (.inZone schedule zone start (some stop))) := by
  have hwell := (wellFormed_of_ofText hread).recurrence
  have htake := fun last =>
    take_eq_filter hwell hspaced hfolds hstart (Int.le_refl _) rfl last count
  have hendless : (Occurrences.inZone schedule zone start none).take count =
      schedule.successive zone count start := by
    refine (htake none).trans (List.filter_eq_self.mpr fun _ _ => rfl)
  refine ⟨hendless, pairwise_successive hwell hspaced hfolds count start, ?_, fun hzone => ?_⟩
  · rw [hendless]
    refine (htake (some stop)).trans (List.filter_congr fun hit _ => ?_)
    rw [Option.any_some, Bool.eq_iff_iff, Bool.not_eq_true', decide_eq_false_iff_not,
      decide_eq_true_eq, Instant.not_lt]
  · refine ⟨?_, after_eq_ok hzone start, between_eq_ok hzone start stop⟩
    rw [upcoming_eq_ok hzone, hendless]

/-- Until Monday, 2026-11-02, as seen from the Saturday before.  On the Sunday in between
the clocks go back in New York and show 01:30 twice. -/
theorem take_eq_successive_over_fold :
    ∃ schedule, Schedule.ofText "every day at 01:30 until nov 2 in America/New_York" =
        .ok schedule ∧
      schedule.upcoming (.ofSecond 63929131200) 3 =
        .ok [⟨.ofSecond 63929194200, -14400⟩, ⟨.ofSecond 63929284200, -18000⟩] ∧
      (Occurrences.inZone schedule (.easternTime "America/New_York") (.ofSecond 63929131200)
        (some (.ofSecond 63929217600))).take 3 = [.ofSecond 63929194200] := by
  let zone := Zone.easternTime "America/New_York"
  let schedule : Schedule :=
    ⟨.daily 1 .every [⟨1, 30⟩], some "America/New_York", [], some (.yearly .november 2), none, []⟩
  have hread : Schedule.ofText "every day at 01:30 until nov 2 in America/New_York" =
      .ok schedule := by cbv
  have hzone : Zone.named schedule.zone = .ok zone := by cbv
  have horderly := Zone.isOrderly_of_named hzone (by decide)
  have hstart : (zone.dateOf (.ofSecond 63929131200)).IsSupported := by decide
  have hsuccessive : schedule.successive zone 3 (.ofSecond 63929131200) =
      [.ofSecond 63929194200, .ofSecond 63929284200] := by decide +kernel
  obtain ⟨hendless, -, hbounded, hnamed⟩ := take_eq_successive hread horderly.hasSpacedChanges
    horderly.foldsKeepDates hstart 3 (.ofSecond 63929217600)
  refine ⟨schedule, hread, ?_, ?_⟩
  · rw [(hnamed hzone).1, hsuccessive]
    cbv
  · rw [hbounded, hendless, hsuccessive]
    decide

end Schedule

end Cadence
