import Mathlib
import Cadence.Proofs.Schedule.Streams

/-!
# Resumed streams

A stream that is begun anew at an occurrence goes on as the one it was taken from.  What
could differ is the closing date, which the new stream resolves as seen from there.  An
occurrence is never dated before the start of its stream: the clocks may go back over
midnight and show a date again, but the times of a schedule are read where they are shown
first.  From the start to an occurrence that keeps the closing date this date stays the
same.
-/

namespace Cadence

namespace Occurrences

variable {stream : Occurrences} {count : Nat} {hit : Instant}

/-- A stream that yields nothing stays at its end. -/
theorem take_eq_nil (hhead : stream.head? = none) : stream.take count = [] := by
  cases count with
  | zero => rfl
  | succ count => rw [take, hhead]

/-- Nothing is taken from a stream that has ended, or where nothing is asked for. -/
theorem take_eq_nil_iff : stream.take count = [] ↔ count = 0 ∨ stream.head? = none := by
  constructor
  · intro hnil
    cases count with
    | zero => exact .inl rfl
    | succ count =>
      rw [take] at hnil
      split at hnil
      · cases hnil
      · exact .inr ‹_›
  · rintro (rfl | hhead)
    · rfl
    · exact take_eq_nil hhead

/-- A stream goes on from the last of the occurrences that have been taken from it. -/
theorem take_add (hlast : (stream.take count).getLast? = some hit) (more : Nat) :
    stream.take (count + more) =
      stream.take count ++ (stream.resumeAfter (some hit)).take more := by
  induction count generalizing stream with
  | zero => cases hlast
  | succ count ih =>
    rw [Nat.succ_add, take, take] at *
    cases hhead : stream.head? with
    | none =>
      rw [hhead] at hlast
      cases hlast
    | some first =>
      rw [hhead] at hlast
      dsimp only at hlast ⊢
      rw [List.cons_append, List.cons.injEq]
      refine ⟨rfl, ?_⟩
      cases hrest : (stream.resumeAfter (some first)).take count with
      | nil =>
        -- The stream has come to its end, or nothing more has been asked for.
        rw [hrest] at hlast
        obtain rfl : first = hit := Option.some.inj hlast
        cases count with
        | zero => rw [Nat.zero_add, List.nil_append]
        | succ count =>
          have hend : (stream.resumeAfter (some first)).head? = none :=
            (take_eq_nil_iff.mp hrest).resolve_left (Nat.succ_ne_zero count)
          rw [take_eq_nil hend, take_eq_nil hend, List.nil_append]
      | cons second rest =>
        rw [hrest, List.getLast?_cons_cons, ← hrest] at hlast
        rw [← hrest]
        exact ih hlast

/-- An endless stream yields what the search finds. -/
theorem head?_endless {schedule : Schedule} {zone : Zone} {closing : Option Date}
    {cursor : Instant} : head? ⟨schedule, zone, closing, none, some cursor⟩ =
      schedule.searchForward zone closing Reach.resumptions cursor := by
  cases hsearch : schedule.searchForward zone closing Reach.resumptions cursor with
  | none => simp only [head?, Option.bind_eq_bind, Option.bind_some, hsearch]; rfl
  | some hit =>
    simp only [head?, Option.bind_eq_bind, Option.bind_some, hsearch]
    rfl

end Occurrences

namespace Schedule

variable {schedule : Schedule} {zone : Zone} {closing : Option Date} {count : Nat}
  {cursor start hit : Instant}

section Spaced

variable (hwell : schedule.recurrence.WellFormed) (hspaced : zone.HasSpacedChanges)
include hwell hspaced

/-- A candidate is not dated before the cursor, nor before the day that the search is
resumed at. -/
theorem dateOf_le_of_candidate
    (hnext : (Frame.ofSchedule schedule zone).nextOf schedule.recurrence cursor = some hit) :
    zone.dateOf cursor ≤ zone.dateOf hit ∧
      ∀ resume, cursor = (Frame.ofSchedule schedule zone).startOfDay resume →
        resume ≤ zone.dateOf hit := by
  have hahead := Frame.isAhead_of_nextOf hwell hnext
  obtain ⟨date, _, _, time, _, rfl⟩ := Frame.offers_of_nextOf hwell hnext
  refine ⟨hspaced.dateOf_le_dateOf_instantAt (Instant.le_of_lt hahead), ?_⟩
  rintro resume rfl
  by_contra hearlier
  have hmidnight := hspaced.instantAt_lt_instantAt (Int.not_le.mp hearlier) .midnight
  rw [Frame.startOfDay, Zone.instantAt, Instant.shift_ofSecond, Instant.ofSecond_lt_iff] at hahead
  rw [Zone.instantAt, Zone.instantAt, Instant.lt_ofSecond_iff] at hmidnight
  change zone.resolve _ < zone.resolve _ at hmidnight
  change zone.resolve _ + -1 < zone.resolve _ ∨ _ ∧ 0 < 0 at hahead
  omega

/-- What a search lands on is not dated before the cursor, nor before the day that the
search is resumed at. -/
theorem LandsOn.dateOf_mono (hlands : schedule.LandsOn zone closing count cursor hit) :
    zone.dateOf cursor ≤ zone.dateOf hit ∧
      ∀ resume, cursor = (Frame.ofSchedule schedule zone).startOfDay resume →
        resume ≤ zone.dateOf hit := by
  induction hlands with
  | first hnext => exact dateOf_le_of_candidate hwell hspaced hnext
  | @resumed _ cursor rejected hit resume hnext _ hresumes _ ih =>
    obtain ⟨hcursor, hstart⟩ := dateOf_le_of_candidate hwell hspaced hnext
    have hlater : zone.dateOf rejected ≤ zone.dateOf hit :=
      Int.le_trans (Int.le_of_lt hresumes.lt) (ih.2 resume rfl)
    exact ⟨Int.le_trans hcursor hlater,
      fun day hday => Int.le_trans (hstart day hday) hlater⟩

/-- What an endless stream yields is not dated before its cursor, keeps the closing date and
stands at the start of a second. -/
theorem of_mem_take
    (hmem : hit ∈ Occurrences.take count ⟨schedule, zone, closing, none, some cursor⟩) :
    zone.dateOf cursor ≤ zone.dateOf hit ∧ (∀ last ∈ closing, zone.dateOf hit ≤ last) ∧
      hit.nano = 0 := by
  induction count generalizing cursor with
  | zero => cases hmem
  | succ count ih =>
    rw [Occurrences.take, Occurrences.head?_endless] at hmem
    split at hmem
    · rename_i first hfirst
      obtain ⟨_, _, hlands, hpasses⟩ := searchForward_eq_some_iff.mp hfirst
      have hdate := (hlands.dateOf_mono hwell hspaced).1
      rcases List.mem_cons.mp hmem with rfl | hmem
      · obtain ⟨_, hnext⟩ := hlands.exists_nextOf
        obtain ⟨_, _, _, _, _, rfl⟩ := Frame.offers_of_nextOf hwell hnext
        exact ⟨hdate, hpasses.notClosed, rfl⟩
      · obtain ⟨hlater, hrest⟩ := ih hmem
        exact ⟨Int.le_trans hdate hlater, hrest⟩
    · cases hmem

/-- A stream goes on from the last of its first occurrences as one that begins there. -/
theorem take_add_resumed
    (hlast : ((Occurrences.inZone schedule zone start none).take count).getLast? = some hit)
    (hleast : Date.least < zone.dateOf hit) (more : Nat) :
    (Occurrences.inZone schedule zone start none).take (count + more) =
      (Occurrences.inZone schedule zone start none).take count ++
        (Occurrences.inZone schedule zone hit none).take more := by
  obtain ⟨hdate, hopen, _⟩ := of_mem_take hwell hspaced (List.mem_of_getLast? hlast)
  have hclosing : schedule.closingDate? (zone.dateOf hit) =
      schedule.closingDate? (zone.dateOf start) :=
    closingDate?_congr_of_bound (.inr hleast) hdate (Int.le_refl _) hopen
  rw [Occurrences.take_add hlast, Occurrences.resumeAfter, Occurrences.inZone, Occurrences.inZone,
    hclosing]

end Spaced

end Schedule

end Cadence
