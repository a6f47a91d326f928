import Cadence.Proofs.Occurrence.BackwardSearch
import Cadence.Proofs.Occurrence.ForwardSearch

/-!
# Whatever is found is offered

In any zone, even one whose clocks leave out dates, what a search finds is a
listed time of a date that the recurrence selects.  Only that it is the closest
one takes a zone that keeps its dates in order.  There it is the closest of what
the search sees: of a date it need not see more than the one time it looks at.
-/

namespace Cadence

namespace Frame

variable {frame : Frame} {recurrence : Recurrence} {times : List TimeOfDay} {now hit : Instant}
  {date : Date} {beyond : Instant → Instant → Prop} {ahead : Date → Date → Prop}

/-! ## Looking at a date -/

/-- A search sees no more of a date than what it finds there. -/
theorem Tries.of_look {look : Date → Option Instant} (date : Date)
    (hbeyond : ∀ moment, look date = some moment →
      ahead (frame.zone.dateOf now) date ∨ beyond now moment) :
    frame.Tries (fun date moment => look date = some moment) beyond ahead (· = date) now
      (look date) where
  found _ hfound := ⟨date, rfl, hfound⟩
  finds horder := by
    cases hlook : look date with
    | none =>
      rintro moment ⟨_, rfl, hmoment⟩
      simp [hlook] at hmoment
    | some hit =>
      refine ⟨⟨date, rfl, hlook⟩, ?_, ?_⟩
      · exact (hbeyond hit hlook).elim (horder.beyond_now hlook) id
      · rintro moment ⟨_, rfl, hmoment⟩ _ hcloser
        obtain rfl := Option.some.inj (hlook.symm.trans hmoment)
        exact horder.asymm hcloser hcloser
  stopsAt {_ _} _ _ hdate _ hseen _ _ := by
    obtain rfl := hdate
    exact hseen

theorem of_earliestAfter (hfound : frame.earliestAfter date times now = some hit) :
    frame.OnDate times date hit ∧ now < hit := by
  have hfinds := frame.finds_earliestAfter times date now
  rw [hfound] at hfinds
  exact ⟨hfinds.holds, hfinds.isBeyond⟩

theorem of_lookAhead? (hfound : frame.lookAhead? recurrence now date = some hit) :
    frame.OnDate recurrence.times date hit ∧ now < hit := by
  cases recurrence with
  | window interval unit start stop days =>
    exact of_slotAhead? (Nat.lt_of_lt_of_le Nat.one_pos (Nat.le_max_right _ 1)) hfound
  | daily | weekly | monthly | ordinal | once | yearly => exact of_earliestAfter hfound

/-- The last time of an earlier date is seen whether or not it has passed. -/
theorem passed_of_latestOn (hfound : frame.latestOn date times now = some hit) :
    date < frame.zone.dateOf now ∨ hit < now := by
  unfold latestOn at hfound
  dsimp only at hfound
  split at hfound
  · exact nomatch hfound
  · rename_i hnot
    split at hfound
    · exact .inr (of_decide_eq_true (List.mem_filter.mp (List.max?_mem hfound)).2)
    · rename_i hne
      exact .inl (Date.lt_of_le_of_ne (Int.not_lt.mp hnot) hne)

theorem of_lookBehind? (hfound : frame.lookBehind? recurrence now date = some hit) :
    frame.OnDate recurrence.times date hit ∧ (date < frame.zone.dateOf now ∨ hit < now) := by
  cases recurrence with
  | window interval unit start stop days =>
    obtain ⟨hon, hpassed⟩ :=
      of_slotBehind? (Nat.lt_of_lt_of_le Nat.one_pos (Nat.le_max_right _ 1)) hfound
    exact ⟨hon, .inr hpassed⟩
  | daily | weekly | monthly | ordinal | once | yearly =>
    exact ⟨onDate_of_latestOn hfound, passed_of_latestOn hfound⟩

theorem tries_seen_ahead (date : Date) :
    frame.TriesAhead (fun date moment => frame.lookAhead? recurrence now date = some moment)
      (· = date) now (frame.lookAhead? recurrence now date) :=
  .of_look date fun _ hfound => .inr (of_lookAhead? hfound).2

theorem tries_seen_behind (date : Date) :
    frame.TriesBehind (fun date moment => frame.lookBehind? recurrence now date = some moment)
      (· = date) now (frame.lookBehind? recurrence now date) :=
  .of_look date fun _ hfound => (of_lookBehind? hfound).2

/-! ## In any zone -/

theorem offers_of_nextOf (hwell : recurrence.WellFormed)
    (hfound : frame.nextOf recurrence now = some hit) : frame.Offers recurrence hit := by
  obtain ⟨date, ⟨hproposes, _⟩, hseen⟩ := (tries_nextOf hwell tries_seen_ahead).found hit hfound
  obtain ⟨hsupported, hselects⟩ := hproposes.selects
  exact ⟨date, hsupported, hselects, (of_lookAhead? hseen).1⟩

theorem isAhead_of_nextOf (hwell : recurrence.WellFormed)
    (hfound : frame.nextOf recurrence now = some hit) : now < hit := by
  obtain ⟨_, _, hseen⟩ := (tries_nextOf hwell tries_seen_ahead).found hit hfound
  exact (of_lookAhead? hseen).2

theorem offers_of_previousOf (hwell : recurrence.WellFormed)
    (hfound : frame.previousOf recurrence now = some hit) : frame.Offers recurrence hit := by
  obtain ⟨date, ⟨⟨hsupported, hselects⟩, _⟩, hseen⟩ :=
    (tries_previousOf hwell tries_seen_behind).found hit hfound
  exact ⟨date, hsupported, hselects, (of_lookBehind? hseen).1⟩

end Frame

end Cadence
