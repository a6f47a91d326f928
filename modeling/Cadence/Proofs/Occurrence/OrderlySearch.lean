import Cadence.Proofs.Occurrence.FoundOffers
import Cadence.Proofs.Zone.OrderlyZones

/-!
# Searches in orderly zones

In an orderly zone both searches find the closest instant of those they see.
The two do not see the same.  Of listed times a forward search sees the earliest
one ahead.  A backward search sees the time that is last on the clock, except on
the current date, and so does either search of a window: their clocks decide
which time is looked at, and a gap or a change back may have the clock and the
instants disagree.  `IsLastOnClock` says that they agree, and then the backward
search leads back to where the forward search came from.
-/

namespace Cadence

namespace Frame

variable {frame : Frame} {recurrence : Recurrence} {now hit : Instant} {date : Date}

/-! ## What is seen -/

/-- What a forward search sees on the dates it looks at. -/
def SeesAhead (frame : Frame) (recurrence : Recurrence) (now : Instant) (date : Date)
    (moment : Instant) : Prop :=
  frame.lookAhead? recurrence now date = some moment

/-- What a backward search sees on the dates it looks at. -/
def SeesBehind (frame : Frame) (recurrence : Recurrence) (now : Instant) (date : Date)
    (moment : Instant) : Prop :=
  frame.lookBehind? recurrence now date = some moment

theorem SeesAhead.isAhead (hsees : frame.SeesAhead recurrence now date hit) : now < hit :=
  (of_lookAhead? hsees).2

/-- What is seen of a date lies on it. -/
theorem SeesAhead.dateOf_eq (hzone : frame.zone.KeepsDates)
    (hsees : frame.SeesAhead recurrence now date hit) : frame.zone.dateOf hit = date := by
  obtain ⟨⟨time, _, rfl⟩, _⟩ := of_lookAhead? hsees
  exact hzone.dateOf_instantAt date time

theorem SeesBehind.dateOf_eq (hzone : frame.zone.KeepsDates)
    (hsees : frame.SeesBehind recurrence now date hit) : frame.zone.dateOf hit = date := by
  obtain ⟨⟨time, _, rfl⟩, _⟩ := of_lookBehind? hsees
  exact hzone.dateOf_instantAt date time

/-- An instant that is seen of an earlier date has passed, like all others. -/
theorem SeesBehind.isBehind (hzone : frame.zone.KeepsDates)
    (hsees : frame.SeesBehind recurrence now date hit) : hit < now := by
  obtain ⟨⟨time, _, rfl⟩, hbefore⟩ := of_lookBehind? hsees
  exact hbefore.elim (fun hlt => hzone.instantAt_lt time hlt) id

theorem searchOrder_seesAhead (hzone : frame.zone.KeepsDates) :
    frame.SearchOrder (frame.SeesAhead recurrence now) (· < ·) (· < ·) :=
  searchOrder_forward hzone fun hsees => exists_time_of_onDate (of_lookAhead? hsees).1

/-- A forward search finds the closest instant of those that it sees as far as it
goes. -/
theorem finds_nextOf (hzone : frame.zone.KeepsDates) (hwell : recurrence.WellFormed)
    (now : Instant) :
    Finds (· < ·) (ShownBy (frame.SeesAhead recurrence now) fun date =>
      frame.Proposes recurrence date ∧ Reaches recurrence (frame.zone.dateOf now) date) now
      (frame.nextOf recurrence now) :=
  (tries_nextOf hwell tries_seen_ahead).finds (searchOrder_seesAhead hzone)

theorem nearest_seen_of_nextOf (hzone : frame.zone.KeepsDates) (hwell : recurrence.WellFormed)
    (hnext : frame.nextOf recurrence now = some hit) :
    IsNearest (· < ·) (ShownBy (frame.SeesAhead recurrence now) (frame.Proposes recurrence)) now
      hit :=
  nearest_shown_of_nextOf (searchOrder_seesAhead hzone) hwell tries_seen_ahead hnext

/-- What a forward search finds lies on a date that it may land on and gets to. -/
theorem reaches_of_nextOf (hzone : frame.zone.KeepsDates) (hwell : recurrence.WellFormed)
    (hnext : frame.nextOf recurrence now = some hit) :
    frame.Proposes recurrence (frame.zone.dateOf hit) ∧
      Reaches recurrence (frame.zone.dateOf now) (frame.zone.dateOf hit) := by
  obtain ⟨date, hdate, hsees⟩ := (tries_nextOf hwell tries_seen_ahead).found hit hnext
  rwa [SeesAhead.dateOf_eq hzone hsees]

/-- What a forward search finds is what it sees on its date. -/
theorem seesAhead_of_nextOf (hzone : frame.zone.KeepsDates) (hwell : recurrence.WellFormed)
    (hnext : frame.nextOf recurrence now = some hit) :
    frame.SeesAhead recurrence now (frame.zone.dateOf hit) hit := by
  obtain ⟨date, _, hsees⟩ := (nearest_seen_of_nextOf hzone hwell hnext).holds
  rwa [hsees.dateOf_eq hzone]

/-- A search that sees something of a date it gets to finds something. -/
theorem exists_nextOf_of_seesAhead (hzone : frame.zone.KeepsDates) (hwell : recurrence.WellFormed)
    (hproposes : frame.Proposes recurrence date)
    (hreaches : Reaches recurrence (frame.zone.dateOf now) date)
    (hsees : frame.SeesAhead recurrence now date hit) :
    ∃ found, frame.nextOf recurrence now = some found :=
  (finds_nextOf hzone hwell now).exists_eq_some ⟨date, ⟨hproposes, hreaches⟩, hsees⟩ hsees.isAhead

theorem searchOrder_seesBehind (hzone : frame.zone.KeepsDates) :
    frame.SearchOrder (frame.SeesBehind recurrence now) (· > ·) (· > ·) :=
  searchOrder_backward hzone fun hsees => exists_time_of_onDate (of_lookBehind? hsees).1

/-- A backward search finds the closest instant of those that it sees as far as it
goes. -/
theorem finds_previousOf (hzone : frame.zone.KeepsDates) (hwell : recurrence.WellFormed)
    (now : Instant) :
    Finds (· > ·) (ShownBy (frame.SeesBehind recurrence now) fun date =>
      (date.IsSupported ∧ recurrence.Selects frame.anchor date) ∧
        frame.ReachesBack recurrence (frame.zone.dateOf now) date) now
      (frame.previousOf recurrence now) :=
  (tries_previousOf hwell tries_seen_behind).finds (searchOrder_seesBehind hzone)

theorem nearest_seen_of_previousOf (hzone : frame.zone.KeepsDates) (hwell : recurrence.WellFormed)
    (hprevious : frame.previousOf recurrence now = some hit) :
    IsNearest (· > ·) (ShownBy (frame.SeesBehind recurrence now) fun date =>
      date.IsSupported ∧ recurrence.Selects frame.anchor date) now hit :=
  nearest_shown_of_previousOf (searchOrder_seesBehind hzone) hwell tries_seen_behind hprevious

/-- What is offered is offered on its own date. -/
theorem Offers.onOwnDate (horderly : frame.zone.IsOrderly) (hoffers : frame.Offers recurrence hit) :
    ((frame.zone.dateOf hit).IsSupported ∧
        recurrence.Selects frame.anchor (frame.zone.dateOf hit)) ∧
      frame.OnDate recurrence.times (frame.zone.dateOf hit) hit := by
  obtain ⟨date, hsupported, hselects, time, htime, rfl⟩ := hoffers
  rw [horderly.dateOf_instantAt]
  exact ⟨⟨hsupported, hselects⟩, time, htime, rfl⟩

/-- A search sees something of every later date, if there are times to see. -/
theorem exists_lookAhead? (hzone : frame.zone.KeepsDates) (htimes : recurrence.times ≠ [])
    (hlater : frame.zone.dateOf now < date) :
    ∃ hit, frame.lookAhead? recurrence now date = some hit := by
  obtain ⟨time, htime⟩ := List.exists_mem_of_ne_nil _ htimes
  have hlisted : recurrence.isWindow = false →
      ∃ hit, frame.earliestAfter date recurrence.times now = some hit := by
    intro _
    have hfinds := frame.finds_earliestAfter recurrence.times date now
    cases hfound : frame.earliestAfter date recurrence.times now with
    | some hit => exact ⟨hit, rfl⟩
    | none =>
      rw [hfound] at hfinds
      exact absurd (hzone.lt_instantAt time hlater) (hfinds _ ⟨time, htime, rfl⟩)
  cases recurrence with
  | window interval unit start stop days =>
    have hstep : 0 < max (unit.inMinutes interval) 1 := by omega
    obtain ⟨slot, hslot, _⟩ := List.mem_map.mp htime
    obtain ⟨hstart, hstop, _⟩ := (mem_slotsDown hstep).mp hslot
    have hcoming : frame.comingSlot start.minutes (max (unit.inMinutes interval) 1) now date =
        start.minutes :=
      if_neg (by rintro rfl; exact Int.lt_irrefl _ hlater)
    refine ⟨_, if_pos ⟨?_, hzone.lt_instantAt _ hlater⟩⟩
    rw [hcoming]
    omega
  | daily | weekly | monthly | ordinal | once | yearly => exact hlisted rfl

/-- What a search sees of later dates does not depend on where it starts. -/
theorem lookAhead?_congr {other : Instant} (hzone : frame.zone.KeepsDates)
    (hnow : frame.zone.dateOf now < date) (hother : frame.zone.dateOf other < date) :
    frame.lookAhead? recurrence now date = frame.lookAhead? recurrence other date := by
  have hlisted : frame.earliestAfter date recurrence.times now =
      frame.earliestAfter date recurrence.times other := by
    rw [earliestAfter, earliestAfter]
    congr 1
    refine List.filter_congr fun moment hmoment => ?_
    obtain ⟨time, _, rfl⟩ := List.mem_map.mp hmoment
    simp only [hzone.lt_instantAt time hnow, hzone.lt_instantAt time hother]
  cases recurrence with
  | window interval unit start stop days =>
    have hcoming : ∀ {now : Instant}, frame.zone.dateOf now < date →
        frame.comingSlot start.minutes (max (unit.inMinutes interval) 1) now date =
          start.minutes := fun hlater =>
      if_neg (by rintro rfl; exact Int.lt_irrefl _ hlater)
    simp only [lookAhead?, slotAhead?, hcoming hnow, hcoming hother, hzone.lt_instantAt _ hnow,
      hzone.lt_instantAt _ hother, and_true]
  | daily | weekly | monthly | ordinal | once | yearly => exact hlisted

theorem seesAhead_congr {other : Instant} (hzone : frame.zone.KeepsDates)
    (hnow : frame.zone.dateOf now < date) (hother : frame.zone.dateOf other < date) :
    frame.SeesAhead recurrence now date hit ↔ frame.SeesAhead recurrence other date hit := by
  rw [SeesAhead, SeesAhead, lookAhead?_congr hzone hnow hother]

section Behind

variable (horderly : frame.zone.IsOrderly) (hwell : recurrence.WellFormed)
  (hnow : ∃ time, frame.zone.instantAt (frame.zone.dateOf now) time = now)

include horderly hnow in
/-- A slot that has passed lies before the minute at which a search stops. -/
theorem le_finalMinute {stop slot : Nat} (hstop : stop < 1440) (hle : slot ≤ stop)
    (hpassed : frame.zone.instantAt date (.ofMinutes slot) < now) :
    slot ≤ frame.finalMinute stop now date := by
  rw [finalMinute]
  split
  · rename_i hsame
    obtain ⟨time, htime⟩ := hnow
    have hearlier : frame.zone.instantAt (frame.zone.dateOf now) (.ofMinutes slot) <
        frame.zone.instantAt (frame.zone.dateOf now) time := by
      rwa [htime, ← hsame]
    have hshown := horderly.minutes_le_timeOf (TimeOfDay.isOnClock_ofMinutes (by omega)) hearlier
    rw [htime, TimeOfDay.minutes_ofMinutes] at hshown
    exact Nat.le_min.mpr ⟨hshown, hle⟩
  · exact hle

include horderly hwell hnow

/-- A search sees something of every date on which a time has passed. -/
theorem exists_lookBehind? {time : TimeOfDay} (htime : time ∈ recurrence.times)
    (hpassed : frame.zone.instantAt date time < now) :
    ∃ hit, frame.lookBehind? recurrence now date = some hit := by
  rw [← Option.isSome_iff_exists]
  have hdate : ¬ frame.zone.dateOf now < date :=
    Int.not_lt.mpr (horderly.keepsDates.le_dateOf_of_lt hpassed)
  have hlisted : recurrence.isWindow = false →
      (frame.latestOn date recurrence.times now).isSome = true := by
    intro _
    unfold latestOn
    dsimp only
    rw [if_neg hdate]
    split
    · rw [latestBefore, List.isSome_max?_iff]
      exact List.ne_nil_of_mem
        (List.mem_filter.mpr ⟨List.mem_map_of_mem htime, decide_eq_true hpassed⟩)
    · rw [lastTime, Option.isSome_map, List.isSome_max?_iff]
      exact List.ne_nil_of_mem htime
  cases recurrence with
  | window interval unit start stop days =>
    have hstep : 0 < max (unit.inMinutes interval) 1 := by omega
    obtain ⟨slot, hslot, rfl⟩ := List.mem_map.mp htime
    obtain ⟨hstart, hstop, hsteps⟩ := (mem_slotsDown hstep).mp hslot
    have hfinal := le_finalMinute horderly hnow hwell.2.2.1.minutes_lt hstop hpassed
    rw [lookBehind?, slotBehind?, List.findSome?_isSome_iff]
    exact ⟨slot, (mem_slotsDown hstep).mpr ⟨hstart, hfinal, hsteps⟩,
      by simp only [if_pos hpassed]; rfl⟩
  | daily | weekly | monthly | ordinal | once | yearly => exact hlisted rfl

/-- Windows apart, a search does not go by the clock on the current date. -/
theorem last_of_lookBehind? (hclock : recurrence.isWindow = true ∨ date ≠ frame.zone.dateOf now)
    (hlook : frame.lookBehind? recurrence now date = some hit) :
    ∃ time ∈ recurrence.times, frame.zone.instantAt date time = hit ∧
      ∀ other ∈ recurrence.times, frame.zone.instantAt date other < now →
        other.minutes ≤ time.minutes := by
  have hlisted : recurrence.isWindow = false → frame.latestOn date recurrence.times now = some hit →
      ∃ time ∈ recurrence.times, frame.zone.instantAt date time = hit ∧
        ∀ other ∈ recurrence.times, frame.zone.instantAt date other < now →
          other.minutes ≤ time.minutes := by
    intro hwindow hlatest
    unfold latestOn at hlatest
    dsimp only at hlatest
    split at hlatest
    · exact nomatch hlatest
    · rw [if_neg (hclock.resolve_left (by simp [hwindow]))] at hlatest
      obtain ⟨time, hmax, rfl⟩ := Option.map_eq_some_iff.mp hlatest
      obtain ⟨htime, hgreatest⟩ := List.max?_eq_some_iff.mp hmax
      exact ⟨time, htime, rfl, fun other hother _ =>
        TimeOfDay.minutes_mono (hwell.isOnClock hother) (hgreatest other hother)⟩
  cases recurrence with
  | window interval unit start stop days =>
    have hstep : 0 < max (unit.inMinutes interval) 1 := by omega
    obtain ⟨later, slot, earlier, hlist, hhit, hnone⟩ := List.findSome?_eq_some_iff.mp hlook
    obtain ⟨_, rfl⟩ := Option.ite_none_right_eq_some.mp hhit |>.imp_right Option.some.inj
    have hsorted := slotsDown_pairwise start.minutes (frame.finalMinute stop.minutes now date) hstep
    rw [hlist] at hsorted
    have hslot : slot ∈ slotsDown start.minutes (max (unit.inMinutes interval) 1)
        (frame.finalMinute stop.minutes now date) := by
      rw [hlist]
      exact List.mem_append_right _ List.mem_cons_self
    obtain ⟨hstart, hfinal, hsteps⟩ := (mem_slotsDown hstep).mp hslot
    have hstop := hfinal.trans (frame.finalMinute_le stop.minutes now date)
    refine ⟨_, List.mem_map_of_mem ((mem_slotsDown hstep).mpr ⟨hstart, hstop, hsteps⟩), rfl, ?_⟩
    intro other hother hpassed
    obtain ⟨otherSlot, hotherSlot, rfl⟩ := List.mem_map.mp hother
    obtain ⟨hotherStart, hotherStop, hotherSteps⟩ := (mem_slotsDown hstep).mp hotherSlot
    have hotherFinal := le_finalMinute horderly hnow hwell.2.2.1.minutes_lt hotherStop hpassed
    have hmem := (mem_slotsDown hstep).mpr ⟨hotherStart, hotherFinal, hotherSteps⟩
    rw [hlist] at hmem
    simp only [TimeOfDay.minutes_ofMinutes]
    -- A slot tried before the one that was found has not passed.
    rcases List.mem_append.mp hmem with hbefore | hafter
    · have := hnone otherSlot hbefore
      simp only [if_pos hpassed, reduceCtorEq] at this
    · rcases List.mem_cons.mp hafter with rfl | hafter
      · exact Nat.le_refl _
      · have := (List.pairwise_cons.mp (List.pairwise_append.mp hsorted).2.1).1 otherSlot hafter
        omega
  | daily | weekly | monthly | ordinal | once | yearly => exact hlisted rfl hlook

end Behind

/-! ## Back to where a forward search came from -/

/-- Whether an instant shows the last time on the clock of all that a recurrence
offers before `now`.  Listed times of the current date are not compared, because
there a search does not go by the clock. -/
def IsLastOnClock (frame : Frame) (recurrence : Recurrence) (now hit : Instant) : Prop :=
  ∃ time ∈ recurrence.times, frame.zone.instantAt (frame.zone.dateOf hit) time = hit ∧
    ∀ date, date.IsSupported ∧ recurrence.Selects frame.anchor date →
      (recurrence.isWindow = true ∨ date ≠ frame.zone.dateOf now) →
      ∀ other ∈ recurrence.times, frame.zone.instantAt date other < now →
        date < frame.zone.dateOf hit ∨
          date = frame.zone.dateOf hit ∧ other.minutes ≤ time.minutes

section Reversal

variable {first : Instant} (horderly : frame.zone.IsOrderly) (hwell : recurrence.WellFormed)
  (hnext : frame.nextOf recurrence first = some now)
include horderly hwell hnext

theorem exists_instantAt_dateOf :
    ∃ time, frame.zone.instantAt (frame.zone.dateOf now) time = now := by
  obtain ⟨_, time, _, hresolved⟩ := (offers_of_nextOf hwell hnext).onOwnDate horderly
  exact ⟨time, hresolved⟩

/-- What the backward search finds is last on the clock. -/
theorem isLastOnClock_of_previousOf (hprevious : frame.previousOf recurrence now = some first) :
    frame.IsLastOnClock recurrence now first := by
  have hnow := exists_instantAt_dateOf horderly hwell hnext
  have hnearest := nearest_seen_of_previousOf horderly.keepsDates hwell hprevious
  obtain ⟨date, hdate, hsees⟩ := hnearest.holds
  obtain ⟨⟨time, htime, hresolved⟩, _⟩ := of_lookBehind? hsees
  obtain rfl := SeesBehind.dateOf_eq horderly.keepsDates hsees
  -- Nothing is offered before `now` on a later date that the clock decides about.
  have hlater : ∀ date, date.IsSupported ∧ recurrence.Selects frame.anchor date →
      ∀ other ∈ recurrence.times, frame.zone.instantAt date other < now →
        date ≤ frame.zone.dateOf first := by
    intro date hdate other hother hpassed
    obtain ⟨seen, hseen⟩ := exists_lookBehind? horderly hwell hnow hother hpassed
    have hdateOf := SeesBehind.dateOf_eq horderly.keepsDates hseen
    refine Int.not_lt.mp fun hlt => hnearest.closest seen ⟨date, hdate, hseen⟩
      (SeesBehind.isBehind horderly.keepsDates hseen) (horderly.lt_of_dateOf_lt ?_)
    rwa [hdateOf]
  by_cases hclock : recurrence.isWindow = true ∨ frame.zone.dateOf first ≠ frame.zone.dateOf now
  · obtain ⟨last, hlast, hlastResolved, hgreatest⟩ :=
      last_of_lookBehind? horderly hwell hnow hclock hsees
    refine ⟨last, hlast, hlastResolved, fun date hdate _ other hother hpassed => ?_⟩
    rcases Int.lt_or_eq_of_le (hlater date hdate other hother hpassed) with hlt | heq
    · exact .inl hlt
    · obtain rfl : date = frame.zone.dateOf first := congrArg Date.mk heq
      exact .inr ⟨rfl, hgreatest other hother hpassed⟩
  · rw [not_or, not_not] at hclock
    refine ⟨time, htime, hresolved, fun date hdate hcounts other hother hpassed => .inl ?_⟩
    refine Int.lt_iff_le_and_ne.mpr ⟨hlater date hdate other hother hpassed, fun hsame => ?_⟩
    exact (hcounts.resolve_left hclock.1) ((congrArg Date.mk hsame).trans hclock.2)

variable (hseason : recurrence.mayLeaveMonth = true → frame.season = [])
  (hoffers : frame.Offers recurrence first)
include hseason hoffers

/-- Of the listed times of the current date, the last one before `now` is where
the forward search came from. -/
theorem eq_of_lookBehind?_today (hlisted : recurrence.isWindow = false)
    (hdate : frame.zone.dateOf first = frame.zone.dateOf now) {seen : Instant}
    (hsees : frame.lookBehind? recurrence now (frame.zone.dateOf now) = some seen) :
    seen = first := by
  have hnearest := nearest_offer_of_nextOf horderly.keepsDates hwell hseason
    (tries_lookAhead?_of_listed hlisted) hnext
  obtain ⟨hselected, hfirst⟩ := hoffers.onOwnDate horderly
  rw [hdate] at hselected hfirst
  have hlatest : frame.latestBefore (frame.zone.dateOf now) recurrence.times now = some seen := by
    have hself : ¬ frame.zone.dateOf now < frame.zone.dateOf now := Int.lt_irrefl _
    cases recurrence with
    | window => exact nomatch hlisted
    | daily | weekly | monthly | ordinal | once | yearly =>
      simpa only [lookBehind?, latestOn, if_neg hself, if_true] using hsees
  have hfinds : Finds (· > ·) (frame.OnDate recurrence.times (frame.zone.dateOf now)) now
      (frame.latestBefore (frame.zone.dateOf now) recurrence.times now) :=
    Finds.max?_filter.congr fun _ _ => List.mem_map
  rw [hlatest] at hfinds
  refine Instant.eq_of_not_lt (hfinds.closest first hfirst hnearest.isBeyond) fun hlater => ?_
  exact hnearest.closest seen ⟨_, hselected.1, hselected.2, hfinds.holds⟩ hlater hfinds.isBeyond

/-- The backward search sees an instant that is last on the clock. -/
theorem seesBehind_of_isLastOnClock (hlast : frame.IsLastOnClock recurrence now first) :
    frame.SeesBehind recurrence now (frame.zone.dateOf first) first := by
  have hnow := exists_instantAt_dateOf horderly hwell hnext
  have hbefore := (nearest_seen_of_nextOf horderly.keepsDates hwell hnext).isBeyond
  obtain ⟨time, htime, hresolved, hgreatest⟩ := hlast
  obtain ⟨seen, hseen⟩ :=
    exists_lookBehind? horderly hwell hnow htime (by rwa [hresolved])
  suffices hsame : seen = first from hsame ▸ hseen
  by_cases hclock : recurrence.isWindow = true ∨ frame.zone.dateOf first ≠ frame.zone.dateOf now
  · obtain ⟨last, hlast, hlastResolved, hmost⟩ :=
      last_of_lookBehind? horderly hwell hnow hclock hseen
    have hpassed : seen < now := SeesBehind.isBehind horderly.keepsDates hseen
    have hselected := (hoffers.onOwnDate horderly).1
    have hle := hmost time htime (by rwa [hresolved])
    rcases hgreatest _ hselected hclock last hlast (by rwa [hlastResolved]) with hlt | ⟨_, hge⟩
    · exact absurd hlt (Int.lt_irrefl _)
    · have hsame : last = time := by
        rw [← (hwell.isOnClock hlast).ofMinutes_minutes,
          ← (hwell.isOnClock htime).ofMinutes_minutes, Nat.le_antisymm hge hle]
      rw [← hlastResolved, hsame, hresolved]
  · rw [not_or, not_not, Bool.not_eq_true] at hclock
    exact eq_of_lookBehind?_today horderly hwell hnext hseason hoffers hclock.1 hclock.2
      (hclock.2 ▸ hseen)

/-- A backward search that goes far enough finds what is last on the clock. -/
theorem previousOf_of_isLastOnClock
    (hreach : frame.ReachesBack recurrence (frame.zone.dateOf now) (frame.zone.dateOf first))
    (hlast : frame.IsLastOnClock recurrence now first) :
    frame.previousOf recurrence now = some first := by
  have hnow := exists_instantAt_dateOf horderly hwell hnext
  have hbefore := (nearest_seen_of_nextOf horderly.keepsDates hwell hnext).isBeyond
  have hsees := seesBehind_of_isLastOnClock horderly hwell hnext hseason hoffers hlast
  have hselected := (hoffers.onOwnDate horderly).1
  have hnearest : IsNearest (· > ·) (ShownBy (frame.SeesBehind recurrence now) fun date =>
      date.IsSupported ∧ recurrence.Selects frame.anchor date) now first := by
    refine ⟨⟨_, hselected, hsees⟩, hbefore, ?_⟩
    rintro moment ⟨date, hdate, hmoment⟩ hpassed hcloser
    obtain ⟨⟨other, hother, hresolved⟩, _⟩ := of_lookBehind? hmoment
    by_cases hclock : recurrence.isWindow = true ∨ date ≠ frame.zone.dateOf now
    · rcases hlast.choose_spec.2.2 date hdate hclock other hother (by rwa [hresolved]) with
        hlt | ⟨rfl, _⟩
      · refine Instant.lt_asymm hcloser (horderly.lt_of_dateOf_lt ?_)
        rwa [SeesBehind.dateOf_eq horderly.keepsDates hmoment]
      · obtain rfl := Option.some.inj (hsees.symm.trans hmoment)
        exact Instant.lt_irrefl _ hcloser
    · rw [not_or, not_not, Bool.not_eq_true] at hclock
      have hoffered := nearest_offer_of_nextOf horderly.keepsDates hwell hseason
        (tries_lookAhead?_of_listed hclock.1) hnext
      exact hoffered.closest moment ⟨date, hdate.1, hdate.2, other, hother, hresolved⟩ hcloser
        hpassed
  have hfinds := finds_previousOf horderly.keepsDates hwell now
  cases hprevious : frame.previousOf recurrence now with
  | none =>
    rw [hprevious] at hfinds
    exact absurd hbefore (hfinds first ⟨_, ⟨hselected, hreach⟩, hsees⟩)
  | some hit =>
    have hhit := nearest_seen_of_previousOf horderly.keepsDates hwell hprevious
    exact congrArg some (hhit.unique (fun hfirst hsecond => Instant.eq_of_not_lt hsecond hfirst)
      hnearest)

end Reversal

end Frame

end Cadence
