import Cadence.Proofs.Occurrence.Resumption
import Cadence.Proofs.Zone.WholeMinutes

/-!
# Searches that are sent back

A backward search that lands on a date a clause rejects is resumed at the end of an
earlier one.  Where clocks count whole minutes it sees all the times of that date from
there, and of the dates before it sees what it has seen all along.  So by induction on
the number of resumptions it passes over no admitted date of which it sees anything.
-/

namespace Cadence

namespace Frame

variable {frame : Frame} {recurrence : Recurrence} {times : List TimeOfDay} {date : Date}
  {time : TimeOfDay} {now other seen hit : Instant}

/-! ## The end of a day -/

theorem endOfDay_eq_ofSecond (frame : Frame) (date : Date) :
    frame.endOfDay date =
      .ofSecond (frame.zone.resolve (date.dayNumber * 86400 + 86340) + 1) := by
  rw [endOfDay, Zone.instantAt, Instant.shift_ofSecond]
  rfl

section EndOfDay

variable (horderly : frame.zone.IsOrderly) (hminutes : frame.zone.CountsMinutes)
include horderly hminutes

/-- At the end of a day the clocks show its last minute. -/
theorem localSecond_endOfDay (date : Date) :
    frame.zone.localSecond (frame.endOfDay date).second = date.dayNumber * 86400 + 86341 := by
  have hlast := hminutes.resolve_emod (show (date.dayNumber * 86400 + 86340) % 60 = 0 by omega)
  rw [endOfDay_eq_ofSecond, Instant.ofSecond, hminutes.localSecond_add_one hlast,
    Zone.localSecond_resolve_lastMinute horderly hminutes]
  omega

theorem dateOf_endOfDay (date : Date) : frame.zone.dateOf (frame.endOfDay date) = date := by
  rw [Zone.dateOf, localSecond_endOfDay horderly hminutes]
  exact congrArg Date.mk
    (show (date.dayNumber * 86400 + 86341) / 86400 = date.dayNumber by omega)

theorem minutes_timeOf_endOfDay (date : Date) :
    (frame.zone.timeOf (frame.endOfDay date)).minutes = 1439 := by
  rw [Zone.timeOf, localSecond_endOfDay horderly hminutes, TimeOfDay.minutes_ofMinutes,
    clockOfSecond, daySeconds]
  omega

/-- All times of a day come before its end. -/
theorem instantAt_lt_endOfDay (htime : time.IsOnClock) :
    frame.zone.instantAt date time < frame.endOfDay date := by
  have hle := Zone.resolve_le_lastMinute horderly hminutes date htime
  rw [endOfDay_eq_ofSecond, Instant.lt_ofSecond_iff]
  exact Int.lt_add_one_of_le hle

end EndOfDay

/-! ## What is seen of a whole date -/

theorem latestOn_of_lt (hlt : date < frame.zone.dateOf now) :
    frame.latestOn date times now = frame.lastTime date times := by
  have hne : date ≠ frame.zone.dateOf now := by
    rintro rfl
    exact Int.lt_irrefl _ hlt
  unfold latestOn
  exact (if_neg (Int.not_lt.mpr (Int.le_of_lt hlt))).trans (if_neg hne)

theorem latestOn_current (hdate : date = frame.zone.dateOf now) :
    frame.latestOn date times now = frame.latestBefore date times now := by
  unfold latestOn
  exact (if_neg (hdate ▸ Int.lt_irrefl _)).trans (if_pos hdate)

theorem finalMinute_of_lt {stop : Nat} (hlt : date < frame.zone.dateOf now) :
    frame.finalMinute stop now date = stop :=
  if_neg (by rintro rfl; exact Int.lt_irrefl _ hlt)

theorem lookBehind?_of_listed (hlisted : recurrence.isWindow = false) :
    frame.lookBehind? recurrence now date = frame.latestOn date recurrence.times now := by
  cases recurrence with
  | window => cases hlisted
  | daily | weekly | monthly | ordinal | once | yearly => rfl

/-- Of a window that has passed the last slot is seen. -/
theorem slotBehind?_of_passed {start stop step : Nat}
    (hfinal : frame.finalMinute stop now date = stop)
    (hpassed : ∀ slot ≤ stop, frame.zone.instantAt date (.ofMinutes slot) < now)
    (hstep : 0 < step) :
    frame.slotBehind? start stop step now date =
      (slotsDown start step stop).head?.map fun slot =>
        frame.zone.instantAt date (.ofMinutes slot) := by
  rw [slotBehind?, hfinal]
  cases hslots : slotsDown start step stop with
  | nil => rfl
  | cons slot earlier =>
    have hslot : slot ∈ slotsDown start step stop := hslots ▸ List.mem_cons_self
    rw [List.findSome?_cons, if_pos (hpassed slot ((mem_slotsDown hstep).mp hslot).2.1)]
    rfl

/-- What a search sees of earlier dates does not depend on where it starts. -/
theorem lookBehind?_congr (hzone : frame.zone.KeepsDates) (hnow : date < frame.zone.dateOf now)
    (hother : date < frame.zone.dateOf other) :
    frame.lookBehind? recurrence now date = frame.lookBehind? recurrence other date := by
  cases recurrence with
  | window interval unit start stop days =>
    have hstep : 0 < max (unit.inMinutes interval) 1 := by omega
    rw [lookBehind?, lookBehind?,
      slotBehind?_of_passed (finalMinute_of_lt hnow) (fun _ _ => hzone.instantAt_lt _ hnow) hstep,
      slotBehind?_of_passed (finalMinute_of_lt hother) (fun _ _ => hzone.instantAt_lt _ hother)
        hstep]
  | daily | weekly | monthly | ordinal | once | yearly =>
    exact (latestOn_of_lt hnow).trans (latestOn_of_lt hother).symm

theorem times_ne_nil_of_lookBehind? (hseen : frame.lookBehind? recurrence now date = some seen) :
    recurrence.times ≠ [] := by
  obtain ⟨⟨time, htime, _⟩, _⟩ := of_lookBehind? hseen
  exact List.ne_nil_of_mem htime

/-- A search sees something of every earlier date, if there are times to see. -/
theorem exists_lookBehind?_of_lt (hzone : frame.zone.KeepsDates) (htimes : recurrence.times ≠ [])
    (hlt : date < frame.zone.dateOf now) :
    ∃ seen, frame.lookBehind? recurrence now date = some seen := by
  rw [← Option.isSome_iff_exists]
  have hlisted : (frame.latestOn date recurrence.times now).isSome = true := by
    rw [latestOn_of_lt hlt, lastTime, Option.isSome_map, List.isSome_max?_iff]
    exact htimes
  cases recurrence with
  | window interval unit start stop days =>
    have hstep : 0 < max (unit.inMinutes interval) 1 := by omega
    rw [lookBehind?, slotBehind?_of_passed (finalMinute_of_lt hlt)
      (fun _ _ => hzone.instantAt_lt _ hlt) hstep, Option.isSome_map, List.isSome_head?]
    simpa only [Recurrence.times, ne_eq, List.map_eq_nil_iff, Bool.not_eq_true',
      List.isEmpty_eq_false_iff] using htimes
  | daily | weekly | monthly | ordinal | once | yearly => exact hlisted

/-- The listed time that is last on the clock is also the last to be reached. -/
def EndsOnClock (frame : Frame) (times : List TimeOfDay) (date : Date) : Prop :=
  ∀ last ∈ times.max?, ∀ time ∈ times,
    frame.zone.instantAt date time ≤ frame.zone.instantAt date last

section Whole

variable (horderly : frame.zone.IsOrderly) (hminutes : frame.zone.CountsMinutes)
  (hwell : recurrence.WellFormed)
include horderly hminutes

/-- From the end of a day the time that is reached last is seen. -/
theorem latestOn_endOfDay (hclock : ∀ time ∈ times, time.IsOnClock) :
    frame.latestOn date times (frame.endOfDay date) =
      (times.map (frame.zone.instantAt date)).max? := by
  have hpassed : (times.map (frame.zone.instantAt date)).filter (· < frame.endOfDay date) =
      times.map (frame.zone.instantAt date) := by
    refine List.filter_eq_self.mpr fun moment hmoment => ?_
    obtain ⟨time, htime, rfl⟩ := List.mem_map.mp hmoment
    exact decide_eq_true (instantAt_lt_endOfDay horderly hminutes (hclock time htime))
  rw [latestOn_current (dateOf_endOfDay horderly hminutes date).symm, latestBefore, hpassed]

include hwell

theorem slotBehind?_endOfDay {interval : Nat} {unit : StepUnit} {start stop : TimeOfDay}
    {days : Option DayFilter} (hwindow : recurrence = .window interval unit start stop days) :
    frame.lookBehind? recurrence (frame.endOfDay date) date =
      (slotsDown start.minutes (max (unit.inMinutes interval) 1) stop.minutes).head?.map fun slot =>
        frame.zone.instantAt date (.ofMinutes slot) := by
  subst hwindow
  have hlimit := hwell.2.2.1.minutes_lt
  have hfinal : frame.finalMinute stop.minutes (frame.endOfDay date) date = stop.minutes := by
    rw [finalMinute, dateOf_endOfDay horderly hminutes, if_pos rfl,
      minutes_timeOf_endOfDay horderly hminutes]
    omega
  exact slotBehind?_of_passed hfinal (fun slot hslot => instantAt_lt_endOfDay horderly hminutes
    (TimeOfDay.isOnClock_ofMinutes (by omega))) (by omega)

/-- From the end of a day the same is seen of it as from later days. -/
theorem lookBehind?_endOfDay
    (hends : recurrence.isWindow = false → frame.EndsOnClock recurrence.times date)
    (hlater : date < frame.zone.dateOf now) :
    frame.lookBehind? recurrence (frame.endOfDay date) date =
      frame.lookBehind? recurrence now date := by
  have hclock : ∀ time ∈ recurrence.times, time.IsOnClock := fun _ => hwell.isOnClock
  have hlisted : recurrence.isWindow = false →
      frame.latestOn date recurrence.times (frame.endOfDay date) =
        frame.latestOn date recurrence.times now := by
    intro hlisted
    rw [latestOn_endOfDay horderly hminutes hclock, latestOn_of_lt hlater, lastTime]
    cases hmax : recurrence.times.max? with
    | none =>
      rw [List.max?_eq_none_iff] at hmax
      rw [hmax]
      rfl
    | some last =>
      refine List.max?_eq_some_iff.mpr ⟨List.mem_map_of_mem (List.max?_mem hmax), ?_⟩
      intro moment hmoment
      obtain ⟨time, htime, rfl⟩ := List.mem_map.mp hmoment
      exact hends hlisted last hmax time htime
  cases hrecurrence : recurrence with
  | window interval unit start stop days =>
    rw [← hrecurrence, slotBehind?_endOfDay horderly hminutes hwell hrecurrence, hrecurrence,
      lookBehind?, slotBehind?_of_passed (finalMinute_of_lt hlater)
        (fun _ _ => horderly.keepsDates.instantAt_lt _ hlater) (by omega)]
  | daily | weekly | monthly | ordinal | once | yearly =>
    subst hrecurrence
    exact hlisted rfl

theorem exists_lookBehind?_endOfDay (htimes : recurrence.times ≠ []) (date : Date) :
    ∃ seen, frame.lookBehind? recurrence (frame.endOfDay date) date = some seen := by
  rw [← Option.isSome_iff_exists]
  have hlisted :
      (frame.latestOn date recurrence.times (frame.endOfDay date)).isSome = true := by
    rw [latestOn_endOfDay horderly hminutes (fun _ => hwell.isOnClock), List.isSome_max?_iff]
    simpa only [ne_eq, List.map_eq_nil_iff] using htimes
  cases hrecurrence : recurrence with
  | window interval unit start stop days =>
    rw [← hrecurrence, slotBehind?_endOfDay horderly hminutes hwell hrecurrence, Option.isSome_map,
      List.isSome_head?]
    simpa only [hrecurrence, Recurrence.times, ne_eq, List.map_eq_nil_iff, Bool.not_eq_true',
      List.isEmpty_eq_false_iff] using htimes
  | daily | weekly | monthly | ordinal | once | yearly =>
    subst hrecurrence
    exact hlisted

/-- From the end of a day something is seen of it and of every earlier day, if there are
times to see. -/
theorem exists_lookBehind?_of_le (htimes : recurrence.times ≠ []) {resume : Date}
    (hle : date ≤ resume) :
    ∃ seen, frame.lookBehind? recurrence (frame.endOfDay resume) date = some seen := by
  rcases Date.lt_or_eq_of_le hle with hlt | rfl
  · have hend := dateOf_endOfDay horderly hminutes resume
    exact exists_lookBehind?_of_lt horderly.keepsDates htimes (hend.symm ▸ hlt)
  · exact exists_lookBehind?_endOfDay horderly hminutes hwell htimes date

end Whole

/-! ## What is found -/

section Found

variable (horderly : frame.zone.IsOrderly) (hwell : recurrence.WellFormed)
include horderly hwell

/-- What a backward search finds lies on a selected date that it gets back to. -/
theorem reachesBack_of_previousOf (hprevious : frame.previousOf recurrence now = some hit) :
    ((frame.zone.dateOf hit).IsSupported ∧
        recurrence.Selects frame.anchor (frame.zone.dateOf hit)) ∧
      frame.ReachesBack recurrence (frame.zone.dateOf now) (frame.zone.dateOf hit) := by
  obtain ⟨date, hdate, hsees⟩ := (tries_previousOf hwell tries_seen_behind).found hit hprevious
  rwa [SeesBehind.dateOf_eq horderly.keepsDates hsees]

/-- What a backward search finds is what it sees on its date. -/
theorem seesBehind_of_previousOf (hprevious : frame.previousOf recurrence now = some hit) :
    frame.SeesBehind recurrence now (frame.zone.dateOf hit) hit := by
  obtain ⟨date, _, hsees⟩ :=
    (nearest_seen_of_previousOf horderly.keepsDates hwell hprevious).holds
  rwa [hsees.dateOf_eq horderly.keepsDates]

theorem dateOf_le_of_previousOf (hprevious : frame.previousOf recurrence now = some hit) :
    frame.zone.dateOf hit ≤ frame.zone.dateOf now :=
  horderly.dateOf_mono (Instant.le_of_lt
    (nearest_seen_of_previousOf horderly.keepsDates hwell hprevious).isBeyond)

/-- No selected date of which a search sees anything lies behind that of what it finds. -/
theorem le_dateOf_of_previousOf (hprevious : frame.previousOf recurrence now = some hit)
    (hdate : date.IsSupported ∧ recurrence.Selects frame.anchor date)
    (hseen : frame.lookBehind? recurrence now date = some seen) :
    date ≤ frame.zone.dateOf hit := by
  have hsees : frame.SeesBehind recurrence now date seen := hseen
  refine Int.not_lt.mp fun hlt => ?_
  refine (nearest_seen_of_previousOf horderly.keepsDates hwell hprevious).closest seen
    ⟨date, hdate, hsees⟩ (hsees.isBehind horderly.keepsDates) (horderly.lt_of_dateOf_lt ?_)
  rw [hsees.dateOf_eq horderly.keepsDates]
  exact hlt

/-- A search that sees something of a date it gets back to finds something. -/
theorem exists_previousOf (hdate : date.IsSupported ∧ recurrence.Selects frame.anchor date)
    (hreaches : frame.ReachesBack recurrence (frame.zone.dateOf now) date)
    (hseen : frame.lookBehind? recurrence now date = some seen) :
    ∃ hit, frame.previousOf recurrence now = some hit :=
  (finds_previousOf horderly.keepsDates hwell now).exists_eq_some
    ⟨date, ⟨hdate, hreaches⟩, hseen⟩ (SeesBehind.isBehind horderly.keepsDates hseen)

end Found

end Frame

namespace Schedule

variable {schedule : Schedule} {zone : Zone} {closing : Option Date} {resumptions : Nat}
  {cursor candidate seen hit : Instant} {resume : Date}

/-- What the resumed searches find another number of resumptions away, the search finds
as well. -/
theorem searchBackward_succ_of_retreats {more : Nat}
    (hresumed : ∀ candidate resume,
      (Frame.ofSchedule schedule zone).previousOf schedule.recurrence cursor = some candidate →
      schedule.Retreats closing (zone.dateOf candidate) resume →
      schedule.searchBackward zone closing resumptions
        ((Frame.ofSchedule schedule zone).endOfDay resume) = some hit →
      schedule.searchBackward zone closing more
        ((Frame.ofSchedule schedule zone).endOfDay resume) = some hit)
    (hsearch : schedule.searchBackward zone closing (resumptions + 1) cursor = some hit) :
    schedule.searchBackward zone closing (more + 1) cursor = some hit := by
  rw [searchBackward_succ] at hsearch ⊢
  obtain ⟨candidate, hcandidate, hsettle⟩ := Option.bind_eq_some_iff.mp hsearch
  rw [hcandidate, Option.bind_some]
  obtain ⟨hstarted, hfound⟩ := settleBack_eq_some_iff.mp hsettle
  refine settleBack_eq_some_iff.mpr ⟨hstarted, hfound.imp_right ?_⟩
  rintro ⟨resume, hretreats, hrest⟩
  exact ⟨resume, hretreats, hresumed candidate resume hcandidate hretreats hrest⟩

/-- A search that is resumed more often finds the same. -/
theorem searchBackward_mono {more : Nat} (hle : resumptions ≤ more)
    (hsearch : schedule.searchBackward zone closing resumptions cursor = some hit) :
    schedule.searchBackward zone closing more cursor = some hit := by
  induction resumptions generalizing cursor more with
  | zero => exact nomatch hsearch
  | succ resumptions ih =>
    obtain ⟨more, rfl⟩ := Nat.exists_eq_succ_of_ne_zero (Nat.ne_zero_of_lt hle)
    exact searchBackward_succ_of_retreats (fun _ _ _ _ => ih (Nat.le_of_succ_le_succ hle)) hsearch

/-- What a search finds is a candidate from where it was last resumed, on a date that is
admitted and not before the anchor. -/
theorem exists_previousOf_of_searchBackward
    (hsearch : schedule.searchBackward zone closing resumptions cursor = some hit) :
    (∃ start,
        (Frame.ofSchedule schedule zone).previousOf schedule.recurrence start = some hit) ∧
      schedule.Admits closing (zone.dateOf hit) ∧
        ∀ first ∈ schedule.anchor, first ≤ zone.dateOf hit := by
  induction resumptions generalizing cursor with
  | zero => exact nomatch hsearch
  | succ resumptions ih =>
    rw [searchBackward_succ] at hsearch
    obtain ⟨candidate, hcandidate, hsettle⟩ := Option.bind_eq_some_iff.mp hsearch
    obtain ⟨hstarted, ⟨rfl, hadmits⟩ | ⟨resume, _, hrest⟩⟩ := settleBack_eq_some_iff.mp hsettle
    · exact ⟨⟨cursor, hcandidate⟩, hadmits, hstarted⟩
    · exact ih hrest

section Found

variable (horderly : zone.IsOrderly) (hwell : schedule.recurrence.WellFormed)
include horderly hwell

/-- What a search finds lies on a selected date that is admitted and not before the
anchor. -/
theorem admits_of_searchBackward
    (hsearch : schedule.searchBackward zone closing resumptions cursor = some hit) :
    ((zone.dateOf hit).IsSupported ∧
        schedule.recurrence.Selects schedule.anchor (zone.dateOf hit)) ∧
      schedule.Admits closing (zone.dateOf hit) ∧
        ∀ first ∈ schedule.anchor, first ≤ zone.dateOf hit := by
  have hframe : (Frame.ofSchedule schedule zone).zone.IsOrderly := horderly
  obtain ⟨⟨start, hfound⟩, hadmits⟩ := exists_previousOf_of_searchBackward hsearch
  exact ⟨(Frame.reachesBack_of_previousOf hframe hwell hfound).1, hadmits⟩

variable (hminutes : zone.CountsMinutes)
include hminutes

/-- What a search finds lies on the date that it starts from or on an earlier one. -/
theorem dateOf_le_of_searchBackward
    (hsearch : schedule.searchBackward zone closing resumptions cursor = some hit) :
    zone.dateOf hit ≤ zone.dateOf cursor := by
  have hframe : (Frame.ofSchedule schedule zone).zone.IsOrderly := horderly
  induction resumptions generalizing cursor with
  | zero => exact nomatch hsearch
  | succ resumptions ih =>
    rw [searchBackward_succ] at hsearch
    obtain ⟨candidate, hcandidate, hsettle⟩ := Option.bind_eq_some_iff.mp hsearch
    have hle : zone.dateOf candidate ≤ zone.dateOf cursor :=
      Frame.dateOf_le_of_previousOf hframe hwell hcandidate
    obtain ⟨_, ⟨rfl, _⟩ | ⟨resume, hretreats, hrest⟩⟩ := settleBack_eq_some_iff.mp hsettle
    · exact hle
    · have hby := ih hrest
      rw [show zone.dateOf ((Frame.ofSchedule schedule zone).endOfDay resume) = resume from
        Frame.dateOf_endOfDay hframe hminutes resume] at hby
      exact Int.le_trans hby (Int.le_trans (Int.le_of_lt hretreats.lt) hle)

/-- A search passes over no admitted date of which it sees anything. -/
theorem not_admits_of_lookBehind? {date : Date}
    (hsearch : schedule.searchBackward zone closing resumptions cursor = some hit)
    (hdate : date.IsSupported ∧ schedule.recurrence.Selects schedule.anchor date)
    (hseen : (Frame.ofSchedule schedule zone).lookBehind? schedule.recurrence cursor date =
      some seen)
    (hlt : zone.dateOf hit < date) : ¬ schedule.Admits closing date := by
  have hframe : (Frame.ofSchedule schedule zone).zone.IsOrderly := horderly
  induction resumptions generalizing cursor seen with
  | zero => exact nomatch hsearch
  | succ resumptions ih =>
    rw [searchBackward_succ] at hsearch
    obtain ⟨candidate, hcandidate, hsettle⟩ := Option.bind_eq_some_iff.mp hsearch
    have hle : date ≤ zone.dateOf candidate :=
      Frame.le_dateOf_of_previousOf hframe hwell hcandidate hdate hseen
    obtain ⟨_, ⟨rfl, _⟩ | ⟨resume, hretreats, hrest⟩⟩ := settleBack_eq_some_iff.mp hsettle
    · exact absurd hlt (Int.not_lt.mpr hle)
    · by_cases hafter : resume < date
      · exact hretreats.not_admits hafter hle
      · have htimes := Frame.times_ne_nil_of_lookBehind? hseen
        obtain ⟨_, hresumed⟩ :=
          Frame.exists_lookBehind?_of_le hframe hminutes hwell htimes (Int.not_lt.mp hafter)
        exact ih hrest hresumed

/-- What a search finds it has seen from where it started, unless a clause has sent it
back to this date and the last time on the clock is not the last to be reached. -/
theorem lookBehind?_of_searchBackward
    (hends : ∀ rejected, schedule.Retreats closing rejected (zone.dateOf hit) →
      schedule.recurrence.isWindow = false → (Frame.ofSchedule schedule zone).EndsOnClock
        schedule.recurrence.times (zone.dateOf hit))
    (hsearch : schedule.searchBackward zone closing resumptions cursor = some hit) :
    (Frame.ofSchedule schedule zone).lookBehind? schedule.recurrence cursor (zone.dateOf hit) =
      some hit := by
  have hframe : (Frame.ofSchedule schedule zone).zone.IsOrderly := horderly
  induction resumptions generalizing cursor with
  | zero => exact nomatch hsearch
  | succ resumptions ih =>
    rw [searchBackward_succ] at hsearch
    obtain ⟨candidate, hcandidate, hsettle⟩ := Option.bind_eq_some_iff.mp hsearch
    obtain ⟨_, ⟨rfl, _⟩ | ⟨resume, hretreats, hrest⟩⟩ := settleBack_eq_some_iff.mp hsettle
    · exact Frame.seesBehind_of_previousOf hframe hwell hcandidate
    · have hend := Frame.dateOf_endOfDay hframe hminutes resume
      have hby := dateOf_le_of_searchBackward horderly hwell hminutes hrest
      rw [show zone.dateOf ((Frame.ofSchedule schedule zone).endOfDay resume) = resume from hend]
        at hby
      have hlt : zone.dateOf hit < zone.dateOf cursor := Int.lt_of_le_of_lt hby
        (Int.lt_of_lt_of_le hretreats.lt (Frame.dateOf_le_of_previousOf hframe hwell hcandidate))
      rw [← ih hrest]
      rcases Date.lt_or_eq_of_le hby with hbefore | rfl
      · exact Frame.lookBehind?_congr hframe.keepsDates hlt (hend.symm ▸ hbefore)
      · exact (Frame.lookBehind?_endOfDay hframe hminutes hwell (hends _ hretreats) hlt).symm

end Found

end Schedule

end Cadence
