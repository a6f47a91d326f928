import Mathlib
import Cadence.Proofs.Occurrence.OrderlySearch
import Cadence.Proofs.Schedule.ScanReach
import Cadence.Proofs.Zone.SpacedZones

/-!
# Repeated readings

Membership compares what the clocks show, minute by minute.  Clocks that are put back
show some readings twice, and membership accepts both passes, while a search resolves
each time to the first.  So of the instants that membership accepts, the search that
starts a minute before finds exactly those that show their reading for the first time.
-/

namespace Cadence

namespace Zone

variable {zone : Zone} {center reading : Int} {moment : Instant}

/-! ## Whole minutes -/

/-- For three days in either direction offsets are whole minutes, as those of local mean
time are not. -/
def HasWholeMinutesNear (zone : Zone) (center : Int) : Prop :=
  ∀ second, center - calm ≤ second → second ≤ center + calm → zone.offsetAt second % 60 = 0

theorem hasWholeMinutesNear_of_offsets (hoffsets : ∀ offset ∈ zone.offsets, offset % 60 = 0)
    (center : Int) : zone.HasWholeMinutesNear center :=
  fun second _ _ => hoffsets _ (zone.offsetAt_mem_offsets second)

/-- Readings of whole minutes are resolved to whole minutes. -/
theorem HasWholeMinutesNear.resolve_emod (hwhole : zone.HasWholeMinutesNear center)
    (hspaced : zone.HasSpacedChanges) (hreading : reading % 60 = 0)
    (hlow : center - daySeconds ≤ zone.resolve reading) (hhigh : zone.resolve reading ≤ center) :
    zone.resolve reading % 60 = 0 := by
  simp only [HasWholeMinutesNear, calm, daySeconds] at hwhole hlow
  rcases zone.resolve_spec reading with ⟨hshown, _⟩ | ⟨_, hresolve⟩
  · have hoffset := hwhole (zone.resolve reading) (by omega) (by omega)
    rw [localSecond] at hshown
    omega
  · rw [daySeconds] at hresolve
    have hbounds := hspaced.offsetAt_bounds (reading - 86400)
    have hoffset := hwhole (reading - 86400) (by omega) (by omega)
    omega

/-- No time is reached within a minute that begins on the clock. -/
theorem HasWholeMinutesNear.not_instantAt_lt (hwhole : zone.HasWholeMinutesNear moment.second)
    (hspaced : zone.HasSpacedChanges) (hminute : moment.IsWholeMinute) {date : Date}
    {time : TimeOfDay} (hlater : moment.shift (-60) < zone.instantAt date time) :
    ¬ zone.instantAt date time < moment := by
  intro hlt
  have hreading : secondOf date time.secondOfDay % 60 = 0 := by
    simp only [secondOf, daySeconds, TimeOfDay.secondOfDay]
    omega
  have hreached : (zone.instantAt date time).IsWholeMinute := by
    have hshift := moment.second_add_le_shift (-60)
    rw [instantAt, Instant.lt_ofSecond_iff] at hlater
    rw [instantAt, Instant.ofSecond_lt_iff] at hlt
    refine ⟨rfl, hwhole.resolve_emod hspaced hreading ?_ ?_⟩
    · rw [daySeconds]
      omega
    · omega
  exact (hminute.shift_lt_iff hreached).mp hlater hlt

/-! ## What a whole minute shows -/

/-- Where the clocks are not changed, they show the minute before. -/
theorem localSecond_shift_neg (hminute : moment.IsWholeMinute)
    (hsteady : zone.offsetAt (moment.second - 60) = zone.offsetAt moment.second) :
    zone.localSecond (moment.shift (-60)).second = zone.localSecond moment.second - 60 := by
  obtain ⟨second, nano⟩ := moment
  obtain ⟨rfl, -⟩ := hminute
  change zone.localSecond ((Instant.ofSecond second).shift (-60)).second = _
  rw [Instant.shift_ofSecond]
  simp only [localSecond, Instant.ofSecond] at hsteady ⊢
  rw [← Int.sub_eq_add_neg, hsteady]
  omega

/-- In a minute the clocks get on by a few dates at most, however they are changed. -/
theorem HasSpacedChanges.dateOf_le_shift_neg (hspaced : zone.HasSpacedChanges)
    (moment : Instant) :
    (zone.dateOf moment).dayNumber ≤ (zone.dateOf (moment.shift (-60))).dayNumber + 3 := by
  have hbounds := hspaced.offsetAt_bounds moment.second
  have hbounds' := hspaced.offsetAt_bounds (moment.shift (-60)).second
  have hshift := moment.second_add_le_shift (-60)
  simp only [dateOf, dateOfSecond, daySeconds, localSecond]
  omega

theorem HasWholeMinutesNear.localSecond_emod (hwhole : zone.HasWholeMinutesNear moment.second)
    (hminute : moment.IsWholeMinute) : zone.localSecond moment.second % 60 = 0 := by
  have hoffset := hwhole moment.second (by simp only [calm, daySeconds]; omega)
    (by simp only [calm, daySeconds]; omega)
  have hsecond := hminute.2
  rw [localSecond]
  omega

/-- A whole minute that shows its reading for the first time is the one that its date and
time of day are resolved to. -/
theorem HasWholeMinutesNear.instantAt_dateOf_timeOf
    (hwhole : zone.HasWholeMinutesNear moment.second) (hminute : moment.IsWholeMinute)
    (hfirst : zone.ShowsFirst moment.second (zone.localSecond moment.second)) :
    zone.instantAt (zone.dateOf moment) (zone.timeOf moment) = moment := by
  have hreading : secondOf (zone.dateOf moment) (zone.timeOf moment).secondOfDay =
      zone.localSecond moment.second := by
    have hlocal := hwhole.localSecond_emod hminute
    rw [(zone.isOnClock_timeOf moment).secondOfDay_eq, timeOf, TimeOfDay.minutes_ofMinutes]
    simp only [secondOf, dateOf, dateOfSecond, clockOfSecond, daySeconds]
    omega
  obtain ⟨second, nano⟩ := moment
  obtain ⟨rfl, -⟩ := hminute
  rw [instantAt, hreading]
  rcases zone.resolve_spec (zone.localSecond second) with ⟨hshown, hearliest⟩ | ⟨hskipped, _⟩
  · exact congrArg Instant.ofSecond
      (Int.le_antisymm (hearliest second rfl) (hfirst.2 _ hshown))
  · exact absurd rfl (hskipped second)

end Zone

namespace Frame

variable {frame : Frame} {recurrence : Recurrence} {now hit moment : Instant} {start date : Date}

/-! ## Stopping at a date in sight -/

/-- A search stops at the first date of which it sees anything, in any zone. -/
theorem nextOf_eq_of_seesAhead (hwell : recurrence.WellFormed)
    (hproposes : frame.Proposes recurrence date)
    (hreaches : Reaches recurrence (frame.zone.dateOf now) date)
    (hcurrent : frame.zone.dateOf now ≤ date) (hsees : frame.SeesAhead recurrence now date hit)
    (hnone : ∀ other moment, other < date → ¬ frame.SeesAhead recurrence now other moment)
    (hclosest : ∀ other moment, frame.SeesAhead recurrence now other moment → ¬ moment < hit) :
    frame.nextOf recurrence now = some hit := by
  refine (tries_nextOf hwell tries_seen_ahead).stopsAt Instant.eq_of_not_lt
    (fun other moment hmoment => SeesAhead.isAhead hmoment) ⟨hproposes, hreaches⟩
    (Int.not_lt.mpr hcurrent) hsees (fun other moment _ => hnone other moment) ?_
  refine ⟨⟨date, ⟨hproposes, hreaches⟩, hsees⟩, hsees.isAhead, ?_⟩
  rintro moment ⟨other, _, hmoment⟩ _
  exact hclosest other moment hmoment

/-! ## What is seen a minute before -/

section MinuteBefore

variable (hspaced : frame.zone.HasSpacedChanges)
  (hwhole : frame.zone.HasWholeMinutesNear moment.second) (hminute : moment.IsWholeMinute)
include hwhole hminute

/-- A slot that the clock shows is the one that a search looks at a minute before, unless
the clocks are changed in between. -/
theorem comingSlot_of_steady {first step : Nat} (hstep : 0 < step)
    (hslot : ∃ k, (frame.zone.timeOf moment).minutes = first + k * step)
    (hsteady : frame.zone.offsetAt (moment.second - 60) = frame.zone.offsetAt moment.second) :
    frame.comingSlot first step (moment.shift (-60)) (frame.zone.dateOf moment) =
      (frame.zone.timeOf moment).minutes := by
  have hlocal := Zone.localSecond_shift_neg hminute hsteady
  have hreading := hwhole.localSecond_emod hminute
  have hshown : (frame.zone.timeOf moment).minutes =
      (frame.zone.localSecond moment.second % 86400).toNat / 60 := TimeOfDay.minutes_ofMinutes _
  rw [comingSlot]
  split
  · rename_i hsame
    have hbefore : (frame.zone.timeOf (moment.shift (-60))).minutes =
        (frame.zone.localSecond (moment.shift (-60)).second % 86400).toNat / 60 :=
      TimeOfDay.minutes_ofMinutes _
    have hsame := congrArg Date.dayNumber hsame
    simp only [Zone.dateOf, dateOfSecond, daySeconds] at hsame
    obtain ⟨hlater, _, hleast⟩ :=
      slotAfter_spec first (frame.zone.timeOf (moment.shift (-60))).minutes hstep
    obtain ⟨k, hk⟩ := hslot
    have hle := hleast k (by omega)
    omega
  · -- The minute before lies on another date, so this is midnight.
    rename_i hother
    have hother : frame.zone.localSecond moment.second / 86400 ≠
        frame.zone.localSecond (moment.shift (-60)).second / 86400 :=
      fun hsame => hother (congrArg Date.mk hsame)
    obtain ⟨k, hk⟩ := hslot
    omega

include hspaced

/-- What membership accepts and the clocks show for the first time is what a search sees of
its date a minute before. -/
theorem seesAhead_of_shows (hshows : frame.Shows recurrence moment)
    (hfirst : frame.zone.ShowsFirst moment.second (frame.zone.localSecond moment.second))
    (hsteady : recurrence.isWindow = true →
      frame.zone.offsetAt (moment.second - 60) = frame.zone.offsetAt moment.second) :
    frame.SeesAhead recurrence (moment.shift (-60)) (frame.zone.dateOf moment) moment := by
  have hresolved := hwhole.instantAt_dateOf_timeOf hminute hfirst
  have hahead := hminute.shift_neg_lt
  have hlisted (hlisted : recurrence.isWindow = false) :
      frame.SeesAhead recurrence (moment.shift (-60)) (frame.zone.dateOf moment) moment := by
    refine Finds.eq_some Instant.eq_of_not_lt (frame.finds_lookAhead?_of_listed hlisted _ _)
      ⟨?_, hahead, ?_⟩
    · exact hshows.elim (fun htime => ⟨_, htime, hresolved⟩) And.right
    · rintro other ⟨time, _, rfl⟩ hlater
      exact hwhole.not_instantAt_lt hspaced hminute hlater
  cases recurrence with
  | window interval unit start stop days =>
    have htime := hshows.resolve_right fun hlisted => Bool.noConfusion hlisted.1
    obtain ⟨slot, hslot, hsame⟩ := List.mem_map.mp htime
    have hshown : (frame.zone.timeOf moment).minutes = slot := by
      rw [← hsame, TimeOfDay.minutes_ofMinutes]
    have hstep : 0 < max (unit.inMinutes interval) 1 := by omega
    obtain ⟨_, hstop, hsteps⟩ := (mem_slotsDown hstep).mp hslot
    have hcoming := comingSlot_of_steady hwhole hminute hstep (hshown ▸ hsteps) (hsteady rfl)
    rw [SeesAhead, lookAhead?, slotAhead?, hcoming, hshown, hsame, hresolved]
    exact if_pos ⟨hstop, hahead⟩
  | daily | weekly | monthly | ordinal | once | yearly => exact hlisted rfl

end MinuteBefore

end Frame

namespace Schedule

variable {schedule : Schedule} {zone : Zone} {moment : Instant}

/-- Of the whole minutes at which a schedule without clauses fires, the search from a minute
before finds exactly those that show their reading for the first time.  The listed times of
earlier dates must have been reached by then, as they have unless a gap spans midnight, and
for windows the clocks must not be changed in that minute. -/
theorem nextIn_of_firesIn_iff {text : String} (hread : Schedule.ofText text = .ok schedule)
    (hfree : schedule.IsClauseFree) (hspaced : zone.HasSpacedChanges)
    (hminute : moment.IsWholeMinute) (hwhole : zone.HasWholeMinutesNear moment.second)
    (hearlier : ∀ date, date < zone.dateOf moment → ∀ time ∈ schedule.recurrence.times,
      zone.instantAt date time < moment)
    (hsteady : schedule.recurrence.isWindow = true →
      zone.offsetAt (moment.second - 60) = zone.offsetAt moment.second)
    (hdate : (zone.dateOf moment).IsSupported)
    (hweek : (zone.dateOf (moment.shift (-60))).monday?.isSome = true)
    (hfires : schedule.firesIn zone moment = true) :
    schedule.nextIn zone (moment.shift (-60)) = some moment ↔
      zone.ShowsFirst moment.second (zone.localSecond moment.second) := by
  have hwell := (wellFormed_of_ofText hread).recurrence
  rw [hfree.firesIn_eq, Frame.fires_iff_shows] at hfires
  obtain ⟨hselects, hshows⟩ := hfires
  rw [nextIn_of_isClauseFree hfree]
  constructor
  · intro hnext
    obtain ⟨date, _, _, time, _, rfl⟩ := Frame.offers_of_nextOf hwell hnext
    exact hspaced.showsFirst_localSecond_resolve _
  · intro hfirst
    have hsees : (Frame.ofSchedule schedule zone).SeesAhead schedule.recurrence
        (moment.shift (-60)) (zone.dateOf moment) moment :=
      Frame.seesAhead_of_shows hspaced hwhole hminute hshows hfirst hsteady
    have hproposes : (Frame.ofSchedule schedule zone).Proposes schedule.recurrence
        (zone.dateOf moment) :=
      (Frame.proposes_iff fun _ => hfree.season).mpr ⟨hdate, hselects⟩
    have hresolved := hwhole.instantAt_dateOf_timeOf hminute hfirst
    have hcurrent : zone.dateOf (moment.shift (-60)) ≤ zone.dateOf moment :=
      hspaced.dateOf_le_of_lt_instantAt (congrArg zone.dateOf hresolved)
        (hresolved.symm ▸ hminute.shift_neg_lt)
    have hreaches : Frame.Reaches schedule.recurrence (zone.dateOf (moment.shift (-60)))
        (zone.dateOf moment) :=
      hproposes.reaches_of_near (Int.le_trans (hspaced.dateOf_le_shift_neg moment)
        (Int.add_le_add_left (by decide) _)) hweek
    refine Frame.nextOf_eq_of_seesAhead hwell hproposes hreaches hcurrent hsees ?_ ?_
    · intro other found hlt hseen
      obtain ⟨⟨time, htime, rfl⟩, hlater⟩ := Frame.of_lookAhead? hseen
      exact hwhole.not_instantAt_lt hspaced hminute hlater (hearlier other hlt time htime)
    · intro other found hseen
      obtain ⟨⟨time, _, rfl⟩, hlater⟩ := Frame.of_lookAhead? hseen
      exact hwhole.not_instantAt_lt hspaced hminute hlater

/-- In New York the clocks show 01:30 twice on 2026-11-01.  The first pass is found. -/
theorem nextIn_of_firesIn_iff_on_first_pass :
    ∃ schedule, Schedule.ofText "every day at 01:30 in America/New_York" = .ok schedule ∧
      schedule.nextIn (.easternTime "America/New_York") (.ofSecond 63929194140) =
        some (.ofSecond 63929194200) := by
  let zone := Zone.easternTime "America/New_York"
  let schedule : Schedule :=
    ⟨.daily 1 .every [⟨1, 30⟩], some "America/New_York", [], none, none, []⟩
  have hread : Schedule.ofText "every day at 01:30 in America/New_York" = .ok schedule := by cbv
  have hzone : Zone.named schedule.zone = .ok zone := by cbv
  have horderly := Zone.isOrderly_of_named hzone (by decide)
  have hoffsets : ∀ offset ∈ zone.offsets, offset % 60 = 0 := by decide +kernel
  have hearlier : ∀ date, date < zone.dateOf (.ofSecond 63929194200) →
      ∀ time ∈ schedule.recurrence.times, zone.instantAt date time < .ofSecond 63929194200 :=
    fun _ hlt time _ =>
      horderly.hasSpacedChanges.instantAt_lt horderly.gapsKeepDates hlt time
  have hfires : schedule.firesIn zone (.ofSecond 63929194200) = true := by decide +kernel
  have hfirst : zone.ShowsFirst 63929194200 (zone.localSecond 63929194200) := by
    have hresolve : zone.resolve 63929179800 = 63929194200 := by decide +kernel
    rw [← hresolve]
    exact horderly.hasSpacedChanges.showsFirst_localSecond_resolve 63929179800
  exact ⟨schedule, hread, (nextIn_of_firesIn_iff hread ⟨rfl, rfl, rfl⟩ horderly.hasSpacedChanges
    (by decide) (Zone.hasWholeMinutesNear_of_offsets hoffsets _) hearlier
    (fun hwindow => absurd hwindow Bool.false_ne_true) (by decide +kernel) (by decide +kernel)
    hfires).mpr hfirst⟩

/-- The second pass of 01:30 is accepted by membership, and the search passes over it. -/
theorem isOccurrence_next_ne_on_second_pass :
    ∃ schedule, Schedule.ofText "every day at 01:30 in America/New_York" = .ok schedule ∧
      schedule.isOccurrence (.ofSecond 63929197800) = .ok true ∧
      schedule.next ((Instant.ofSecond 63929197800).shift (-60)) =
        .ok (some ⟨.ofSecond 63929284200, -18000⟩) := by
  let schedule : Schedule :=
    ⟨.daily 1 .every [⟨1, 30⟩], some "America/New_York", [], none, none, []⟩
  have hzone : Zone.named schedule.zone = .ok (.easternTime "America/New_York") := by cbv
  refine ⟨schedule, by cbv, ?_, ?_⟩
  · rw [isOccurrence_eq_ok hzone]
    decide +kernel
  · rw [next_eq_ok hzone]
    decide +kernel

end Schedule

end Cadence
