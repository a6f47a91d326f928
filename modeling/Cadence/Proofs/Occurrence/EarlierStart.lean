import Cadence.Proofs.Occurrence.PastDates
import Cadence.Proofs.Occurrence.Retreats

/-!
# Searches that start earlier

A backward search that starts earlier, but still after what it is to find, lands on the
same candidates, or is sent back to the same dates.  It may land on one more, on the
date it starts from: of a window it may see a slot there that the other search misses,
because slots are chosen by the clock.  This costs it one more resumption.
-/

namespace Cadence

namespace Frame

variable {frame : Frame} {recurrence : Recurrence} {now earlier hit seen : Instant} {date : Date}

/-! ## The date of the earlier start -/

/-- Of the date of `earlier` a search from `now` sees something, if one from there does
and the date is selected. -/
def Covers (frame : Frame) (recurrence : Recurrence) (now earlier : Instant) : Prop :=
  recurrence.Selects frame.anchor (frame.zone.dateOf earlier) →
    ∀ seen, frame.lookBehind? recurrence earlier (frame.zone.dateOf earlier) = some seen →
      ∃ other, frame.lookBehind? recurrence now (frame.zone.dateOf earlier) = some other

theorem covers_of_lt (hzone : frame.zone.KeepsDates)
    (hlt : frame.zone.dateOf earlier < frame.zone.dateOf now) :
    frame.Covers recurrence now earlier :=
  fun _ _ hseen => exists_lookBehind?_of_lt hzone (times_ne_nil_of_lookBehind? hseen) hlt

section Orderly

variable (horderly : frame.zone.IsOrderly) (hwell : recurrence.WellFormed)
include horderly

/-- From the end of a day a search sees what one that starts on this day does. -/
theorem covers_endOfDay (hwell : recurrence.WellFormed) (hminutes : frame.zone.CountsMinutes)
    (hle : frame.zone.dateOf earlier ≤ date) :
    frame.Covers recurrence (frame.endOfDay date) earlier := by
  intro _ seen hseen
  exact exists_lookBehind?_of_le horderly hminutes hwell (times_ne_nil_of_lookBehind? hseen) hle

/-- Listed times that have passed early on have passed later as well. -/
theorem covers_of_listed (hlisted : recurrence.isWindow = false) (hle : earlier ≤ now) :
    frame.Covers recurrence now earlier := by
  intro hselects seen hseen
  rcases Date.lt_or_eq_of_le (horderly.dateOf_mono hle) with hlt | hdate
  · exact covers_of_lt horderly.keepsDates hlt hselects seen hseen
  obtain ⟨⟨time, htime, rfl⟩, hpassed⟩ := of_lookBehind? hseen
  have hpassed := hpassed.resolve_left (Int.lt_irrefl _)
  rw [← Option.isSome_iff_exists, lookBehind?_of_listed hlisted, latestOn_current hdate,
    latestBefore, List.isSome_max?_iff]
  exact List.ne_nil_of_mem (List.mem_filter.mpr
    ⟨List.mem_map_of_mem htime, decide_eq_true (Instant.lt_of_lt_of_le hpassed hle)⟩)

/-- Of the times of a date the one that is last when seen from later on is the last that
has passed, as long as it has passed. -/
theorem lookBehind?_eq_of_le (hlisted : recurrence.isWindow = false)
    (hends : frame.EndsOnClock recurrence.times (frame.zone.dateOf earlier))
    (hlook : frame.lookBehind? recurrence now (frame.zone.dateOf earlier) = some hit)
    (hle : earlier ≤ now) (hlt : hit < earlier) :
    frame.lookBehind? recurrence earlier (frame.zone.dateOf earlier) = some hit := by
  rw [lookBehind?_of_listed hlisted] at hlook ⊢
  have hlast : hit ∈ recurrence.times.map (frame.zone.instantAt (frame.zone.dateOf earlier)) ∧
      ∀ moment ∈ recurrence.times.map (frame.zone.instantAt (frame.zone.dateOf earlier)),
        moment < now → moment ≤ hit := by
    rcases Date.lt_or_eq_of_le (horderly.dateOf_mono hle) with hbefore | hsame
    · rw [latestOn_of_lt hbefore, lastTime, Option.map_eq_some_iff] at hlook
      obtain ⟨last, hlast, rfl⟩ := hlook
      refine ⟨List.mem_map_of_mem (List.max?_mem hlast), fun moment hmoment _ => ?_⟩
      obtain ⟨time, htime, rfl⟩ := List.mem_map.mp hmoment
      exact hends last hlast time htime
    · rw [latestOn_current hsame, latestBefore, List.max?_eq_some_iff] at hlook
      exact ⟨(List.mem_filter.mp hlook.1).1, fun moment hmoment hpassed =>
        hlook.2 moment (List.mem_filter.mpr ⟨hmoment, decide_eq_true hpassed⟩)⟩
  rw [latestOn_current rfl, latestBefore, List.max?_eq_some_iff]
  refine ⟨List.mem_filter.mpr ⟨hlast.1, decide_eq_true hlt⟩, fun moment hmoment => ?_⟩
  obtain ⟨hmoment, hpassed⟩ := List.mem_filter.mp hmoment
  exact hlast.2 moment hmoment (Instant.lt_of_lt_of_le (of_decide_eq_true hpassed) hle)

include hwell

/-- A search that starts earlier, but after the date of what another one finds, finds
the same. -/
theorem previousOf_eq_of_le (hnow : (frame.zone.dateOf now).IsSupported)
    (hprevious : frame.previousOf recurrence now = some hit)
    (hle : frame.zone.dateOf earlier ≤ frame.zone.dateOf now)
    (hlt : frame.zone.dateOf hit < frame.zone.dateOf earlier)
    (hcovers : frame.Covers recurrence now earlier) :
    frame.previousOf recurrence earlier = some hit := by
  have hzone := horderly.keepsDates
  obtain ⟨hselected, hreaches⟩ := reachesBack_of_previousOf horderly hwell hprevious
  have hsame : ∀ {date : Date}, date < frame.zone.dateOf earlier →
      frame.lookBehind? recurrence earlier date = frame.lookBehind? recurrence now date :=
    fun hdate => lookBehind?_congr hzone hdate (Int.lt_of_lt_of_le hdate hle)
  have hseen := (hsame hlt).trans (seesBehind_of_previousOf horderly hwell hprevious)
  obtain ⟨found, hfound⟩ := exists_previousOf horderly hwell hselected
    (hreaches.of_start_ge hnow hselected.2 (Int.le_of_lt hlt) hle) hseen
  have hfoundSelected := (reachesBack_of_previousOf horderly hwell hfound).1
  have hfoundSeen := seesBehind_of_previousOf horderly hwell hfound
  have hfoundLe := dateOf_le_of_previousOf horderly hwell hfound
  have hfrom := le_dateOf_of_previousOf horderly hwell hfound hselected hseen
  obtain ⟨seen, hseenNow⟩ : ∃ seen,
      frame.lookBehind? recurrence now (frame.zone.dateOf found) = some seen := by
    rcases Date.lt_or_eq_of_le hfoundLe with hbefore | hon
    · exact ⟨found, (hsame hbefore).symm.trans hfoundSeen⟩
    · rw [hon] at hfoundSelected hfoundSeen ⊢
      exact hcovers hfoundSelected.2 found hfoundSeen
  have hby := le_dateOf_of_previousOf horderly hwell hprevious hfoundSelected hseenNow
  have hdate : frame.zone.dateOf found = frame.zone.dateOf hit := Date.le_antisymm hby hfrom
  rw [SeesBehind, hdate, hseen] at hfoundSeen
  rw [hfound, hfoundSeen]

/-- From the end of a day a window is found within seven days. -/
theorem lt_dateOf_add_seven (hminutes : frame.zone.CountsMinutes)
    (hwindow : recurrence.isWindow = true) (hdate : date.IsSupported)
    (hprevious : frame.previousOf recurrence (frame.endOfDay date) = some hit) :
    date.dayNumber < (frame.zone.dateOf hit).dayNumber + 7 := by
  have hselected := (reachesBack_of_previousOf horderly hwell hprevious).1
  have htimes := times_ne_nil_of_lookBehind? (seesBehind_of_previousOf horderly hwell hprevious)
  have hle : (frame.zone.dateOf hit).dayNumber ≤ date.dayNumber := by
    rw [← dateOf_endOfDay horderly hminutes date]
    exact dateOf_le_of_previousOf horderly hwell hprevious
  obtain ⟨after, hafter⟩ : ∃ after : Date, after.dayNumber = date.dayNumber + 1 := ⟨⟨_⟩, rfl⟩
  have hbehind : frame.zone.dateOf hit < after :=
    show (frame.zone.dateOf hit).dayNumber < after.dayNumber by omega
  obtain ⟨near, hbefore, hfrom, hwithin, hweeks⟩ :=
    Date.exists_before hbehind (show 0 < 7 by decide)
  have hbefore : near.dayNumber < after.dayNumber := hbefore
  have hby : near ≤ date := show near.dayNumber ≤ date.dayNumber by omega
  obtain ⟨_, hseen⟩ := exists_lookBehind?_of_le horderly hminutes hwell htimes hby
  have hto : near.dayNumber ≤ (frame.zone.dateOf hit).dayNumber :=
    le_dateOf_of_previousOf horderly hwell hprevious
      ⟨hselected.1.of_between hdate hfrom hby, hselected.2.of_isWindow hwindow hweeks⟩ hseen
  omega

end Orderly

theorem reachesBack_self_of_isWindow (hwindow : recurrence.isWindow = true) (date : Date) :
    frame.ReachesBack recurrence date date := by
  cases recurrence with
  | window =>
    have hdays : (0 : Int) < Reach.days := by decide
    exact Int.lt_add_of_pos_right _ hdays
  | daily | weekly | monthly | ordinal | once | yearly => cases hwindow

end Frame

namespace Schedule

variable {schedule : Schedule} {zone : Zone} {closing : Option Date} {resumptions : Nat}
  {cursor earlier candidate hit : Instant} {resume : Date}

/-- A search finds something if its candidate lies on the date of another one that leads
to something. -/
theorem exists_of_settleBack {found : Instant}
    (hfound : (Frame.ofSchedule schedule zone).previousOf schedule.recurrence earlier = some found)
    (hdate : zone.dateOf found = zone.dateOf candidate)
    (hsettle : schedule.settleBack zone closing resumptions candidate = some hit) :
    ∃ other, schedule.searchBackward zone closing (resumptions + 1) earlier = some other := by
  simp only [searchBackward_succ, hfound, Option.bind_some]
  obtain ⟨hstarted, ⟨_, hadmits⟩ | hretreats⟩ := settleBack_eq_some_iff.mp hsettle
  · exact ⟨found, settleBack_eq_some_iff.mpr ⟨hdate ▸ hstarted, .inl ⟨rfl, hdate ▸ hadmits⟩⟩⟩
  · exact ⟨hit, settleBack_eq_some_iff.mpr ⟨hdate ▸ hstarted, .inr (hdate ▸ hretreats)⟩⟩

section Orderly

variable (horderly : zone.IsOrderly) (hminutes : zone.CountsMinutes)
  (hwell : schedule.recurrence.WellFormed)
include horderly hminutes hwell

/-- The date of what a search finds is one of which it has seen something. -/
theorem exists_lookBehind?_of_searchBackward
    (hsearch : schedule.searchBackward zone closing resumptions cursor = some hit) :
    ∃ seen, (Frame.ofSchedule schedule zone).lookBehind? schedule.recurrence cursor
      (zone.dateOf hit) = some seen := by
  have hframe : (Frame.ofSchedule schedule zone).zone.IsOrderly := horderly
  cases resumptions with
  | zero => exact nomatch hsearch
  | succ resumptions =>
    rw [searchBackward_succ] at hsearch
    obtain ⟨candidate, hcandidate, hsettle⟩ := Option.bind_eq_some_iff.mp hsearch
    have hsees := Frame.seesBehind_of_previousOf hframe hwell hcandidate
    obtain ⟨_, ⟨rfl, _⟩ | ⟨resume, hretreats, hrest⟩⟩ := settleBack_eq_some_iff.mp hsettle
    · exact ⟨candidate, hsees⟩
    · have hby := dateOf_le_of_searchBackward horderly hwell hminutes hrest
      rw [show zone.dateOf ((Frame.ofSchedule schedule zone).endOfDay resume) = resume from
        Frame.dateOf_endOfDay hframe hminutes resume] at hby
      exact Frame.exists_lookBehind?_of_lt hframe.keepsDates
        (Frame.times_ne_nil_of_lookBehind? hsees) (Int.lt_of_le_of_lt hby (Int.lt_of_lt_of_le
          hretreats.lt (Frame.dateOf_le_of_previousOf hframe hwell hcandidate)))

/-- A search that starts on a date over which another one is sent back is sent back to
the same date, or lands before it like the other one. -/
theorem exists_of_retreats (hturns : ¬ schedule.recurrence.MaySitOut)
    (hcursor : (zone.dateOf cursor).IsSupported)
    (hcandidate : (Frame.ofSchedule schedule zone).previousOf schedule.recurrence cursor =
      some candidate)
    (hretreats : schedule.Retreats closing (zone.dateOf candidate) resume)
    (hafter : resume < zone.dateOf earlier) (hby : zone.dateOf earlier ≤ zone.dateOf candidate)
    (hrest : schedule.searchBackward zone closing resumptions
      ((Frame.ofSchedule schedule zone).endOfDay resume) = some hit) :
    ∃ other, schedule.searchBackward zone closing (resumptions + 1) earlier = some other := by
  have hframe : (Frame.ofSchedule schedule zone).zone.IsOrderly := horderly
  have hend : zone.dateOf ((Frame.ofSchedule schedule zone).endOfDay resume) = resume :=
    Frame.dateOf_endOfDay hframe hminutes resume
  cases resumptions with
  | zero => exact nomatch hrest
  | succ resumptions =>
    have hsearch := hrest
    rw [searchBackward_succ] at hsearch
    obtain ⟨landed, hlanded, hsettle⟩ := Option.bind_eq_some_iff.mp hsearch
    obtain ⟨hcandidateSelected, hreaches⟩ := Frame.reachesBack_of_previousOf hframe hwell hcandidate
    obtain ⟨hselected, hreached⟩ := Frame.reachesBack_of_previousOf hframe hwell hlanded
    have hlandedSeen := Frame.seesBehind_of_previousOf hframe hwell hlanded
    have htimes := Frame.times_ne_nil_of_lookBehind? hlandedSeen
    have hlandedLe : zone.dateOf landed ≤ resume :=
      hend ▸ Frame.dateOf_le_of_previousOf hframe hwell hlanded
    have hlandedLt := Int.lt_of_le_of_lt hlandedLe hafter
    obtain ⟨before, hbeforeSelected, hbeforeReached, hbefore⟩ :=
      Frame.exists_reachesBack hwell hturns hselected hreached hcursor hreaches.startsBack
        hlandedLt (Int.le_trans hby (Frame.dateOf_le_of_previousOf hframe hwell hcandidate))
    obtain ⟨_, hseen⟩ := Frame.exists_lookBehind?_of_lt hframe.keepsDates htimes hbefore
    obtain ⟨found, hfound⟩ :=
      Frame.exists_previousOf hframe hwell hbeforeSelected hbeforeReached hseen
    have hfoundLe : zone.dateOf found ≤ zone.dateOf earlier :=
      Frame.dateOf_le_of_previousOf hframe hwell hfound
    by_cases hfoundAfter : resume < zone.dateOf found
    · have hsame := hretreats.of_between hcandidateSelected.1 hfoundAfter
        (Int.le_trans hfoundLe hby)
      have hhit : zone.dateOf hit ≤ resume :=
        hend ▸ dateOf_le_of_searchBackward horderly hwell hminutes hrest
      refine ⟨hit, ?_⟩
      rw [searchBackward_succ, hfound, Option.bind_some]
      refine settleBack_eq_some_iff.mpr ⟨fun first hfirst => ?_, .inr ⟨resume, hsame, hrest⟩⟩
      exact Int.le_trans ((admits_of_searchBackward horderly hwell hrest).2.2 first hfirst)
        (Int.le_trans hhit (Int.le_of_lt hfoundAfter))
    · -- Both land on the last selected date up to `resume`.
      have hfoundSelected := (Frame.reachesBack_of_previousOf hframe hwell hfound).1
      obtain ⟨_, hlandedSeen⟩ := Frame.exists_lookBehind?_of_lt hframe.keepsDates htimes hlandedLt
      have hfrom := Frame.le_dateOf_of_previousOf hframe hwell hfound hselected hlandedSeen
      obtain ⟨_, hfoundSeen⟩ : ∃ seen, (Frame.ofSchedule schedule zone).lookBehind?
          schedule.recurrence ((Frame.ofSchedule schedule zone).endOfDay resume)
            (zone.dateOf found) = some seen :=
        Frame.exists_lookBehind?_of_le hframe hminutes hwell htimes (Int.not_lt.mp hfoundAfter)
      have hto := Frame.le_dateOf_of_previousOf hframe hwell hlanded hfoundSelected hfoundSeen
      obtain ⟨other, hother⟩ := exists_of_settleBack hfound (Date.le_antisymm hto hfrom) hsettle
      exact ⟨other, searchBackward_mono (Nat.le_succ _) hother⟩

/-- A search that starts earlier finds something, if the other one sees the date that it
starts from. -/
theorem exists_searchBackward_of_covers
    (hturns : schedule.recurrence.MaySitOut →
      ∀ date resume, ¬ schedule.Retreats closing date resume)
    (hcursor : (zone.dateOf cursor).IsSupported) (hle : zone.dateOf earlier ≤ zone.dateOf cursor)
    (hcovers : (Frame.ofSchedule schedule zone).Covers schedule.recurrence cursor earlier)
    (hby : zone.dateOf hit ≤ zone.dateOf earlier)
    (hseen : zone.dateOf hit = zone.dateOf earlier → ∃ seen,
      (Frame.ofSchedule schedule zone).lookBehind? schedule.recurrence earlier
        (zone.dateOf earlier) = some seen)
    (hsearch : schedule.searchBackward zone closing resumptions cursor = some hit) :
    ∃ other, schedule.searchBackward zone closing resumptions earlier = some other := by
  have hframe : (Frame.ofSchedule schedule zone).zone.IsOrderly := horderly
  induction resumptions generalizing cursor with
  | zero => exact nomatch hsearch
  | succ resumptions ih =>
    have hhit := admits_of_searchBackward horderly hwell hsearch
    rw [searchBackward_succ] at hsearch
    obtain ⟨candidate, hcandidate, hsettle⟩ := Option.bind_eq_some_iff.mp hsearch
    obtain ⟨hselected, hreaches⟩ := Frame.reachesBack_of_previousOf hframe hwell hcandidate
    by_cases hbefore : zone.dateOf candidate < zone.dateOf earlier
    · have hfound := Frame.previousOf_eq_of_le hframe hwell hcursor hcandidate hle hbefore hcovers
      exact exists_of_settleBack hfound rfl hsettle
    have hnotBefore : zone.dateOf earlier ≤ zone.dateOf candidate := Int.not_lt.mp hbefore
    obtain ⟨_, ⟨rfl, _⟩ | ⟨resume, hretreats, hrest⟩⟩ := settleBack_eq_some_iff.mp hsettle
    · -- The occurrence itself lies on the date of `earlier`.
      have hdate : zone.dateOf candidate = zone.dateOf earlier :=
        Date.le_antisymm hby hnotBefore
      obtain ⟨seen, hseen⟩ := hseen hdate
      rw [← hdate] at hseen
      obtain ⟨found, hfound⟩ := Frame.exists_previousOf hframe hwell hselected
        (hreaches.of_start_ge hcursor hselected.2 hby hle) hseen
      have hfrom := Frame.le_dateOf_of_previousOf hframe hwell hfound hselected hseen
      have hto := Frame.dateOf_le_of_previousOf hframe hwell hfound
      exact exists_of_settleBack hfound
        (Date.le_antisymm (Int.le_trans hto hnotBefore) hfrom) hsettle
    · have hend : zone.dateOf ((Frame.ofSchedule schedule zone).endOfDay resume) = resume :=
        Frame.dateOf_endOfDay hframe hminutes resume
      by_cases hafter : resume < zone.dateOf earlier
      · exact exists_of_retreats horderly hminutes hwell
          (fun hrests => hturns hrests _ _ hretreats) hcursor hcandidate hretreats hafter
          hnotBefore hrest
      · have hresumed : zone.dateOf earlier ≤ resume := Int.not_lt.mp hafter
        have hsupported := hhit.1.1.of_between hselected.1 (Int.le_trans hby hresumed)
          (Int.le_of_lt hretreats.lt)
        obtain ⟨other, hother⟩ := ih (hend.symm ▸ hsupported) (hend.symm ▸ hresumed)
          (Frame.covers_endOfDay hframe hwell hminutes hresumed) hrest
        exact ⟨other, searchBackward_mono (Nat.le_succ _) hother⟩

/-! ### Windows -/

section Windows

variable (hwindow : schedule.recurrence.isWindow = true)
include hwindow

/-- A slot that only the search from `earlier` sees, on a date that is rejected, costs it
one resumption. -/
theorem exists_searchBackward_of_isWindow
    (hcursor : (zone.dateOf cursor).IsSupported) (hle : zone.dateOf earlier ≤ zone.dateOf cursor)
    (hby : zone.dateOf hit ≤ zone.dateOf earlier)
    (hseen : zone.dateOf hit = zone.dateOf earlier → ∃ seen,
      (Frame.ofSchedule schedule zone).lookBehind? schedule.recurrence earlier
        (zone.dateOf earlier) = some seen)
    (hrejected : zone.dateOf hit < zone.dateOf earlier →
      schedule.recurrence.Selects schedule.anchor (zone.dateOf earlier) →
      schedule.Admits closing (zone.dateOf earlier) →
      (Frame.ofSchedule schedule zone).lookBehind? schedule.recurrence earlier
        (zone.dateOf earlier) = none)
    (hsearch : schedule.searchBackward zone closing resumptions cursor = some hit) :
    ∃ other, schedule.searchBackward zone closing (resumptions + 1) earlier = some other := by
  have hframe : (Frame.ofSchedule schedule zone).zone.IsOrderly := horderly
  have hturns : schedule.recurrence.MaySitOut →
      ∀ date resume, ¬ schedule.Retreats closing date resume := fun hrests =>
    absurd hrests (Recurrence.not_maySitOut_of_isWindow hwindow)
  by_cases hcovers :
      (Frame.ofSchedule schedule zone).Covers schedule.recurrence cursor earlier
  · obtain ⟨other, hother⟩ := exists_searchBackward_of_covers horderly hminutes hwell hturns
      hcursor hle hcovers hby hseen hsearch
    exact ⟨other, searchBackward_mono (Nat.le_succ _) hother⟩
  have hdates : zone.dateOf earlier = zone.dateOf cursor := (Date.lt_or_eq_of_le hle).resolve_left
    fun hlt => hcovers (Frame.covers_of_lt hframe.keepsDates hlt)
  simp only [Frame.Covers, not_forall] at hcovers
  obtain ⟨hselects, seen, hlook, hmissed⟩ := hcovers
  obtain ⟨hhitSelected, hadmits, hstarted⟩ := admits_of_searchBackward horderly hwell hsearch
  have hlt : zone.dateOf hit < zone.dateOf earlier := by
    refine Date.lt_of_le_of_ne hby fun hsame => hmissed ?_
    have hfound := exists_lookBehind?_of_searchBackward horderly hminutes hwell hsearch
    rwa [hsame] at hfound
  have hearlier : (zone.dateOf earlier).IsSupported := hdates ▸ hcursor
  have hnotAdmits : ¬ schedule.Admits closing (zone.dateOf earlier) := fun hadmits =>
    nomatch hlook.symm.trans (hrejected hlt hselects hadmits)
  obtain ⟨resume, hretreats, hresumed⟩ :=
    Retreats.exists_of_not_admits hearlier hhitSelected.1 hnotAdmits hadmits hlt
  have hend : zone.dateOf ((Frame.ofSchedule schedule zone).endOfDay resume) = resume :=
    Frame.dateOf_endOfDay hframe hminutes resume
  have hresumeLt : resume < zone.dateOf cursor := hdates ▸ hretreats.lt
  obtain ⟨other, hother⟩ := exists_searchBackward_of_covers horderly hminutes hwell hturns hcursor
    (hend.symm ▸ Int.le_of_lt hresumeLt)
    (Frame.covers_of_lt hframe.keepsDates (hend.symm ▸ hresumeLt))
    (hend.symm ▸ hresumed)
    (fun _ => hend.symm ▸ Frame.exists_lookBehind?_endOfDay hframe hminutes hwell
      (Frame.times_ne_nil_of_lookBehind? hlook) resume) hsearch
  have hselected : (zone.dateOf earlier).IsSupported ∧
      schedule.recurrence.Selects schedule.anchor (zone.dateOf earlier) := ⟨hearlier, hselects⟩
  obtain ⟨found, hfound⟩ := Frame.exists_previousOf hframe hwell hselected
    (Frame.reachesBack_self_of_isWindow hwindow _) hlook
  have hfoundDate : zone.dateOf found = zone.dateOf earlier :=
    Date.le_antisymm (Frame.dateOf_le_of_previousOf hframe hwell hfound)
      (Frame.le_dateOf_of_previousOf hframe hwell hfound hselected hlook)
  refine ⟨other, ?_⟩
  rw [searchBackward_succ, hfound, Option.bind_some]
  refine settleBack_eq_some_iff.mpr ⟨fun first hfirst => ?_, .inr ⟨resume, ?_, hother⟩⟩
  · exact hfoundDate ▸ Int.le_trans (hstarted first hfirst) (Int.le_of_lt hlt)
  · exact hfoundDate ▸ hretreats

variable (hkept : schedule.skipped = [])
include hkept

/-- From the end of the season a window is found within seven days. -/
theorem searchBackward_of_seasonEnd {date : Date} (hdate : date.IsSupported)
    (hopen : ∀ last ∈ closing, date ≤ last) (hout : inSeason schedule.season date = false)
    (hend : previousSeasonEnd? schedule.season date = some resume)
    (hsearch : schedule.searchBackward zone closing resumptions
      ((Frame.ofSchedule schedule zone).endOfDay resume) = some hit) :
    schedule.searchBackward zone closing 1
      ((Frame.ofSchedule schedule zone).endOfDay resume) = some hit := by
  have hframe : (Frame.ofSchedule schedule zone).zone.IsOrderly := horderly
  have hendOfDay : zone.dateOf ((Frame.ofSchedule schedule zone).endOfDay resume) = resume :=
    Frame.dateOf_endOfDay hframe hminutes resume
  have hbehind := (previousSeasonEnd?_spec hend hout).1
  obtain ⟨hhit, hadmits, _⟩ := admits_of_searchBackward horderly hwell hsearch
  have hhitLe : zone.dateOf hit ≤ resume :=
    hendOfDay ▸ dateOf_le_of_searchBackward horderly hwell hminutes hsearch
  obtain ⟨last, hlast, _, hnear⟩ := exists_previousSeasonEnd? hdate hhit.1 hout hadmits.inSeason
    (Int.lt_of_le_of_lt hhitLe hbehind)
  obtain rfl := Option.some.inj (hend.symm.trans hlast)
  have hresume := hhit.1.of_between hdate hhitLe (Int.le_of_lt hbehind)
  cases resumptions with
  | zero => exact nomatch hsearch
  | succ resumptions =>
    rw [searchBackward_succ] at hsearch ⊢
    obtain ⟨candidate, hcandidate, hsettle⟩ := Option.bind_eq_some_iff.mp hsearch
    have hle : zone.dateOf candidate ≤ resume :=
      hendOfDay ▸ Frame.dateOf_le_of_previousOf hframe hwell hcandidate
    have hclose : resume.dayNumber < (zone.dateOf candidate).dayNumber + 7 :=
      Frame.lt_dateOf_add_seven hframe hwell hminutes hwindow hresume hcandidate
    have hadmitted : schedule.Admits closing (zone.dateOf candidate) :=
      ⟨hnear _ hle (by omega), by rw [skips, hkept, List.any_nil], fun last hlast =>
        Int.le_trans hle (Int.le_trans (Int.le_of_lt hbehind) (hopen last hlast))⟩
    obtain ⟨hstarted, ⟨rfl, _⟩ | ⟨_, hretreats, _⟩⟩ := settleBack_eq_some_iff.mp hsettle
    · rw [hcandidate, Option.bind_some]
      exact settleBack_eq_some_iff.mpr ⟨hstarted, .inl ⟨rfl, hadmitted⟩⟩
    · exact absurd hadmitted (hretreats.not_admits hretreats.lt (Int.le_refl _))

/-- Up to the closing date a window is found after one resumption at most. -/
theorem searchBackward_two (hopen : ∀ last ∈ closing, zone.dateOf cursor ≤ last)
    (hsearch : schedule.searchBackward zone closing resumptions cursor = some hit) :
    schedule.searchBackward zone closing 2 cursor = some hit := by
  have hframe : (Frame.ofSchedule schedule zone).zone.IsOrderly := horderly
  cases resumptions with
  | zero => exact nomatch hsearch
  | succ resumptions =>
    refine searchBackward_succ_of_retreats (fun candidate resume hcandidate hretreats hrest => ?_)
      hsearch
    have hselected := (Frame.reachesBack_of_previousOf hframe hwell hcandidate).1
    cases hretreats with
    | closed hlast hlt =>
      exact absurd hlt (Int.not_lt.mpr (Int.le_trans
        (Frame.dateOf_le_of_previousOf hframe hwell hcandidate) (hopen resume hlast)))
    | seasonEnd hopen hout hend =>
      exact searchBackward_of_seasonEnd horderly hminutes hwell hwindow hkept hselected.1 hopen
        hout hend hrest
    | before _ _ hskipped _ =>
      rw [skips, hkept, List.any_nil] at hskipped
      cases hskipped

/-- A window without skipped days is found after two resumptions at most: at the closing
date, and at the end of the season. -/
theorem searchBackward_three
    (hsearch : schedule.searchBackward zone closing resumptions cursor = some hit) :
    schedule.searchBackward zone closing 3 cursor = some hit := by
  have hframe : (Frame.ofSchedule schedule zone).zone.IsOrderly := horderly
  cases resumptions with
  | zero => exact nomatch hsearch
  | succ resumptions =>
    refine searchBackward_succ_of_retreats (fun _ resume _ hretreats hrest => ?_) hsearch
    have hend : zone.dateOf ((Frame.ofSchedule schedule zone).endOfDay resume) = resume :=
      Frame.dateOf_endOfDay hframe hminutes resume
    exact searchBackward_two horderly hminutes hwell hwindow hkept
      (hend.symm ▸ hretreats.notClosed) hrest

end Windows

end Orderly

end Schedule

end Cadence
