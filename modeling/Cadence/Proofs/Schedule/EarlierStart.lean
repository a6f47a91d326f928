import Mathlib
import Cadence.Proofs.Expression.ParsedSchedules
import Cadence.Proofs.Occurrence.EarlierStart
import Cadence.Proofs.Schedule.ScanReach

/-!
# The previous occurrence from earlier on

Back to the previous occurrence it stays the previous one, and for listed times the
search finds it again, unless clocks make the last of them come before another one.  A
search of a window goes down from the slot that the clock of the current date shows.
When clocks have gone back this slot may not be the last one that has passed, and an
earlier start, from before the change, may see a later slot.
-/

namespace Cadence

namespace Schedule

variable {schedule : Schedule} {zone : Zone} {closing other : Option Date} {resumptions : Nat}
  {now earlier cursor hit found : Instant} {date : Date}

/-- Whether a search may fail to get back to an occurrence that one with a later start
finds.  On the date it starts from it may see one more slot of a window, and with it one
more skipped date; and from where a clause sends the other search it may not get from
one leap day, or fifth weekday, to another. -/
def MayFallShort (schedule : Schedule) : Prop :=
  schedule.recurrence.isWindow = true ∧ schedule.skipped ≠ [] ∨
    schedule.recurrence.MaySitOut ∧ ¬ schedule.IsClauseFree

/-- What the search sees on the date of `earlier` is the occurrence, if that lies on this
date, and nothing otherwise. -/
def LeadsBack (schedule : Schedule) (zone : Zone) (closing : Option Date)
    (earlier hit : Instant) : Prop :=
  schedule.recurrence.Selects schedule.anchor (zone.dateOf earlier) →
    schedule.Admits closing (zone.dateOf earlier) →
      (Frame.ofSchedule schedule zone).lookBehind? schedule.recurrence earlier
        (zone.dateOf earlier) = if zone.dateOf hit = zone.dateOf earlier then some hit else none

theorem IsClauseFree.not_retreats (hfree : schedule.IsClauseFree) (reference date resume : Date) :
    ¬ schedule.Retreats (schedule.closingDate? reference) date resume := by
  intro hretreats
  cases hretreats with
  | closed hlast _ =>
    rw [closingDate?, hfree.lastDay] at hlast
    cases hlast
  | seasonEnd _ hout _ =>
    rw [hfree.inSeason] at hout
    cases hout
  | before _ _ hskipped _ =>
    rw [hfree.skips] at hskipped
    cases hskipped

/-! ## Closing dates -/

theorem LeadsBack.of_notClosed (hclosing : ∀ last ∈ closing, zone.dateOf earlier ≤ last)
    (hleads : schedule.LeadsBack zone closing earlier hit) :
    schedule.LeadsBack zone other earlier hit :=
  fun hselects hadmits => hleads hselects ⟨hadmits.inSeason, hadmits.notSkipped, hclosing⟩

/-- Seen from two dates the schedule is closed on the same date, or on neither of them. -/
theorem closingDate?_eq_or_notClosed {reference : Date} (hwell : schedule.WellFormed)
    (hdate : date.IsSupported)
    (hreference : reference.year + CalendarDay.lookahead ≤ Date.greatestYear)
    (hle : date ≤ reference) :
    schedule.closingDate? date = schedule.closingDate? reference ∨
      (∀ last ∈ schedule.closingDate? date, date ≤ last) ∧
        ∀ last ∈ schedule.closingDate? reference, date ≤ last := by
  have hyear := Date.year_mono hle
  have hleast := (Date.isSupported_iff_year.mp hdate).1
  cases hlast : schedule.lastDay with
  | none => exact .inl (by rw [closingDate?, closingDate?, hlast]; rfl)
  | some day =>
    cases day with
    | fixed last => exact .inl (closingDate?_fixed hlast date reference)
    | yearly month day =>
      exact .inr ⟨notClosed_of_le hwell hlast hleast (by omega) (Int.le_refl date.dayNumber),
        notClosed_of_le hwell hlast (by omega) hreference hle⟩

section Orderly

variable (horderly : zone.IsOrderly) (hminutes : zone.CountsMinutes)
  (hwell : schedule.recurrence.WellFormed)
include horderly hminutes hwell

/-- A search that starts by the closing date does not depend on it. -/
theorem searchBackward_of_notClosed (hclosing : ∀ last ∈ closing, zone.dateOf cursor ≤ last)
    (hother : ∀ last ∈ other, zone.dateOf cursor ≤ last)
    (hsearch : schedule.searchBackward zone closing resumptions cursor = some hit) :
    schedule.searchBackward zone other resumptions cursor = some hit := by
  have hframe : (Frame.ofSchedule schedule zone).zone.IsOrderly := horderly
  induction resumptions generalizing cursor with
  | zero => exact nomatch hsearch
  | succ resumptions ih =>
    rw [searchBackward_succ] at hsearch ⊢
    obtain ⟨candidate, hcandidate, hsettle⟩ := Option.bind_eq_some_iff.mp hsearch
    rw [hcandidate, Option.bind_some]
    have hle : zone.dateOf candidate ≤ zone.dateOf cursor :=
      Frame.dateOf_le_of_previousOf hframe hwell hcandidate
    have hopen : ∀ last ∈ other, zone.dateOf candidate ≤ last :=
      fun last hlast => Int.le_trans hle (hother last hlast)
    obtain ⟨hstarted, hfound⟩ := settleBack_eq_some_iff.mp hsettle
    refine settleBack_eq_some_iff.mpr ⟨hstarted, ?_⟩
    rcases hfound with ⟨rfl, hadmits⟩ | ⟨resume, hretreats, hrest⟩
    · exact .inl ⟨rfl, hadmits.inSeason, hadmits.notSkipped, hopen⟩
    · have hend : zone.dateOf ((Frame.ofSchedule schedule zone).endOfDay resume) = resume :=
        Frame.dateOf_endOfDay hframe hminutes resume
      have hby := Int.le_of_lt (Int.lt_of_lt_of_le hretreats.lt hle)
      refine .inr ⟨resume, ?_, ih (fun last hlast => ?_) (fun last hlast => ?_) hrest⟩
      · cases hretreats with
        | closed hlast hlt =>
          exact absurd hlt (Int.not_lt.mpr (Int.le_trans hle (hclosing resume hlast)))
        | seasonEnd _ hout hprevious => exact .seasonEnd hopen hout hprevious
        | before _ hin hskipped hbefore => exact .before hopen hin hskipped hbefore
      · exact hend.symm ▸ Int.le_trans hby (hclosing last hlast)
      · exact hend.symm ▸ Int.le_trans hby (hother last hlast)

/-! ## What leads back to an occurrence -/

section Later

variable (hends : ∀ rejected, schedule.Retreats closing rejected (zone.dateOf hit) →
    schedule.recurrence.isWindow = false → (Frame.ofSchedule schedule zone).EndsOnClock
      schedule.recurrence.times (zone.dateOf hit))
include hends

/-- A search that finds an occurrence is led back to it. -/
theorem leadsBack_of_searchBackward (hearlier : (zone.dateOf earlier).IsSupported)
    (hsearch : schedule.searchBackward zone closing resumptions earlier = some hit) :
    schedule.LeadsBack zone closing earlier hit := by
  intro hselects hadmits
  split
  · rename_i hdate
    have hlook := lookBehind?_of_searchBackward horderly hwell hminutes hends hsearch
    rwa [hdate] at hlook
  · rename_i hne
    have hlt : zone.dateOf hit < zone.dateOf earlier :=
      Date.lt_of_le_of_ne (dateOf_le_of_searchBackward horderly hwell hminutes hsearch) hne
    rw [Option.eq_none_iff_forall_ne_some]
    intro seen hseen
    exact not_admits_of_lookBehind? horderly hwell hminutes hsearch ⟨hearlier, hselects⟩ hseen hlt
      hadmits

variable (hsearch : schedule.searchBackward zone closing resumptions now = some hit)
  (hle : earlier ≤ now) (hlt : hit < earlier)
include hsearch hle hlt

/-- A search of listed times is led back to the occurrence from wherever it starts, if
the last of them on the clock is the last to be reached. -/
theorem leadsBack_of_listed (hearlier : (zone.dateOf earlier).IsSupported)
    (hlisted : schedule.recurrence.isWindow = false)
    (hclock : (Frame.ofSchedule schedule zone).EndsOnClock schedule.recurrence.times
      (zone.dateOf hit)) : schedule.LeadsBack zone closing earlier hit := by
  have hframe : (Frame.ofSchedule schedule zone).zone.IsOrderly := horderly
  intro hselects hadmits
  split
  · rename_i hdate
    have hlook := lookBehind?_of_searchBackward horderly hwell hminutes hends hsearch
    rw [hdate] at hlook hclock
    exact Frame.lookBehind?_eq_of_le hframe hlisted hclock hlook hle hlt
  · rename_i hne
    have hbefore : zone.dateOf hit < zone.dateOf earlier :=
      Date.lt_of_le_of_ne (horderly.dateOf_mono (Instant.le_of_lt hlt)) hne
    rw [Option.eq_none_iff_forall_ne_some]
    intro seen hseen
    obtain ⟨_, hseen⟩ := Frame.covers_of_listed hframe hlisted hle hselects seen hseen
    exact not_admits_of_lookBehind? horderly hwell hminutes hsearch ⟨hearlier, hselects⟩ hseen
      hbefore hadmits

variable (hleads : schedule.LeadsBack zone closing earlier hit)
include hleads

/-- A search that is led back to the occurrence sees it from where it starts. -/
theorem lookBehind?_of_leadsBack :
    (Frame.ofSchedule schedule zone).lookBehind? schedule.recurrence earlier (zone.dateOf hit) =
      some hit := by
  have hzone : (Frame.ofSchedule schedule zone).zone.KeepsDates := horderly.keepsDates
  rcases Date.lt_or_eq_of_le (horderly.dateOf_mono (Instant.le_of_lt hlt)) with hbefore | hsame
  · rw [Frame.lookBehind?_congr hzone hbefore
      (Int.lt_of_lt_of_le hbefore (horderly.dateOf_mono hle))]
    exact lookBehind?_of_searchBackward horderly hwell hminutes hends hsearch
  · obtain ⟨⟨_, hselects⟩, hadmits, _⟩ := admits_of_searchBackward horderly hwell hsearch
    rw [hsame] at hselects hadmits ⊢
    exact (hleads hselects hadmits).trans (if_pos hsame)

/-- A search that is led back to the occurrence finds nothing else. -/
theorem eq_of_leadsBack
    (hfound : schedule.searchBackward zone closing resumptions earlier = some found) :
    found = hit := by
  have hzone : (Frame.ofSchedule schedule zone).zone.KeepsDates := horderly.keepsDates
  obtain ⟨hselected, hadmits, _⟩ := admits_of_searchBackward horderly hwell hsearch
  obtain ⟨hfoundSelected, hfoundAdmits, _⟩ := admits_of_searchBackward horderly hwell hfound
  obtain ⟨seen, hseen⟩ := exists_lookBehind?_of_searchBackward horderly hminutes hwell hfound
  have hlook := lookBehind?_of_leadsBack horderly hminutes hwell hends hsearch hle hlt hleads
  have hfrom : zone.dateOf hit ≤ zone.dateOf found := Int.not_lt.mp fun hbefore =>
    not_admits_of_lookBehind? horderly hwell hminutes hfound hselected hlook hbefore hadmits
  have hto : zone.dateOf found ≤ zone.dateOf hit := Int.not_lt.mp fun hafter => by
    -- The search from `now` would have seen something of that date as well.
    obtain ⟨_, hmissed⟩ : ∃ seen, (Frame.ofSchedule schedule zone).lookBehind?
        schedule.recurrence now (zone.dateOf found) = some seen := by
      rcases Date.lt_or_eq_of_le (dateOf_le_of_searchBackward horderly hwell hminutes hfound)
        with hbefore | hon
      · exact Frame.exists_lookBehind?_of_lt hzone (Frame.times_ne_nil_of_lookBehind? hseen)
          (Int.lt_of_lt_of_le hbefore (horderly.dateOf_mono hle))
      · rw [hon] at hfoundSelected hfoundAdmits hseen hafter
        rw [hleads hfoundSelected.2 hfoundAdmits,
          if_neg (Date.ne_of_lt hafter)] at hseen
        cases hseen
    exact not_admits_of_lookBehind? horderly hwell hminutes hsearch hfoundSelected hmissed hafter
      hfoundAdmits
  have hdate : zone.dateOf found = zone.dateOf hit := Date.le_antisymm hto hfrom
  have hlookFound := lookBehind?_of_searchBackward horderly hwell hminutes (hdate ▸ hends) hfound
  rw [hdate, hlook] at hlookFound
  exact (Option.some.inj hlookFound).symm

/-- A search that is led back to the occurrence finds something, unless it may fall
short. -/
theorem exists_of_leadsBack
    (hturns : schedule.recurrence.MaySitOut →
      ∀ date resume, ¬ schedule.Retreats closing date resume)
    (hkept : schedule.recurrence.isWindow = true → schedule.skipped = [])
    (hnow : (zone.dateOf now).IsSupported) (hmany : 4 ≤ resumptions) :
    ∃ other, schedule.searchBackward zone closing resumptions earlier = some other := by
  have hframe : (Frame.ofSchedule schedule zone).zone.IsOrderly := horderly
  have hstart : zone.dateOf earlier ≤ zone.dateOf now := horderly.dateOf_mono hle
  have hby : zone.dateOf hit ≤ zone.dateOf earlier := horderly.dateOf_mono (Instant.le_of_lt hlt)
  have hseen : zone.dateOf hit = zone.dateOf earlier → ∃ seen,
      (Frame.ofSchedule schedule zone).lookBehind? schedule.recurrence earlier
        (zone.dateOf earlier) = some seen := fun hsame =>
    ⟨hit, hsame ▸ lookBehind?_of_leadsBack horderly hminutes hwell hends hsearch hle hlt hleads⟩
  cases hwindow : schedule.recurrence.isWindow with
  | false =>
    exact exists_searchBackward_of_covers horderly hminutes hwell hturns hnow hstart
      (Frame.covers_of_listed hframe hwindow hle) hby hseen hsearch
  | true =>
    have hrejected : zone.dateOf hit < zone.dateOf earlier →
        schedule.recurrence.Selects schedule.anchor (zone.dateOf earlier) →
        schedule.Admits closing (zone.dateOf earlier) →
        (Frame.ofSchedule schedule zone).lookBehind? schedule.recurrence earlier
          (zone.dateOf earlier) = none := fun hbefore hselects hadmits =>
      (hleads hselects hadmits).trans (if_neg (Date.ne_of_lt hbefore))
    obtain ⟨other, hother⟩ := exists_searchBackward_of_isWindow horderly hminutes hwell hwindow
      hnow hstart hby hseen hrejected
      (searchBackward_three horderly hminutes hwell hwindow (hkept hwindow) hsearch)
    exact ⟨other, searchBackward_mono hmany hother⟩

end Later

end Orderly

/-! ## Searches in any zone that counts minutes -/

section Read

variable {text : String} (hread : Schedule.ofText text = .ok schedule)
  (horderly : zone.IsOrderly) (hminutes : zone.CountsMinutes)
  (hnow : (zone.dateOf now).year + CalendarDay.lookahead ≤ Date.greatestYear)
  (hprevious : schedule.previousIn zone now = some hit) (hle : earlier ≤ now)
  (hlt : hit < earlier)
include hread horderly hnow hprevious hle hlt

theorem isSupported_of_earlier :
    (zone.dateOf now).IsSupported ∧ (zone.dateOf earlier).IsSupported := by
  have hwell := (wellFormed_of_ofText hread).recurrence
  obtain ⟨⟨hsupported, _⟩, _⟩ := admits_of_searchBackward horderly hwell hprevious
  have hstart : zone.dateOf earlier ≤ zone.dateOf now := horderly.dateOf_mono hle
  have hby : zone.dateOf hit ≤ zone.dateOf earlier := horderly.dateOf_mono (Instant.le_of_lt hlt)
  have hyears := Date.year_mono (Int.le_trans hby hstart)
  have hleast := (Date.isSupported_iff_year.mp hsupported).1
  have hnowSupported : (zone.dateOf now).IsSupported :=
    Date.isSupported_iff_year.mpr ⟨hleast.trans hyears, by omega⟩
  exact ⟨hnowSupported, hsupported.of_between hnowSupported hby hstart⟩

/-- The closing date may be another one from `earlier`, but only if both come later. -/
theorem closing_eq_or_of_earlier :
    schedule.closingDate? (zone.dateOf earlier) = schedule.closingDate? (zone.dateOf now) ∨
      (∀ last ∈ schedule.closingDate? (zone.dateOf earlier), zone.dateOf earlier ≤ last) ∧
        ∀ last ∈ schedule.closingDate? (zone.dateOf now), zone.dateOf earlier ≤ last :=
  closingDate?_eq_or_notClosed (wellFormed_of_ofText hread)
    (isSupported_of_earlier hread horderly hnow hprevious hle hlt).2 hnow (horderly.dateOf_mono hle)

section Backward

variable (hends : ∀ rejected,
  schedule.Retreats (schedule.closingDate? (zone.dateOf now)) rejected (zone.dateOf hit) →
    schedule.recurrence.isWindow = false → (Frame.ofSchedule schedule zone).EndsOnClock
      schedule.recurrence.times (zone.dateOf hit))
include hminutes

/-- From `earlier` the closing date seen from `now` serves as well as its own. -/
theorem previousIn_earlier_eq_some_iff : schedule.previousIn zone earlier = some found ↔
    schedule.searchBackward zone (schedule.closingDate? (zone.dateOf now)) Reach.resumptions
      earlier = some found := by
  have hwell := (wellFormed_of_ofText hread).recurrence
  rcases closing_eq_or_of_earlier hread horderly hnow hprevious hle hlt with
    hsame | ⟨hclosing, hother⟩
  · rw [previousIn, hsame]
  · exact ⟨searchBackward_of_notClosed horderly hminutes hwell hclosing hother,
      searchBackward_of_notClosed horderly hminutes hwell hother hclosing⟩

omit hminutes in
theorem leadsBack_closing_iff :
    schedule.LeadsBack zone (schedule.closingDate? (zone.dateOf earlier)) earlier hit ↔
      schedule.LeadsBack zone (schedule.closingDate? (zone.dateOf now)) earlier hit := by
  rcases closing_eq_or_of_earlier hread horderly hnow hprevious hle hlt with
    hsame | ⟨hclosing, hother⟩
  · rw [hsame]
  · exact ⟨LeadsBack.of_notClosed hclosing, LeadsBack.of_notClosed hother⟩

include hends

/-- A search from `earlier` that is led back to the occurrence finds it, if it finds
anything. -/
theorem previousIn_of_leadsBack
    (hleads : schedule.LeadsBack zone (schedule.closingDate? (zone.dateOf now)) earlier hit)
    (hfinds : schedule.MayFallShort → schedule.previousIn zone earlier ≠ none) :
    schedule.previousIn zone earlier = some hit := by
  have hwell := (wellFormed_of_ofText hread).recurrence
  have hfound : ∀ found, schedule.previousIn zone earlier = some found ↔
      schedule.searchBackward zone (schedule.closingDate? (zone.dateOf now)) Reach.resumptions
        earlier = some found := fun _ =>
    previousIn_earlier_eq_some_iff hread horderly hminutes hnow hprevious hle hlt
  obtain ⟨found, hother⟩ : ∃ found, schedule.previousIn zone earlier = some found := by
    by_cases hshort : schedule.MayFallShort
    · exact Option.ne_none_iff_exists'.mp (hfinds hshort)
    · obtain ⟨hkept, hturns⟩ := not_or.mp hshort
      obtain ⟨found, hsearch⟩ := exists_of_leadsBack horderly hminutes hwell hends hprevious hle
        hlt hleads
        (fun hsits => IsClauseFree.not_retreats (not_not.mp (not_and.mp hturns hsits)) _)
        (fun hwindow => not_not.mp (not_and.mp hkept hwindow))
        (isSupported_of_earlier hread horderly hnow hprevious hle hlt).1 (by decide)
      exact ⟨found, (hfound found).mpr hsearch⟩
  rw [hother, eq_of_leadsBack horderly hminutes hwell hends hprevious hle hlt hleads
    ((hfound found).mp hother)]

/-- For listed times the search finds the occurrence again, if the last of them on the
clock is the last that its date reaches. -/
theorem previousIn_earlier_of_listed (hlisted : schedule.recurrence.isWindow = false)
    (hclock : (Frame.ofSchedule schedule zone).EndsOnClock schedule.recurrence.times
      (zone.dateOf hit))
    (hturns : schedule.recurrence.MaySitOut → schedule.IsClauseFree) :
    schedule.previousIn zone earlier = some hit := by
  refine previousIn_of_leadsBack hread horderly hminutes hnow hprevious hle hlt hends ?_ ?_
  · exact leadsBack_of_listed horderly hminutes (wellFormed_of_ofText hread).recurrence hends
      hprevious hle hlt (isSupported_of_earlier hread horderly hnow hprevious hle hlt).2 hlisted
      hclock
  · rintro (⟨hwindow, _⟩ | ⟨hsits, hclauses⟩)
    · exact Bool.noConfusion (hlisted.symm.trans hwindow)
    · exact absurd (hturns hsits) hclauses

/-- Back to the previous occurrence all searches find it that are led back to it, unless
they fall short, and they find nothing else. -/
theorem previousIn_earlier_iff : schedule.previousIn zone earlier = some hit ↔
    schedule.LeadsBack zone (schedule.closingDate? (zone.dateOf earlier)) earlier hit ∧
      (schedule.MayFallShort → schedule.previousIn zone earlier ≠ none) := by
  rw [leadsBack_closing_iff hread horderly hnow hprevious hle hlt]
  constructor
  · intro hfound
    refine ⟨?_, fun _ hnone => nomatch hnone.symm.trans hfound⟩
    exact leadsBack_of_searchBackward horderly hminutes (wellFormed_of_ofText hread).recurrence
      hends (isSupported_of_earlier hread horderly hnow hprevious hle hlt).2
      ((previousIn_earlier_eq_some_iff hread horderly hminutes hnow hprevious hle hlt).mp hfound)
  · rintro ⟨hleads, hfinds⟩
    exact previousIn_of_leadsBack hread horderly hminutes hnow hprevious hle hlt hends hleads hfinds

end Backward

end Read

/-- A clock that goes back from 02:00 to 01:00 on 2026-11-01, as in New York.  Late in
the first hour from 01:00 on, the previous half hour is 01:30 from either instant. -/
theorem previousIn_earlier_iff_before_change :
    ∃ schedule, Schedule.ofText "every 30 min from 00:00 to 23:59" = .ok schedule ∧
      schedule.previousIn ⟨"America/New_York", -14400, [⟨63929196000, -18000⟩]⟩
        (.ofSecond 63929195400) = some (.ofSecond 63929194200) ∧
      schedule.previousIn ⟨"America/New_York", -14400, [⟨63929196000, -18000⟩]⟩
        (.ofSecond 63929195100) = some (.ofSecond 63929194200) := by
  let zone : Zone := ⟨"America/New_York", -14400, [⟨63929196000, -18000⟩]⟩
  let schedule : Schedule :=
    ⟨.window 30 .minutes ⟨0, 0⟩ ⟨23, 59⟩ none, none, [], none, none, []⟩
  have hread : Schedule.ofText "every 30 min from 00:00 to 23:59" = .ok schedule := by cbv
  have horderly : zone.IsOrderly := Zone.isOrderly_of_changesKeepDates (by decide) (by decide)
  have hminutes : zone.CountsMinutes := Zone.countsMinutes_of_minutesOnly (by decide)
  have hnow : (zone.dateOf (.ofSecond 63929195400)).year + CalendarDay.lookahead ≤
      Date.greatestYear := by decide
  have hprevious : schedule.previousIn zone (.ofSecond 63929195400) =
      some (.ofSecond 63929194200) := by decide
  have hleads : schedule.LeadsBack zone (schedule.closingDate?
      (zone.dateOf (.ofSecond 63929195100))) (.ofSecond 63929195100) (.ofSecond 63929194200) :=
    fun _ _ => by decide
  have hwindow : schedule.recurrence.isWindow ≠ false := by decide
  refine ⟨schedule, hread, hprevious, ?_⟩
  refine (previousIn_earlier_iff hread horderly hminutes hnow hprevious (by decide) (by decide)
    (fun _ _ hlisted => absurd hlisted hwindow)).mpr ⟨hleads, ?_⟩
  rintro (⟨_, hskipped⟩ | ⟨hsits, _⟩)
  · exact absurd rfl hskipped
  · exact hsits.elim

/-- On that day in New York, at 01:15 after the clock has gone back, the search goes down
from the slot 01:00, and takes the first of the two; the slot 01:30, which has passed
since, lies further up.  Before the change, at 01:45, it still finds 01:30. -/
theorem previous_earlier_ne_after_change :
    ∃ schedule, Schedule.ofText "every 30 min from 00:00 to 23:59 in America/New_York" =
        .ok schedule ∧
      schedule.previous (.ofSecond 63929196900) = .ok (some ⟨.ofSecond 63929192400, -14400⟩) ∧
      schedule.previous (.ofSecond 63929195100) = .ok (some ⟨.ofSecond 63929194200, -14400⟩) := by
  refine ⟨⟨.window 30 .minutes ⟨0, 0⟩ ⟨23, 59⟩ none, some "America/New_York", [], none, none, []⟩,
    ?_, ?_, ?_⟩
  · cbv
  · cbv
  · cbv

end Schedule

end Cadence
