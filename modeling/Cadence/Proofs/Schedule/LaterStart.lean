import Mathlib
import Cadence.Proofs.Expression.ParsedSchedules
import Cadence.Proofs.Occurrence.ClosingDates
import Cadence.Proofs.Occurrence.LaterStart

/-!
# The next occurrence from later on

Until the next occurrence comes it stays the next one, and for listed times the
search finds it again.  A search of a window tries one slot on each date, on the
current date the first one after the time that the clock shows.  When clocks go back
that slot may have passed already, and the search goes on to the next date.
-/

namespace Cadence

namespace Schedule

variable {schedule : Schedule} {zone : Zone} {now later hit : Instant}

/-- What the search sees on the date of `later` is the occurrence, if that lies on this
date, and nothing otherwise. -/
def LeadsTo (schedule : Schedule) (zone : Zone) (later hit : Instant) : Prop :=
  (Frame.ofSchedule schedule zone).Proposes schedule.recurrence (zone.dateOf later) →
    schedule.Passes (schedule.closingDate? (zone.dateOf later)) (zone.dateOf later) →
      (Frame.ofSchedule schedule zone).lookAhead? schedule.recurrence later (zone.dateOf later) =
        if zone.dateOf hit = zone.dateOf later then some hit else none

section Orderly

variable (horderly : zone.IsOrderly) (hwell : schedule.recurrence.WellFormed)
include horderly hwell

/-- What a search finds is what it sees on its date. -/
theorem seesAhead_of_nextIn (hnext : schedule.nextIn zone now = some hit) :
    (Frame.ofSchedule schedule zone).SeesAhead schedule.recurrence now (zone.dateOf hit) hit := by
  obtain ⟨date, _, hsees⟩ := (nearest_shown_of_searchForward horderly hwell hnext).holds
  rwa [show zone.dateOf hit = date from hsees.dateOf_eq horderly.keepsDates]

/-- A search sees nothing on the accepted dates before that of what it finds. -/
theorem lookAhead?_eq_none_of_nextIn {date : Date} (hnext : schedule.nextIn zone now = some hit)
    (hproposes : (Frame.ofSchedule schedule zone).Proposes schedule.recurrence date)
    (hpasses : schedule.Passes (schedule.closingDate? (zone.dateOf now)) date)
    (hlt : date < zone.dateOf hit) :
    (Frame.ofSchedule schedule zone).lookAhead? schedule.recurrence now date = none := by
  cases hlook : (Frame.ofSchedule schedule zone).lookAhead? schedule.recurrence now date with
  | none => rfl
  | some seen =>
    have hsees : (Frame.ofSchedule schedule zone).SeesAhead schedule.recurrence now date seen :=
      hlook
    have hdate : zone.dateOf seen = date := hsees.dateOf_eq horderly.keepsDates
    refine absurd (horderly.lt_of_dateOf_lt (hdate ▸ hlt)) ?_
    exact (nearest_shown_of_searchForward horderly hwell hnext).closest seen
      ⟨date, ⟨hproposes, hpasses⟩, hsees⟩ hsees.isAhead

/-- A search that finds an occurrence from `later` on is led to it. -/
theorem leadsTo_of_nextIn (hnext : schedule.nextIn zone later = some hit) :
    schedule.LeadsTo zone later hit := by
  intro hproposes hpasses
  have hsees := seesAhead_of_nextIn horderly hwell hnext
  have hle : zone.dateOf later ≤ zone.dateOf hit :=
    horderly.dateOf_mono (Instant.le_of_lt hsees.isAhead)
  split
  · rename_i hsame
    rwa [hsame] at hsees
  · rename_i hne
    refine lookAhead?_eq_none_of_nextIn horderly hwell hnext hproposes hpasses ?_
    exact Date.lt_of_le_of_ne hle (Ne.symm hne)

section Later

variable (hnow : (zone.dateOf now).IsSupported) (hnext : schedule.nextIn zone now = some hit)
  (hle : now ≤ later) (hlt : later < hit)
include hnow hnext hle hlt

theorem closingDate?_of_later : schedule.closingDate? (zone.dateOf later) =
    schedule.closingDate? (zone.dateOf now) :=
  closingDate?_congr hnow (horderly.dateOf_mono hle)
    (horderly.dateOf_mono (Instant.le_of_lt hlt))
    (passes_of_searchForward horderly hwell hnext).2.notClosed

/-- A search of listed times is led to the occurrence from wherever it starts. -/
theorem leadsTo_of_listed (hlisted : schedule.recurrence.isWindow = false) :
    schedule.LeadsTo zone later hit := by
  intro hproposes hpasses
  rw [closingDate?_of_later horderly hwell hnow hnext hle hlt] at hpasses
  have hsees := seesAhead_of_nextIn horderly hwell hnext
  have hfirst := (Frame.ofSchedule schedule zone).finds_lookAhead?_of_listed hlisted
    (zone.dateOf later) now
  have hsecond := (Frame.ofSchedule schedule zone).finds_lookAhead?_of_listed hlisted
    (zone.dateOf later) later
  have hbeyond : ∀ {seen : Instant}, later < seen → now < seen :=
    fun hseen => Instant.lt_of_le_of_lt hle hseen
  split
  · rename_i hsame
    rw [hsame] at hsees
    rw [show (Frame.ofSchedule schedule zone).lookAhead? schedule.recurrence now
      (zone.dateOf later) = some hit from hsees] at hfirst
    cases hlook : (Frame.ofSchedule schedule zone).lookAhead? schedule.recurrence later
        (zone.dateOf later) with
    | none =>
      rw [hlook] at hsecond
      exact absurd hlt (hsecond hit hfirst.holds)
    | some seen =>
      rw [hlook] at hsecond
      exact congrArg some (Instant.eq_of_not_lt
        (hfirst.closest seen hsecond.holds (hbeyond hsecond.isBeyond))
        (hsecond.closest hit hfirst.holds hlt))
  · rename_i hne
    have hearlier : zone.dateOf later < zone.dateOf hit :=
      Date.lt_of_le_of_ne (horderly.dateOf_mono (Instant.le_of_lt hlt)) (Ne.symm hne)
    rw [lookAhead?_eq_none_of_nextIn horderly hwell hnext hproposes hpasses hearlier] at hfirst
    cases hlook : (Frame.ofSchedule schedule zone).lookAhead? schedule.recurrence later
        (zone.dateOf later) with
    | none => rfl
    | some seen =>
      rw [hlook] at hsecond
      exact absurd (hbeyond hsecond.isBeyond) (hfirst seen hsecond.holds)

/-- A search that is led to the occurrence sees nothing closer. -/
theorem nearest_of_leadsTo (hleads : schedule.LeadsTo zone later hit) :
    IsNearest (· < ·)
      (schedule.ShownAhead zone (schedule.closingDate? (zone.dateOf later)) later) later hit := by
  have hzone : (Frame.ofSchedule schedule zone).zone.KeepsDates := horderly.keepsDates
  have hclosing := closingDate?_of_later horderly hwell hnow hnext hle hlt
  have hnearest := nearest_shown_of_searchForward horderly hwell hnext
  obtain ⟨hproposes, hpasses⟩ := passes_of_searchForward horderly hwell hnext
  have hstart : zone.dateOf now ≤ zone.dateOf later := horderly.dateOf_mono hle
  have hby : zone.dateOf later ≤ zone.dateOf hit := horderly.dateOf_mono (Instant.le_of_lt hlt)
  -- On the dates after that of `later` both searches see the same.
  have hsame : ∀ {date : Date}, zone.dateOf later < date → ∀ seen,
      (Frame.ofSchedule schedule zone).SeesAhead schedule.recurrence later date seen ↔
        (Frame.ofSchedule schedule zone).SeesAhead schedule.recurrence now date seen :=
    fun hdate _ => Frame.seesAhead_congr hzone hdate (Int.lt_of_le_of_lt hstart hdate)
  rw [LeadsTo, hclosing] at hleads
  rw [hclosing]
  refine ⟨⟨zone.dateOf hit, ⟨hproposes, hpasses⟩, ?_⟩, hlt, ?_⟩
  · by_cases hdate : zone.dateOf hit = zone.dateOf later
    · rw [hdate] at hproposes hpasses ⊢
      exact (hleads hproposes hpasses).trans (if_pos hdate)
    · refine (hsame (Int.lt_iff_le_and_ne.mpr ⟨hby, fun heq => hdate ?_⟩) hit).mpr
        (seesAhead_of_nextIn horderly hwell hnext)
      exact congrArg Date.mk heq.symm
  · rintro seen ⟨date, hdate, hsees⟩ hahead hcloser
    have hdateOf : zone.dateOf seen = date := hsees.dateOf_eq hzone
    have hfrom : zone.dateOf later ≤ date :=
      hdateOf ▸ horderly.dateOf_mono (Instant.le_of_lt hahead)
    rcases Int.lt_or_eq_of_le hfrom with hafter | hon
    · exact hnearest.closest seen ⟨date, hdate, (hsame hafter seen).mp hsees⟩
        (Instant.lt_of_le_of_lt hle hahead) hcloser
    · obtain rfl : zone.dateOf later = date := congrArg Date.mk hon
      have hlook := (hleads hdate.1 hdate.2).symm.trans hsees
      obtain ⟨_, rfl⟩ := Option.ite_none_right_eq_some.mp hlook |>.imp_right Option.some.inj
      exact Instant.lt_irrefl _ hcloser

end Later

end Orderly

/-- Up to the next occurrence all searches find it that are led to it, and they find
nothing else. -/
theorem nextIn_later_iff {text : String} (hread : Schedule.ofText text = .ok schedule)
    (horderly : zone.IsOrderly) (hnow : (zone.dateOf now).IsSupported)
    (hnext : schedule.nextIn zone now = some hit) (hle : now ≤ later) (hlt : later < hit) :
    schedule.nextIn zone later = some hit ↔
      (schedule.recurrence.isWindow = true → schedule.LeadsTo zone later hit) ∧
        (schedule.MayGiveUp → schedule.nextIn zone later ≠ none) := by
  have hwell := (wellFormed_of_ofText hread).recurrence
  constructor
  · intro hfound
    refine ⟨fun _ => leadsTo_of_nextIn horderly hwell hfound, fun _ => ?_⟩
    rw [hfound]
    exact nofun
  · rintro ⟨hwindow, hpatient⟩
    have hleads : schedule.LeadsTo zone later hit := by
      cases hlisted : schedule.recurrence.isWindow with
      | true => exact hwindow hlisted
      | false => exact leadsTo_of_listed horderly hwell hnow hnext hle hlt hlisted
    have hnearest := nearest_of_leadsTo horderly hwell hnow hnext hle hlt hleads
    obtain ⟨hproposes, _⟩ := passes_of_searchForward horderly hwell hnext
    have hlater := hnow.of_between hproposes.selects.1 (horderly.dateOf_mono hle)
      (horderly.dateOf_mono (Instant.le_of_lt hlt))
    obtain ⟨other, hother⟩ : ∃ other, schedule.nextIn zone later = some other := by
      by_cases hgives : schedule.MayGiveUp
      · exact Option.ne_none_iff_exists'.mp (hpatient hgives)
      · rw [nextIn, closingDate?_of_later horderly hwell hnow hnext hle hlt]
        refine exists_searchForward_of_later horderly hwell hgives hlater hle hlt ?_ hnext
        intro hdate
        obtain ⟨date, _, hsees⟩ := hnearest.holds
        obtain rfl : zone.dateOf hit = date := hsees.dateOf_eq horderly.keepsDates
        rwa [← hdate]
    have hsame := (nearest_shown_of_searchForward horderly hwell hother).unique
      (fun hfirst hsecond => Instant.eq_of_not_lt hfirst hsecond) hnearest
    rw [hother, hsame]

/-- A clock that goes back from 02:00 to 01:00 on 2026-11-01, as in New York.  Late in
the first hour from 01:00 on, the next half hour is 02:00 from either instant. -/
theorem nextIn_later_iff_before_change :
    ∃ schedule, Schedule.ofText "every 30 min from 00:00 to 23:59" = .ok schedule ∧
      schedule.nextIn ⟨"America/New_York", -14400, [⟨63929196000, -18000⟩]⟩
        (.ofSecond 63929195100) = some (.ofSecond 63929199600) ∧
      schedule.nextIn ⟨"America/New_York", -14400, [⟨63929196000, -18000⟩]⟩
        (.ofSecond 63929195400) = some (.ofSecond 63929199600) := by
  let zone : Zone := ⟨"America/New_York", -14400, [⟨63929196000, -18000⟩]⟩
  let schedule : Schedule :=
    ⟨.window 30 .minutes ⟨0, 0⟩ ⟨23, 59⟩ none, none, [], none, none, []⟩
  have hread : Schedule.ofText "every 30 min from 00:00 to 23:59" = .ok schedule := by cbv
  have horderly : zone.IsOrderly := Zone.isOrderly_of_changesKeepDates (by decide) (by decide)
  have hnow : (zone.dateOf (.ofSecond 63929195100)).IsSupported := by decide
  have hnext : schedule.nextIn zone (.ofSecond 63929195100) = some (.ofSecond 63929199600) := by
    decide
  have hleads : schedule.LeadsTo zone (.ofSecond 63929195400) (.ofSecond 63929199600) :=
    fun _ _ => by decide
  refine ⟨schedule, hread, hnext, ?_⟩
  refine (nextIn_later_iff hread horderly hnow hnext (by decide) (by decide)).mpr
    ⟨fun _ => hleads, ?_⟩
  rintro (⟨_, hskipped⟩ | ⟨hfifth, _⟩)
  · exact absurd rfl hskipped
  · exact hfifth.elim

/-- On that day in New York, late in the first hour from 01:00 on, the next half hour is
02:00.  In the second such hour it still is, but the slot after 01:15 is 01:30, which
has passed, and the search goes on to the next day. -/
theorem next_later_ne_after_change :
    ∃ schedule, Schedule.ofText "every 30 min from 00:00 to 23:59 in America/New_York" =
        .ok schedule ∧
      schedule.next (.ofSecond 63929195100) = .ok (some ⟨.ofSecond 63929199600, -18000⟩) ∧
      schedule.next (.ofSecond 63929196900) = .ok (some ⟨.ofSecond 63929278800, -18000⟩) := by
  refine ⟨⟨.window 30 .minutes ⟨0, 0⟩ ⟨23, 59⟩ none, some "America/New_York", [], none, none, []⟩,
    ?_, ?_, ?_⟩
  · cbv
  · cbv
  · cbv

end Schedule

end Cadence
