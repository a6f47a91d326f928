import Cadence.Proofs.Occurrence.ComingDates
import Cadence.Proofs.Occurrence.Rejections

/-!
# Searches that start later

A forward search that starts later, but still before what it is to find, comes to
the same candidates.  It may come to one more, on the date it starts from, because
of a window it sees another slot there.  From the next date on the two searches see
the same, so by induction on the resumptions of the one the other finds something as
well.
-/

namespace Cadence

namespace Frame

variable {frame : Frame} {recurrence : Recurrence} {now later hit seen : Instant}
  {start date : Date}

/-- A search from a later date goes as far. -/
theorem Reaches.of_start_le {later : Date} (hle : start ≤ later) (hlater : later.IsSupported)
    (hreaches : Reaches recurrence start date) : Reaches recurrence later date := by
  have hnumber : start.dayNumber ≤ later.dayNumber := hle
  have hyear := Date.year_mono hle
  have hmonth := YearMonth.index_ofDate_mono hle
  have hweek := Date.weekStart_mono hle
  cases recurrence with
  | window | daily => exact Int.lt_of_lt_of_le hreaches (Int.add_le_add_right hnumber _)
  | weekly interval days times =>
    obtain ⟨hmonday, hbound⟩ := hreaches
    refine ⟨?_, Int.lt_of_lt_of_le hbound (Int.add_le_add_right hweek _)⟩
    obtain ⟨monday, hmonday⟩ := Option.isSome_iff_exists.mp hmonday
    obtain ⟨hstart, hsupported⟩ := Date.monday?_eq_some_iff.mp hmonday
    have hbounds := later.weekStart_bounds
    refine Option.isSome_iff_exists.mpr ⟨⟨later.weekStart⟩, Date.monday?_eq_some_iff.mpr ⟨rfl, ?_⟩⟩
    exact hsupported.of_between hlater (show monday.dayNumber ≤ later.weekStart by omega)
      (show later.weekStart ≤ later.dayNumber from hbounds.1)
  | monthly interval target times =>
    obtain ⟨ym, hmem, hbound⟩ := hreaches
    exact ⟨ym, hmem, by omega⟩
  | ordinal => exact Int.le_trans hreaches (Int.add_le_add_right hmonth _)
  | once day times =>
    cases day with
    | fixed => trivial
    | yearly => exact Int.lt_of_lt_of_le hreaches (Int.add_le_add_right hyear _)
  | yearly => exact Int.lt_of_lt_of_le hreaches (Int.add_le_add_right hyear _)

section Orderly

variable (horderly : frame.zone.IsOrderly) (hwell : recurrence.WellFormed)
include horderly hwell

/-- Where a search finds something there is something to see on every later date. -/
theorem exists_seesAhead (hnext : frame.nextOf recurrence now = some hit)
    (hlt : frame.zone.dateOf later < date) :
    ∃ seen, frame.SeesAhead recurrence later date seen := by
  obtain ⟨⟨time, htime, _⟩, _⟩ :=
    of_lookAhead? (seesAhead_of_nextOf horderly.keepsDates hwell hnext)
  exact exists_lookAhead? horderly.keepsDates (List.ne_nil_of_mem htime) hlt

/-- A search that sees something of a date it gets to finds something by then. -/
theorem exists_nextOf (hproposes : frame.Proposes recurrence date)
    (hreaches : Reaches recurrence (frame.zone.dateOf now) date)
    (hsees : frame.SeesAhead recurrence now date seen) :
    ∃ hit, frame.nextOf recurrence now = some hit ∧ frame.zone.dateOf hit ≤ date := by
  obtain ⟨hit, hnext⟩ :=
    exists_nextOf_of_seesAhead horderly.keepsDates hwell hproposes hreaches hsees
  refine ⟨hit, hnext, Int.not_lt.mp fun hlt => ?_⟩
  rw [← hsees.dateOf_eq horderly.keepsDates] at hlt hproposes
  exact (nearest_seen_of_nextOf horderly.keepsDates hwell hnext).closest seen
    ⟨_, hproposes, hsees.dateOf_eq horderly.keepsDates ▸ hsees⟩ hsees.isAhead
    (horderly.lt_of_dateOf_lt hlt)

/-- A search that starts later, but before the date of what another one finds, finds
something by then. -/
theorem exists_nextOf_of_le (hnext : frame.nextOf recurrence now = some hit)
    (hle : frame.zone.dateOf now ≤ frame.zone.dateOf later)
    (hlt : frame.zone.dateOf later < frame.zone.dateOf hit)
    (hlater : (frame.zone.dateOf later).IsSupported) :
    ∃ found, frame.nextOf recurrence later = some found ∧
      frame.zone.dateOf found ≤ frame.zone.dateOf hit := by
  have hzone := horderly.keepsDates
  obtain ⟨hproposes, hreaches⟩ := reaches_of_nextOf hzone hwell hnext
  have hsees := (seesAhead_congr hzone (Int.lt_of_le_of_lt hle hlt) hlt).mp
    (seesAhead_of_nextOf hzone hwell hnext)
  exact exists_nextOf horderly hwell hproposes (hreaches.of_start_le hle hlater) hsees

/-- Two searches that start before a date and find something from this date on find
the same. -/
theorem eq_of_nextOf {other found : Instant} (hnow : frame.zone.dateOf now < date)
    (hother : frame.zone.dateOf other < date) (hnext : frame.nextOf recurrence now = some hit)
    (hnext' : frame.nextOf recurrence other = some found) (hhit : date ≤ frame.zone.dateOf hit)
    (hfound : date ≤ frame.zone.dateOf found) : hit = found := by
  have hzone := horderly.keepsDates
  have hclosest : ∀ {first second hit found : Instant}, frame.zone.dateOf first < date →
      frame.zone.dateOf second < date → frame.nextOf recurrence first = some hit →
      frame.nextOf recurrence second = some found → date ≤ frame.zone.dateOf found →
      ¬ found < hit := by
    intro first second hit found hfirst hsecond hnext hnext' hfound
    have hsees := (seesAhead_congr hzone (Int.lt_of_lt_of_le hfirst hfound)
      (Int.lt_of_lt_of_le hsecond hfound)).mpr (seesAhead_of_nextOf hzone hwell hnext')
    exact (nearest_seen_of_nextOf hzone hwell hnext).closest found
      ⟨_, (reaches_of_nextOf hzone hwell hnext').1, hsees⟩ hsees.isAhead
  exact Instant.eq_of_not_lt (hclosest hother hnow hnext' hnext hhit)
    (hclosest hnow hother hnext hnext' hfound)

/-- Of listed times a search misses none that a later search sees. -/
theorem not_seesAhead_of_listed (hlisted : recurrence.isWindow = false) (hle : now ≤ later)
    (hnext : frame.nextOf recurrence now = some hit) (hproposes : frame.Proposes recurrence date)
    (hdate : date < frame.zone.dateOf hit) : ¬ frame.SeesAhead recurrence later date seen := by
  intro hsees
  have hahead : now < seen := Instant.lt_of_le_of_lt hle hsees.isAhead
  have hfinds := frame.finds_lookAhead?_of_listed hlisted date now
  cases hlook : frame.lookAhead? recurrence now date with
  | none =>
    rw [hlook] at hfinds
    exact hfinds seen (of_lookAhead? hsees).1 hahead
  | some found =>
    have hfound : frame.SeesAhead recurrence now date found := hlook
    rw [← hfound.dateOf_eq horderly.keepsDates] at hdate
    exact (nearest_seen_of_nextOf horderly.keepsDates hwell hnext).closest found
      ⟨date, hproposes, hfound⟩ hfound.isAhead (horderly.lt_of_dateOf_lt hdate)

/-- A candidate after the start of a day lies on this day or a later one. -/
theorem le_dateOf_of_nextOf (hnext : frame.nextOf recurrence (frame.startOfDay date) = some hit) :
    date ≤ frame.zone.dateOf hit := by
  have hsees := seesAhead_of_nextOf horderly.keepsDates hwell hnext
  exact (startOfDay_lt_iff_of_seesAhead horderly hsees).mp hsees.isAhead

/-- From the start of a day in between the search finds the same. -/
theorem nextOf_startOfDay_eq {later : Date} (hnext : frame.nextOf recurrence now = some hit)
    (hle : frame.zone.dateOf now ≤ later) (hlater : later.IsSupported) (hlt : later < date)
    (hby : date ≤ frame.zone.dateOf hit) :
    frame.nextOf recurrence (frame.startOfDay date) = some hit := by
  have hstart := dateOf_startOfDay_lt horderly date
  have hnumber := dateOf_startOfDay horderly date
  have hfrom : later ≤ frame.zone.dateOf (frame.startOfDay date) := by
    have hlt : later.dayNumber < date.dayNumber := hlt
    change later.dayNumber ≤ _
    omega
  have hbefore : frame.zone.dateOf (frame.startOfDay date) < frame.zone.dateOf hit :=
    Int.lt_of_lt_of_le hstart hby
  have hsupported := (reaches_of_nextOf horderly.keepsDates hwell hnext).1.selects.1
  obtain ⟨found, hfound, _⟩ := exists_nextOf_of_le horderly hwell hnext (Int.le_trans hle hfrom)
    hbefore (hlater.of_between hsupported hfrom (Int.le_of_lt hbefore))
  have hsame := eq_of_nextOf horderly hwell (Int.lt_of_le_of_lt hle hlt) hstart hnext hfound hby
    (le_dateOf_of_nextOf horderly hwell hfound)
  rwa [hsame]

end Orderly

end Frame

namespace Schedule

variable {schedule : Schedule} {zone : Zone} {closing : Option Date} {resumptions : Nat}
  {cursor later candidate hit : Instant} {resume : Date}

/-- Whether a search may fail to get to an occurrence that one with an earlier start
finds.  On the date it starts from it may see one more slot of a window, and with it
one more date to be passed over; and it may not get from a fifth weekday out of
season to the next one. -/
def MayGiveUp (schedule : Schedule) : Prop :=
  schedule.recurrence.isWindow = true ∧ schedule.skipped ≠ [] ∨
    schedule.recurrence.AsksFifthWeekday ∧ schedule.season ≠ []

section Orderly

variable (horderly : zone.IsOrderly) (hwell : schedule.recurrence.WellFormed)
include horderly hwell

/-- What a search finds after the start of a day lies on this day or a later one. -/
theorem le_dateOf_of_searchForward
    (hsearch : schedule.searchForward zone closing resumptions
      ((Frame.ofSchedule schedule zone).startOfDay resume) = some hit) :
    resume ≤ zone.dateOf hit := by
  have hframe : (Frame.ofSchedule schedule zone).zone.IsOrderly := horderly
  have hnearest := nearest_shown_of_searchForward horderly hwell hsearch
  obtain ⟨date, _, hsees⟩ := hnearest.holds
  have hdate : zone.dateOf hit = date := hsees.dateOf_eq horderly.keepsDates
  rw [hdate]
  exact (Frame.startOfDay_lt_iff_of_seesAhead hframe hsees).mp hnearest.isBeyond

/-- What a search finds lies on a date that it accepts. -/
theorem passes_of_searchForward
    (hsearch : schedule.searchForward zone closing resumptions cursor = some hit) :
    (Frame.ofSchedule schedule zone).Proposes schedule.recurrence (zone.dateOf hit) ∧
      schedule.Passes closing (zone.dateOf hit) := by
  obtain ⟨date, hdate, hsees⟩ := (nearest_shown_of_searchForward horderly hwell hsearch).holds
  have hdateOf : zone.dateOf hit = date := hsees.dateOf_eq horderly.keepsDates
  rwa [hdateOf]

/-- What a search finds lies on the date of its first candidate or on a later one. -/
theorem dateOf_le_of_settle
    (hsettle : schedule.settle zone closing resumptions candidate = some hit) :
    zone.dateOf candidate ≤ zone.dateOf hit := by
  rcases (settle_eq_some_iff.mp hsettle).2 with ⟨rfl, _⟩ | ⟨resume, hresumes, hrest⟩
  · exact Int.le_refl _
  · exact Int.le_trans (Int.le_of_lt hresumes.lt)
      (le_dateOf_of_searchForward horderly hwell hrest)

/-- A window that comes round every week is found in the first month of the season. -/
theorem inSeason_of_isWindow {date : Date} (hwindow : schedule.recurrence.isWindow = true)
    (hstart : nextSeasonStart? schedule.season date = some resume)
    (hcandidate : (Frame.ofSchedule schedule zone).nextOf schedule.recurrence cursor =
      some candidate)
    (hcursor : zone.dateOf cursor < resume) (hle : resume ≤ zone.dateOf candidate) :
    inSeason schedule.season (zone.dateOf candidate) = true := by
  have hframe : (Frame.ofSchedule schedule zone).zone.IsOrderly := horderly
  have hzone := hframe.keepsDates
  have hproposes := (Frame.reaches_of_nextOf hzone hwell hcandidate).1
  obtain ⟨target, _, hfirst⟩ := Option.bind_eq_some_iff.mp hstart
  -- Within seven days from the beginning of the season comes the same weekday.
  obtain ⟨start, hstartNumber⟩ : ∃ start : Date, start.dayNumber = resume.dayNumber - 1 :=
    ⟨⟨_⟩, rfl⟩
  have hnumbers : resume.dayNumber ≤ (zone.dateOf candidate).dayNumber := hle
  have hlt : start < zone.dateOf candidate :=
    show start.dayNumber < (zone.dateOf candidate).dayNumber by omega
  obtain ⟨next, hafter, hby, hclose, hweeks⟩ := Date.exists_after hlt (show 0 < 7 by decide)
  have hafter : start.dayNumber < next.dayNumber := hafter
  have hfrom : resume ≤ next := show resume.dayNumber ≤ next.dayNumber by omega
  have hsupported := (YearMonth.date?_eq_some_iff.mp hfirst).1.of_between
    hproposes.selects.1 hfrom hby
  have hnext := hproposes.of_isWindow hwindow hsupported hweeks
  obtain ⟨seen, hseen⟩ := Frame.exists_seesAhead hframe hwell hcandidate
    (show (Frame.ofSchedule schedule zone).zone.dateOf cursor < next from
      Int.lt_of_lt_of_le hcursor hfrom)
  have hnearer : zone.dateOf candidate ≤ next := Int.not_lt.mp fun hlt =>
    (Frame.nearest_seen_of_nextOf hzone hwell hcandidate).closest seen ⟨next, hnext, hseen⟩
      hseen.isAhead (hframe.lt_of_dateOf_lt ((hseen.dateOf_eq hzone).symm ▸ hlt))
  have hnearer : (zone.dateOf candidate).dayNumber ≤ next.dayNumber := hnearer
  exact inSeason_of_nextSeasonStart?_le hstart hle (by omega)

section Later

variable (hpatient : ¬ schedule.MayGiveUp) (hlater : (zone.dateOf later).IsSupported)
include hpatient hlater

/-- A slot that is seen on the date a search starts from, but out of season, costs the
search one resumption. -/
theorem exists_of_rejected_start {found : Instant} (hle : cursor ≤ later)
    (hcandidate : (Frame.ofSchedule schedule zone).nextOf schedule.recurrence cursor =
      some candidate)
    (hahead : zone.dateOf later < zone.dateOf candidate)
    (hsettle : schedule.settle zone closing resumptions candidate = some hit)
    (hfound : (Frame.ofSchedule schedule zone).nextOf schedule.recurrence later = some found)
    (hdate : zone.dateOf found = zone.dateOf later)
    (hrejected : ¬ schedule.Passes closing (zone.dateOf later)) :
    ∃ other, schedule.searchForward zone closing (max (resumptions + 1) 2) later = some other := by
  have hframe : (Frame.ofSchedule schedule zone).zone.IsOrderly := horderly
  have hzone := hframe.keepsDates
  have hcursor : zone.dateOf cursor ≤ zone.dateOf later := horderly.dateOf_mono hle
  have hsearch : schedule.searchForward zone closing (resumptions + 1) cursor = some hit := by
    rw [searchForward_succ, hcandidate, Option.bind_some, hsettle]
  obtain ⟨hproposes, hpasses⟩ := passes_of_searchForward horderly hwell hsearch
  have hbeyond := dateOf_le_of_settle horderly hwell hsettle
  have hwindow : schedule.recurrence.isWindow = true := by
    by_contra hlisted
    exact Frame.not_seesAhead_of_listed hframe hwell (Bool.eq_false_iff.mpr hlisted) hle hcandidate
      (Frame.reaches_of_nextOf hzone hwell hfound).1 (hdate.symm ▸ hahead)
      (Frame.seesAhead_of_nextOf hzone hwell hfound)
  have hskipped : schedule.skipped = [] := by
    by_contra hsome
    exact hpatient (.inl ⟨hwindow, hsome⟩)
  have hkept : ∀ date, schedule.skips date = false := fun date => by
    rw [skips, hskipped, List.any_nil]
  obtain ⟨resume, hresumes, hby⟩ := Resumes.exists_of_not_passes hlater hproposes.selects.1
    hrejected hpasses (Int.lt_of_lt_of_le hahead hbeyond)
  obtain ⟨hopen, hcases⟩ := settle_eq_some_iff.mp hsettle
  have hresumed : ∀ resumptions, schedule.searchForward zone closing (resumptions + 1) later =
      schedule.searchForward zone closing resumptions
        ((Frame.ofSchedule schedule zone).startOfDay resume) := fun resumptions => by
    rw [searchForward_succ, hfound, Option.bind_some]
    exact settle_of_resumes (hdate ▸ hresumes)
      fun last hlast => Int.le_trans (hdate ▸ Int.le_of_lt hahead) (hopen last hlast)
  by_cases hreached : resume ≤ zone.dateOf candidate
  · -- The resumed search comes to the candidate, which lies in the season.
    have hnext := Frame.nextOf_startOfDay_eq hframe hwell hcandidate hcursor hlater hresumes.lt
      hreached
    have hcursorLt := Int.lt_of_le_of_lt hcursor hresumes.lt
    have hin : schedule.Passes closing (zone.dateOf candidate) := by
      refine ⟨fun _ => ?_, hkept _, hopen⟩
      cases hresumes with
      | inSeason _ _ hstart =>
        exact inSeason_of_isWindow horderly hwell hwindow hstart hcandidate hcursorLt hreached
      | behind _ hskips _ => exact nomatch hskips.symm.trans (hkept _)
    refine ⟨candidate, searchForward_mono (Nat.le_max_right _ _) ?_⟩
    rw [hresumed, searchForward_succ, hnext, Option.bind_some]
    exact settle_of_passes hin
  · -- The candidate is rejected too, and both searches are resumed at the same date.
    have hbehind : zone.dateOf candidate < resume := Int.not_le.mp hreached
    rcases hcases with ⟨_, haccepted⟩ | ⟨resume', hresumes', hrest⟩
    · exact absurd haccepted (hresumes.not_passes (Int.le_of_lt hahead) hbehind)
    · obtain rfl := (hresumes.of_between hlater (Int.le_of_lt hahead) hbehind).unique hresumes'
      exact ⟨hit, searchForward_mono (Nat.le_max_left _ _) ((hresumed resumptions).trans hrest)⟩

/-- If the candidate of the one search lies on a later date, the other search comes to
it as well. -/
theorem exists_of_candidate_ahead (hle : cursor ≤ later)
    (hcandidate : (Frame.ofSchedule schedule zone).nextOf schedule.recurrence cursor =
      some candidate)
    (hahead : zone.dateOf later < zone.dateOf candidate)
    (hsettle : schedule.settle zone closing resumptions candidate = some hit) :
    ∃ other, schedule.searchForward zone closing (max (resumptions + 1) 2) later = some other := by
  have hframe : (Frame.ofSchedule schedule zone).zone.IsOrderly := horderly
  have hzone := hframe.keepsDates
  have hcursor : zone.dateOf cursor ≤ zone.dateOf later := horderly.dateOf_mono hle
  obtain ⟨found, hfound, hby⟩ :=
    Frame.exists_nextOf_of_le hframe hwell hcandidate hcursor hahead hlater
  by_cases hpassed : zone.dateOf later < zone.dateOf found
  · have hsame := Frame.eq_of_nextOf hframe hwell
      (Int.lt_of_le_of_lt hcursor hpassed) hpassed hcandidate hfound hby (Int.le_refl _)
    refine ⟨hit, searchForward_mono (Nat.le_max_left _ _) ?_⟩
    rw [searchForward_succ, hfound, Option.bind_some, ← hsame, hsettle]
  · have hbeyond := (Frame.nearest_seen_of_nextOf hzone hwell hfound).isBeyond
    have hdate : zone.dateOf found = zone.dateOf later :=
      Date.le_antisymm (Int.not_lt.mp hpassed)
        (horderly.dateOf_mono (Instant.le_of_lt hbeyond))
    by_cases hpasses : schedule.Passes closing (zone.dateOf later)
    · refine ⟨found, searchForward_mono (Nat.le_max_right (resumptions + 1) 2)
        (searchForward_mono (Nat.le_succ 1) ?_)⟩
      rw [searchForward_succ, hfound, Option.bind_some]
      exact settle_of_passes (hdate ▸ hpasses)
    · exact exists_of_rejected_start horderly hwell hpatient hlater hle hcandidate hahead hsettle
        hfound hdate hpasses

/-- From behind a rejected candidate a search still comes to a date that it may land on,
if the search that is resumed there finds something. -/
theorem exists_proposes_of_resumes {next : Instant}
    (hcandidate : (Frame.ofSchedule schedule zone).nextOf schedule.recurrence cursor =
      some candidate)
    (hpassed : zone.dateOf candidate ≤ zone.dateOf later) (hcursor : cursor ≤ later)
    (hresumes : schedule.Resumes (zone.dateOf candidate) resume)
    (hstart : later < (Frame.ofSchedule schedule zone).startOfDay resume)
    (hrest : schedule.searchForward zone closing resumptions
      ((Frame.ofSchedule schedule zone).startOfDay resume) = some hit)
    (hnext : (Frame.ofSchedule schedule zone).nextOf schedule.recurrence
      ((Frame.ofSchedule schedule zone).startOfDay resume) = some next) :
    ∃ date, (Frame.ofSchedule schedule zone).Proposes schedule.recurrence date ∧
      Frame.Reaches schedule.recurrence (zone.dateOf later) date ∧ zone.dateOf later < date := by
  have hframe : (Frame.ofSchedule schedule zone).zone.IsOrderly := horderly
  have hzone := hframe.keepsDates
  have hbefore : zone.dateOf later ≤
      zone.dateOf ((Frame.ofSchedule schedule zone).startOfDay resume) :=
    horderly.dateOf_mono (Instant.le_of_lt hstart)
  have hlt : zone.dateOf later < resume :=
    Int.lt_of_le_of_lt hbefore (Frame.dateOf_startOfDay_lt hframe resume)
  cases hresumes with
  | inSeason hchecks hout hseason =>
    obtain ⟨hproposes, hreaches⟩ := Frame.reaches_of_nextOf hzone hwell hcandidate
    have hreaches := hreaches.of_start_le (horderly.dateOf_mono hcursor) hlater
    obtain ⟨hlaterProposes, haccepted⟩ := passes_of_searchForward horderly hwell hrest
    have hbeyond := Int.lt_of_lt_of_le hlt (le_dateOf_of_searchForward horderly hwell hrest)
    have hin := haccepted.inSeason hchecks
    rw [seasonInRecurrence_eq] at hchecks
    refine Frame.exists_proposes_after hwell (fun hleaves => ?_)
      (fun hfifth => hpatient (.inr ⟨hfifth, ?_⟩)) (fun hkeeps => ?_) hlater hreaches.starts
      hlaterProposes hbeyond
    · rw [hchecks] at hleaves
      cases hleaves
    · intro hempty
      rw [hempty] at hout
      cases hout
    · have hsame := Frame.month_eq_of_keepsToMonth hkeeps hproposes hlaterProposes
      rw [inSeason, ← hsame] at hin
      exact Bool.false_ne_true (hout.symm.trans hin)
  | behind _ _ hnextDay =>
    -- The resumed search starts from the date of `later`.
    have hnumber := (Date.addDays?_eq_some_iff.mp hnextDay).1
    have hstartDate := Frame.dateOf_startOfDay hframe resume
    obtain ⟨hnextProposes, hnextReaches⟩ := Frame.reaches_of_nextOf hzone hwell hnext
    have hsame : zone.dateOf ((Frame.ofSchedule schedule zone).startOfDay resume) =
        zone.dateOf later := by
      refine Date.le_antisymm ?_ hbefore
      refine Int.le_trans ?_ hpassed
      exact Int.le_of_eq (hstartDate.trans (by omega))
    refine ⟨_, hnextProposes, hsame ▸ hnextReaches, ?_⟩
    exact Int.lt_of_lt_of_le hlt (Frame.le_dateOf_of_nextOf hframe hwell hnext)

/-- If the candidate of the one search has been passed over and is rejected, the other
search is resumed at the same date, unless it comes to something behind this date. -/
theorem exists_of_candidate_passed (hcandidate : (Frame.ofSchedule schedule zone).nextOf
      schedule.recurrence cursor = some candidate)
    (hpassed : zone.dateOf candidate ≤ zone.dateOf later) (hcursor : cursor ≤ later)
    (hresumes : schedule.Resumes (zone.dateOf candidate) resume)
    (hstart : later < (Frame.ofSchedule schedule zone).startOfDay resume)
    (hrest : schedule.searchForward zone closing resumptions
      ((Frame.ofSchedule schedule zone).startOfDay resume) = some hit) :
    schedule.searchForward zone closing (resumptions + 1) later = some hit := by
  have hframe : (Frame.ofSchedule schedule zone).zone.IsOrderly := horderly
  have hzone := hframe.keepsDates
  have hbeyond := le_dateOf_of_searchForward horderly hwell hrest
  have haccepted := (passes_of_searchForward horderly hwell hrest).2
  have hsupported := (Frame.reaches_of_nextOf hzone hwell hcandidate).1.selects.1
  have hstartLt := Frame.dateOf_startOfDay_lt hframe resume
  have hlt : zone.dateOf later < resume :=
    Int.lt_of_le_of_lt (horderly.dateOf_mono (Instant.le_of_lt hstart)) hstartLt
  obtain ⟨fewer, rfl⟩ : ∃ fewer, resumptions = fewer + 1 := by
    cases resumptions with
    | zero => cases hrest
    | succ fewer => exact ⟨fewer, rfl⟩
  obtain ⟨next, hnext, hsettle⟩ := Option.bind_eq_some_iff.mp (searchForward_succ .. ▸ hrest)
  obtain ⟨date, hdate, hdateReaches, hafter⟩ := exists_proposes_of_resumes horderly hwell
    hpatient hlater hcandidate hpassed hcursor hresumes hstart hrest hnext
  obtain ⟨seen, hseen⟩ := Frame.exists_seesAhead hframe hwell hcandidate hafter
  obtain ⟨found, hfound, _⟩ := Frame.exists_nextOf hframe hwell hdate hdateReaches hseen
  have hfoundAfter : zone.dateOf later ≤ zone.dateOf found := horderly.dateOf_mono
    (Instant.le_of_lt (Frame.nearest_seen_of_nextOf hzone hwell hfound).isBeyond)
  rw [searchForward_succ, hfound, Option.bind_some]
  by_cases hreached : resume ≤ zone.dateOf found
  · have hsame := Frame.eq_of_nextOf hframe hwell hlt
      hstartLt hfound hnext hreached (Frame.le_dateOf_of_nextOf hframe hwell hnext)
    have hmore := searchForward_mono (Nat.le_succ (fewer + 1)) hrest
    rw [searchForward_succ, hnext, Option.bind_some] at hmore
    exact hsame ▸ hmore
  · have hbehind : zone.dateOf found < resume := Int.not_le.mp hreached
    rw [settle_of_resumes (hresumes.of_between hsupported
      (Int.le_trans hpassed hfoundAfter) hbehind) fun last hlast =>
        Int.le_trans (Int.le_of_lt (Int.lt_of_lt_of_le hbehind hbeyond))
          (haccepted.notClosed last hlast)]
    exact hrest

/-- A search that starts later finds something, if on the date of the occurrence it
sees this occurrence. -/
theorem exists_searchForward_of_later (hle : cursor ≤ later) (hlt : later < hit)
    (hsees : zone.dateOf hit = zone.dateOf later →
      (Frame.ofSchedule schedule zone).SeesAhead schedule.recurrence later (zone.dateOf later) hit)
    (hsearch : schedule.searchForward zone closing resumptions cursor = some hit) :
    ∃ other, schedule.searchForward zone closing (max resumptions 2) later = some other := by
  have hframe : (Frame.ofSchedule schedule zone).zone.IsOrderly := horderly
  have hzone := hframe.keepsDates
  induction resumptions generalizing cursor with
  | zero => exact nomatch hsearch
  | succ resumptions ih =>
    obtain ⟨hproposes, hpasses⟩ := passes_of_searchForward horderly hwell hsearch
    obtain ⟨candidate, hcandidate, hsettle⟩ :=
      Option.bind_eq_some_iff.mp (searchForward_succ .. ▸ hsearch)
    have hcursor : zone.dateOf cursor ≤ zone.dateOf later := horderly.dateOf_mono hle
    by_cases hahead : zone.dateOf later < zone.dateOf candidate
    · exact exists_of_candidate_ahead horderly hwell hpatient hlater hle hcandidate hahead hsettle
    have hpassed : zone.dateOf candidate ≤ zone.dateOf later := Int.not_lt.mp hahead
    rcases (settle_eq_some_iff.mp hsettle).2 with ⟨rfl, _⟩ | ⟨resume, hresumes, hrest⟩
    · -- The occurrence itself lies on the date of `later`.
      have hdate : zone.dateOf candidate = zone.dateOf later :=
        Date.le_antisymm hpassed (horderly.dateOf_mono (Instant.le_of_lt hlt))
      have hreaches := (Frame.reaches_of_nextOf hzone hwell hcandidate).2.of_start_le hcursor hlater
      obtain ⟨found, hfound, hby⟩ := Frame.exists_nextOf hframe hwell hproposes hreaches
        (by rw [hdate]; exact hsees hdate)
      have hfoundDate : zone.dateOf found = zone.dateOf candidate := by
        refine Date.le_antisymm hby (Int.le_trans hpassed ?_)
        exact horderly.dateOf_mono
          (Instant.le_of_lt (Frame.nearest_seen_of_nextOf hzone hwell hfound).isBeyond)
      refine ⟨found, searchForward_mono (Nat.le_max_left (resumptions + 1) 2)
        (searchForward_mono (Nat.le_add_left 1 resumptions) ?_)⟩
      rw [searchForward_succ, hfound, Option.bind_some]
      exact settle_of_passes (hfoundDate ▸ hpasses)
    · by_cases hstart : later < (Frame.ofSchedule schedule zone).startOfDay resume
      · exact ⟨hit, searchForward_mono (Nat.le_max_left _ _) (exists_of_candidate_passed horderly
          hwell hpatient hlater hcandidate hpassed hle hresumes hstart hrest)⟩
      · obtain ⟨other, hother⟩ := ih (Instant.not_lt.mp hstart) hrest
        exact ⟨other, searchForward_mono (by omega) hother⟩

end Later

end Orderly

end Schedule

end Cadence
