import Cadence.Occurrence.Search
import Cadence.Proofs.Calendar.Seasons
import Cadence.Proofs.Occurrence.OrderlySearch

/-!
# Searches that are resumed

A search that lands on a date a clause rejects is resumed at another date.  The
dates passed over in this way are rejected as well, so by induction on the
number of resumptions the search finds the closest instant that it sees on a date
which the clauses admit.  In universal time that is the closest instant that the
recurrence offers on such a date.
-/

namespace Cadence

/-! ## The edges of a day -/

namespace Frame

variable {frame : Frame} {recurrence : Recurrence} {date : Date} {now moment : Instant}

theorem startOfDay_eq (frame : Frame) (date : Date) :
    frame.startOfDay date = .ofSecond (frame.zone.resolve (date.dayNumber * 86400) - 1) := by
  have hmidnight : secondOf date TimeOfDay.midnight.secondOfDay = date.dayNumber * 86400 :=
    Int.add_zero _
  rw [startOfDay, Zone.instantAt, Instant.shift_ofSecond, hmidnight]
  rfl

theorem endOfDay_eq (huniversal : frame.zone.IsUniversal) (date : Date) :
    frame.endOfDay date = .ofSecond (date.dayNumber * 86400 + 86341) := by
  rw [endOfDay, huniversal.instantAt, Instant.shift_ofSecond]
  congr 1
  simp only [TimeOfDay.lastMinute, TimeOfDay.secondOfDay, TimeOfDay.minutes]
  omega

/-- The start of a day comes before the seconds of this day and later ones. -/
theorem startOfDay_lt_iff (horderly : frame.zone.IsOrderly) (hsecond : moment.nano = 0) :
    frame.startOfDay date < moment ↔ date ≤ frame.zone.dateOf moment := by
  rw [startOfDay_eq, Instant.ofSecond_lt_iff]
  change _ ↔ date.dayNumber ≤ frame.zone.localSecond moment.second / 86400
  constructor
  · intro hlater
    have hmono := horderly.dateOfSecond_mono
      (show frame.zone.resolve (date.dayNumber * 86400) ≤ moment.second by omega)
    rw [horderly.dateOfSecond_resolve] at hmono
    change date.dayNumber * 86400 / 86400 ≤ frame.zone.localSecond moment.second / 86400 at hmono
    omega
  · intro hdate
    have hmidnight : date.dayNumber * 86400 ≤ frame.zone.localSecond moment.second := by omega
    have := horderly.resolve_midnight_le hmidnight
    omega

/-- The instants that a search sees after the start of a day lie on this day or a
later one. -/
theorem startOfDay_lt_iff_of_seesAhead {resume : Date} (horderly : frame.zone.IsOrderly)
    (hsees : frame.SeesAhead recurrence now date moment) :
    frame.startOfDay resume < moment ↔ resume ≤ date := by
  have hdate := hsees.dateOf_eq horderly.keepsDates
  obtain ⟨⟨time, _, rfl⟩, _⟩ := of_lookAhead? hsees
  rw [startOfDay_lt_iff horderly rfl, hdate]

/-- The start of a day lies on the day before. -/
theorem dateOf_startOfDay (horderly : frame.zone.IsOrderly) (date : Date) :
    (frame.zone.dateOf (frame.startOfDay date)).dayNumber = date.dayNumber - 1 := by
  rw [startOfDay_eq, Zone.dateOf, Instant.ofSecond, horderly.localSecond_before_midnight]
  simp only [dateOfSecond, daySeconds]
  omega

theorem dateOf_startOfDay_lt (horderly : frame.zone.IsOrderly) (date : Date) :
    frame.zone.dateOf (frame.startOfDay date) < date := by
  have := dateOf_startOfDay horderly date
  change (frame.zone.dateOf (frame.startOfDay date)).dayNumber < date.dayNumber
  omega

/-- The end of a day comes after the minutes of this day and earlier ones. -/
theorem lt_endOfDay_iff (huniversal : frame.zone.IsUniversal) (hminute : moment.IsWholeMinute) :
    moment < frame.endOfDay date ↔ frame.zone.dateOf moment ≤ date := by
  obtain ⟨hnano, hwhole⟩ := hminute
  rw [endOfDay_eq huniversal, huniversal.dateOf, Instant.lt_ofSecond_iff]
  change _ ↔ moment.second / 86400 ≤ date.dayNumber
  omega

end Frame

/-! ## Admitted dates -/

theorem any_lt_eq_false_iff {bound : Option Date} {date : Date} :
    bound.any (· < date) = false ↔ ∀ last ∈ bound, date ≤ last := by
  simp only [Option.any_eq_false, decide_eq_false_iff_not, Option.mem_def]
  exact forall_congr' fun last => imp_congr_right fun _ => Int.not_lt

theorem any_gt_eq_false_iff {bound : Option Date} {date : Date} :
    bound.any (date < ·) = false ↔ ∀ first ∈ bound, first ≤ date := by
  simp only [Option.any_eq_false, decide_eq_false_iff_not, Option.mem_def]
  exact forall_congr' fun first => imp_congr_right fun _ => Int.not_lt

namespace Schedule

/-- Whether the clauses let the schedule fire on a date, given its closing date. -/
structure Admits (schedule : Schedule) (closing : Option Date) (date : Date) : Prop where
  inSeason : inSeason schedule.season date = true
  notSkipped : schedule.skips date = false
  notClosed : ∀ last ∈ closing, date ≤ last

/-- The instants that the recurrence offers on admitted dates. -/
def Offers (schedule : Schedule) (zone : Zone) (closing : Option Date) (moment : Instant) : Prop :=
  (Frame.ofSchedule schedule zone).Offers schedule.recurrence moment ∧
    schedule.Admits closing (zone.dateOf moment)

variable {schedule : Schedule} {zone : Zone} {closing : Option Date} {resumptions : Nat}
  {cursor candidate moment hit : Instant} {resume : Date}

/-! ## Forward -/

theorem seasonInRecurrence_eq (schedule : Schedule) :
    schedule.seasonInRecurrence = schedule.recurrence.mayLeaveMonth := by
  unfold seasonInRecurrence Recurrence.mayLeaveMonth
  cases schedule.recurrence <;> rfl

/-- What a forward search asks of a date it lands on.  Of the season it asks
nothing if the recurrence checks it month by month. -/
structure Passes (schedule : Schedule) (closing : Option Date) (date : Date) : Prop where
  inSeason : schedule.seasonInRecurrence = false → Cadence.inSeason schedule.season date = true
  notSkipped : schedule.skips date = false
  notClosed : ∀ last ∈ closing, date ≤ last

/-- The instants that a forward search sees on dates it accepts. -/
def ShownAhead (schedule : Schedule) (zone : Zone) (closing : Option Date)
    (cursor moment : Instant) : Prop :=
  ShownBy ((Frame.ofSchedule schedule zone).SeesAhead schedule.recurrence cursor)
    (fun date => (Frame.ofSchedule schedule zone).Proposes schedule.recurrence date ∧
      schedule.Passes closing date) moment

/-- What becomes of a candidate: it is returned, or the search is resumed behind
it, or nothing is found. -/
def settle (schedule : Schedule) (zone : Zone) (closing : Option Date) (resumptions : Nat)
    (candidate : Instant) : Option Instant :=
  let date := zone.dateOf candidate
  if closing.any (· < date) then none
  else if !schedule.seasonInRecurrence && !inSeason schedule.season date then
    (nextSeasonStart? schedule.season date).bind fun resume =>
      schedule.searchForward zone closing resumptions
        ((Frame.ofSchedule schedule zone).startOfDay resume)
  else if schedule.skips date then
    (date.addDays? 1).bind fun resume =>
      schedule.searchForward zone closing resumptions
        ((Frame.ofSchedule schedule zone).startOfDay resume)
  else some candidate

theorem searchForward_succ (schedule : Schedule) (zone : Zone) (closing : Option Date)
    (resumptions : Nat) (cursor : Instant) :
    schedule.searchForward zone closing (resumptions + 1) cursor =
      ((Frame.ofSchedule schedule zone).nextOf schedule.recurrence cursor).bind
        (schedule.settle zone closing resumptions) :=
  rfl

/-- Where a search is resumed that has landed on a date it does not accept: in the
next month of the season, or behind a skipped date. -/
inductive Resumes (schedule : Schedule) (date resume : Date) : Prop
  | inSeason (hchecks : schedule.seasonInRecurrence = false)
      (hout : Cadence.inSeason schedule.season date = false)
      (hstart : nextSeasonStart? schedule.season date = some resume)
  | behind (hin : schedule.seasonInRecurrence = false →
        Cadence.inSeason schedule.season date = true)
      (hskipped : schedule.skips date = true) (hnext : date.addDays? 1 = some resume)

namespace Resumes

variable {date other later : Date}

theorem lt (hresumes : schedule.Resumes date resume) : date < resume := by
  cases hresumes with
  | inSeason _ hout hstart => exact (nextSeasonStart?_spec hstart hout).1
  | behind _ _ hnext =>
    have hnumber := (Date.addDays?_eq_some_iff.mp hnext).1
    change date.dayNumber < resume.dayNumber
    omega

/-- No date is accepted up to the one at which a search is resumed. -/
theorem not_passes (hresumes : schedule.Resumes date resume) (hle : date ≤ other)
    (hlt : other < resume) : ¬ schedule.Passes closing other := by
  intro hpasses
  cases hresumes with
  | inSeason hchecks hout hstart =>
    exact absurd (hpasses.inSeason hchecks)
      (Bool.eq_false_iff.mp ((nextSeasonStart?_spec hstart hout).2 other hle hlt))
  | behind _ hskipped hnext =>
    obtain rfl := Date.eq_of_lt_addDays?_one hnext hle hlt
    exact absurd hskipped (Bool.eq_false_iff.mp hpasses.notSkipped)

/-- On these dates a search is resumed at the same date. -/
theorem of_between (hresumes : schedule.Resumes date resume) (hsupported : date.IsSupported)
    (hle : date ≤ other) (hlt : other < resume) : schedule.Resumes other resume := by
  cases hresumes with
  | inSeason hchecks hout hstart =>
    exact .inSeason hchecks ((nextSeasonStart?_spec hstart hout).2 other hle hlt)
      (nextSeasonStart?_congr hsupported hstart hout hle hlt)
  | behind hin hskipped hnext =>
    obtain rfl := Date.eq_of_lt_addDays?_one hnext hle hlt
    exact .behind hin hskipped hnext

/-- A search that has not passed the last accepted date is resumed by the next one. -/
theorem exists_of_not_passes (hdate : date.IsSupported) (hlater : later.IsSupported)
    (hrejected : ¬ schedule.Passes closing date) (haccepted : schedule.Passes closing later)
    (hlt : date < later) : ∃ resume, schedule.Resumes date resume ∧ resume ≤ later := by
  by_cases hin : schedule.seasonInRecurrence = false → Cadence.inSeason schedule.season date = true
  · have hskipped : schedule.skips date = true := by
      by_contra hkept
      exact hrejected ⟨hin, Bool.eq_false_iff.mpr hkept, fun last hlast =>
        Int.le_trans (Int.le_of_lt hlt) (haccepted.notClosed last hlast)⟩
    have hnumber : date.dayNumber < later.dayNumber := hlt
    obtain ⟨next, hnext⟩ : ∃ next : Date, next.dayNumber = date.dayNumber + 1 := ⟨⟨_⟩, rfl⟩
    have hle : next ≤ later := show next.dayNumber ≤ later.dayNumber by omega
    have hsupported := hdate.of_between hlater
      (show date.dayNumber ≤ next.dayNumber by omega) hle
    exact ⟨next, .behind hin hskipped (Date.addDays?_eq_some_iff.mpr ⟨hnext, hsupported⟩), hle⟩
  · rw [Classical.not_imp, Bool.not_eq_true] at hin
    obtain ⟨hchecks, hout⟩ := hin
    obtain ⟨start, hstart, hle⟩ :=
      exists_nextSeasonStart? hdate hlater hout (haccepted.inSeason hchecks) hlt
    exact ⟨start, .inSeason hchecks hout hstart, hle⟩

end Resumes

theorem seasonTest_eq_false_iff {date : Date} :
    (!schedule.seasonInRecurrence && !inSeason schedule.season date) = false ↔
      (schedule.seasonInRecurrence = false → inSeason schedule.season date = true) := by
  cases schedule.seasonInRecurrence <;> simp

theorem settle_of_passes (hpasses : schedule.Passes closing (zone.dateOf candidate)) :
    schedule.settle zone closing resumptions candidate = some candidate := by
  simp only [settle, any_lt_eq_false_iff.mpr hpasses.notClosed,
    seasonTest_eq_false_iff.mpr hpasses.inSeason, hpasses.notSkipped, Bool.false_eq_true, if_false]

theorem settle_of_resumes (hresumes : schedule.Resumes (zone.dateOf candidate) resume)
    (hopen : ∀ last ∈ closing, zone.dateOf candidate ≤ last) :
    schedule.settle zone closing resumptions candidate =
      schedule.searchForward zone closing resumptions
        ((Frame.ofSchedule schedule zone).startOfDay resume) := by
  have hopen := any_lt_eq_false_iff.mpr hopen
  cases hresumes with
  | inSeason hchecks hout hstart =>
    simp only [settle, hopen, hchecks, hout, hstart, Bool.false_eq_true, if_false, Bool.not_false,
      Bool.and_self, if_true, Option.bind_some]
  | behind hin hskipped hnext =>
    simp only [settle, hopen, seasonTest_eq_false_iff.mpr hin, hskipped, hnext, Bool.false_eq_true,
      if_false, if_true, Option.bind_some]

/-- How a search that lands on a candidate comes to find something. -/
theorem settle_eq_some_iff : schedule.settle zone closing resumptions candidate = some hit ↔
    (∀ last ∈ closing, zone.dateOf candidate ≤ last) ∧
      (candidate = hit ∧ schedule.Passes closing (zone.dateOf candidate) ∨
        ∃ resume, schedule.Resumes (zone.dateOf candidate) resume ∧
          schedule.searchForward zone closing resumptions
            ((Frame.ofSchedule schedule zone).startOfDay resume) = some hit) := by
  constructor
  · intro hsettle
    unfold settle at hsettle
    dsimp only at hsettle
    split at hsettle
    · exact nomatch hsettle
    rename_i hopen
    refine ⟨any_lt_eq_false_iff.mp (Bool.eq_false_iff.mpr hopen), ?_⟩
    split at hsettle
    · rename_i hout
      obtain ⟨resume, hresume, hrest⟩ := Option.bind_eq_some_iff.mp hsettle
      simp only [Bool.and_eq_true, Bool.not_eq_true'] at hout
      exact .inr ⟨resume, .inSeason hout.1 hout.2 hresume, hrest⟩
    rename_i hin
    have hin := seasonTest_eq_false_iff.mp (Bool.eq_false_iff.mpr hin)
    split at hsettle
    · rename_i hskipped
      obtain ⟨resume, hresume, hrest⟩ := Option.bind_eq_some_iff.mp hsettle
      exact .inr ⟨resume, .behind hin hskipped hresume, hrest⟩
    · rename_i hkept
      exact .inl ⟨Option.some.inj hsettle, hin, Bool.eq_false_iff.mpr hkept,
        any_lt_eq_false_iff.mp (Bool.eq_false_iff.mpr hopen)⟩
  · rintro ⟨hopen, ⟨rfl, hpasses⟩ | ⟨resume, hresumes, hrest⟩⟩
    · exact settle_of_passes hpasses
    · rwa [settle_of_resumes hresumes hopen]

section Orderly

variable (horderly : zone.IsOrderly)
include horderly

/-- A search may be resumed where `Resumes` says. -/
theorem nearest_of_resumed_forward
    (hcandidate : IsNearest (· < ·)
      (ShownBy ((Frame.ofSchedule schedule zone).SeesAhead schedule.recurrence cursor)
        ((Frame.ofSchedule schedule zone).Proposes schedule.recurrence)) cursor candidate)
    (hresumes : schedule.Resumes (zone.dateOf candidate) resume)
    (hresumed : IsNearest (· < ·)
      (schedule.ShownAhead zone closing ((Frame.ofSchedule schedule zone).startOfDay resume))
      ((Frame.ofSchedule schedule zone).startOfDay resume) hit) :
    IsNearest (· < ·) (schedule.ShownAhead zone closing cursor) cursor hit := by
  have hframe : (Frame.ofSchedule schedule zone).zone.IsOrderly := horderly
  have hcursor : zone.dateOf cursor ≤ zone.dateOf candidate :=
    horderly.dateOf_mono (Instant.le_of_lt hcandidate.isBeyond)
  have hstart := Frame.dateOf_startOfDay_lt hframe resume
  -- From the date at which the search is resumed on, both searches see the same.
  have hsame : ∀ {date : Date}, resume ≤ date → ∀ moment,
      (Frame.ofSchedule schedule zone).SeesAhead schedule.recurrence cursor date moment ↔
        (Frame.ofSchedule schedule zone).SeesAhead schedule.recurrence
          ((Frame.ofSchedule schedule zone).startOfDay resume) date moment := fun hdate _ =>
    Frame.seesAhead_congr hframe.keepsDates
      (Int.lt_of_le_of_lt hcursor (Int.lt_of_lt_of_le hresumes.lt hdate))
      (Int.lt_of_lt_of_le hstart hdate)
  obtain ⟨date, hdate, hsees⟩ := hresumed.holds
  have hlater := (Frame.startOfDay_lt_iff_of_seesAhead hframe hsees).mp hresumed.isBeyond
  have hsees := (hsame hlater hit).mpr hsees
  refine ⟨⟨date, hdate, hsees⟩, hsees.isAhead, ?_⟩
  rintro moment ⟨other, ⟨hproposes, hpasses⟩, hother⟩ hmoment hcloser
  have hdateOf : zone.dateOf moment = other := hother.dateOf_eq horderly.keepsDates
  have hle : zone.dateOf candidate ≤ other := Int.not_lt.mp fun hlt =>
    hcandidate.closest moment ⟨other, hproposes, hother⟩ hmoment
      (horderly.lt_of_dateOf_lt (hdateOf ▸ hlt))
  have hpassed : resume ≤ other := Int.not_lt.mp fun hlt => hresumes.not_passes hle hlt hpasses
  have hother := (hsame hpassed moment).mp hother
  exact hresumed.closest moment ⟨other, ⟨hproposes, hpasses⟩, hother⟩ hother.isAhead hcloser

/-- A forward search finds the closest instant ahead that it sees on a date it
accepts. -/
theorem nearest_shown_of_searchForward (hwell : schedule.recurrence.WellFormed)
    (hsearch : schedule.searchForward zone closing resumptions cursor = some hit) :
    IsNearest (· < ·) (schedule.ShownAhead zone closing cursor) cursor hit := by
  induction resumptions generalizing cursor with
  | zero => exact nomatch hsearch
  | succ resumptions ih =>
    rw [searchForward_succ] at hsearch
    obtain ⟨candidate, hcandidate, hsettle⟩ := Option.bind_eq_some_iff.mp hsearch
    have hzone : (Frame.ofSchedule schedule zone).zone.KeepsDates := horderly.keepsDates
    have hnearest := Frame.nearest_seen_of_nextOf hzone hwell hcandidate
    rcases (settle_eq_some_iff.mp hsettle).2 with ⟨rfl, hpasses⟩ | ⟨resume, hresumes, hrest⟩
    · obtain ⟨date, hproposes, hsees⟩ := hnearest.holds
      have hdateOf : zone.dateOf candidate = date := hsees.dateOf_eq horderly.keepsDates
      exact hnearest.restrict ⟨date, ⟨hproposes, hdateOf ▸ hpasses⟩, hsees⟩
        fun moment ⟨date, hdate, hsees⟩ => ⟨date, hdate.1, hsees⟩
    · exact nearest_of_resumed_forward horderly hnearest hresumes (ih hrest)

end Orderly

/-- A forward search asks all that the clauses ask, if the recurrence does not check the
season. -/
theorem passes_iff_admits {date : Date}
    (hseason : schedule.recurrence.mayLeaveMonth = true → schedule.season = []) :
    schedule.Passes closing date ↔ schedule.Admits closing date := by
  rw [← seasonInRecurrence_eq] at hseason
  constructor
  · refine fun hpasses => ⟨?_, hpasses.notSkipped, hpasses.notClosed⟩
    cases hchecks : schedule.seasonInRecurrence with
    | false => exact hpasses.inSeason hchecks
    | true => rw [hseason hchecks, inSeason, List.isEmpty_nil, Bool.true_or]
  · exact fun hadmits => ⟨fun _ => hadmits.inSeason, hadmits.notSkipped, hadmits.notClosed⟩

/-- A forward search finds the closest instant ahead that the schedule offers. -/
theorem nearest_of_searchForward (huniversal : zone.IsUniversal)
    (hwell : schedule.recurrence.WellFormed)
    (hseason : schedule.recurrence.mayLeaveMonth = true → schedule.season = [])
    (hsearch : schedule.searchForward zone closing resumptions cursor = some hit) :
    IsNearest (· < ·) (schedule.Offers zone closing) cursor hit := by
  have hframe : (Frame.ofSchedule schedule zone).zone.IsUniversal := huniversal
  have hzone := huniversal.keepsDates
  have hproposes : ∀ date, (Frame.ofSchedule schedule zone).Proposes schedule.recurrence date ↔
      date.IsSupported ∧ schedule.recurrence.Selects schedule.anchor date :=
    fun date => Frame.proposes_iff hseason
  have hnearest := nearest_shown_of_searchForward huniversal.isOrderly hwell hsearch
  obtain ⟨date, ⟨hdate, haccepted⟩, hsees⟩ := hnearest.holds
  have hdateOf : zone.dateOf hit = date := hsees.dateOf_eq hzone
  refine ⟨⟨⟨date, ?_, ?_, (Frame.of_lookAhead? hsees).1⟩, ?_⟩, hnearest.isBeyond, ?_⟩
  · exact ((hproposes date).mp hdate).1
  · exact ((hproposes date).mp hdate).2
  · exact hdateOf ▸ (passes_iff_admits hseason).mp haccepted
  · rintro moment ⟨⟨other, hsupported, hselects, htime⟩, hadmits⟩ hmoment hcloser
    have hother : zone.dateOf moment = other := by
      obtain ⟨time, _, rfl⟩ := htime
      exact hzone.dateOf_instantAt other time
    have hfinds := Frame.finds_lookAhead? hframe hwell other cursor
    cases hseen : (Frame.ofSchedule schedule zone).lookAhead? schedule.recurrence cursor other with
    | none =>
      rw [hseen] at hfinds
      exact hfinds moment htime hmoment
    | some seen =>
      rw [hseen] at hfinds
      have hearlier : seen < hit :=
        Instant.lt_of_le_of_lt (Instant.not_lt.mp (hfinds.closest moment htime hmoment)) hcloser
      exact hnearest.closest seen ⟨other, ⟨(hproposes other).mpr ⟨hsupported, hselects⟩,
        (passes_iff_admits hseason).mpr (hother ▸ hadmits)⟩, hseen⟩ hfinds.isBeyond hearlier

/-! ## Backward -/

/-- Where a backward search is resumed that has landed on a date it does not accept: on
the closing date, at the end of the season before, or on the date before a skipped one. -/
inductive Retreats (schedule : Schedule) (closing : Option Date) (date resume : Date) : Prop
  | closed (hlast : closing = some resume) (hlt : resume < date)
  | seasonEnd (hopen : ∀ last ∈ closing, date ≤ last)
      (hout : inSeason schedule.season date = false)
      (hend : previousSeasonEnd? schedule.season date = some resume)
  | before (hopen : ∀ last ∈ closing, date ≤ last) (hin : inSeason schedule.season date = true)
      (hskipped : schedule.skips date = true) (hbefore : date.addDays? (-1) = some resume)

namespace Retreats

variable {date other : Date}

theorem lt (hretreats : schedule.Retreats closing date resume) : resume < date := by
  cases hretreats with
  | closed _ hlt => exact hlt
  | seasonEnd _ hout hend => exact (previousSeasonEnd?_spec hend hout).1
  | before _ _ _ hbefore =>
    have hnumber := (Date.addDays?_eq_some_iff.mp hbefore).1
    change resume.dayNumber < date.dayNumber
    omega

/-- A search is resumed by the closing date. -/
theorem notClosed (hretreats : schedule.Retreats closing date resume) :
    ∀ last ∈ closing, resume ≤ last := by
  intro last hlast
  have hlt := hretreats.lt
  cases hretreats with
  | closed hresume _ =>
    rw [hresume, Option.mem_some_iff] at hlast
    exact hlast ▸ Int.le_refl _
  | seasonEnd hopen | before hopen => exact Int.le_trans (Int.le_of_lt hlt) (hopen last hlast)

/-- No date is admitted back to the one at which a search is resumed. -/
theorem not_admits (hretreats : schedule.Retreats closing date resume) (hlt : resume < other)
    (hle : other ≤ date) : ¬ schedule.Admits closing other := by
  intro hadmits
  cases hretreats with
  | closed hlast _ => exact absurd hlt (Int.not_lt.mpr (hadmits.notClosed resume hlast))
  | seasonEnd _ hout hend =>
    exact absurd hadmits.inSeason
      (Bool.eq_false_iff.mp ((previousSeasonEnd?_spec hend hout).2 other hlt hle))
  | before _ _ hskipped hbefore =>
    obtain rfl := Date.eq_of_addDays?_neg_one_lt hbefore hlt hle
    exact absurd hskipped (Bool.eq_false_iff.mp hadmits.notSkipped)

/-- On these dates a search is resumed at the same date. -/
theorem of_between (hretreats : schedule.Retreats closing date resume)
    (hsupported : date.IsSupported) (hlt : resume < other) (hle : other ≤ date) :
    schedule.Retreats closing other resume := by
  cases hretreats with
  | closed hlast _ => exact .closed hlast hlt
  | seasonEnd hopen hout hend =>
    exact .seasonEnd (fun last hlast => Int.le_trans hle (hopen last hlast))
      ((previousSeasonEnd?_spec hend hout).2 other hlt hle)
      (previousSeasonEnd?_congr hsupported hend hout hlt hle)
  | before hopen hin hskipped hbefore =>
    obtain rfl := Date.eq_of_addDays?_neg_one_lt hbefore hlt hle
    exact .before hopen hin hskipped hbefore

/-- A search that lands on a rejected date after an admitted one is resumed by then. -/
theorem exists_of_not_admits (hdate : date.IsSupported) (hother : other.IsSupported)
    (hrejected : ¬ schedule.Admits closing date) (hadmits : schedule.Admits closing other)
    (hlt : other < date) : ∃ resume, schedule.Retreats closing date resume ∧ other ≤ resume := by
  by_cases hopen : ∀ last ∈ closing, date ≤ last
  · cases hin : inSeason schedule.season date with
    | false =>
      obtain ⟨last, hend, hle, _⟩ :=
        exists_previousSeasonEnd? hdate hother hin hadmits.inSeason hlt
      exact ⟨last, .seasonEnd hopen hin hend, hle⟩
    | true =>
      have hskipped : schedule.skips date = true := by
        by_contra hkept
        exact hrejected ⟨hin, Bool.eq_false_iff.mpr hkept, hopen⟩
      have hnumber : other.dayNumber < date.dayNumber := hlt
      obtain ⟨before, hbefore⟩ : ∃ before : Date, before.dayNumber = date.dayNumber + -1 :=
        ⟨⟨_⟩, rfl⟩
      have hle : other ≤ before := show other.dayNumber ≤ before.dayNumber by omega
      have hsupported := hother.of_between hdate hle
        (show before.dayNumber ≤ date.dayNumber by omega)
      exact ⟨before, .before hopen hin hskipped
        (Date.addDays?_eq_some_iff.mpr ⟨hbefore, hsupported⟩), hle⟩
  · simp only [not_forall] at hopen
    obtain ⟨last, hlast, hclosed⟩ := hopen
    exact ⟨last, .closed hlast (Int.not_le.mp hclosed), hadmits.notClosed last hlast⟩

end Retreats

/-- What becomes of a candidate: it is returned, or the search is resumed before it, or
nothing is found. -/
def settleBack (schedule : Schedule) (zone : Zone) (closing : Option Date) (resumptions : Nat)
    (candidate : Instant) : Option Instant :=
  let date := zone.dateOf candidate
  if schedule.anchor.any (date < ·) then none
  else match closing.filter (· < date) with
    | some last =>
      schedule.searchBackward zone closing resumptions
        ((Frame.ofSchedule schedule zone).endOfDay last)
    | none =>
      if !inSeason schedule.season date then
        (previousSeasonEnd? schedule.season date).bind fun resume =>
          schedule.searchBackward zone closing resumptions
            ((Frame.ofSchedule schedule zone).endOfDay resume)
      else if schedule.skips date then
        (date.addDays? (-1)).bind fun resume =>
          schedule.searchBackward zone closing resumptions
            ((Frame.ofSchedule schedule zone).endOfDay resume)
      else some candidate

theorem searchBackward_succ (schedule : Schedule) (zone : Zone) (closing : Option Date)
    (resumptions : Nat) (cursor : Instant) :
    schedule.searchBackward zone closing (resumptions + 1) cursor =
      ((Frame.ofSchedule schedule zone).previousOf schedule.recurrence cursor).bind
        (schedule.settleBack zone closing resumptions) :=
  rfl

theorem filter_lt_eq_none_iff {date : Date} :
    closing.filter (· < date) = none ↔ ∀ last ∈ closing, date ≤ last := by
  simp only [Option.filter_eq_none_iff, decide_eq_true_eq]
  exact forall_congr' fun last => imp_congr_right fun _ => Int.not_lt

/-- How a search that lands on a candidate comes to find something. -/
theorem settleBack_eq_some_iff : schedule.settleBack zone closing resumptions candidate = some hit ↔
    (∀ first ∈ schedule.anchor, first ≤ zone.dateOf candidate) ∧
      (candidate = hit ∧ schedule.Admits closing (zone.dateOf candidate) ∨
        ∃ resume, schedule.Retreats closing (zone.dateOf candidate) resume ∧
          schedule.searchBackward zone closing resumptions
            ((Frame.ofSchedule schedule zone).endOfDay resume) = some hit) := by
  constructor
  · intro hsettle
    unfold settleBack at hsettle
    dsimp only at hsettle
    split at hsettle
    · exact nomatch hsettle
    rename_i hstarted
    refine ⟨any_gt_eq_false_iff.mp (Bool.eq_false_iff.mpr hstarted), ?_⟩
    split at hsettle
    · rename_i last hlast
      obtain ⟨hlast, hclosed⟩ := Option.filter_eq_some_iff.mp hlast
      exact .inr ⟨last, .closed hlast (of_decide_eq_true hclosed), hsettle⟩
    rename_i hopen
    have hopen := filter_lt_eq_none_iff.mp hopen
    split at hsettle
    · rename_i hout
      obtain ⟨resume, hresume, hrest⟩ := Option.bind_eq_some_iff.mp hsettle
      exact .inr ⟨resume, .seasonEnd hopen (Bool.not_eq_true' _ ▸ hout) hresume, hrest⟩
    rename_i hin
    rw [Bool.not_eq_true', Bool.not_eq_false] at hin
    split at hsettle
    · rename_i hskipped
      obtain ⟨resume, hresume, hrest⟩ := Option.bind_eq_some_iff.mp hsettle
      exact .inr ⟨resume, .before hopen hin hskipped hresume, hrest⟩
    · rename_i hkept
      exact .inl ⟨Option.some.inj hsettle, hin, Bool.eq_false_iff.mpr hkept, hopen⟩
  · rintro ⟨hstarted, ⟨rfl, hadmits⟩ | ⟨resume, hretreats, hrest⟩⟩
    · simp only [settleBack, any_gt_eq_false_iff.mpr hstarted,
        filter_lt_eq_none_iff.mpr hadmits.notClosed, hadmits.inSeason, hadmits.notSkipped,
        Bool.not_true, Bool.false_eq_true, if_false]
    · cases hretreats with
      | closed hlast hlt =>
        have hclosed : closing.filter (· < zone.dateOf candidate) = some resume :=
          Option.filter_eq_some_iff.mpr ⟨hlast, decide_eq_true hlt⟩
        simpa only [settleBack, any_gt_eq_false_iff.mpr hstarted, hclosed, Bool.false_eq_true,
          if_false] using hrest
      | seasonEnd hopen hout hend =>
        simpa only [settleBack, any_gt_eq_false_iff.mpr hstarted, filter_lt_eq_none_iff.mpr hopen,
          hout, hend, Bool.not_false, Bool.false_eq_true, if_false, if_true, Option.bind_some]
          using hrest
      | before hopen hin hskipped hbefore =>
        simpa only [settleBack, any_gt_eq_false_iff.mpr hstarted, filter_lt_eq_none_iff.mpr hopen,
          hin, hskipped, hbefore, Bool.not_true, Bool.false_eq_true, if_false, if_true,
          Option.bind_some] using hrest

/-- A backward search may be resumed where `Retreats` says. -/
theorem nearest_of_resumed_backward (huniversal : zone.IsUniversal)
    (hwell : schedule.recurrence.WellFormed)
    (hcandidate : IsNearest (· > ·) ((Frame.ofSchedule schedule zone).Offers schedule.recurrence)
      cursor candidate)
    (hretreats : schedule.Retreats closing (zone.dateOf candidate) resume)
    (hresumed : IsNearest (· > ·) (schedule.Offers zone closing)
      ((Frame.ofSchedule schedule zone).endOfDay resume) hit) :
    IsNearest (· > ·) (schedule.Offers zone closing) cursor hit := by
  have hedge : ∀ {moment : Instant}, schedule.Offers zone closing moment →
      (moment < (Frame.ofSchedule schedule zone).endOfDay resume ↔
        zone.dateOf moment ≤ resume) :=
    fun hoffers => Frame.lt_endOfDay_iff huniversal (hoffers.1.isWholeMinute huniversal hwell).1
  refine hresumed.resume ?_ fun moment hoffers hmoment => (hedge hoffers).mpr ?_
  · have hearlier : zone.dateOf hit ≤ resume := (hedge hresumed.holds).mp hresumed.isBeyond
    exact Instant.lt_trans
      (huniversal.lt_of_dateOf_lt (Int.lt_of_le_of_lt hearlier hretreats.lt)) hcandidate.isBeyond
  · refine Int.not_lt.mp fun hafter => hretreats.not_admits hafter (Int.not_lt.mp fun hlater => ?_)
      hoffers.2
    exact hcandidate.closest moment hoffers.1 hmoment (huniversal.lt_of_dateOf_lt hlater)

/-- A backward search finds the closest instant behind that the schedule offers,
and nothing before the anchor. -/
theorem nearest_of_searchBackward (huniversal : zone.IsUniversal)
    (hwell : schedule.recurrence.WellFormed)
    (hsearch : schedule.searchBackward zone closing resumptions cursor = some hit) :
    IsNearest (· > ·) (schedule.Offers zone closing) cursor hit ∧
      ∀ first ∈ schedule.anchor, first ≤ zone.dateOf hit := by
  induction resumptions generalizing cursor with
  | zero => exact nomatch hsearch
  | succ resumptions ih =>
    rw [searchBackward_succ] at hsearch
    obtain ⟨candidate, hcandidate, hsettle⟩ := Option.bind_eq_some_iff.mp hsearch
    have hnearest := Frame.nearest_of_previousOf huniversal hwell hcandidate
    obtain ⟨hstarted, ⟨rfl, hadmits⟩ | ⟨resume, hretreats, hrest⟩⟩ :=
      settleBack_eq_some_iff.mp hsettle
    · exact ⟨hnearest.restrict ⟨hnearest.holds, hadmits⟩ fun moment hoffers => hoffers.1, hstarted⟩
    · obtain ⟨hresumed, hanchor⟩ := ih hrest
      exact ⟨nearest_of_resumed_backward huniversal hwell hnearest hretreats hresumed, hanchor⟩

end Schedule

end Cadence
