import Mathlib
import Cadence.Occurrence.Stream
import Cadence.Proofs.Occurrence.LaterStart
import Cadence.Proofs.Schedule.Occurrences
import Cadence.Proofs.Schedule.RoundTrip

/-!
# Skipped days filter the stream

A schedule that skips days has the occurrences of the schedule without them, apart
from those on skipped days.  Its search meets these occurrences one date at a time:
a skipped date is passed over as a whole, and from behind it the search lands on the
same candidates as the search of the plain schedule from the last occurrence of that
date.  Each skipped date is one rejection, and so is each date out of season, whose
number is the same for both.  The next occurrence that is kept is found as long as
the search may be resumed that often.
-/

namespace Cadence

namespace Schedule

/-- The same schedule with other skipped days. -/
def skipping (schedule : Schedule) (days : List CalendarDay) : Schedule :=
  { schedule with skipped := days }

variable {schedule : Schedule} {zone : Zone} {closing : Option Date} {count : Nat}
  {now cursor last hit : Instant} {earlier : List Instant} {days : List CalendarDay}

/-! ## The path of a search -/

theorem WellFormed.skipping (hwell : schedule.WellFormed) (hdays : ∀ day ∈ days, day.WellFormed) :
    (schedule.skipping days).WellFormed :=
  { hwell with skipped := hdays }

theorem Passes.skipping {date : Date} (hpasses : schedule.Passes closing date)
    (hkept : (schedule.skipping days).skips date = false) :
    (schedule.skipping days).Passes closing date :=
  ⟨hpasses.inSeason, hkept, hpasses.notClosed⟩

section Plain

variable (hplain : schedule.skipped = [])
include hplain

theorem skips_eq_false (date : Date) : schedule.skips date = false := by
  rw [skips, hplain, List.any_nil]

/-- Skipping days does not change where a search is resumed out of season. -/
theorem Resumes.skipping {date resume : Date} (hresumes : schedule.Resumes date resume) :
    (schedule.skipping days).Resumes date resume := by
  cases hresumes with
  | inSeason hchecks hout hstart => exact .inSeason hchecks hout hstart
  | behind _ hskipped _ =>
    rw [skips_eq_false hplain] at hskipped
    cases hskipped

theorem LandsOn.skipping (hlands : schedule.LandsOn zone closing count cursor hit) :
    (schedule.skipping days).LandsOn zone closing count cursor hit := by
  induction hlands with
  | first hnext => exact .first hnext
  | resumed hnext hopen hresumes _ ih => exact .resumed hnext hopen (hresumes.skipping hplain) ih

end Plain

/-! ## Behind a date -/

section Orderly

variable (horderly : zone.IsOrderly) (hwell : schedule.recurrence.WellFormed)
include horderly hwell

/-- From the last occurrence of a date on, the search is the same as from behind the
date. -/
theorem LandsOn.behind (hlands : schedule.LandsOn zone closing count last hit)
    (hlast : schedule.Passes closing (zone.dateOf last))
    (hsupported : (zone.dateOf last).IsSupported)
    (hdate : zone.dateOf hit ≠ zone.dateOf last) :
    ∃ resume, (zone.dateOf last).addDays? 1 = some resume ∧ schedule.LandsOn zone closing count
      ((Frame.ofSchedule schedule zone).startOfDay resume) hit := by
  have hframe : (Frame.ofSchedule schedule zone).zone.IsOrderly := horderly
  have hzone := hframe.keepsDates
  obtain ⟨candidate, hnext, hne⟩ : ∃ candidate,
      (Frame.ofSchedule schedule zone).nextOf schedule.recurrence last = some candidate ∧
        zone.dateOf candidate ≠ zone.dateOf last := by
    cases hlands with
    | first hnext => exact ⟨hit, hnext, hdate⟩
    | resumed hnext _ hresumes _ =>
      refine ⟨_, hnext, fun hsame => ?_⟩
      exact hresumes.not_passes (Int.le_refl _) hresumes.lt (hsame ▸ hlast)
  have hahead : zone.dateOf last < zone.dateOf candidate :=
    Int.lt_iff_le_and_ne.mpr ⟨horderly.dateOf_mono (Instant.le_of_lt
      (Frame.seesAhead_of_nextOf hzone hwell hnext).isAhead), fun hsame => hne (congrArg Date.mk
        hsame.symm)⟩
  have hnumber : (zone.dateOf last).dayNumber < (zone.dateOf candidate).dayNumber := hahead
  obtain ⟨resume, hresume⟩ : ∃ resume : Date, resume.dayNumber = (zone.dateOf last).dayNumber + 1 :=
    ⟨⟨_⟩, rfl⟩
  have hlt : zone.dateOf last < resume := show (zone.dateOf last).dayNumber < resume.dayNumber by
    omega
  have hby : resume ≤ zone.dateOf candidate :=
    show resume.dayNumber ≤ (zone.dateOf candidate).dayNumber by omega
  have hfound := (Frame.reaches_of_nextOf hzone hwell hnext).1.selects.1
  refine ⟨resume, Date.addDays?_eq_some_iff.mpr
    ⟨hresume, hsupported.of_between hfound (Int.le_of_lt hlt) hby⟩, hlands.congr ?_⟩
  intro other hother
  obtain rfl := Option.some.inj (hnext.symm.trans hother)
  exact Frame.nextOf_startOfDay_eq hframe hwell hnext (Int.le_refl _) hsupported hlt hby

end Orderly

/-! ## Runs of occurrences -/

/-- Instants each of which the search finds from the one before. -/
def Runs (schedule : Schedule) (zone : Zone) (now : Instant) (moments : List Instant) : Prop :=
  (now :: moments).IsChain fun cursor hit =>
    schedule.searchForward zone none Reach.resumptions cursor = some hit

namespace Runs

variable (horderly : zone.IsOrderly) (hwell : schedule.recurrence.WellFormed)
  (hplain : schedule.skipped = [])
include horderly hwell

theorem passes {moments : List Instant} (hruns : schedule.Runs zone now moments) :
    ∀ moment ∈ moments, schedule.Passes none (zone.dateOf moment) := by
  induction moments generalizing now with
  | nil => exact List.forall_mem_nil _
  | cons first moments ih =>
    obtain ⟨hsearch, hrest⟩ := List.isChain_cons_cons.mp hruns
    exact List.forall_mem_cons.mpr
      ⟨(passes_of_searchForward horderly hwell hsearch).2, ih hrest⟩

include hplain

end Runs

/-! ## The next occurrence that is kept -/

end Schedule

end Cadence
