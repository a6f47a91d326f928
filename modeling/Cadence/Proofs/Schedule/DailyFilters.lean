import Mathlib
import Cadence.Proofs.Occurrence.Adjacent
import Cadence.Proofs.Occurrence.FoundOffers
import Cadence.Proofs.Occurrence.Rejections
import Cadence.Proofs.Occurrence.Retreats
import Cadence.Proofs.Schedule.Occurrences
import Cadence.Proofs.Zone.OrderlyZones

/-!
# Weekday filters of daily schedules

Expressions give a weekday filter to a daily schedule only when its interval is a
single day, but a schedule built by hand may have both.  Membership then asks for
both, while the two searches look at the filter only when the interval is a
single day.  What they find is an occurrence exactly if the filter would have let
it pass.

Nothing is assumed of such a schedule: its clauses may name days that no month
has, and its interval may be zero.
-/

namespace Cadence

/-- The weekdays that a search looks for: all of them when it steps over several days. -/
def DayFilter.searched (days : DayFilter) (interval : Nat) : DayFilter :=
  if interval ≤ 1 then days else .every

/-- A filter that is not looked at is no filter. -/
theorem DayFilter.allows_searched_iff {days : DayFilter} {interval : Nat} {day : Weekday} :
    (days.searched interval).allows day = true ↔ (interval ≤ 1 → days.allows day = true) := by
  unfold searched
  split
  · rename_i hsingle
    simp only [hsingle, true_imp_iff]
  · rename_i hseveral
    simp only [hseveral, false_imp_iff, iff_true]
    rfl

theorem DayFilter.searched_of_several (days : DayFilter) {interval : Nat}
    (hseveral : 1 < interval) : days.searched interval = .every :=
  if_neg (Nat.not_le.mpr hseveral)

namespace Frame

variable {frame : Frame} {interval : Nat} {days : DayFilter} {times : List TimeOfDay}
  {now hit : Instant}

theorem nextDaily_searched (frame : Frame) (interval : Nat) (days : DayFilter)
    (times : List TimeOfDay) (now : Instant) :
    frame.nextDaily interval (days.searched interval) times now =
      frame.nextDaily interval days times now := by
  unfold nextDaily DayFilter.searched
  split <;> rfl

theorem previousDaily_searched (frame : Frame) (interval : Nat) (days : DayFilter)
    (times : List TimeOfDay) (now : Instant) :
    frame.previousDaily interval (days.searched interval) times now =
      frame.previousDaily interval days times now := by
  unfold previousDaily DayFilter.searched
  split <;> rfl

/-- What a search finds for a daily recurrence is a listed time of an aligned day that
passes the filter as far as it is looked at. -/
theorem offers_of_nextDaily (hfound : frame.nextDaily interval days times now = some hit) :
    frame.Offers (.daily interval (days.searched interval) times) hit := by
  rw [← nextDaily_searched] at hfound
  obtain ⟨date, ⟨⟨hsupported, hselects⟩, _⟩, hon⟩ :=
    (tries_nextDaily tries_earliestAfter days.searched_of_several).found hit hfound
  exact ⟨date, hsupported, hselects, hon⟩

theorem offers_of_previousDaily
    (hfound : frame.previousDaily interval days times now = some hit) :
    frame.Offers (.daily interval (days.searched interval) times) hit := by
  rw [← previousDaily_searched] at hfound
  have hlook (date : Date) : frame.TriesBehind
      (fun date moment => frame.latestOn date times now = some moment) (· = date) now
      (frame.latestOn date times now) := .of_look date fun _ => passed_of_latestOn
  obtain ⟨date, ⟨⟨hsupported, hselects⟩, _⟩, hlatest⟩ :=
    (tries_previousDaily hlook days.searched_of_several).found hit hfound
  exact ⟨date, hsupported, hselects, onDate_of_latestOn hlatest⟩

/-- Of what the searches find, a daily recurrence fires where its filter lets the date pass. -/
theorem fires_daily_iff_of_offers (hgaps : frame.zone.GapsKeepDates)
    (hoffers : frame.Offers (.daily interval (days.searched interval) times) hit) :
    frame.fires (.daily interval days times) hit = true ↔
      (1 < interval → days.allows (frame.zone.dateOf hit).weekday = true) := by
  obtain ⟨date, _, ⟨hsearched, haligned⟩, time, htime, rfl⟩ := hoffers
  have hdate := hgaps.dateOf_instantAt date time
  have hshows : frame.Shows (.daily interval days times) (frame.zone.instantAt date time) :=
    .inr ⟨rfl, time, htime, by rw [hdate]⟩
  rw [DayFilter.allows_searched_iff] at hsearched
  rw [fires_iff_shows, and_iff_left hshows, hdate]
  constructor
  · exact fun hselects _ => hselects.1
  · intro hallowed
    refine ⟨?_, haligned⟩
    rcases Nat.lt_or_ge 1 interval with hseveral | hsingle
    · exact hallowed hseveral
    · exact hsearched hsingle

end Frame

namespace Schedule

variable {schedule : Schedule} {zone : Zone} {now hit : Instant}
  {interval : Nat} {days : DayFilter} {times : List TimeOfDay}

/-- What a search finds for a daily schedule is offered on a date that the clauses admit
as seen from there. -/
theorem offers_daily_of_found (hdaily : schedule.recurrence = .daily interval days times)
    (hgaps : zone.GapsKeepDates)
    (hfound : schedule.nextIn zone now = some hit ∨ schedule.previousIn zone now = some hit) :
    (Frame.ofSchedule schedule zone).Offers (.daily interval (days.searched interval) times) hit ∧
      schedule.Admits (schedule.closingDate? (zone.dateOf hit)) (zone.dateOf hit) := by
  have hfree : schedule.recurrence.mayLeaveMonth = true → schedule.season = [] := by
    rw [hdaily]
    exact fun hleaves => nomatch hleaves
  have hself : (Frame.ofSchedule schedule zone).Offers
        (.daily interval (days.searched interval) times) hit →
      schedule.Admits (schedule.closingDate? (zone.dateOf now)) (zone.dateOf hit) →
      schedule.Admits (schedule.closingDate? (zone.dateOf hit)) (zone.dateOf hit) := by
    rintro ⟨date, hsupported, _, time, _, rfl⟩ ⟨hseason, hkept, hopen⟩
    have hdate : zone.dateOf ((Frame.ofSchedule schedule zone).zone.instantAt date time) = date :=
      hgaps.dateOf_instantAt date time
    rw [hdate] at hseason hkept hopen ⊢
    exact ⟨hseason, hkept, notClosed_closingDate?_self hsupported hopen⟩
  rcases hfound with hnext | hprevious
  · obtain ⟨_, _, hlands, hpasses⟩ := searchForward_eq_some_iff.mp hnext
    obtain ⟨start, hstart⟩ := hlands.exists_nextOf
    rw [hdaily] at hstart
    have hoffers := Frame.offers_of_nextDaily hstart
    exact ⟨hoffers, hself hoffers ((passes_iff_admits hfree).mp hpasses)⟩
  · obtain ⟨⟨start, hstart⟩, hadmits, _⟩ := exists_previousOf_of_searchBackward hprevious
    rw [hdaily] at hstart
    have hoffers := Frame.offers_of_previousDaily hstart
    exact ⟨hoffers, hself hoffers hadmits⟩

/-- What either search finds for a daily schedule is an occurrence exactly if the interval
is a single day or the filter lets the date pass. -/
theorem isOccurrence_daily_found_iff (hdaily : schedule.recurrence = .daily interval days times)
    (hzone : Zone.named schedule.zone = .ok zone) (hgaps : zone.GapsKeepDates)
    {stamp : Timestamp}
    (hfound : schedule.next now = .ok (some stamp) ∨ schedule.previous now = .ok (some stamp)) :
    schedule.isOccurrence stamp.instant = .ok true ↔
      (1 < interval → days.allows (zone.dateOf stamp.instant).weekday = true) := by
  obtain ⟨hit, hhit, rfl⟩ : ∃ hit,
      (schedule.nextIn zone now = some hit ∨ schedule.previousIn zone now = some hit) ∧
        zone.timestamp hit = stamp := by
    rcases hfound with hnext | hprevious
    · obtain ⟨hit, hhit, hstamp⟩ := (next_eq_ok_some_iff hzone).mp hnext
      exact ⟨hit, .inl hhit, hstamp⟩
    · obtain ⟨hit, hhit, hstamp⟩ := (previous_eq_ok_some_iff hzone).mp hprevious
      exact ⟨hit, .inr hhit, hstamp⟩
  obtain ⟨hoffers, hadmits⟩ := offers_daily_of_found hdaily hgaps hhit
  rw [isOccurrence_eq_ok hzone, Except.ok.injEq]
  change schedule.firesIn zone hit = true ↔ _
  rw [firesIn_iff_admits, and_iff_left hadmits, hdaily]
  exact Frame.fires_daily_iff_of_offers hgaps hoffers

/-- On every second day, if it is a weekday: 2026-01-05 is such a Monday. -/
theorem isOccurrence_daily_found_iff_on_monday :
    (Schedule.ofRecurrence (.daily 2 .business [⟨9, 0⟩])).next (.ofSecond 63903211200) =
        .ok (some ⟨.ofSecond 63903286800, 0⟩) ∧
      (Schedule.ofRecurrence (.daily 2 .business [⟨9, 0⟩])).isOccurrence (.ofSecond 63903286800) =
        .ok true := by
  let schedule : Schedule := .ofRecurrence (.daily 2 .business [⟨9, 0⟩])
  have hzone : Zone.named schedule.zone = .ok .utc := rfl
  have hgaps : Zone.utc.GapsKeepDates :=
    (Zone.isUniversal_universal _).isOrderly.gapsKeepDates
  have hnext : schedule.next (.ofSecond 63903211200) =
      .ok (some ⟨.ofSecond 63903286800, 0⟩) := by cbv
  have hallowed : DayFilter.business.allows (Zone.utc.dateOf (.ofSecond 63903286800)).weekday =
      true := by decide
  exact ⟨hnext, (isOccurrence_daily_found_iff rfl hzone hgaps (.inl hnext)).mpr fun _ => hallowed⟩

/-- The searches also find 2026-01-03, a Saturday, from before it and from behind it. -/
theorem isOccurrence_daily_found_ne_on_saturday :
    (Schedule.ofRecurrence (.daily 2 .business [⟨9, 0⟩])).next (.ofSecond 63903038400) =
        .ok (some ⟨.ofSecond 63903114000, 0⟩) ∧
      (Schedule.ofRecurrence (.daily 2 .business [⟨9, 0⟩])).previous (.ofSecond 63903211200) =
        .ok (some ⟨.ofSecond 63903114000, 0⟩) ∧
      (Schedule.ofRecurrence (.daily 2 .business [⟨9, 0⟩])).isOccurrence (.ofSecond 63903114000) =
        .ok false := by
  refine ⟨?_, ?_, ?_⟩
  · cbv
  · cbv
  · cbv

end Schedule

end Cadence
