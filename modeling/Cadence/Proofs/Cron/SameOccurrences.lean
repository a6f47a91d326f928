import Mathlib
import Cadence.Proofs.Cron.RoundTrip
import Cadence.Proofs.Schedule.ScanReach

/-!
# Cron keeps the occurrences

What is read back from a written line need not be the recurrence that was written.
Weekly recurrences come back as daily ones with a filter, lists of weekdays come back
in another order or under a name, and the anchor is lost.  Both select the same dates
all the same, for at an interval of one every day, week and month is aligned, and so
membership and the search for the next occurrence have the same answers.
-/

namespace Cadence

/-! ## Intervals of one -/

namespace Frame

variable {zone : Zone} {anchor other : Option Date} {season : List Month} {now : Instant}

theorem stepsAhead_one (distance : Int) : stepsAhead distance 1 = 0 :=
  Nat.lt_one_iff.mp (stepsAhead_lt distance 1)

/-- Months at an interval of one do not depend on the anchor. -/
theorem nextMonthly_one (dates : YearMonth → List Date) (seasonal : Bool)
    (times : List TimeOfDay) :
    (Frame.mk zone anchor season).nextMonthly 1 dates seasonal times now =
      (Frame.mk zone other season).nextMonthly 1 dates seasonal times now := by
  simp only [nextMonthly, stepsAhead_one]
  rfl

/-- Days at an interval of one depend on the weekdays that pass the filter alone. -/
theorem nextDaily_one {days filter : DayFilter} (hsame : ∀ day, filter.allows day = days.allows day)
    (times : List TimeOfDay) :
    (Frame.mk zone anchor season).nextDaily 1 filter times now =
      (Frame.mk zone other season).nextDaily 1 days times now := by
  simp only [nextDaily, hsame]
  rfl

/-- A search that may land on one of the next days finds something. -/
theorem exists_nextOf_of_near {frame : Frame} {recurrence : Recurrence} {date : Date}
    (hzone : frame.zone.KeepsDates) (hwell : recurrence.WellFormed)
    (htimes : recurrence.times ≠ []) (hnow : (frame.zone.dateOf now).HasFourDigitYear)
    (hproposes : frame.Proposes recurrence date) (hlater : frame.zone.dateOf now < date)
    (hnear : date.dayNumber ≤ (frame.zone.dateOf now).dayNumber + Reach.days) :
    ∃ hit, frame.nextOf recurrence now = some hit := by
  have hreaches := hproposes.reaches_of_near hnear hnow.isSome_monday?
  obtain ⟨seen, hsees⟩ : ∃ seen, frame.SeesAhead recurrence now date seen :=
    exists_lookAhead? hzone htimes hlater
  exact exists_nextOf_of_seesAhead hzone hwell hproposes hreaches hsees

section Weekdays

variable {days : List Weekday} {filter : DayFilter} {times : List TimeOfDay}
  (hsame : ∀ day, filter.allows day = true ↔ day ∈ days)
  (hmonday : (Date.ofDayNumber? (weekAnchor anchor)).isSome = true)
include hsame hmonday

/-- Weekdays of every week are the days that pass a filter. -/
theorem selects_weekly_one_iff (date : Date) :
    (Recurrence.daily 1 filter times).Selects other date ↔
      (Recurrence.weekly 1 days times).Selects anchor date := by
  obtain ⟨monday, hmonday⟩ := Option.isSome_iff_exists.mp hmonday
  simp only [Recurrence.Selects, hsame, isAligned_of_le_one _ (Nat.le_refl 1), and_true, hmonday,
    Option.some.injEq, exists_eq']

/-- Every weekday comes round within a week, so both searches find something, and what they
find is the earliest of the same instants. -/
theorem nextOf_weekly_one (hzone : zone.KeepsDates) (hdays : days ≠ [])
    (htimes : TimesWellFormed times) (hnow : (zone.dateOf now).HasFourDigitYear) :
    (Frame.mk zone other season).nextOf (.daily 1 filter times) now =
      (Frame.mk zone anchor season).nextOf (.weekly 1 days times) now := by
  obtain ⟨day, hday⟩ := List.exists_mem_of_ne_nil days hdays
  have hinterval : IntervalWellFormed 1 := intervalWellFormed_one
  have hfilter : filter.WellFormed := by
    cases filter with
    | listed listed => exact List.ne_nil_of_mem (List.contains_iff_mem.mp ((hsame day).mpr hday))
    | _ => trivial
  have hdaily : (Recurrence.daily 1 filter times).WellFormed :=
    ⟨hinterval, hfilter, fun hlong => absurd hlong (Nat.lt_irrefl 1), htimes⟩
  have hweekly : (Recurrence.weekly 1 days times).WellFormed := ⟨hinterval, hdays, htimes⟩
  -- Both get to the first of these weekdays after the current date.
  obtain ⟨date, hlater, hclose, hweekday⟩ := (zone.dateOf now).exists_weekday_after day
  have hahead : (zone.dateOf now).dayNumber < date.dayNumber := hlater
  have hnear : date.dayNumber ≤ (zone.dateOf now).dayNumber + Reach.days := by
    rw [Reach.days]
    omega
  have hsupported : date.IsSupported := hnow.isSupported_of_near (by omega) (by omega)
  have hselects : (Recurrence.daily 1 filter times).Selects other date :=
    ⟨(hsame _).mpr (hweekday ▸ hday), isAligned_of_le_one _ (Nat.le_refl 1)⟩
  obtain ⟨first, hfirst⟩ : ∃ hit,
      (Frame.mk zone other season).nextOf (.daily 1 filter times) now = some hit :=
    exists_nextOf_of_near hzone hdaily htimes.1 hnow ⟨hsupported, hselects⟩ hlater hnear
  obtain ⟨second, hsecond⟩ : ∃ hit,
      (Frame.mk zone anchor season).nextOf (.weekly 1 days times) now = some hit :=
    exists_nextOf_of_near hzone hweekly htimes.1 hnow
      ⟨hsupported, (selects_weekly_one_iff hsame hmonday date).mp hselects⟩ hlater hnear
  have hoffers : (Frame.mk zone other season).Offers (.daily 1 filter times) =
      (Frame.mk zone anchor season).Offers (.weekly 1 days times) := by
    funext moment
    refine propext (exists_congr fun date => and_congr_right fun _ => ?_)
    exact and_congr_left fun _ => selects_weekly_one_iff hsame hmonday date
  have hnearest := nearest_offer_of_nextOf hzone hdaily
    (fun hleaves => absurd hleaves Bool.false_ne_true)
    (fun date => tries_lookAhead?_of_listed rfl date) hfirst
  have hnearest' := nearest_offer_of_nextOf hzone hweekly
    (fun hleaves => absurd hleaves Bool.false_ne_true)
    (fun date => tries_lookAhead?_of_listed rfl date) hsecond
  rw [hoffers] at hnearest
  rw [hfirst, hsecond, hnearest.unique
    (fun hfirst hsecond => Instant.eq_of_not_lt hfirst hsecond) hnearest']

end Weekdays

end Frame

namespace Cron

/-- As what a recurrence comes back from the line it is written as. -/
inductive ComesBackAs : Recurrence → Recurrence → Prop
  | window (interval : Nat) (unit : StepUnit) :
    ComesBackAs (.window interval unit .midnight .lastMinute none)
      (.window interval unit .midnight .lastMinute none)
  | daily {time : TimeOfDay} {filter other : DayFilter}
      (hsame : ∀ day, other.allows day = filter.allows day) :
    ComesBackAs (.daily 1 filter [time]) (.daily 1 other [time])
  | weekly {time : TimeOfDay} {days : List Weekday} {other : DayFilter} (htime : time.IsOnClock)
      (hdays : days ≠ []) (hsame : ∀ day, other.allows day = true ↔ day ∈ days) :
    ComesBackAs (.weekly 1 days [time]) (.daily 1 other [time])
  | monthly (entries : List MonthDays) (time : TimeOfDay) :
    ComesBackAs (.monthly 1 (.days entries) [time]) (.monthly 1 (.days entries) [time])

theorem IsLineOf.comesBackAs {recurrence : Recurrence} {text : String}
    (hline : IsLineOf recurrence text) {schedule : Schedule}
    (hback : Schedule.ofCron text = .ok schedule) :
    ∃ other, schedule = .ofRecurrence other ∧ ComesBackAs recurrence other := by
  cases hline with
  | daily htime hfilter =>
    obtain ⟨other, hread, _, hsame⟩ := ofCron_daily htime hfilter
    exact ⟨_, Except.ok.inj (hback.symm.trans hread), .daily hsame⟩
  | @weekly time days htime hdays =>
    have hfilter : (DayFilter.listed days).WellFormed := hdays
    obtain ⟨other, hread, _, hsame⟩ := ofCron_daily htime hfilter
    refine ⟨_, Except.ok.inj (hback.symm.trans hread), .weekly htime hdays fun day => ?_⟩
    rw [hsame]
    exact List.contains_iff_mem
  | monthly htime hne hentries =>
    exact ⟨_, Except.ok.inj (hback.symm.trans (ofCron_monthly htime hne hentries)), .monthly _ _⟩
  | @minutes interval hpos hdvd =>
    rw [ofCron_minutes hpos hdvd] at hback
    split at hback
    · cases hback
    · exact ⟨_, (Except.ok.inj hback).symm, .window interval .minutes⟩
  | hours hinterval =>
    exact ⟨_, Except.ok.inj (hback.symm.trans (ofCron_hours hinterval)), .window _ .hours⟩

namespace ComesBackAs

variable {zone : Zone} {anchor : Option Date} {recurrence other : Recurrence} {now moment : Instant}

theorem times_eq (hcomes : ComesBackAs recurrence other) : other.times = recurrence.times := by
  cases hcomes <;> rfl

theorem isWindow_eq (hcomes : ComesBackAs recurrence other) :
    other.isWindow = recurrence.isWindow := by
  cases hcomes <;> rfl

section Anchor

variable (hcomes : ComesBackAs recurrence other)
  (hmonday : (Date.ofDayNumber? (weekAnchor anchor)).isSome = true)
include hcomes hmonday

theorem selects_iff (date : Date) : other.Selects none date ↔ recurrence.Selects anchor date := by
  have haligned := fun distance => isAligned_of_le_one distance (Nat.le_refl 1)
  cases hcomes with
  | window => exact Iff.rfl
  | daily hsame => simp only [Recurrence.Selects, haligned, hsame]
  | weekly htime hdays hsame => exact Frame.selects_weekly_one_iff hsame hmonday date
  | monthly => simp only [Recurrence.Selects, haligned]

/-- Membership is the same at every instant. -/
theorem fires_eq (moment : Instant) :
    (Frame.mk zone none []).fires other moment =
      (Frame.mk zone anchor []).fires recurrence moment := by
  rw [Bool.eq_iff_iff, Frame.fires_iff_shows, Frame.fires_iff_shows, Frame.Shows, Frame.Shows,
    hcomes.times_eq, hcomes.isWindow_eq]
  exact and_congr_left fun _ => hcomes.selects_iff hmonday _

/-- The search for the next occurrence has the same answer. -/
theorem nextOf_eq (hzone : zone.KeepsDates) (hnow : (zone.dateOf now).HasFourDigitYear) :
    (Frame.mk zone none []).nextOf other now = (Frame.mk zone anchor []).nextOf recurrence now := by
  cases hcomes with
  | window => rfl
  | daily hsame => exact Frame.nextDaily_one hsame _
  | weekly htime hdays hsame =>
    exact Frame.nextOf_weekly_one hsame hmonday hzone hdays
      ⟨List.cons_ne_nil _ _, List.forall_mem_singleton.mpr htime⟩ hnow
  | monthly => exact Frame.nextMonthly_one _ _ _

end Anchor

end ComesBackAs

end Cron

namespace Schedule

variable {schedule other : Schedule} {moment : Instant}

/-- A schedule in universal time that is written as cron and read back has the same
occurrences. -/
theorem occurrences_eq_of_ofCron {text line : String} (hread : ofText text = .ok schedule)
    (hzone : schedule.zone = none) (hwrite : schedule.toCron = .ok line)
    (hback : ofCron line = .ok other) (hmoment : (Zone.utc.dateOf moment).HasFourDigitYear) :
    other.isOccurrence moment = schedule.isOccurrence moment ∧
      other.next moment = schedule.next moment := by
  have hwell := wellFormed_of_ofText hread
  obtain ⟨hline, hskipped, hlast, hseason⟩ := Cron.isLineOf_of_toCron hwell hwrite
  obtain ⟨recurrence, rfl, hcomes⟩ := hline.comesBackAs hback
  have hfree : schedule.IsClauseFree := ⟨hskipped, hlast, hseason⟩
  have hother : (Schedule.ofRecurrence recurrence).IsClauseFree := ⟨rfl, rfl, rfl⟩
  have hutc : Zone.named schedule.zone = .ok Zone.utc := by rw [hzone]; rfl
  have hutc' : Zone.named (Schedule.ofRecurrence recurrence).zone = .ok Zone.utc := rfl
  have hmonday : (Date.ofDayNumber? (weekAnchor schedule.anchor)).isSome = true :=
    isSome_weekAnchor hwell.anchor
  have hframe : Frame.ofSchedule schedule Zone.utc = ⟨Zone.utc, schedule.anchor, []⟩ := by
    rw [Frame.ofSchedule, hseason]
  constructor
  · rw [isOccurrence_eq_ok hutc, isOccurrence_eq_ok hutc', hfree.firesIn_eq, hother.firesIn_eq,
      hframe]
    exact congrArg Except.ok (hcomes.fires_eq hmonday moment)
  · rw [next_eq_ok hutc, next_eq_ok hutc', nextIn_of_isClauseFree hfree,
      nextIn_of_isClauseFree hother, hframe]
    exact congrArg (fun hit => Except.ok (Option.map Zone.utc.timestamp hit))
      (hcomes.nextOf_eq hmonday (Zone.isUniversal_universal _).keepsDates hmoment)

/-- Fridays and Mondays come back without the anchor.  One of them is Friday, 2026-01-09, and
the next one the Monday after. -/
theorem occurrences_eq_of_ofCron_fridays :
    ∃ schedule other, ofText "every 1 weeks on fri, mon, fri at 07:05 starting 2026-01-07" =
        .ok schedule ∧ schedule.toCron = .ok "5 7 * * 1,5" ∧ ofCron "5 7 * * 1,5" = .ok other ∧
      other.isOccurrence (.ofSecond 63903625500) = .ok true ∧
      other.next (.ofSecond 63903625500) = .ok (some ⟨.ofSecond 63903884700, 0⟩) := by
  let schedule : Schedule :=
    ⟨.weekly 1 [.friday, .monday, .friday] [⟨7, 5⟩], none, [], none, some ⟨739623⟩, []⟩
  have hread : ofText "every 1 weeks on fri, mon, fri at 07:05 starting 2026-01-07" =
      .ok schedule := by cbv
  have hwrite : schedule.toCron = .ok "5 7 * * 1,5" := by cbv
  have hwritten := Cron.isWrittenLine_of_toCron (wellFormed_of_ofText hread) hwrite
  obtain ⟨other, hback, _⟩ := hwritten.exists_ofCron (by decide)
  have hfriday : (Zone.utc.dateOf (.ofSecond 63903625500)).HasFourDigitYear := by decide
  obtain ⟨hfires, hnext⟩ := occurrences_eq_of_ofCron hread rfl hwrite hback hfriday
  refine ⟨schedule, other, hread, hwrite, hback, ?_, ?_⟩
  · rw [hfires]
    decide +kernel
  · rw [hnext]
    decide +kernel

end Schedule

end Cadence
