import Cadence.Proofs.Calendar.ReturningDays
import Cadence.Proofs.Occurrence.OrderlySearch

/-!
# Far enough back

A backward search goes as far as a forward search came.  Where the two count
differently, the dates that a recurrence selects lie closer together than either
of them goes: days and weeks recur, and a day of the month comes round.  The one
exception is a weekly recurrence in the last week of the calendar.
-/

namespace Cadence

namespace Frame

variable {frame : Frame} {recurrence : Recurrence} {now first : Instant} {date : Date}

/-- Whether the calendar has all the weekdays a recurrence lists in the week of a
date. -/
def WeekInCalendar : Recurrence → Date → Prop
  | .weekly _ days _, date => date.monday?.any (reachesWeekdays · days) = true
  | _, _ => True

section Reversal

variable (horderly : frame.zone.IsOrderly) (hwell : recurrence.WellFormed)
  (hseason : recurrence.mayLeaveMonth = true → frame.season = [])
  (hoffers : frame.Offers recurrence first) (hnext : frame.nextOf recurrence first = some now)

include horderly hwell hseason hoffers hnext

/-- Between an occurrence and the next one no date is selected. -/
theorem not_selects_between (hafter : frame.zone.dateOf first < date)
    (hbefore : date < frame.zone.dateOf now) (hsupported : date.IsSupported) :
    ¬ recurrence.Selects frame.anchor date := by
  intro hselects
  obtain ⟨_, _, _, time, htime, _⟩ := hoffers
  have hnearest := nearest_seen_of_nextOf horderly.keepsDates hwell hnext
  obtain ⟨seen, hseen⟩ :=
    exists_lookAhead? horderly.keepsDates (List.ne_nil_of_mem htime) hafter
  obtain ⟨⟨time, _, rfl⟩, hahead⟩ := of_lookAhead? hseen
  exact hnearest.closest _ ⟨date, (proposes_iff hseason).mpr ⟨hsupported, hselects⟩, hseen⟩ hahead
    (horderly.keepsDates.instantAt_lt time hbefore)

/-- The next occurrence is not farther away than a date on which the recurrence is
known to fire again. -/
theorem dayNumber_le_of_selects (days : Nat) (hdays : 0 < days)
    (hselects : ∀ date : Date, date.dayNumber = (frame.zone.dateOf first).dayNumber + days →
      recurrence.Selects frame.anchor date) :
    (frame.zone.dateOf now).dayNumber ≤ (frame.zone.dateOf first).dayNumber + days := by
  by_contra hfar
  obtain ⟨again, hagain⟩ : ∃ again : Date,
      again.dayNumber = (frame.zone.dateOf first).dayNumber + days := ⟨⟨_⟩, rfl⟩
  have hleast : Date.least.dayNumber ≤ (frame.zone.dateOf first).dayNumber :=
    (hoffers.onOwnDate horderly).1.1.1
  have hgreatest : (frame.zone.dateOf now).dayNumber ≤ Date.greatest.dayNumber :=
    (reaches_of_nextOf horderly.keepsDates hwell hnext).1.selects.1.2
  refine not_selects_between horderly hwell hseason hoffers hnext
    (show (frame.zone.dateOf first).dayNumber < again.dayNumber by omega)
    (show again.dayNumber < (frame.zone.dateOf now).dayNumber by omega) ⟨?_, ?_⟩ (hselects _ hagain)
  · change Date.least.dayNumber ≤ again.dayNumber
    omega
  · change again.dayNumber ≤ Date.greatest.dayNumber
    omega

/-- Listed times agree with the clock if the next occurrence lies on the same date,
or if the last one of the date is left. -/
theorem isLastOnClock_iff_of_listed (hlisted : recurrence.isWindow = false) :
    frame.IsLastOnClock recurrence now first ↔
      frame.zone.dateOf first = frame.zone.dateOf now ∨
        ∃ time ∈ recurrence.times, frame.zone.instantAt (frame.zone.dateOf first) time = first ∧
          ∀ other ∈ recurrence.times, other.minutes ≤ time.minutes := by
  obtain ⟨hselected, shown, hshown, hresolved⟩ := hoffers.onOwnDate horderly
  have hbefore := (nearest_seen_of_nextOf horderly.keepsDates hwell hnext).isBeyond
  have hdates := horderly.dateOf_mono (Instant.le_of_lt hbefore)
  have hearlier : ∀ {date : Date}, date ≠ frame.zone.dateOf now → date ≤ frame.zone.dateOf now →
      date < frame.zone.dateOf now := fun hne hle =>
    Date.lt_of_le_of_ne hle hne
  constructor
  · rintro ⟨time, htime, hsame, hlast⟩
    refine or_iff_not_imp_left.mpr fun hne => ⟨time, htime, hsame, fun other hother => ?_⟩
    have hpassed := horderly.keepsDates.instantAt_lt other (hearlier hne hdates)
    exact ((hlast _ hselected (.inr hne) other hother hpassed).resolve_left
      (Int.lt_irrefl _)).2
  · intro hlast
    have hbound : ∀ date, date.IsSupported ∧ recurrence.Selects frame.anchor date →
        (recurrence.isWindow = true ∨ date ≠ frame.zone.dateOf now) →
        ∀ other ∈ recurrence.times, frame.zone.instantAt date other < now →
          date < frame.zone.dateOf now ∧ ¬ frame.zone.dateOf first < date := by
      intro date hdate hcounts other hother hpassed
      have hlt := hearlier (hcounts.resolve_left (by simp [hlisted]))
        (horderly.keepsDates.le_dateOf_of_lt hpassed)
      exact ⟨hlt, fun hafter => not_selects_between horderly hwell hseason hoffers hnext hafter hlt
        hdate.1 hdate.2⟩
    rcases hlast with hsame | ⟨time, htime, hsame, hgreatest⟩
    · exact ⟨shown, hshown, hresolved, fun date hdate hcounts other hother hpassed =>
        .inl (hsame ▸ (hbound date hdate hcounts other hother hpassed).1)⟩
    · refine ⟨time, htime, hsame, fun date hdate hcounts other hother hpassed => ?_⟩
      have hle := Int.not_lt.mp (hbound date hdate hcounts other hother hpassed).2
      rcases Int.lt_or_eq_of_le hle with hlt | heq
      · exact .inl hlt
      · exact .inr ⟨congrArg Date.mk heq, hgreatest other hother⟩

end Reversal

/-! ## Each shape -/

section Shapes

variable {times : List TimeOfDay} (horderly : frame.zone.IsOrderly)
include horderly

omit horderly in
/-- In an aligned week the search starts in this week. -/
theorem latestWeek?_of_selects {interval : Nat} {days : List Weekday}
    (hselects : (Recurrence.weekly interval days times).Selects frame.anchor date) :
    frame.latestWeek? interval date = date.monday? := by
  obtain ⟨_, anchor, hanchor, haligned⟩ := hselects
  simp only [latestWeek?, hanchor, Option.bind_eq_bind, Option.bind_some]
  cases hmonday : date.monday? with
  | none => rfl
  | some monday =>
    obtain ⟨hnumber, hsupported⟩ := Date.monday?_eq_some_iff.mp hmonday
    have hanchorMod := dayNumber_emod_of_weekAnchor hanchor
    have hmod := date.weekStart_emod
    have hbounds := date.weekStart_bounds
    have hsame : monday.daysSince anchor / 7 = date.daysSince anchor / 7 := by
      simp only [Date.daysSince]
      omega
    rw [isAligned, decide_eq_true_eq] at haligned
    rw [Option.bind_some, hsame, stepsBehind, haligned, Int.toNat_zero]
    exact Date.addDays?_eq_some_iff.mpr ⟨by omega, hsupported⟩

/-- A window is searched eight days back, and a day of the week recurs after seven. -/
theorem reachesBack_window {interval : Nat} {unit : StepUnit} {start stop : TimeOfDay}
    {days : Option DayFilter} (hwell : (Recurrence.window interval unit start stop days).WellFormed)
    (hoffers : frame.Offers (.window interval unit start stop days) first)
    (hnext : frame.nextOf (.window interval unit start stop days) first = some now) :
    frame.ReachesBack (.window interval unit start stop days) (frame.zone.dateOf now)
      (frame.zone.dateOf first) := by
  have hselects := (hoffers.onOwnDate horderly).1.2
  have hclose := dayNumber_le_of_selects horderly hwell nofun hoffers hnext
    7 (by decide) fun date hdate filter hfilter => by
      rw [Date.weekday_of_dayNumber_eq 1 hdate]
      exact hselects filter hfilter
  have hreach : (Reach.days : Int) = 8 := rfl
  rw [ReachesBack]
  omega

theorem reachesBack_daily {interval : Nat} {days : DayFilter}
    (hwell : (Recurrence.daily interval days times).WellFormed)
    (hoffers : frame.Offers (.daily interval days times) first)
    (hnext : frame.nextOf (.daily interval days times) first = some now) :
    frame.ReachesBack (.daily interval days times) (frame.zone.dateOf now)
      (frame.zone.dateOf first) := by
  obtain ⟨hallowed, haligned⟩ := (hoffers.onOwnDate horderly).1.2
  have hclose := dayNumber_le_of_selects horderly hwell nofun hoffers hnext
  rw [ReachesBack, dailyReachBack]
  split
  · rename_i hinterval
    have hclose := hclose 7 (by decide) fun date hdate => by
      refine ⟨?_, isAligned_of_le_one _ hinterval⟩
      rw [Date.weekday_of_dayNumber_eq 1 hdate]
      exact hallowed
    have hreach : ((Reach.days + 1 : Nat) : Int) = 9 := rfl
    omega
  · rename_i hinterval
    have hstep : stepOf interval = interval := stepOf_of_pos (by omega)
    have hclose := hclose interval (by omega) fun date hdate => by
      refine ⟨by rw [hwell.2.2.1 (by omega)]; rfl, ?_⟩
      rw [isAligned_iff_dvd, hstep] at haligned ⊢
      have hsum := Int.dvd_add haligned (Int.dvd_refl (interval : Int))
      rwa [show date.dayNumber - dayAnchor frame.anchor =
        (frame.zone.dateOf first).dayNumber - dayAnchor frame.anchor + interval by omega]
    have hreach : ((Reach.alignedDaysBack * interval : Nat) : Int) = 2 * interval := rfl
    omega

theorem reachesBack_weekly {interval : Nat} {days : List Weekday}
    (hwell : (Recurrence.weekly interval days times).WellFormed)
    (hoffers : frame.Offers (.weekly interval days times) first)
    (hnext : frame.nextOf (.weekly interval days times) first = some now)
    (hweek : WeekInCalendar (.weekly interval days times) (frame.zone.dateOf now)) :
    frame.ReachesBack (.weekly interval days times) (frame.zone.dateOf now)
      (frame.zone.dateOf first) := by
  obtain ⟨hday, anchor, hanchor, haligned⟩ := (hoffers.onOwnDate horderly).1.2
  obtain ⟨hproposes, hreaches⟩ := reaches_of_nextOf horderly.keepsDates hwell hnext
  have hanchorMod := dayNumber_emod_of_weekAnchor hanchor
  have hweekBounds := (frame.zone.dateOf now).weekStart_bounds
  have hfirstBounds := (frame.zone.dateOf first).weekStart_bounds
  have hpos := stepOf_pos interval
  refine ⟨?_, ?_, ?_⟩
  · rw [latestWeek?_of_selects hproposes.2]
    exact hweek
  · obtain ⟨start, hstart⟩ := Option.isSome_iff_exists.mp hreaches.1
    obtain ⟨hstartNumber, hstartSupported⟩ := Date.monday?_eq_some_iff.mp hstart
    have hleast : Date.least.dayNumber ≤ start.dayNumber := hstartSupported.1
    omega
  · have hclose := dayNumber_le_of_selects horderly hwell nofun hoffers hnext
      (7 * stepOf interval) (by omega) fun date hdate => by
        refine ⟨?_, anchor, hanchor, ?_⟩
        · have hsame : date.weekday = (frame.zone.dateOf first).weekday :=
            Date.weekday_of_dayNumber_eq (stepOf interval) (by omega)
          rwa [hsame]
        · rw [isAligned_iff_dvd] at haligned ⊢
          have hsum := Int.dvd_add haligned (Int.dvd_refl (stepOf interval : Int))
          have hdistance : date.daysSince anchor / 7 =
              (frame.zone.dateOf first).daysSince anchor / 7 + stepOf interval := by
            simp only [Date.daysSince]
            omega
          rwa [hdistance]
    have hreach : ((Reach.weeks * stepOf interval : Nat) : Int) = 54 * stepOf interval := rfl
    omega

/-- A target that stays in its month counts months in both directions alike.  One
that may leave it picks a date for one of the next sixteen aligned months. -/
theorem reachesBack_monthly {interval : Nat} {target : MonthTarget}
    (hwell : (Recurrence.monthly interval target times).WellFormed)
    (hseason : target.mayLeaveMonth = true → frame.season = [])
    (hoffers : frame.Offers (.monthly interval target times) first)
    (hnext : frame.nextOf (.monthly interval target times) first = some now) :
    frame.ReachesBack (.monthly interval target times) (frame.zone.dateOf now)
      (frame.zone.dateOf first) := by
  obtain ⟨ym, haligned, hmem⟩ := (hoffers.onOwnDate horderly).1.2
  obtain ⟨⟨ym', ⟨haligned', hmem'⟩, _⟩, ym'', hmem'', hbound⟩ :=
    reaches_of_nextOf horderly.keepsDates hwell hnext
  obtain rfl := MonthTarget.eq_of_mem_datesIn hmem' hmem''
  refine ⟨ym, hmem, ?_⟩
  cases hleaves : target.mayLeaveMonth with
  | false =>
    obtain ⟨_, hmonth⟩ := MonthTarget.ofDate_of_mem_datesIn hleaves hmem
    obtain ⟨_, hmonth'⟩ := MonthTarget.ofDate_of_mem_datesIn hleaves hmem'
    rwa [hmonth', ← hmonth]
  | true =>
    obtain ⟨hsupported, hregular, ⟨hstays, _⟩ | ⟨day, direction, rfl, hday, _⟩⟩ :=
      MonthTarget.dayNumber_of_mem_datesIn hmem
    · simp [hleaves] at hstays
    obtain ⟨k, hlow, hhigh, hlong⟩ :=
      YearMonth.exists_step_le_lastDay hregular hday.2 (stepOf interval)
    obtain ⟨again, hagain⟩ : ∃ again,
        again = YearMonth.ofIndex (ym.index + (k * stepOf interval : Nat)) := ⟨_, rfl⟩
    have hindex : again.index = ym.index + (k * stepOf interval : Nat) := by
      rw [hagain, YearMonth.index_ofIndex]
    have hnear := MonthTarget.index_of_mem_datesIn hmem'
    have hpos := stepOf_pos interval
    have hstep : 0 < k * stepOf interval := Nat.mul_pos hlow hpos
    have hsteps : k * stepOf interval ≤ 16 * stepOf interval := Nat.mul_le_mul_right _ hhigh
    have hreach : Reach.months * stepOf interval = 24 * stepOf interval := rfl
    by_contra hfar
    have hregularAgain : again.IsRegular := hagain ▸ YearMonth.isRegular_ofIndex _
    have hfrom := (MonthTarget.index_bounds_of_mem_datesIn hmem).1
    have hto := (MonthTarget.index_bounds_of_mem_datesIn hmem').2
    obtain ⟨between, hbetween⟩ :
        ∃ between, between ∈ (MonthTarget.nearestBusinessDay day (some direction)).datesIn again :=
      MonthTarget.exists_mem_datesIn_nearestBusinessDay
        ⟨hregularAgain, by omega, by omega⟩ ⟨hday.1, hagain ▸ hlong⟩
    refine not_selects_between horderly hwell hseason hoffers hnext
      (MonthTarget.lt_of_mem_datesIn hmem hbetween (by omega))
      (MonthTarget.lt_of_mem_datesIn hbetween hmem' (by omega))
      (MonthTarget.dayNumber_of_mem_datesIn hbetween).1 ⟨again, ?_, hbetween⟩
    rw [isAligned_iff_dvd] at haligned ⊢
    have hdistance : again.monthsSince (monthAnchor frame.anchor) =
        ym.monthsSince (monthAnchor frame.anchor) + (k * stepOf interval : Nat) := by
      simp only [YearMonth.monthsSince]
      omega
    rw [hdistance, Nat.cast_mul]
    exact Int.dvd_add haligned (Int.dvd_mul_left _ _)

end Shapes

/-- A backward search goes as far as the forward search came, the last week of the
calendar apart. -/
theorem reachesBack_of_nextOf (horderly : frame.zone.IsOrderly) (hwell : recurrence.WellFormed)
    (hseason : recurrence.mayLeaveMonth = true → frame.season = [])
    (hoffers : frame.Offers recurrence first) (hnext : frame.nextOf recurrence first = some now)
    (hweek : WeekInCalendar recurrence (frame.zone.dateOf now)) :
    frame.ReachesBack recurrence (frame.zone.dateOf now) (frame.zone.dateOf first) := by
  have hreaches := (reaches_of_nextOf horderly.keepsDates hwell hnext).2
  cases recurrence with
  | window interval unit start stop days => exact reachesBack_window horderly hwell hoffers hnext
  | daily interval days times => exact reachesBack_daily horderly hwell hoffers hnext
  | weekly interval days times => exact reachesBack_weekly horderly hwell hoffers hnext hweek
  | monthly interval target times =>
    exact reachesBack_monthly horderly hwell hseason hoffers hnext
  | ordinal interval position weekday times => exact hreaches
  | once day times =>
    cases day with
    | fixed date => trivial
    | yearly month day => exact hreaches
  | yearly interval target times => exact hreaches

/-- A backward search that finds anything does not start in the last week of the
calendar. -/
theorem weekInCalendar_of_previousOf {hit : Instant} (hwell : recurrence.WellFormed)
    (hselects : recurrence.Selects frame.anchor (frame.zone.dateOf now))
    (hprevious : frame.previousOf recurrence now = some hit) :
    WeekInCalendar recurrence (frame.zone.dateOf now) := by
  have hshown : ShownBy (frame.SeesBehind recurrence now) (fun date =>
      (date.IsSupported ∧ recurrence.Selects frame.anchor date) ∧
        frame.ReachesBack recurrence (frame.zone.dateOf now) date) hit :=
    (tries_previousOf hwell tries_seen_behind).found hit hprevious
  obtain ⟨date, ⟨_, hreach⟩, _⟩ := hshown
  cases recurrence with
  | weekly interval days times =>
    rw [WeekInCalendar, ← latestWeek?_of_selects hselects]
    exact hreach.1
  | window | daily | monthly | ordinal | once | yearly => trivial

end Frame

end Cadence
