import Cadence.Proofs.Occurrence.ComingDates
import Cadence.Proofs.Occurrence.Perennial

/-!
# Dates that lie within reach

A backward search that starts earlier gets back as far as one that starts later.  And
after a date that a recurrence selects it gets back to some selected date from wherever
it starts, just as a forward search gets on to one before.  Left out are recurrences
that may sit out a turn: fifth weekdays, and leap days.
-/

namespace Cadence

/-- Whether a recurrence asks for a day that some of its months or years lack for
longer than a search goes. -/
def Recurrence.MaySitOut : Recurrence → Prop
  | yearly _ target _ => ¬ target.IsPerennial
  | once (.yearly month day) _ => ¬ (YearTarget.date month day).IsPerennial
  | recurrence => recurrence.AsksFifthWeekday

theorem Recurrence.not_maySitOut_of_isWindow {recurrence : Recurrence}
    (hwindow : recurrence.isWindow = true) : ¬ recurrence.MaySitOut := by
  cases recurrence with
  | window => exact id
  | daily | weekly | monthly | ordinal | once | yearly => cases hwindow

/-- Dates in steps of a period from an earlier date leave no gap longer than the period. -/
theorem Date.exists_before {start earlier : Date} (hlt : earlier < start) {period : Nat}
    (hperiod : 0 < period) :
    ∃ before : Date, before < start ∧ earlier ≤ before ∧
      start.dayNumber ≤ before.dayNumber + period ∧
      (period : Int) ∣ before.dayNumber - earlier.dayNumber := by
  have hahead : 0 < start.dayNumber - earlier.dayNumber := Int.sub_pos_of_lt hlt
  obtain ⟨closest, hbefore, hle, hwithin, haligned⟩ := exists_isAligned_before
    (isAligned_iff_dvd.mpr (Int.dvd_zero (stepOf period : Int))) hahead
  rw [isAligned_iff_dvd, stepOf_of_pos hperiod] at haligned
  rw [stepOf_of_pos hperiod] at hwithin
  refine ⟨⟨earlier.dayNumber + closest⟩, ?_, ?_, ?_, ?_⟩
  · change earlier.dayNumber + closest < start.dayNumber
    omega
  · change earlier.dayNumber ≤ earlier.dayNumber + closest
    omega
  · change start.dayNumber ≤ earlier.dayNumber + closest + period
    omega
  · rwa [show earlier.dayNumber + closest - earlier.dayNumber = closest by omega]

namespace Frame

variable {frame : Frame} {recurrence : Recurrence} {interval : Nat} {times : List TimeOfDay}
  {date earlier start later : Date}

/-! ## Weeks -/

/-- The Mondays of the weeks whose turn it is. -/
def IsTurn (frame : Frame) (interval : Nat) (week : Date) : Prop :=
  week.dayNumber % 7 = 1 ∧ ∃ anchor, Date.ofDayNumber? (weekAnchor frame.anchor) = some anchor ∧
    isAligned (week.daysSince anchor / 7) interval = true

theorem isTurn_of_selects {days : List Weekday}
    (hselects : (Recurrence.weekly interval days times).Selects frame.anchor date) :
    frame.IsTurn interval ⟨date.weekStart⟩ := by
  obtain ⟨_, anchor, hanchor, haligned⟩ := hselects
  have hanchorMod := dayNumber_emod_of_weekAnchor hanchor
  have hmod := date.weekStart_emod
  have hbounds := date.weekStart_bounds
  refine ⟨hmod, anchor, hanchor, ?_⟩
  have hsame : (⟨date.weekStart⟩ : Date).daysSince anchor / 7 = date.daysSince anchor / 7 := by
    simp only [Date.daysSince]
    omega
  rwa [hsame]

/-- A search starts in the last week up to its start whose turn it is. -/
theorem latestWeek?_spec {latest : Date}
    (hlatest : frame.latestWeek? interval start = some latest) :
    latest.IsSupported ∧ frame.IsTurn interval latest ∧ latest.dayNumber ≤ start.weekStart ∧
      ∀ week, frame.IsTurn interval week → week.dayNumber ≤ start.weekStart → week ≤ latest := by
  simp only [latestWeek?, Option.bind_eq_bind, Option.bind_eq_some_iff] at hlatest
  obtain ⟨anchor, hanchor, monday, hmonday, hlatest⟩ := hlatest
  obtain ⟨hnumber, hsupported⟩ := Date.addDays?_eq_some_iff.mp hlatest
  have hmondayNumber := (Date.monday?_eq_some_iff.mp hmonday).1
  have hanchorMod := dayNumber_emod_of_weekAnchor hanchor
  have hmod := start.weekStart_emod
  refine ⟨hsupported, ⟨by omega, anchor, hanchor, ?_⟩, by omega, ?_⟩
  · have hdistance : latest.daysSince anchor / 7 = monday.daysSince anchor / 7 -
        stepsBehind (monday.daysSince anchor / 7) interval := by
      simp only [Date.daysSince] at *
      omega
    rw [hdistance]
    exact isAligned_sub_stepsBehind _ _
  · rintro week ⟨hweekMod, anchor', hanchor', haligned⟩ hle
    obtain rfl := Option.some.inj (hanchor.symm.trans hanchor')
    obtain ⟨behind, hbehind⟩ : ∃ behind : Nat,
        week.daysSince anchor / 7 = monday.daysSince anchor / 7 - behind := by
      refine ⟨(monday.daysSince anchor / 7 - week.daysSince anchor / 7).toNat, ?_⟩
      simp only [Date.daysSince]
      omega
    rw [hbehind] at haligned
    obtain ⟨k, hk⟩ := isAligned_sub_iff.mp haligned
    have hlag : stepsBehind (monday.daysSince anchor / 7) interval ≤ behind :=
      hk ▸ Nat.le_add_right _ _
    change week.dayNumber ≤ latest.dayNumber
    simp only [Date.daysSince] at *
    omega

theorem exists_latestWeek? {week : Date} (hstart : start.IsSupported) (hweek : week.IsSupported)
    (hturn : frame.IsTurn interval week) (hle : week.dayNumber ≤ start.weekStart) :
    ∃ latest, frame.latestWeek? interval start = some latest := by
  obtain ⟨hweekMod, anchor, hanchor, haligned⟩ := hturn
  have hmod := start.weekStart_emod
  have hbounds := start.weekStart_bounds
  have hanchorMod := dayNumber_emod_of_weekAnchor hanchor
  have hmonday : start.monday? = some ⟨start.weekStart⟩ := Date.monday?_eq_some_iff.mpr
    ⟨rfl, hweek.of_between hstart hle (show start.weekStart ≤ start.dayNumber by omega)⟩
  obtain ⟨behind, hbehind⟩ : ∃ behind : Nat, week.daysSince anchor / 7 =
      (⟨start.weekStart⟩ : Date).daysSince anchor / 7 - behind := by
    refine ⟨((⟨start.weekStart⟩ : Date).daysSince anchor / 7 - week.daysSince anchor / 7).toNat, ?_⟩
    simp only [Date.daysSince]
    omega
  rw [hbehind] at haligned
  obtain ⟨k, hk⟩ := isAligned_sub_iff.mp haligned
  simp only [latestWeek?, hanchor, hmonday, Option.bind_eq_bind, Option.bind_some]
  generalize stepsBehind ((⟨start.weekStart⟩ : Date).daysSince anchor / 7) interval = lag at hk
  have hlag : lag ≤ behind := hk ▸ Nat.le_add_right _ _
  obtain ⟨latest, hlatest⟩ : ∃ latest : Date,
      latest.dayNumber = start.weekStart + -(7 * lag : Nat) := ⟨⟨_⟩, rfl⟩
  simp only [Date.daysSince] at hbehind
  exact ⟨latest, Date.addDays?_eq_some_iff.mpr ⟨hlatest, hweek.of_between hstart
    (show week.dayNumber ≤ latest.dayNumber by omega)
    (show latest.dayNumber ≤ start.dayNumber by omega)⟩⟩

/-- Whether a backward search starts at all.  The calendar may end within the week that
one for a weekly recurrence starts in. -/
def StartsBack (frame : Frame) : Recurrence → (start : Date) → Prop
  | .weekly interval days _, start =>
    (frame.latestWeek? interval start).any (reachesWeekdays · days) = true
  | _, _ => True

theorem ReachesBack.startsBack (hreaches : frame.ReachesBack recurrence start date) :
    frame.StartsBack recurrence start := by
  cases recurrence with
  | weekly => exact hreaches.1
  | window | daily | monthly | ordinal | once | yearly => trivial

/-- After a date whose turn it is an earlier search starts as well. -/
theorem startsBack_weekly_of_le {days : List Weekday} (hstart : start.IsSupported)
    (hselects : (Recurrence.weekly interval days times).Selects frame.anchor date)
    (hleast : Date.least.dayNumber ≤ date.weekStart) (hdate : date ≤ earlier)
    (hle : earlier ≤ start)
    (hstarts : frame.StartsBack (.weekly interval days times) start) :
    frame.StartsBack (.weekly interval days times) earlier := by
  obtain ⟨latest, hlatest, hreaches⟩ := Option.any_eq_true _ _ |>.mp hstarts
  obtain ⟨hsupported, _, _, hlast⟩ := latestWeek?_spec hlatest
  have hbounds := date.weekStart_bounds
  have hdateNumber : date.dayNumber ≤ earlier.dayNumber := hdate
  have hnumber : earlier.dayNumber ≤ start.dayNumber := hle
  have hgreatest : start.dayNumber ≤ Date.greatest.dayNumber := hstart.2
  have hweek : (⟨date.weekStart⟩ : Date).IsSupported :=
    ⟨hleast, show date.weekStart ≤ Date.greatest.dayNumber by omega⟩
  have hearlier : earlier.IsSupported := hweek.of_between hstart
    (show date.weekStart ≤ earlier.dayNumber by omega) hle
  have hturn := isTurn_of_selects hselects
  have hbefore := Date.weekStart_mono hdate
  obtain ⟨week, hfound⟩ := exists_latestWeek? hearlier hweek hturn hbefore
  obtain ⟨hweekSupported, hweekTurn, hweekLe, _⟩ := latestWeek?_spec hfound
  have hweeks : week.dayNumber ≤ latest.dayNumber :=
    hlast week hweekTurn (hweekLe.trans (Date.weekStart_mono hle))
  refine Option.any_eq_true _ _ |>.mpr ⟨week, hfound, ?_⟩
  rw [reachesWeekdays, List.all_eq_true] at hreaches ⊢
  intro day hday
  -- The days of an earlier week come no later in the calendar.
  obtain ⟨reached, hreached⟩ := Option.isSome_iff_exists.mp (hreaches day hday)
  obtain ⟨hreachedNumber, hreachedSupported⟩ := Date.addDays?_eq_some_iff.mp hreached
  obtain ⟨listed, hlisted⟩ : ∃ listed : Date, listed.dayNumber = week.dayNumber + day.index :=
    ⟨⟨_⟩, rfl⟩
  refine Option.isSome_iff_exists.mpr ⟨listed, Date.addDays?_eq_some_iff.mpr
    ⟨hlisted, hweekSupported.of_between hreachedSupported ?_ ?_⟩⟩
  · change week.dayNumber ≤ listed.dayNumber
    omega
  · change listed.dayNumber ≤ reached.dayNumber
    omega

/-! ## Earlier starts -/

/-- A search from an earlier date gets back as far. -/
theorem ReachesBack.of_start_ge (hstart : start.IsSupported)
    (hselects : recurrence.Selects frame.anchor date) (hdate : date ≤ earlier)
    (hle : earlier ≤ start) (hreaches : frame.ReachesBack recurrence start date) :
    frame.ReachesBack recurrence earlier date := by
  have hnumber : earlier.dayNumber ≤ start.dayNumber := hle
  have hyear := Date.year_mono hle
  have hmonth := YearMonth.index_ofDate_mono hle
  have hweek := Date.weekStart_mono hle
  cases recurrence with
  | window | daily => exact Int.lt_of_le_of_lt hnumber hreaches
  | weekly interval days times =>
    obtain ⟨hstarts, hleast, hbound⟩ := hreaches
    exact ⟨startsBack_weekly_of_le hstart hselects hleast hdate hle hstarts, hleast,
      Int.lt_of_le_of_lt hweek hbound⟩
  | monthly interval target times =>
    obtain ⟨ym, hmem, hbound⟩ := hreaches
    exact ⟨ym, hmem, by omega⟩
  | ordinal => exact Int.le_trans (Int.add_le_add_right hmonth 1) hreaches
  | once day times =>
    cases day with
    | fixed => trivial
    | yearly => exact Int.lt_of_le_of_lt hyear hreaches
  | yearly => exact Int.lt_of_le_of_lt hyear hreaches

/-! ## From wherever a search starts -/

section Shapes

variable (hlt : earlier < start)
include hlt

theorem exists_selected_before_window {unit : StepUnit} {first last : TimeOfDay}
    {days : Option DayFilter}
    (hselects : (Recurrence.window interval unit first last days).Selects frame.anchor earlier) :
    ∃ before, (Recurrence.window interval unit first last days).Selects frame.anchor before ∧
      frame.ReachesBack (.window interval unit first last days) start before ∧
        earlier ≤ before ∧ before < start := by
  obtain ⟨before, hbefore, hby, hclose, hweeks⟩ :=
    Date.exists_before hlt (show 0 < 7 by decide)
  refine ⟨before, hselects.of_isWindow rfl hweeks, ?_, hby, hbefore⟩
  rw [ReachesBack, Reach.days]
  omega

theorem exists_selected_before_daily {days : DayFilter} (hdays : 1 < interval → days = .every)
    (hselects : (Recurrence.daily interval days times).Selects frame.anchor earlier) :
    ∃ before, (Recurrence.daily interval days times).Selects frame.anchor before ∧
      frame.ReachesBack (.daily interval days times) start before ∧
        earlier ≤ before ∧ before < start := by
  obtain ⟨hallowed, haligned⟩ := hselects
  by_cases hinterval : interval ≤ 1
  · obtain ⟨before, hbefore, hby, hclose, weeks, hweeks⟩ :=
      Date.exists_before hlt (show 0 < 7 by decide)
    refine ⟨before, ⟨?_, isAligned_of_le_one _ hinterval⟩, ?_, hby, hbefore⟩
    · have hweekday : before.weekday = earlier.weekday :=
        Date.weekday_of_dayNumber_eq weeks (by omega)
      rwa [hweekday]
    · rw [ReachesBack, dailyReachBack, if_pos hinterval, Reach.days]
      omega
  · obtain ⟨before, hbefore, hby, hclose, hsteps⟩ :=
      Date.exists_before hlt (show 0 < interval by omega)
    rw [isAligned_iff_dvd, stepOf_of_pos (by omega)] at haligned
    refine ⟨before, ⟨by rw [hdays (by omega)]; rfl, ?_⟩, ?_, hby, hbefore⟩
    · rw [isAligned_iff_dvd, stepOf_of_pos (by omega)]
      have hsum := Int.dvd_add hsteps haligned
      rwa [show before.dayNumber - earlier.dayNumber +
        (earlier.dayNumber - dayAnchor frame.anchor) =
          before.dayNumber - dayAnchor frame.anchor by omega] at hsum
    · rw [ReachesBack, dailyReachBack, if_neg hinterval, Reach.alignedDaysBack]
      push_cast
      omega

theorem exists_selected_before_weekly {days : List Weekday} {origin : Date}
    (horigin : origin.IsSupported) (hle : start ≤ origin)
    (hstarts : frame.StartsBack (.weekly interval days times) origin)
    (hselects : (Recurrence.weekly interval days times).Selects frame.anchor earlier)
    (hleast : Date.least.dayNumber ≤ earlier.weekStart) :
    ∃ before, (Recurrence.weekly interval days times).Selects frame.anchor before ∧
      frame.ReachesBack (.weekly interval days times) start before ∧
        earlier ≤ before ∧ before < start := by
  have hpos := stepOf_pos interval
  have hearlier := startsBack_weekly_of_le horigin hselects hleast (Int.le_of_lt hlt) hle hstarts
  obtain ⟨before, hbefore, hby, hclose, turns, hturns⟩ :=
    Date.exists_before hlt (show 0 < 7 * stepOf interval by omega)
  obtain ⟨hlisted, anchor, hanchor, haligned⟩ := hselects
  have hweeks : before.dayNumber = earlier.dayNumber + 7 * (stepOf interval * turns) := by
    rw [Nat.cast_mul, Int.mul_assoc] at hturns
    omega
  refine ⟨before, ⟨?_, anchor, hanchor, ?_⟩, ⟨hearlier, ?_, ?_⟩, hby, hbefore⟩
  · rwa [Date.weekday_of_dayNumber_eq _ hweeks]
  · have hdistance : before.daysSince anchor / 7 =
        earlier.daysSince anchor / 7 + stepOf interval * turns := by
      simp only [Date.daysSince]
      omega
    rw [isAligned_iff_dvd] at haligned ⊢
    rw [hdistance]
    exact Int.dvd_add haligned (Int.dvd_mul_right _ _)
  · exact hleast.trans (Date.weekStart_mono hby)
  · have hstart := start.weekStart_bounds
    have hbounds := before.weekStart_bounds
    rw [Reach.weeks]
    omega

/-- The months that have a certain day leave no gap that a search cannot cross. -/
theorem exists_aligned_month_before (target : MonthTarget) {first : YearMonth}
    (hposition : ∀ position weekday, target = .positioned position weekday → position ≠ .fifth)
    (hfirst : isAligned (first.monthsSince (monthAnchor frame.anchor)) interval = true)
    (hearlier : earlier ∈ target.datesIn first) (hstart : start.IsSupported) :
    ∃ (before : Date) (ym : YearMonth), before ∈ target.datesIn ym ∧
      isAligned (ym.monthsSince (monthAnchor frame.anchor)) interval = true ∧
      (YearMonth.ofDate start).index + 1 ≤ ym.index + (Reach.months * stepOf interval : Nat) ∧
      earlier ≤ before ∧ before < start := by
  have hpos := stepOf_pos interval
  have hreach : Reach.months * stepOf interval = 24 * stepOf interval := rfl
  by_cases hnear :
      (YearMonth.ofDate start).index + 1 ≤ first.index + (24 * stepOf interval : Nat)
  · exact ⟨earlier, first, hearlier, hfirst, by omega, Int.le_refl _, hlt⟩
  obtain ⟨day, hday, hinside⟩ := MonthTarget.exists_day_mem_datesIn hposition hearlier
  have hregular := (MonthTarget.dayNumber_of_mem_datesIn hearlier).2.1
  have hfrom := (MonthTarget.index_bounds_of_mem_datesIn hearlier).1
  have hto := YearMonth.index_ofDate_mono hstart.2
  -- Sixteen steps on from eighteen steps before the start there is another such month.
  obtain ⟨ym, hregularYm, hsteps, hbeyond, hclose, hlong⟩ :=
    YearMonth.exists_later_step_le_lastDay hregular hpos hday
      ((YearMonth.ofDate start).index - (18 * stepOf interval : Nat))
  obtain ⟨before, hbefore⟩ := hinside ym ⟨hregularYm, by omega, by omega⟩ hlong
  have hindexBefore := MonthTarget.index_of_mem_datesIn hbefore
  refine ⟨before, ym, hbefore, ?_, by omega, ?_, YearMonth.lt_of_index_ofDate_lt (by omega)⟩
  · rw [isAligned_iff_dvd] at hfirst ⊢
    have hsum := Int.dvd_add hsteps hfirst
    rwa [YearMonth.monthsSince, show ym.index - first.index +
      (first.index - (monthAnchor frame.anchor).index) =
        ym.index - (monthAnchor frame.anchor).index by omega] at hsum
  · exact Int.le_of_lt (MonthTarget.lt_of_mem_datesIn hearlier hbefore (by omega))

theorem exists_selected_before_yearly {target : YearTarget} (hwell : target.WellFormed)
    (hperennial : target.IsPerennial) (hsupported : earlier.IsSupported)
    (hstart : start.IsSupported)
    (hselects : (Recurrence.yearly interval target times).Selects frame.anchor earlier) :
    ∃ before, (Recurrence.yearly interval target times).Selects frame.anchor before ∧
      frame.ReachesBack (.yearly interval target times) start before ∧
        earlier ≤ before ∧ before < start := by
  have hpos := stepOf_pos interval
  by_cases hnear : start.year < earlier.year + (Reach.years * stepOf interval : Nat)
  · exact ⟨earlier, hselects, hnear, Int.le_refl _, hlt⟩
  rw [Reach.years] at hnear
  obtain ⟨closest, hbefore, hle, hwithin, haligned⟩ := exists_isAligned_before hselects.1
    (show earlier.year - yearAnchor frame.anchor < start.year - yearAnchor frame.anchor by omega)
  obtain ⟨year, rfl⟩ : ∃ year, closest = year - yearAnchor frame.anchor :=
    ⟨closest + yearAnchor frame.anchor, by omega⟩
  have hleast := (Date.isSupported_iff_year.mp hsupported).1
  have hgreatest := (Date.isSupported_iff_year.mp hstart).2
  obtain ⟨before, hdate⟩ := target.exists_dateIn? hwell hperennial
    (show Date.leastYear ≤ year ∧ year ≤ Date.greatestYear by omega)
  obtain ⟨_, rfl⟩ := YearTarget.year_of_dateIn? hdate
  refine ⟨before, ⟨haligned, hdate⟩, ?_, ?_, Date.lt_of_year_lt (by omega)⟩
  · rw [ReachesBack, Reach.years]
    omega
  · rcases Int.lt_or_eq_of_le (show earlier.year ≤ before.year by omega) with hyears | hyears
    · exact Int.le_of_lt (Date.lt_of_year_lt hyears)
    · have hsame := hselects.2
      rw [hyears, hdate, Option.some.injEq] at hsame
      exact hsame ▸ Int.le_refl _

end Shapes

/-- After a selected date that a search gets back to every search gets back to some selected
date. -/
theorem exists_reachesBack {origin : Date} (hwell : recurrence.WellFormed)
    (hturns : ¬ recurrence.MaySitOut)
    (hearlier : earlier.IsSupported ∧ recurrence.Selects frame.anchor earlier)
    (hreached : frame.ReachesBack recurrence date earlier)
    (horigin : origin.IsSupported) (hstarts : frame.StartsBack recurrence origin)
    (hlt : earlier < start) (hle : start ≤ origin) :
    ∃ before, (before.IsSupported ∧ recurrence.Selects frame.anchor before) ∧
      frame.ReachesBack recurrence start before ∧ before < start := by
  have hstart : start.IsSupported := hearlier.1.of_between horigin (Int.le_of_lt hlt) hle
  have hselected : ∀ {before : Date}, recurrence.Selects frame.anchor before →
      frame.ReachesBack recurrence start before → earlier ≤ before → before < start →
      ∃ before, (before.IsSupported ∧ recurrence.Selects frame.anchor before) ∧
        frame.ReachesBack recurrence start before ∧ before < start :=
    fun hselects hreaches hfrom hbefore => ⟨_, ⟨hearlier.1.of_between hstart hfrom
      (Int.le_of_lt hbefore), hselects⟩, hreaches, hbefore⟩
  cases recurrence with
  | window interval unit first last days =>
    obtain ⟨_, hselects, hreaches, hfrom, hbefore⟩ := exists_selected_before_window hlt hearlier.2
    exact hselected hselects hreaches hfrom hbefore
  | daily interval days times =>
    obtain ⟨_, hselects, hreaches, hfrom, hbefore⟩ :=
      exists_selected_before_daily hlt hwell.2.2.1 hearlier.2
    exact hselected hselects hreaches hfrom hbefore
  | weekly interval days times =>
    obtain ⟨_, hselects, hreaches, hfrom, hbefore⟩ := exists_selected_before_weekly hlt horigin
      hle hstarts hearlier.2 hreached.2.1
    exact hselected hselects hreaches hfrom hbefore
  | monthly interval target times =>
    obtain ⟨first, hfirst, hmem⟩ := hearlier.2
    obtain ⟨before, ym, hmemBefore, haligned, hclose, hfrom, hbefore⟩ :=
      exists_aligned_month_before hlt target (by rintro position weekday rfl; exact hturns)
        hfirst hmem hstart
    exact hselected ⟨ym, haligned, hmemBefore⟩ ⟨ym, hmemBefore, hclose⟩ hfrom hbefore
  | ordinal interval position weekday times =>
    obtain ⟨first, hfirst, hmem⟩ := hearlier.2
    obtain ⟨before, ym, hmemBefore, haligned, hclose, hfrom, hbefore⟩ :=
      exists_aligned_month_before hlt (.positioned position weekday)
        (by rintro _ _ ⟨⟩; exact hturns) hfirst hmem hstart
    obtain ⟨_, rfl⟩ := YearMonth.ofDate_of_positionedWeekday? (Option.mem_toList.mp hmemBefore)
    exact hselected ⟨_, haligned, hmemBefore⟩ hclose hfrom hbefore
  | once day times =>
    cases day with
    | fixed named => exact ⟨earlier, hearlier, trivial, hlt⟩
    | yearly month day =>
      have htarget : (YearTarget.date month day).WellFormed := hwell.1
      have honce : (Recurrence.yearly 1 (.date month day) times).Selects frame.anchor earlier :=
        (Recurrence.selects_once_yearly hearlier.1).mp hearlier.2
      obtain ⟨before, hselects, hreaches, hfrom, hbefore⟩ :=
        exists_selected_before_yearly hlt htarget (not_not.mp hturns) hearlier.1 hstart honce
      have hsupported := hearlier.1.of_between hstart hfrom (Int.le_of_lt hbefore)
      exact ⟨before, ⟨hsupported, (Recurrence.selects_once_yearly hsupported).mpr hselects⟩,
        hreaches, hbefore⟩
  | yearly interval target times =>
    obtain ⟨_, hselects, hreaches, hfrom, hbefore⟩ := exists_selected_before_yearly hlt hwell.2.1
      (not_not.mp hturns) hearlier.1 hstart hearlier.2
    exact hselected hselects hreaches hfrom hbefore

end Frame

end Cadence
