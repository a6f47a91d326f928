import Cadence.Proofs.Calendar.ReturningDays
import Cadence.Proofs.Occurrence.ForwardSearch

/-!
# Dates that come within reach

Before a date that a recurrence selects a search gets to some selected date from
wherever it starts: weekdays come round after seven days, intervals after a step, and
days of the month after sixteen steps at most.  Two kinds of recurrences
are left out.  Fifth weekdays may stay away for longer than a search goes, and so
may a day of the year, whose dates all lie in one month.
-/

namespace Cadence

/-- Whether a recurrence asks for a fifth weekday, which not every month has. -/
def Recurrence.AsksFifthWeekday : Recurrence → Prop
  | ordinal _ position _ _ | monthly _ (.positioned position _) _ => position = .fifth
  | _ => False

/-- Whether a recurrence keeps to a day of the year. -/
def Recurrence.KeepsToMonth : Recurrence → Prop
  | once _ _ | yearly _ _ _ => True
  | _ => False

/-- Dates in steps of a period from a later date leave no gap longer than the period. -/
theorem Date.exists_after {start later : Date} (hlt : start < later) {period : Nat}
    (hperiod : 0 < period) :
    ∃ next : Date, start < next ∧ next ≤ later ∧ next.dayNumber ≤ start.dayNumber + period ∧
      (period : Int) ∣ next.dayNumber - later.dayNumber := by
  have hbehind : start.dayNumber - later.dayNumber < 0 := Int.sub_neg_of_lt hlt
  obtain ⟨closest, hafter, hle, hwithin, haligned⟩ := exists_isAligned_after
    (isAligned_iff_dvd.mpr (Int.dvd_zero (stepOf period : Int))) hbehind
  rw [isAligned_iff_dvd, stepOf_of_pos hperiod] at haligned
  rw [stepOf_of_pos hperiod] at hwithin
  refine ⟨⟨later.dayNumber + closest⟩, ?_, ?_, ?_, ?_⟩
  · change start.dayNumber < later.dayNumber + closest
    omega
  · change later.dayNumber + closest ≤ later.dayNumber
    omega
  · change later.dayNumber + closest ≤ start.dayNumber + period
    omega
  · rwa [show later.dayNumber + closest - later.dayNumber = closest by omega]

/-- A window comes round every week. -/
theorem Recurrence.Selects.of_isWindow {recurrence : Recurrence} {anchor : Option Date}
    {date other : Date} (hwindow : recurrence.isWindow = true)
    (hselects : recurrence.Selects anchor date)
    (hweeks : (7 : Int) ∣ other.dayNumber - date.dayNumber) : recurrence.Selects anchor other := by
  obtain ⟨weeks, hweeks⟩ := hweeks
  have hweekday : other.weekday = date.weekday := Date.weekday_of_dayNumber_eq weeks (by omega)
  cases recurrence with
  | window interval unit first last days =>
    intro filter hfilter
    rw [hweekday]
    exact hselects filter hfilter
  | daily | weekly | monthly | ordinal | once | yearly => cases hwindow

namespace Frame

variable {frame : Frame} {recurrence : Recurrence} {interval : Nat} {times : List TimeOfDay}
  {date start later next : Date}

theorem Proposes.of_isWindow (hwindow : recurrence.isWindow = true)
    (hlater : frame.Proposes recurrence later) (hsupported : next.IsSupported)
    (hweeks : (7 : Int) ∣ next.dayNumber - later.dayNumber) : frame.Proposes recurrence next := by
  cases recurrence with
  | window interval unit first last days =>
    exact ⟨hsupported, Recurrence.Selects.of_isWindow hwindow hlater.2 hweeks⟩
  | daily | weekly | monthly | ordinal | once | yearly => cases hwindow

/-- Whether a forward search starts at all.  One for a weekly recurrence does not in a week
that begins before the calendar. -/
def Starts : Recurrence → (start : Date) → Prop
  | .weekly _ _ _, start => start.monday?.isSome = true
  | _, _ => True

theorem Reaches.starts (hreaches : Reaches recurrence start date) : Starts recurrence start := by
  cases recurrence with
  | weekly => exact hreaches.1
  | window | daily | monthly | ordinal | once | yearly => trivial

theorem starts_of_hasFourDigitYear (recurrence : Recurrence) (hstart : start.HasFourDigitYear) :
    Starts recurrence start := by
  cases recurrence with
  | weekly => exact hstart.isSome_monday?
  | window | daily | monthly | ordinal | once | yearly => trivial

section Shapes

variable (hstart : start.IsSupported) (hlt : start < later)
include hstart hlt

theorem exists_proposes_after_window {unit : StepUnit} {first last : TimeOfDay}
    {days : Option DayFilter}
    (hlater : frame.Proposes (.window interval unit first last days) later) :
    ∃ next, frame.Proposes (.window interval unit first last days) next ∧
      Reaches (.window interval unit first last days) start next ∧ start < next := by
  obtain ⟨next, hafter, hby, hclose, hweeks⟩ := Date.exists_after hlt (show 0 < 7 by decide)
  have hsupported := hstart.of_between hlater.1 (Int.le_of_lt hafter) hby
  refine ⟨next, hlater.of_isWindow rfl hsupported hweeks, ?_, hafter⟩
  rw [Reaches, Reach.manyDays]
  omega

theorem exists_proposes_after_daily {days : DayFilter}
    (hdays : 1 < interval → days = .every)
    (hlater : frame.Proposes (.daily interval days times) later) :
    ∃ next, frame.Proposes (.daily interval days times) next ∧
      Reaches (.daily interval days times) start next ∧ start < next := by
  have hsupported : ∀ {next : Date}, start < next → next ≤ later → next.IsSupported :=
    fun hafter hby => hstart.of_between hlater.1 (Int.le_of_lt hafter) hby
  obtain ⟨_, hallowed, haligned⟩ := hlater
  by_cases hinterval : interval ≤ 1
  · obtain ⟨next, hafter, hby, hclose, weeks, hweeks⟩ :=
      Date.exists_after hlt (show 0 < 7 by decide)
    refine ⟨next, ⟨hsupported hafter hby, ?_, isAligned_of_le_one _ hinterval⟩, ?_, hafter⟩
    · have hweekday : next.weekday = later.weekday :=
        Date.weekday_of_dayNumber_eq weeks (by omega)
      rwa [hweekday]
    · rw [Reaches, dailyReach, if_pos hinterval, Reach.days]
      omega
  · obtain ⟨next, hafter, hby, hclose, hsteps⟩ :=
      Date.exists_after hlt (show 0 < interval by omega)
    rw [isAligned_iff_dvd, stepOf_of_pos (by omega)] at haligned
    refine ⟨next, ⟨hsupported hafter hby, by rw [hdays (by omega)]; rfl, ?_⟩, ?_, hafter⟩
    · rw [isAligned_iff_dvd, stepOf_of_pos (by omega)]
      have hsum := Int.dvd_add hsteps haligned
      rwa [show next.dayNumber - later.dayNumber + (later.dayNumber - dayAnchor frame.anchor) =
        next.dayNumber - dayAnchor frame.anchor by omega] at hsum
    · rw [Reaches, dailyReach, if_neg hinterval, Reach.manyDays]
      push_cast
      omega

theorem exists_proposes_after_weekly {days : List Weekday}
    (hlater : frame.Proposes (.weekly interval days times) later)
    (hstarts : Starts (.weekly interval days times) start) :
    ∃ next, frame.Proposes (.weekly interval days times) next ∧
      Reaches (.weekly interval days times) start next ∧ start < next := by
  have hpos := stepOf_pos interval
  obtain ⟨next, hafter, hby, hclose, turns, hturns⟩ :=
    Date.exists_after hlt (show 0 < 7 * stepOf interval by omega)
  have hsupported := hstart.of_between hlater.1 (Int.le_of_lt hafter) hby
  obtain ⟨_, hlisted, anchor, hanchor, haligned⟩ := hlater
  have hweeks : next.dayNumber = later.dayNumber + 7 * (stepOf interval * turns) := by
    rw [Nat.cast_mul, Int.mul_assoc] at hturns
    omega
  refine ⟨next, ⟨hsupported, ?_, anchor, hanchor, ?_⟩, ⟨hstarts, ?_⟩, hafter⟩
  · rwa [Date.weekday_of_dayNumber_eq _ hweeks]
  · have hdistance : next.daysSince anchor / 7 =
        later.daysSince anchor / 7 + stepOf interval * turns := by
      simp only [Date.daysSince]
      omega
    rw [isAligned_iff_dvd] at haligned ⊢
    rw [hdistance]
    exact Int.dvd_add haligned (Int.dvd_mul_right _ _)
  · have hstart := start.weekStart_bounds
    have hnext := next.weekStart_bounds
    rw [Reach.weeks]
    omega

/-- The months that have a certain day leave no gap that a search cannot cross. -/
theorem exists_aligned_month_after (target : MonthTarget) {ahead : YearMonth}
    (hposition : ∀ position weekday, target = .positioned position weekday → position ≠ .fifth)
    (hahead : isAligned (ahead.monthsSince (monthAnchor frame.anchor)) interval = true)
    (hlater : later ∈ target.datesIn ahead) :
    ∃ (next : Date) (ym : YearMonth), start < next ∧ next ∈ target.datesIn ym ∧
      isAligned (ym.monthsSince (monthAnchor frame.anchor)) interval = true ∧
      ym.index + 1 ≤ (YearMonth.ofDate start).index + (Reach.months * stepOf interval : Nat) := by
  have hpos := stepOf_pos interval
  have hreach : Reach.months * stepOf interval = 24 * stepOf interval := rfl
  have hregular := (MonthTarget.dayNumber_of_mem_datesIn hlater).2.1
  obtain ⟨day, hday, hinside⟩ := MonthTarget.exists_day_mem_datesIn hposition hlater
  obtain ⟨ym, hregularYm, hsteps, hbeyond, hclose, hlong⟩ :=
    YearMonth.exists_later_step_le_lastDay hregular hpos hday
      ((YearMonth.ofDate start).index + 1)
  by_cases hpassed : ahead.index ≤ ym.index
  · exact ⟨later, ahead, hlt, hlater, hahead, by omega⟩
  · have hfrom := YearMonth.index_ofDate_mono hstart.1
    have hto := (MonthTarget.index_bounds_of_mem_datesIn hlater).2
    obtain ⟨next, hnext⟩ := hinside ym ⟨hregularYm, by omega, by omega⟩ hlong
    have hnear := MonthTarget.index_of_mem_datesIn hnext
    refine ⟨next, ym, YearMonth.lt_of_index_ofDate_lt (by omega), hnext, ?_, by omega⟩
    rw [isAligned_iff_dvd] at hahead ⊢
    have hsum := Int.dvd_add hsteps hahead
    rwa [YearMonth.monthsSince, show ym.index - ahead.index +
      (ahead.index - (monthAnchor frame.anchor).index) =
        ym.index - (monthAnchor frame.anchor).index by omega] at hsum

end Shapes

/-- A day of the year always lies in the same month. -/
theorem month_eq_of_dateIn? {target : YearTarget} {year year' : Int}
    (hdate : target.dateIn? year = some date) (hlater : target.dateIn? year' = some later) :
    date.month = later.month := by
  cases target with
  | date month day | dayOfMonth day month =>
    rw [(Date.ofYmd?_eq_some_iff.mp hdate).2.2.1, (Date.ofYmd?_eq_some_iff.mp hlater).2.2.1]
  | positioned position weekday month =>
    have hmonth := congrArg YearMonth.month (YearMonth.ofDate_of_positionedWeekday? hdate).2
    exact hmonth.trans
      (congrArg YearMonth.month (YearMonth.ofDate_of_positionedWeekday? hlater).2).symm
  | lastBusinessDay month =>
    have hmonth := congrArg YearMonth.month (YearMonth.ofDate_of_lastBusinessDate? hdate).2
    exact hmonth.trans
      (congrArg YearMonth.month (YearMonth.ofDate_of_lastBusinessDate? hlater).2).symm

/-- All dates of a recurrence that keeps to a day of the year lie in one month. -/
theorem month_eq_of_keepsToMonth (hkeeps : recurrence.KeepsToMonth)
    (hdate : frame.Proposes recurrence date) (hlater : frame.Proposes recurrence later) :
    date.month = later.month := by
  cases recurrence with
  | once day times =>
    cases day with
    | fixed named =>
      have hdate : named = date := of_decide_eq_true hdate.2
      have hlater : named = later := of_decide_eq_true hlater.2
      rw [← hdate, ← hlater]
    | yearly month day =>
      have hdate := (Bool.and_eq_true_iff.mp hdate.2).1
      have hlater := (Bool.and_eq_true_iff.mp hlater.2).1
      rw [of_decide_eq_true hdate, of_decide_eq_true hlater]
  | yearly interval target times => exact month_eq_of_dateIn? hdate.2.2 hlater.2.2
  | window | daily | weekly | monthly | ordinal => exact hkeeps.elim

/-- From before a date that it may land on a search gets to one. -/
theorem exists_proposes_after (hwell : recurrence.WellFormed)
    (hseason : recurrence.mayLeaveMonth = true → frame.season = [])
    (hfifth : ¬ recurrence.AsksFifthWeekday) (hroams : ¬ recurrence.KeepsToMonth)
    (hstart : start.IsSupported) (hstarts : Starts recurrence start)
    (hlater : frame.Proposes recurrence later) (hlt : start < later) :
    ∃ next, frame.Proposes recurrence next ∧ Reaches recurrence start next ∧ start < next := by
  cases recurrence with
  | window interval unit first last days => exact exists_proposes_after_window hstart hlt hlater
  | daily interval days times => exact exists_proposes_after_daily hstart hlt hwell.2.2.1 hlater
  | weekly interval days times => exact exists_proposes_after_weekly hstart hlt hlater hstarts
  | monthly interval target times =>
    obtain ⟨ahead, ⟨hahead, hmem⟩, _⟩ := hlater
    obtain ⟨next, ym, hafter, hnext, haligned, hclose⟩ := exists_aligned_month_after hstart hlt
      target (by rintro position weekday rfl; exact hfifth) hahead hmem
    exact ⟨next, ⟨ym, ⟨haligned, hnext⟩, triesMonth_of_mem_datesIn hseason hnext⟩,
      ⟨ym, hnext, hclose⟩, hafter⟩
  | ordinal interval position weekday times =>
    obtain ⟨_, ahead, hahead, hmem⟩ := hlater
    obtain ⟨next, ym, hafter, hnext, haligned, hclose⟩ :=
      exists_aligned_month_after hstart hlt (.positioned position weekday)
        (by rintro _ _ ⟨⟩; exact hfifth) hahead hmem
    obtain ⟨hsupported, rfl⟩ :=
      YearMonth.ofDate_of_positionedWeekday? (Option.mem_toList.mp hnext)
    exact ⟨next, ⟨hsupported, _, haligned, hnext⟩, hclose, hafter⟩
  | once | yearly => exact absurd trivial hroams

end Frame

end Cadence
