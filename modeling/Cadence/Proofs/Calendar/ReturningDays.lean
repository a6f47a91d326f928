import Cadence.Proofs.Calendar.MonthPositions
import Cadence.Proofs.Calendar.MonthTargets

/-!
# Days that come round

Months are stepped through so many at a time.  A day of the month comes round
within sixteen steps: up to the 28th in every month, otherwise after twelve steps
in the same month of another year, and the 29th of February, if all steps lead to
February, after four, eight or sixteen of them.  As the calendar repeats itself every
four hundred years, this holds from any month on, also from one before the day in
question.
-/

namespace Cadence

/-- Among the fourth, eighth and sixteenth of equally distant years one is a leap
year, if they are counted from one. -/
theorem exists_leapYear_step {year : Int} (hleap : isLeapYear year = true) (step : Nat) :
    ∃ k : Nat, 1 ≤ k ∧ k ≤ 16 ∧ isLeapYear (year + k * step) = true := by
  have hsome : isLeapYear (year + 4 * step) = true ∨ isLeapYear (year + 8 * step) = true ∨
      isLeapYear (year + 16 * step) = true := by
    simp only [isLeapYear, Bool.or_eq_true, Bool.and_eq_true, decide_eq_true_eq] at *
    omega
  rcases hsome with hfour | height | hsixteen
  · exact ⟨4, by decide, by decide, hfour⟩
  · exact ⟨8, by decide, by decide, height⟩
  · exact ⟨16, by decide, by decide, hsixteen⟩

theorem thirty_le_daysInMonth {month : Nat} (hmonth : month ≠ 2) (year : Int) :
    30 ≤ daysInMonth year month := by
  unfold daysInMonth
  split <;> first | contradiction | decide

namespace YearMonth

/-- Whole years ahead the month has the same number. -/
theorem ofIndex_index_add {ym : YearMonth} (hregular : ym.IsRegular) (years : Int) :
    ofIndex (ym.index + 12 * years) = ⟨ym.year + years, ym.month⟩ := by
  have hindex : ym.index + 12 * years = YearMonth.index ⟨ym.year + years, ym.month⟩ := by
    simp only [index]
    omega
  rw [hindex]
  exact ofIndex_index hregular.1 hregular.2

/-- Months are as long as four hundred years before. -/
theorem lastDay_ofIndex_sub {ym : YearMonth} (hregular : ym.IsRegular) (periods : Int) :
    (ofIndex (ym.index - 4800 * periods)).lastDay = ym.lastDay := by
  have hleap : isLeapYear (ym.year + -(400 * periods)) = isLeapYear ym.year := by
    rw [Bool.eq_iff_iff]
    simp only [isLeapYear, Bool.or_eq_true, Bool.and_eq_true, decide_eq_true_eq]
    omega
  rw [show ym.index - 4800 * periods = ym.index + 12 * -(400 * periods) by omega,
    ofIndex_index_add hregular]
  simp only [lastDay, daysInMonth, hleap]

/-- The days of a month come round within sixteen steps. -/
theorem exists_step_le_lastDay {ym : YearMonth} (hregular : ym.IsRegular) {day : Nat}
    (hday : day ≤ ym.lastDay) (step : Nat) :
    ∃ k : Nat, 1 ≤ k ∧ k ≤ 16 ∧ day ≤ (ofIndex (ym.index + (k * step : Nat))).lastDay := by
  by_cases hshort : day ≤ 28
  · have hlong := (ofIndex (ym.index + (1 * step : Nat))).lastDay_bounds
    exact ⟨1, by decide, by decide, by omega⟩
  by_cases hfebruary : ym.month = 2
  · have hlast : ym.lastDay = if isLeapYear ym.year then 29 else 28 := by
      rw [lastDay, hfebruary, daysInMonth]
    have hleap : isLeapYear ym.year = true := by
      by_contra hcommon
      rw [hlast, if_neg hcommon] at hday
      exact hshort hday
    rw [hlast, if_pos hleap] at hday
    by_cases hyears : step % 12 = 0
    · obtain ⟨years, rfl⟩ : ∃ years, step = 12 * years := ⟨step / 12, by omega⟩
      obtain ⟨k, hlow, hhigh, hleap⟩ := exists_leapYear_step hleap years
      refine ⟨k, hlow, hhigh, ?_⟩
      have hindex : ym.index + (k * (12 * years) : Nat) = ym.index + 12 * (k * years : Int) := by
        rw [Nat.mul_left_comm]
        push_cast
        rfl
      rw [hindex, ofIndex_index_add hregular, lastDay, hfebruary, daysInMonth, if_pos hleap]
      exact hday
    · refine ⟨1, by decide, by decide, hday.trans (Nat.le_of_lt ?_)⟩
      apply thirty_le_daysInMonth
      simp only [ofIndex, index, hfebruary]
      omega
  · refine ⟨12, by decide, by decide, ?_⟩
    have hindex : ym.index + (12 * step : Nat) = ym.index + 12 * (step : Int) := by push_cast; rfl
    rw [hindex, ofIndex_index_add hregular]
    refine hday.trans (Nat.le_of_eq ?_)
    simp only [lastDay, daysInMonth]
    split <;> first | contradiction | rfl

/-- However far one looks ahead from a month that has a day, at most sixteen steps on
comes another one that has it. -/
theorem exists_step_le_lastDay_beyond {ym : YearMonth} (hregular : ym.IsRegular) {day step : Nat}
    (hstep : 0 < step) (hday : day ≤ ym.lastDay) {start : Int} (hle : ym.index ≤ start) :
    ∃ later : YearMonth, later.IsRegular ∧ (step : Int) ∣ later.index - ym.index ∧
      start < later.index ∧ later.index ≤ start + (16 * step : Nat) ∧ day ≤ later.lastDay := by
  induction hdistance : (start - ym.index).toNat using Nat.strong_induction_on generalizing ym with
  | h distance ih =>
    obtain ⟨k, hlow, hhigh, hlong⟩ := exists_step_le_lastDay hregular hday step
    obtain ⟨next, hnext⟩ : ∃ next, next = ofIndex (ym.index + (k * step : Nat)) := ⟨_, rfl⟩
    have hindex : next.index = ym.index + (k * step : Nat) := by rw [hnext, index_ofIndex]
    have hregularNext : next.IsRegular := hnext ▸ isRegular_ofIndex _
    have hpos : 0 < k * step := Nat.mul_pos hlow hstep
    have hsteps : k * step ≤ 16 * step := Nat.mul_le_mul_right step hhigh
    have hdvd : (step : Int) ∣ next.index - ym.index := by
      rw [show next.index - ym.index = k * step by push_cast at hindex; omega]
      exact Int.dvd_mul_left _ _
    by_cases hreached : start < next.index
    · exact ⟨next, hregularNext, hdvd, hreached, by omega, hnext ▸ hlong⟩
    · obtain ⟨later, hregularLater, hlater, hbeyond⟩ :=
        ih (start - next.index).toNat (by omega) hregularNext (hnext ▸ hlong) (by omega) rfl
      have hsum := Int.dvd_add hlater hdvd
      rw [show later.index - next.index + (next.index - ym.index) = later.index - ym.index by omega]
        at hsum
      exact ⟨later, hregularLater, hsum, hbeyond⟩

/-- Wherever one looks from, before a month that has a day or after it, at most sixteen
steps on comes another one that has it. -/
theorem exists_later_step_le_lastDay {ym : YearMonth} (hregular : ym.IsRegular) {day step : Nat}
    (hstep : 0 < step) (hday : day ≤ ym.lastDay) (start : Int) :
    ∃ later : YearMonth, later.IsRegular ∧ (step : Int) ∣ later.index - ym.index ∧
      start < later.index ∧ later.index ≤ start + (16 * step : Nat) ∧ day ≤ later.lastDay := by
  -- Whole periods of the calendar lead back to an aligned month before the start.
  obtain ⟨periods, hperiods⟩ : ∃ periods, periods = step * (ym.index - start).toNat := ⟨_, rfl⟩
  have hfar : (ym.index - start).toNat ≤ periods := hperiods ▸ Nat.le_mul_of_pos_left _ hstep
  obtain ⟨before, hbefore⟩ : ∃ before, before = ofIndex (ym.index - 4800 * periods) := ⟨_, rfl⟩
  have hindex : before.index = ym.index - 4800 * periods := by rw [hbefore, index_ofIndex]
  have hlong : before.lastDay = ym.lastDay := hbefore ▸ lastDay_ofIndex_sub hregular periods
  obtain ⟨later, hlater, hsteps, hbeyond⟩ := exists_step_le_lastDay_beyond
    (hbefore ▸ isRegular_ofIndex _) hstep (hlong ▸ hday) (show before.index ≤ start by omega)
  have hback : (step : Int) ∣ before.index - ym.index := by
    have hperiod : (step : Int) ∣ 4800 * periods :=
      Int.dvd_trans (Int.natCast_dvd_natCast.mpr ⟨_, hperiods⟩) (Int.dvd_mul_left _ _)
    rwa [show before.index - ym.index = -(4800 * periods) by omega, Int.dvd_neg]
  have hsum := Int.dvd_add hsteps hback
  rw [show later.index - before.index + (before.index - ym.index) = later.index - ym.index by omega]
    at hsum
  exact ⟨later, hlater, hsum, hbeyond⟩

end YearMonth

/-- The months that lie between two others of the calendar. -/
structure YearMonth.IsInside (ym : YearMonth) : Prop where
  regular : ym.IsRegular
  after : (ofDate Date.least).index < ym.index
  before : ym.index < (ofDate Date.greatest).index

namespace YearMonth.IsInside

variable {ym : YearMonth}

theorem year_bounds (hinside : ym.IsInside) :
    Date.leastYear ≤ ym.year ∧ ym.year ≤ Date.greatestYear := by
  have hlow := year_mono (isRegular_ofDate _) hinside.regular (Int.le_of_lt hinside.after)
  have hhigh := year_mono hinside.regular (isRegular_ofDate _) (Int.le_of_lt hinside.before)
  exact ⟨(Date.isSupported_iff_year.mp ⟨Int.le_refl _, by decide⟩).1.trans hlow,
    hhigh.trans (Date.isSupported_iff_year.mp ⟨by decide, Int.le_refl _⟩).2⟩

end YearMonth.IsInside

namespace MonthTarget

/-- The months for which a target picks a date belong to the calendar. -/
theorem index_bounds_of_mem_datesIn {target : MonthTarget} {ym : YearMonth} {date : Date}
    (hdate : date ∈ target.datesIn ym) :
    (YearMonth.ofDate Date.least).index ≤ ym.index ∧
      ym.index ≤ (YearMonth.ofDate Date.greatest).index := by
  obtain ⟨named, hsupported, rfl⟩ :
      ∃ named : Date, named.IsSupported ∧ YearMonth.ofDate named = ym := by
    cases target with
    | nearestBusinessDay day direction =>
      obtain ⟨named, hnamed, _⟩ := Option.bind_eq_some_iff.mp (Option.mem_toList.mp hdate)
      obtain ⟨hsupported, hmonth, _⟩ := YearMonth.date?_eq_some_iff.mp hnamed
      exact ⟨named, hsupported, hmonth⟩
    | days _ | lastDay | lastBusinessDay | positioned _ _ =>
      exact ⟨date, ofDate_of_mem_datesIn rfl hdate⟩
  exact ⟨YearMonth.index_ofDate_mono hsupported.1, YearMonth.index_ofDate_mono hsupported.2⟩

/-- A working day nearest to a day is picked for every month inside the calendar that
has the day. -/
theorem exists_mem_datesIn_nearestBusinessDay {day : Nat} {direction : Option Direction}
    {ym : YearMonth} (hinside : ym.IsInside) (hday : 1 ≤ day ∧ day ≤ ym.lastDay) :
    ∃ date, date ∈ (nearestBusinessDay day direction).datesIn ym := by
  obtain ⟨asked, hasked⟩ := YearMonth.exists_date? hinside.regular hinside.year_bounds hday
  obtain ⟨date, hdate⟩ := YearMonth.exists_nearestBusinessDate? hasked direction
  exact ⟨date, Option.mem_toList.mpr hdate⟩

/-- A target that picks a date for some month picks one for every month inside the calendar
that has a certain day, unless it asks for a fifth weekday. -/
theorem exists_day_mem_datesIn {target : MonthTarget} {given : YearMonth} {date : Date}
    (hposition : ∀ position weekday, target = positioned position weekday → position ≠ .fifth)
    (hdate : date ∈ target.datesIn given) :
    ∃ day ≤ given.lastDay, ∀ ym : YearMonth, ym.IsInside → day ≤ ym.lastDay →
      ∃ other, other ∈ target.datesIn ym := by
  cases target with
  | days entries =>
    obtain ⟨day, hlisted, hday⟩ := List.mem_filterMap.mp hdate
    obtain ⟨_, hmonth, hshown⟩ := YearMonth.date?_eq_some_iff.mp hday
    have hbounds := YearMonth.day_le_lastDay date
    rw [hmonth, hshown] at hbounds
    refine ⟨day, hbounds.2, fun ym hinside hlong => ?_⟩
    obtain ⟨other, hother⟩ :=
      YearMonth.exists_date? hinside.regular hinside.year_bounds ⟨hbounds.1, hlong⟩
    exact ⟨other, List.mem_filterMap.mpr ⟨day, hlisted, hother⟩⟩
  | nearestBusinessDay day direction =>
    have hday := (YearMonth.nearestBusinessDate?_spec (Option.mem_toList.mp hdate)).2.2.1
    exact ⟨day, hday.2, fun ym hinside hlong =>
      exists_mem_datesIn_nearestBusinessDay hinside ⟨hday.1, hlong⟩⟩
  | lastDay =>
    refine ⟨0, Nat.zero_le _, fun ym hinside _ => ?_⟩
    obtain ⟨other, hother⟩ := YearMonth.exists_lastDate? hinside.regular hinside.year_bounds
    exact ⟨other, Option.mem_toList.mpr hother⟩
  | lastBusinessDay =>
    refine ⟨0, Nat.zero_le _, fun ym hinside _ => ?_⟩
    obtain ⟨other, hother⟩ :=
      YearMonth.exists_lastBusinessDate? hinside.regular hinside.year_bounds
    exact ⟨other, Option.mem_toList.mpr hother⟩
  | positioned position weekday =>
    refine ⟨0, Nat.zero_le _, fun ym hinside _ => ?_⟩
    obtain ⟨other, hother⟩ := YearMonth.exists_positionedWeekday? hinside.regular
      hinside.year_bounds (hposition position weekday rfl) weekday
    exact ⟨other, Option.mem_toList.mpr hother⟩

end MonthTarget

end Cadence
