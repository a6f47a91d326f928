import Mathlib.Order.Basic
import Mathlib.Tactic.Common
import Mathlib.Tactic.Tauto
import Mathlib.Tactic.ByContra
import Mathlib.Algebra.Order.Group.Nat
import Cadence.Calendar.Date
import Cadence.Calendar.Month

/-!
# Day numbers and the parts of a date

A date is stored as a day number and its year, month and day are computed from
it.  This module shows that the two descriptions agree: the computed parts name
the date they were computed from, and a date built from parts has these parts.
-/

namespace Cadence

/-! ## Order -/

namespace Date

variable {first second : Date}

protected theorem le_antisymm (hle : first ≤ second) (hge : second ≤ first) : first = second :=
  congrArg mk (Int.le_antisymm hle hge)

protected theorem lt_of_le_of_ne (hle : first ≤ second) (hne : first ≠ second) : first < second :=
  Int.lt_iff_le_and_ne.mpr ⟨hle, fun hsame => hne (congrArg mk hsame)⟩

protected theorem lt_or_eq_of_le (hle : first ≤ second) : first < second ∨ first = second :=
  (Int.lt_or_eq_of_le hle).imp_right (congrArg mk)

protected theorem ne_of_lt (hlt : first < second) : first ≠ second :=
  fun hsame => Int.ne_of_lt hlt (congrArg dayNumber hsame)

end Date

/-! ## Years -/

theorem daysBeforeYear_succ (year : Int) :
    daysBeforeYear (year + 1) = daysBeforeYear year + if isLeapYear year then 366 else 365 := by
  simp only [daysBeforeYear, isLeapYear, Bool.or_eq_true, Bool.and_eq_true, decide_eq_true_eq]
  split <;> omega

theorem daysBeforeYear_mono {first second : Int} (hle : first ≤ second) :
    daysBeforeYear first ≤ daysBeforeYear second := by
  simp only [daysBeforeYear]
  omega

/-- Leap days come at most eight years apart. -/
theorem exists_leapYear (year : Int) :
    ∃ ahead : Nat, 1 ≤ ahead ∧ ahead ≤ 8 ∧ isLeapYear (year + ahead) = true := by
  simp only [isLeapYear, Bool.or_eq_true, Bool.and_eq_true, decide_eq_true_eq]
  by_cases hcentury : (year + (4 - year % 4)) % 100 = 0
  · exact ⟨(8 - year % 4).toNat, by omega, by omega, by omega⟩
  · exact ⟨(4 - year % 4).toNat, by omega, by omega, by omega⟩

namespace Date

theorem daysBeforeYear_year_lt (date : Date) : daysBeforeYear date.year < date.dayNumber := by
  simp only [year]
  split
  · simp only [daysBeforeYear] at *
    omega
  · split
    · assumption
    · omega

theorem dayNumber_le_daysBeforeYear_succ (date : Date) :
    date.dayNumber ≤ daysBeforeYear (date.year + 1) := by
  simp only [year]
  split
  · rename_i hbefore
    simpa only [Int.sub_add_cancel] using hbefore
  · split
    · simp only [daysBeforeYear] at *
      omega
    · omega

/-- A date lies in the year whose day numbers surround it. -/
theorem year_eq_iff {date : Date} {y : Int} :
    date.year = y ↔
      daysBeforeYear y < date.dayNumber ∧ date.dayNumber ≤ daysBeforeYear (y + 1) := by
  have hlow := date.daysBeforeYear_year_lt
  have hhigh := date.dayNumber_le_daysBeforeYear_succ
  constructor
  · rintro rfl
    exact ⟨hlow, hhigh⟩
  · rintro ⟨hafter, hbefore⟩
    by_contra hne
    rcases Int.lt_or_gt_of_ne hne with hlt | hgt
    · have := daysBeforeYear_mono (show date.year + 1 ≤ y by omega)
      omega
    · have := daysBeforeYear_mono (show y + 1 ≤ date.year by omega)
      omega

theorem year_mono {first second : Date} (hle : first ≤ second) : first.year ≤ second.year := by
  by_contra hlt
  have hyears := daysBeforeYear_mono (show second.year + 1 ≤ first.year by omega)
  have hlow := first.daysBeforeYear_year_lt
  have hhigh := second.dayNumber_le_daysBeforeYear_succ
  have hle : first.dayNumber ≤ second.dayNumber := hle
  omega

theorem lt_of_year_lt {first second : Date} (hlt : first.year < second.year) : first < second :=
  Int.not_le.mp fun hle => Int.not_lt.mpr (year_mono hle) hlt

end Date

/-! ## Months of a year -/

theorem daysInMonth_bounds (year : Int) (month : Nat) :
    28 ≤ daysInMonth year month ∧ daysInMonth year month ≤ 31 := by
  unfold daysInMonth
  split
  · split <;> omega
  all_goals omega

theorem daysBeforeMonth_succ (year : Int) {month : Nat} (hmonth : 1 ≤ month) :
    daysBeforeMonth year (month + 1) = daysBeforeMonth year month + daysInMonth year month := by
  obtain ⟨earlier, rfl⟩ := Nat.exists_eq_add_of_le' hmonth
  rfl

theorem daysBeforeMonth_mono (year : Int) {first second : Nat} (hle : first ≤ second) :
    daysBeforeMonth year first ≤ daysBeforeMonth year second := by
  induction second, hle using Nat.le_induction with
  | base => exact Nat.le_refl _
  | succ month hle ih =>
    apply ih.trans
    cases month with
    | zero => simp [daysBeforeMonth]
    | succ earlier => exact Nat.le_add_right _ _

/-- The twelve months fill the year. -/
theorem daysBeforeMonth_thirteen (year : Int) :
    daysBeforeMonth year 13 = if isLeapYear year then 366 else 365 := by
  simp only [daysBeforeMonth, daysInMonth]
  split <;> rfl

theorem daysBeforeYear_add_daysBeforeMonth_thirteen (year : Int) :
    daysBeforeYear year + daysBeforeMonth year 13 = daysBeforeYear (year + 1) := by
  rw [daysBeforeYear_succ, daysBeforeMonth_thirteen]
  split <;> rfl

/-- A day of the year that begins no later than in the given month lies in the
month found for it. -/
theorem monthOfDay_spec (year : Int) {day : Nat} (hday : 1 ≤ day) :
    ∀ {month : Nat}, day ≤ daysBeforeMonth year (month + 1) → 1 ≤ month →
      1 ≤ monthOfDay year day month ∧ monthOfDay year day month ≤ month ∧
        daysBeforeMonth year (monthOfDay year day month) < day ∧
        day ≤ daysBeforeMonth year (monthOfDay year day month + 1)
  | 1, hbefore, _ => by
    have hfirst : daysBeforeMonth year (0 + 1) < day := by
      simp only [daysBeforeMonth]
      omega
    simp only [monthOfDay, if_pos hfirst]
    exact ⟨by omega, by omega, hfirst, hbefore⟩
  | month + 2, hbefore, _ => by
    rw [monthOfDay]
    split
    · rename_i hafter
      exact ⟨by omega, by omega, hafter, hbefore⟩
    · rename_i hearlier
      obtain ⟨hlow, hhigh, hafter, hwithin⟩ :=
        @monthOfDay_spec year day hday (month + 1) (by omega) (by omega)
      exact ⟨hlow, by omega, hafter, hwithin⟩

theorem monthOfDay_eq {year : Int} {day month : Nat} (hmonth : 1 ≤ month) (hle : month ≤ 12)
    (hafter : daysBeforeMonth year month < day)
    (hbefore : day ≤ daysBeforeMonth year (month + 1)) : monthOfDay year day 12 = month := by
  have hyear : day ≤ daysBeforeMonth year (12 + 1) :=
    hbefore.trans (daysBeforeMonth_mono year (by omega))
  obtain ⟨_, _, hlow, hhigh⟩ := monthOfDay_spec year (by omega) hyear (by omega)
  by_contra hne
  rcases Nat.lt_or_gt_of_ne hne with hlt | hgt
  · have := daysBeforeMonth_mono year (show monthOfDay year day 12 + 1 ≤ month by omega)
    omega
  · have := daysBeforeMonth_mono year (show month + 1 ≤ monthOfDay year day 12 by omega)
    omega

/-! ## The parts of a date -/

namespace Date

theorem dayNumber_eq (date : Date) :
    date.dayNumber = daysBeforeYear date.year + date.dayOfYear := by
  have := date.daysBeforeYear_year_lt
  simp only [dayOfYear]
  omega

theorem dayOfYear_bounds (date : Date) :
    1 ≤ date.dayOfYear ∧ date.dayOfYear ≤ daysBeforeMonth date.year 13 := by
  have hlow := date.daysBeforeYear_year_lt
  have hhigh := date.dayNumber_le_daysBeforeYear_succ
  have hyear := daysBeforeYear_add_daysBeforeMonth_thirteen date.year
  simp only [dayOfYear]
  omega

theorem month_bounds (date : Date) : 1 ≤ date.month ∧ date.month ≤ 12 := by
  obtain ⟨hfirst, hlast⟩ := date.dayOfYear_bounds
  obtain ⟨hlow, hhigh, _, _⟩ := monthOfDay_spec date.year hfirst hlast (by omega)
  exact ⟨hlow, hhigh⟩

theorem day_bounds (date : Date) : 1 ≤ date.day ∧ date.day ≤ daysInMonth date.year date.month := by
  obtain ⟨hfirst, hlast⟩ := date.dayOfYear_bounds
  obtain ⟨hlow, _, hafter, hwithin⟩ := monthOfDay_spec date.year hfirst hlast (by omega)
  rw [daysBeforeMonth_succ _ hlow] at hwithin
  simp only [day, month]
  omega

/-- The parts of a date add up to its number. -/
theorem dayNumber_eq_parts (date : Date) :
    date.dayNumber =
      daysBeforeYear date.year + daysBeforeMonth date.year date.month + date.day := by
  obtain ⟨hfirst, hlast⟩ := date.dayOfYear_bounds
  obtain ⟨_, _, hafter, _⟩ := monthOfDay_spec date.year hfirst hlast (by omega)
  have hnumber := date.dayNumber_eq
  simp only [day, month]
  omega

/-- Parts of a day that exists determine its number, and the number gives back
the parts. -/
theorem parts_of_dayNumber {y : Int} {m d : Nat} (hmonth : 1 ≤ m ∧ m ≤ 12)
    (hday : 1 ≤ d ∧ d ≤ daysInMonth y m) {date : Date}
    (hnumber : date.dayNumber = daysBeforeYear y + daysBeforeMonth y m + d) :
    date.year = y ∧ date.month = m ∧ date.day = d := by
  have hbefore := daysBeforeMonth_succ y hmonth.1
  have hyear : date.year = y := by
    rw [year_eq_iff, ← daysBeforeYear_add_daysBeforeMonth_thirteen]
    have := daysBeforeMonth_mono y (show m + 1 ≤ 13 by omega)
    omega
  have hdayOfYear : date.dayOfYear = daysBeforeMonth y m + d := by
    simp only [dayOfYear, hyear]
    omega
  have hmonthEq : date.month = m := by
    rw [month, hyear, hdayOfYear]
    exact monthOfDay_eq hmonth.1 hmonth.2 (by omega) (by omega)
  refine ⟨hyear, hmonthEq, ?_⟩
  rw [day, hmonthEq, hyear, hdayOfYear]
  omega

/-! ## Supported dates -/

/-- A date of a supported year. -/
def IsSupported (date : Date) : Prop := least ≤ date ∧ date ≤ greatest

instance (date : Date) : Decidable date.IsSupported := inferInstanceAs (Decidable (_ ∧ _))

theorem isSupported_iff_year {date : Date} :
    date.IsSupported ↔ leastYear ≤ date.year ∧ date.year ≤ greatestYear := by
  have hlow := date.daysBeforeYear_year_lt
  have hhigh := date.dayNumber_le_daysBeforeYear_succ
  have hdef : date.IsSupported ↔ daysBeforeYear leastYear + 1 ≤ date.dayNumber ∧
      date.dayNumber ≤ daysBeforeYear (greatestYear + 1) := Iff.rfl
  rw [hdef]
  constructor
  · rintro ⟨hleast, hgreatest⟩
    constructor
    · by_contra hlt
      have := daysBeforeYear_mono (show date.year + 1 ≤ leastYear by omega)
      omega
    · by_contra hgt
      have := daysBeforeYear_mono (show greatestYear + 1 ≤ date.year by omega)
      omega
  · rintro ⟨hleast, hgreatest⟩
    have hfirst := daysBeforeYear_mono hleast
    have hlast := daysBeforeYear_mono (show date.year + 1 ≤ greatestYear + 1 by omega)
    omega

theorem IsSupported.of_between {first second date : Date} (hfirst : first.IsSupported)
    (hsecond : second.IsSupported) (hlow : first ≤ date) (hhigh : date ≤ second) :
    date.IsSupported :=
  ⟨Int.le_trans hfirst.1 hlow, Int.le_trans hhigh hsecond.2⟩

/-- A date with a year of four digits. -/
def HasFourDigitYear (date : Date) : Prop := 0 ≤ date.year ∧ date.year ≤ 9999

instance (date : Date) : Decidable date.HasFourDigitYear := inferInstanceAs (Decidable (_ ∧ _))

/-- Years of four digits are far from both ends of the calendar. -/
theorem HasFourDigitYear.isFarFromEnds {date : Date} (hyear : date.HasFourDigitYear) :
    leastYear ≤ date.year ∧ date.year + 16 ≤ greatestYear := by
  obtain ⟨hlow, hhigh⟩ := hyear
  have hleast : leastYear ≤ 0 := by decide
  have hgreatest : 9999 + 16 ≤ greatestYear := by decide
  omega

theorem HasFourDigitYear.isSupported {date : Date} (hyear : date.HasFourDigitYear) :
    date.IsSupported := by
  obtain ⟨hleast, hgreatest⟩ := hyear.isFarFromEnds
  exact isSupported_iff_year.mpr ⟨hleast, by omega⟩

/-- The calendar also has all dates around them. -/
theorem HasFourDigitYear.isSupported_of_near {date other : Date} (hyear : date.HasFourDigitYear)
    (hlow : date.dayNumber - 366 ≤ other.dayNumber)
    (hhigh : other.dayNumber ≤ date.dayNumber + 366) : other.IsSupported := by
  have hleast : least.dayNumber + 366 ≤ daysBeforeYear 0 := by decide
  have hgreatest : daysBeforeYear 10000 + 366 ≤ greatest.dayNumber := by decide
  have hfirst := daysBeforeYear_mono hyear.1
  have hlast := daysBeforeYear_mono (show date.year + 1 ≤ 10000 by have := hyear.2; omega)
  have hbefore := date.daysBeforeYear_year_lt
  have hafter := date.dayNumber_le_daysBeforeYear_succ
  constructor
  · change least.dayNumber ≤ other.dayNumber
    omega
  · change other.dayNumber ≤ greatest.dayNumber
    omega

theorem ofDayNumber?_eq_some_iff {n : Int} {date : Date} :
    ofDayNumber? n = some date ↔ date.dayNumber = n ∧ date.IsSupported := by
  obtain ⟨number⟩ := date
  simp only [ofDayNumber?, Option.ite_none_right_eq_some, Option.some.injEq, mk.injEq]
  constructor
  · rintro ⟨hrange, rfl⟩
    exact ⟨rfl, hrange⟩
  · rintro ⟨rfl, hrange⟩
    exact ⟨hrange, rfl⟩

theorem addDays?_eq_some_iff {date later : Date} {days : Int} :
    date.addDays? days = some later ↔
      later.dayNumber = date.dayNumber + days ∧ later.IsSupported :=
  ofDayNumber?_eq_some_iff

/-- More days lead to a later date. -/
theorem lt_of_addDays? {date first second : Date} {few many : Int}
    (hfirst : date.addDays? few = some first) (hsecond : date.addDays? many = some second)
    (hlt : few < many) : first < second := by
  have hfirst := (addDays?_eq_some_iff.mp hfirst).1
  have hsecond := (addDays?_eq_some_iff.mp hsecond).1
  change first.dayNumber < second.dayNumber
  omega

/-- Between a date and the next one there is no other. -/
theorem eq_of_lt_addDays?_one {date next other : Date} (hnext : date.addDays? 1 = some next)
    (hle : date ≤ other) (hlt : other < next) : other = date := by
  have hnumber := (addDays?_eq_some_iff.mp hnext).1
  have hle : date.dayNumber ≤ other.dayNumber := hle
  have hlt : other.dayNumber < next.dayNumber := hlt
  exact congrArg mk (show other.dayNumber = date.dayNumber by omega)

/-- Between a date and the one before there is no other. -/
theorem eq_of_addDays?_neg_one_lt {date previous other : Date}
    (hprevious : date.addDays? (-1) = some previous) (hlt : previous < other)
    (hle : other ≤ date) : other = date := by
  have hnumber := (addDays?_eq_some_iff.mp hprevious).1
  have hle : other.dayNumber ≤ date.dayNumber := hle
  have hlt : previous.dayNumber < other.dayNumber := hlt
  exact congrArg mk (show other.dayNumber = date.dayNumber by omega)

/-- The date of given parts is the supported date that has these parts. -/
theorem ofYmd?_eq_some_iff {y : Int} {m d : Nat} {date : Date} :
    ofYmd? y m d = some date ↔
      date.IsSupported ∧ date.year = y ∧ date.month = m ∧ date.day = d := by
  simp only [ofYmd?, Option.ite_none_right_eq_some, Option.some.injEq]
  constructor
  · rintro ⟨⟨hleast, hgreatest, hfirst, hlast, hlow, hhigh⟩, rfl⟩
    have hnumber : (⟨daysBeforeYear y + daysBeforeMonth y m + d⟩ : Date).dayNumber =
        daysBeforeYear y + daysBeforeMonth y m + d := rfl
    have hparts := parts_of_dayNumber ⟨hfirst, hlast⟩ ⟨hlow, hhigh⟩ hnumber
    refine ⟨?_, hparts⟩
    rw [isSupported_iff_year, hparts.1]
    exact ⟨hleast, hgreatest⟩
  · rintro ⟨hsupported, rfl, rfl, rfl⟩
    obtain ⟨hleast, hgreatest⟩ := isSupported_iff_year.mp hsupported
    obtain ⟨hfirst, hlast⟩ := date.month_bounds
    obtain ⟨hlow, hhigh⟩ := date.day_bounds
    refine ⟨⟨hleast, hgreatest, hfirst, hlast, hlow, hhigh⟩, ?_⟩
    rw [← dayNumber_eq_parts]

theorem ofYmd?_isSome_iff {y : Int} {m d : Nat} :
    (ofYmd? y m d).isSome ↔ (leastYear ≤ y ∧ y ≤ greatestYear) ∧ (1 ≤ m ∧ m ≤ 12) ∧
      1 ≤ d ∧ d ≤ daysInMonth y m := by
  simp only [ofYmd?, Option.isSome_ite]
  tauto

end Date

end Cadence
