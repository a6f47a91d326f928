import Cadence.Calendar.YearMonth
import Cadence.Proofs.Calendar.DayNumbers

/-!
# Months on the line of days

Months follow each other without gaps: each begins where the one before it
ends.  Their order is that of their indices, so statements about dates of
different months become statements about day numbers.
-/

namespace Cadence

namespace YearMonth

/-- The number of the last day before a month. -/
def daysBefore (ym : YearMonth) : Int :=
  daysBeforeYear ym.year + daysBeforeMonth ym.year ym.month

/-- A month number from 1 to 12. -/
def IsRegular (ym : YearMonth) : Prop := 1 ≤ ym.month ∧ ym.month ≤ 12

theorem isRegular_ofDate (date : Date) : (ofDate date).IsRegular := date.month_bounds

theorem isRegular_ofIndex (i : Int) : (ofIndex i).IsRegular := by
  simp only [ofIndex, IsRegular]
  omega

theorem ofIndex_index_of_isRegular {ym : YearMonth} (hregular : ym.IsRegular) :
    ofIndex ym.index = ym :=
  ofIndex_index hregular.1 hregular.2

theorem index_next {ym : YearMonth} (hregular : ym.IsRegular) : ym.next.index = ym.index + 1 := by
  have hhigh := hregular.2
  simp only [next, index]
  split <;> simp only <;> omega

theorem index_previous {ym : YearMonth} (hregular : ym.IsRegular) :
    ym.previous.index = ym.index - 1 := by
  have hlow := hregular.1
  simp only [previous, index]
  split <;> simp only <;> omega

theorem isRegular_next {ym : YearMonth} (hregular : ym.IsRegular) : ym.next.IsRegular := by
  have hlow := hregular.1
  simp only [next, IsRegular]
  split <;> simp only <;> omega

theorem isRegular_previous {ym : YearMonth} (hregular : ym.IsRegular) : ym.previous.IsRegular := by
  have hhigh := hregular.2
  simp only [previous, IsRegular]
  split <;> simp only <;> omega

theorem eq_of_index_eq {first second : YearMonth} (hfirst : first.IsRegular)
    (hsecond : second.IsRegular) (hindex : first.index = second.index) : first = second := by
  rw [← ofIndex_index_of_isRegular hfirst, hindex, ofIndex_index_of_isRegular hsecond]

/-- Some month lies any number of months away from another. -/
theorem exists_monthsSince (reference : YearMonth) (distance : Int) :
    ∃ ym : YearMonth, ym.IsRegular ∧ distance = ym.monthsSince reference :=
  ⟨ofIndex (distance + reference.index), isRegular_ofIndex _, by
    rw [monthsSince, index_ofIndex, Int.add_sub_cancel]⟩

/-- Later months lie in later years or in the same one. -/
theorem year_mono {first second : YearMonth} (hfirst : first.IsRegular)
    (hsecond : second.IsRegular) (hle : first.index ≤ second.index) :
    first.year ≤ second.year := by
  have hlow := hfirst.1
  have hhigh := hsecond.2
  simp only [index] at hle
  omega

theorem lastDay_bounds (ym : YearMonth) : 28 ≤ ym.lastDay ∧ ym.lastDay ≤ 31 :=
  daysInMonth_bounds ym.year ym.month

theorem daysBefore_next {ym : YearMonth} (hregular : ym.IsRegular) :
    ym.next.daysBefore = ym.daysBefore + ym.lastDay := by
  obtain ⟨year, month⟩ := ym
  obtain ⟨hlow, hhigh⟩ := hregular
  simp only at hlow hhigh
  have hmonth := daysBeforeMonth_succ year hlow
  simp only [next, daysBefore, lastDay]
  split
  · obtain rfl : month = 12 := by omega
    have hyear := daysBeforeYear_add_daysBeforeMonth_thirteen year
    have hjanuary : daysBeforeMonth (year + 1) 1 = 0 := rfl
    simp only [hjanuary, Nat.reduceAdd] at *
    omega
  · simp only
    omega

/-- A month that comes later begins after the end of the earlier one, and every
month in between takes at least 28 days. -/
theorem daysBefore_add_lastDay_le {first second : YearMonth} (hfirst : first.IsRegular)
    (hsecond : second.IsRegular) (hlt : first.index < second.index) :
    first.daysBefore + first.lastDay ≤ second.daysBefore := by
  obtain ⟨gap, hgap⟩ : ∃ gap : Nat, second.index = first.index + gap + 1 :=
    ⟨(second.index - first.index - 1).toNat, by omega⟩
  induction gap generalizing second with
  | zero =>
    have hindex := index_next hfirst
    have hsame : second = first.next := eq_of_index_eq hsecond (isRegular_next hfirst) (by omega)
    rw [hsame, daysBefore_next hfirst]
  | succ gap ih =>
    have hindex := index_previous hsecond
    have hbefore := isRegular_previous hsecond
    have hle := ih hbefore (by omega) (by omega)
    have hnext : second = second.previous.next :=
      eq_of_index_eq hsecond (isRegular_next hbefore) (by rw [index_next hbefore]; omega)
    rw [hnext, daysBefore_next hbefore]
    omega

/-! ## Dates of a month -/

theorem daysBefore_ofDate (date : Date) :
    date.dayNumber = (ofDate date).daysBefore + date.day := date.dayNumber_eq_parts

theorem day_le_lastDay (date : Date) : 1 ≤ date.day ∧ date.day ≤ (ofDate date).lastDay :=
  date.day_bounds

/-- A date lies in the month whose day numbers surround it. -/
theorem ofDate_eq_iff {date : Date} {ym : YearMonth} (hregular : ym.IsRegular) :
    ofDate date = ym ↔
      ym.daysBefore < date.dayNumber ∧ date.dayNumber ≤ ym.daysBefore + ym.lastDay := by
  have hnumber := daysBefore_ofDate date
  have hday := day_le_lastDay date
  constructor
  · rintro rfl
    omega
  · rintro ⟨hafter, hwithin⟩
    apply eq_of_index_eq (isRegular_ofDate date) hregular
    rcases Int.lt_trichotomy (ofDate date).index ym.index with hlt | heq | hgt
    · have := daysBefore_add_lastDay_le (isRegular_ofDate date) hregular hlt
      omega
    · exact heq
    · have := daysBefore_add_lastDay_le hregular (isRegular_ofDate date) hgt
      omega

theorem index_ofDate_lt_iff {date : Date} {ym : YearMonth} (hregular : ym.IsRegular) :
    (ofDate date).index < ym.index ↔ date.dayNumber ≤ ym.daysBefore := by
  have hnumber := daysBefore_ofDate date
  have hday := day_le_lastDay date
  constructor
  · intro hlt
    have := daysBefore_add_lastDay_le (isRegular_ofDate date) hregular hlt
    omega
  · intro hle
    by_contra hge
    rcases Int.lt_or_eq_of_le (Int.not_lt.mp hge) with hgt | heq
    · have := daysBefore_add_lastDay_le hregular (isRegular_ofDate date) hgt
      omega
    · rw [eq_of_index_eq hregular (isRegular_ofDate date) heq] at hle
      omega

theorem lt_index_ofDate_iff {date : Date} {ym : YearMonth} (hregular : ym.IsRegular) :
    ym.index < (ofDate date).index ↔ ym.daysBefore + ym.lastDay < date.dayNumber := by
  have hnext : (ofDate date).index < ym.next.index ↔ date.dayNumber ≤ ym.next.daysBefore :=
    index_ofDate_lt_iff (isRegular_next hregular)
  rw [index_next hregular, daysBefore_next hregular] at hnext
  omega

/-- Later dates lie in later months or in the same one. -/
theorem index_ofDate_mono {first second : Date} (hle : first ≤ second) :
    (ofDate first).index ≤ (ofDate second).index := by
  by_contra hlt
  have hmonths := daysBefore_add_lastDay_le (isRegular_ofDate second) (isRegular_ofDate first)
    (by omega)
  have hfirst := daysBefore_ofDate first
  have hsecond := daysBefore_ofDate second
  have hday := day_le_lastDay second
  have hpositive := day_le_lastDay first
  have hle : first.dayNumber ≤ second.dayNumber := hle
  omega

theorem lt_of_index_ofDate_lt {first second : Date}
    (hlt : (ofDate first).index < (ofDate second).index) : first < second :=
  Int.not_le.mp fun hle => Int.not_lt.mpr (index_ofDate_mono hle) hlt

/-- Days that are less than a month apart lie in the same or in neighbouring months. -/
theorem index_ofDate_le_of_near {date other : Date}
    (hnear : other.dayNumber ≤ date.dayNumber + 28) :
    (ofDate other).index ≤ (ofDate date).index + 1 := by
  have hregular := isRegular_ofDate date
  have hnumber := daysBefore_ofDate date
  have hday := day_le_lastDay date
  have hotherNumber := daysBefore_ofDate other
  have hotherDay := day_le_lastDay other
  have hnext := daysBefore_next hregular
  have hindex := index_next hregular
  have hlong := (ofDate date).next.lastDay_bounds
  by_contra hfar
  have := daysBefore_add_lastDay_le (isRegular_next hregular) (isRegular_ofDate other) (by omega)
  omega

/-- Days that are less than a month apart lie in the same or in neighbouring years. -/
theorem year_le_of_near {date other : Date} (hnear : other.dayNumber ≤ date.dayNumber + 28) :
    other.year ≤ date.year + 1 := by
  have hindex := index_ofDate_le_of_near hnear
  have hmonth := date.month_bounds
  have hotherMonth := other.month_bounds
  simp only [index, ofDate] at hindex
  omega

theorem date?_eq_some_iff {ym : YearMonth} {day : Nat} {date : Date} :
    ym.date? day = some date ↔ date.IsSupported ∧ ofDate date = ym ∧ date.day = day := by
  obtain ⟨year, month⟩ := ym
  rw [date?, Date.ofYmd?_eq_some_iff]
  simp only [ofDate, mk.injEq]
  tauto

/-- A date of a month is so many days after the month's beginning. -/
theorem dayNumber_of_date? {ym : YearMonth} {day : Nat} {date : Date}
    (hdate : ym.date? day = some date) : date.dayNumber = ym.daysBefore + day := by
  obtain ⟨_, rfl, rfl⟩ := date?_eq_some_iff.mp hdate
  exact daysBefore_ofDate date

theorem lastDate?_eq_some_iff {ym : YearMonth} {date : Date} :
    ym.lastDate? = some date ↔ date.IsSupported ∧ ofDate date = ym ∧ date.day = ym.lastDay :=
  date?_eq_some_iff

/-! ## Days picked out of a month -/

/-- The last working day lies in its month. -/
theorem ofDate_of_lastBusinessDate? {ym : YearMonth} {date : Date}
    (hdate : ym.lastBusinessDate? = some date) : date.IsSupported ∧ ofDate date = ym := by
  simp only [lastBusinessDate?, Option.bind_eq_some_iff] at hdate
  obtain ⟨last, hlast, hmoved⟩ := hdate
  obtain ⟨hsupported, hmonth, hday⟩ := lastDate?_eq_some_iff.mp hlast
  have hregular : ym.IsRegular := hmonth ▸ isRegular_ofDate last
  have hnumber := dayNumber_of_date? hlast
  have hlong := ym.lastDay_bounds
  rw [ofDate_eq_iff hregular]
  split at hmoved
  · obtain ⟨hshift, hinside⟩ := Date.addDays?_eq_some_iff.mp hmoved
    exact ⟨hinside, by omega, by omega⟩
  · obtain ⟨hshift, hinside⟩ := Date.addDays?_eq_some_iff.mp hmoved
    exact ⟨hinside, by omega, by omega⟩
  · obtain rfl := Option.some.inj hmoved
    exact ⟨hsupported, by omega, by omega⟩

/-- A weekday at a position of a month lies in the month. -/
theorem ofDate_of_positionedWeekday? {ym : YearMonth} {position : Position} {weekday : Weekday}
    {date : Date} (hdate : ym.positionedWeekday? position weekday = some date) :
    date.IsSupported ∧ ofDate date = ym := by
  rw [positionedWeekday?] at hdate
  split at hdate
  · rename_i n _
    simp only [nthWeekday?, Option.ite_none_left_eq_some, Option.bind_eq_some_iff] at hdate
    obtain ⟨_, first, _, hday⟩ := hdate
    obtain ⟨hsupported, hmonth, _⟩ := date?_eq_some_iff.mp hday
    exact ⟨hsupported, hmonth⟩
  · simp only [lastWeekday?, Option.bind_eq_some_iff] at hdate
    obtain ⟨last, hlast, hback⟩ := hdate
    obtain ⟨_, hmonth, _⟩ := lastDate?_eq_some_iff.mp hlast
    obtain ⟨hshift, hsupported⟩ := Date.addDays?_eq_some_iff.mp hback
    have hregular : ym.IsRegular := hmonth ▸ isRegular_ofDate last
    have hnumber := dayNumber_of_date? hlast
    have hlong := ym.lastDay_bounds
    rw [ofDate_eq_iff hregular]
    exact ⟨hsupported, by omega, by omega⟩

/-- The working day nearest to a day of the month is at most two days away from
it, and without a direction it stays in the month. -/
theorem nearestBusinessDate?_spec {ym : YearMonth} {day : Nat} {direction : Option Direction}
    {date : Date} (hdate : ym.nearestBusinessDate? day direction = some date) :
    date.IsSupported ∧ ym.IsRegular ∧ (1 ≤ day ∧ day ≤ ym.lastDay) ∧
      ym.daysBefore + day - 2 ≤ date.dayNumber ∧ date.dayNumber ≤ ym.daysBefore + day + 2 ∧
      (direction = none → ofDate date = ym) := by
  simp only [nearestBusinessDate?, Option.bind_eq_some_iff] at hdate
  obtain ⟨asked, hasked, hmoved⟩ := hdate
  obtain ⟨hsupported, hmonth, hday⟩ := date?_eq_some_iff.mp hasked
  have hregular : ym.IsRegular := hmonth ▸ isRegular_ofDate asked
  have hnumber := dayNumber_of_date? hasked
  have hlong := ym.lastDay_bounds
  have hbounds : 1 ≤ day ∧ day ≤ ym.lastDay := by
    rw [← hday, ← hmonth]
    exact day_le_lastDay asked
  rw [ofDate_eq_iff hregular]
  split at hmoved
  case h_7 =>
    obtain rfl := Option.some.inj hmoved
    exact ⟨hsupported, hregular, hbounds, by omega, by omega, fun _ => by omega⟩
  all_goals
    obtain ⟨hshift, hinside⟩ := Date.addDays?_eq_some_iff.mp hmoved
    refine ⟨hinside, hregular, hbounds, ?_⟩
  · split at hshift <;> exact ⟨by omega, by omega, fun _ => by omega⟩
  · exact ⟨by omega, by omega, fun hnone => by simp at hnone⟩
  · exact ⟨by omega, by omega, fun hnone => by simp at hnone⟩
  · split at hshift <;> exact ⟨by omega, by omega, fun _ => by omega⟩
  · exact ⟨by omega, by omega, fun hnone => by simp at hnone⟩
  · exact ⟨by omega, by omega, fun hnone => by simp at hnone⟩

/-! ## Days that no month lacks -/

section EveryMonth

variable {ym : YearMonth} (hregular : ym.IsRegular)
  (hyear : Date.leastYear ≤ ym.year ∧ ym.year ≤ Date.greatestYear)
include hregular hyear

/-- A month has all days up to its last. -/
theorem exists_date? {day : Nat} (hday : 1 ≤ day ∧ day ≤ ym.lastDay) :
    ∃ date, ym.date? day = some date :=
  Option.isSome_iff_exists.mp (Date.ofYmd?_isSome_iff.mpr ⟨hyear, hregular, hday⟩)

/-- A date can be moved back within its month. -/
theorem exists_addDays?_neg {date : Date} {day back : Nat} (hdate : ym.date? day = some date)
    (hback : back < day) : ∃ moved, date.addDays? (-back) = some moved := by
  obtain ⟨hsupported, hmonth, hday⟩ := date?_eq_some_iff.mp hdate
  have hlast : day ≤ ym.lastDay := by
    rw [← hday, ← hmonth]
    exact (day_le_lastDay date).2
  obtain ⟨moved, hmoved⟩ := exists_date? hregular hyear (show _ ∧ day - back ≤ _ by omega)
  have hnumber := dayNumber_of_date? hdate
  have hmovedNumber := dayNumber_of_date? hmoved
  exact ⟨moved, Date.addDays?_eq_some_iff.mpr
    ⟨by omega, (date?_eq_some_iff.mp hmoved).1⟩⟩

theorem exists_lastDate? : ∃ date, ym.lastDate? = some date := by
  have hlong := ym.lastDay_bounds
  exact exists_date? hregular hyear ⟨by omega, Nat.le_refl _⟩

theorem exists_lastBusinessDate? : ∃ date, ym.lastBusinessDate? = some date := by
  have hlong := ym.lastDay_bounds
  obtain ⟨last, hlast⟩ := exists_lastDate? hregular hyear
  rw [lastBusinessDate?, hlast, Option.bind_some]
  split
  · exact exists_addDays?_neg hregular hyear hlast (show 1 < ym.lastDay by omega)
  · exact exists_addDays?_neg hregular hyear hlast (show 2 < ym.lastDay by omega)
  · exact ⟨last, rfl⟩

/-- Of each weekday a month has a first, second, third, fourth and last. -/
theorem exists_positionedWeekday? {position : Position} (hposition : position ≠ .fifth)
    (weekday : Weekday) : ∃ date, ym.positionedWeekday? position weekday = some date := by
  have hlong := ym.lastDay_bounds
  rw [positionedWeekday?]
  split
  · rename_i n hrank
    obtain ⟨hlow, hhigh⟩ : 1 ≤ n ∧ n ≤ 4 := by
      cases position <;> simp_all [Position.rank?] <;> omega
    obtain ⟨first, hfirst⟩ := exists_date? hregular hyear (show _ ∧ 1 ≤ _ by omega)
    rw [nthWeekday?, if_neg (by omega), hfirst, Option.bind_some]
    exact exists_date? hregular hyear (by omega)
  · obtain ⟨last, hlast⟩ := exists_lastDate? hregular hyear
    rw [lastWeekday?, hlast, Option.bind_some]
    exact exists_addDays?_neg hregular hyear hlast (by omega)

end EveryMonth

end YearMonth

end Cadence
