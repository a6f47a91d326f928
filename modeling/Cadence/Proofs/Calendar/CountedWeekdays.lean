import Mathlib.Data.List.Sort
import Cadence.Proofs.Calendar.MonthPositions

/-!
# Weekdays counted through a month

The days of a month that fall on one weekday form an ascending list, of four or five
dates.  The `n`th of the weekday, which is counted from the first of the month, and the
last one, which is reached back from its end, are entries of this list.
-/

namespace Cadence

/-- Where no entry follows a missing one, the entries that are there stand at their own
places in the list of them. -/
theorem getElem?_filterMap_range' {α : Type} {entry : Nat → Option α} {start count : Nat}
    (hgap : ∀ n, start ≤ n → entry n = none → entry (n + 1) = none)
    (hend : ∀ n, start + count ≤ n → entry n = none) (n : Nat) :
    ((List.range' start count).filterMap entry)[n]? = entry (start + n) := by
  induction count generalizing start n with
  | zero => exact (hend (start + n) (Nat.le_add_right _ _)).symm
  | succ count ih =>
    have hrest : ∀ n, ((List.range' (start + 1) count).filterMap entry)[n]? =
        entry (start + (n + 1)) := by
      intro n
      rw [ih (fun n hn => hgap n (by omega)) (fun n hn => hend n (by omega)), Nat.add_assoc,
        Nat.add_comm 1]
    rw [List.range'_succ]
    cases hentry : entry start with
    | some first =>
      rw [List.filterMap_cons_some hentry]
      cases n with
      | zero => exact hentry.symm
      | succ n => exact hrest n
    | none =>
      have hnone : ∀ n, entry (start + n) = none := by
        intro n
        induction n with
        | zero => exact hentry
        | succ n ih => exact hgap _ (Nat.le_add_right _ _) ih
      rw [List.filterMap_cons_none hentry, hrest, hnone, hnone]

namespace Date

instance : Std.Irrefl (α := Date) (· < ·) := ⟨fun date => Int.lt_irrefl date.dayNumber⟩

instance : Std.Antisymm (α := Date) (· < ·) :=
  ⟨fun _ _ hlt hgt => absurd (Int.lt_trans hlt hgt) (Int.lt_irrefl _)⟩

/-- The last of ascending dates is the latest. -/
theorem getLast?_eq_some_iff {dates : List Date} (hascending : dates.Pairwise (· < ·))
    {date : Date} : dates.getLast? = some date ↔ date ∈ dates ∧ ∀ other ∈ dates, other ≤ date := by
  constructor
  · intro hlast
    refine ⟨List.mem_of_getLast? hlast, fun other hother => ?_⟩
    obtain ⟨earlier, rfl⟩ := List.getLast?_eq_some_iff.mp hlast
    rcases List.mem_append.mp hother with hbefore | hsame
    · exact Int.le_of_lt
        ((List.pairwise_append.mp hascending).2.2 other hbefore date List.mem_cons_self)
    · obtain rfl := List.mem_singleton.mp hsame
      exact Int.le_refl _
  · rintro ⟨hmem, hlatest⟩
    cases hlast : dates.getLast? with
    | none =>
      rw [List.getLast?_eq_none_iff.mp hlast] at hmem
      cases hmem
    | some last =>
      obtain ⟨earlier, rfl⟩ := List.getLast?_eq_some_iff.mp hlast
      rcases List.mem_append.mp hmem with hbefore | hsame
      · have hlt := (List.pairwise_append.mp hascending).2.2 date hbefore last List.mem_cons_self
        exact absurd (hlatest last (List.mem_append_right _ List.mem_cons_self))
          (Int.not_le.mpr hlt)
      · rw [List.mem_singleton.mp hsame]

end Date

namespace YearMonth

/-- The dates of a month, ascending. -/
def dates (ym : YearMonth) : List Date := (List.range' 1 ym.lastDay).filterMap ym.date?

/-- The dates of a month that fall on a weekday, ascending. -/
def datesOn (ym : YearMonth) (weekday : Weekday) : List Date :=
  ym.dates.filter (·.weekday = weekday)

/-- The working days of a month, ascending. -/
def businessDates (ym : YearMonth) : List Date :=
  ym.dates.filter (!·.isWeekend)

variable {ym : YearMonth} {date : Date} {weekday : Weekday}

theorem mem_dates : date ∈ ym.dates ↔ date.IsSupported ∧ ofDate date = ym := by
  simp only [dates, List.mem_filterMap, List.mem_range'_1, date?_eq_some_iff]
  constructor
  · rintro ⟨_, _, hsupported, hmonth, _⟩
    exact ⟨hsupported, hmonth⟩
  · rintro ⟨hsupported, rfl⟩
    have hday := day_le_lastDay date
    exact ⟨date.day, by omega, hsupported, rfl, rfl⟩

theorem pairwise_dates (ym : YearMonth) : ym.dates.Pairwise (· < ·) := by
  refine List.Pairwise.filterMap _ ?_ List.pairwise_lt_range'
  intro day later hlt date hdate laterDate hlater
  have hnumber := dayNumber_of_date? hdate
  have hlaterNumber := dayNumber_of_date? hlater
  change date.dayNumber < laterDate.dayNumber
  omega

theorem mem_businessDates : date ∈ ym.businessDates ↔
    date.IsSupported ∧ ofDate date = ym ∧ date.isWeekend = false := by
  rw [businessDates, List.mem_filter, mem_dates, Bool.not_eq_true', and_assoc]

theorem pairwise_businessDates (ym : YearMonth) : ym.businessDates.Pairwise (· < ·) :=
  ym.pairwise_dates.filter _

theorem mem_datesOn : date ∈ ym.datesOn weekday ↔
    date.IsSupported ∧ ofDate date = ym ∧ date.weekday = weekday := by
  rw [datesOn, List.mem_filter, mem_dates, decide_eq_true_eq, and_assoc]

theorem pairwise_datesOn (ym : YearMonth) (weekday : Weekday) :
    (ym.datesOn weekday).Pairwise (· < ·) :=
  ym.pairwise_dates.filter _

/-- Dates of one month are as far apart as their days. -/
theorem dayNumber_eq_of_ofDate_eq {other : Date} (hmonth : ofDate other = ofDate date) :
    other.dayNumber = date.dayNumber + (other.day - date.day) := by
  rw [daysBefore_ofDate other, daysBefore_ofDate date, hmonth]
  omega

/-- Days of one month that lie whole weeks apart fall on the same weekday. -/
theorem exists_date_of_weeks_apart (hsupported : date.IsSupported) {day : Nat}
    (hday : 1 ≤ day ∧ day ≤ (ofDate date).lastDay) (hweeks : day % 7 = date.day % 7) :
    ∃ other : Date, other.IsSupported ∧ ofDate other = ofDate date ∧
      other.weekday = date.weekday ∧ other.day = day := by
  obtain ⟨other, hother⟩ := exists_date? (isRegular_ofDate date)
    (year_bounds_of_isSupported hsupported rfl) hday
  obtain ⟨hotherSupported, hmonth, hotherDay⟩ := date?_eq_some_iff.mp hother
  have hnumber := dayNumber_eq_of_ofDate_eq hmonth
  have hweekday : other.weekday = date.weekday :=
    Date.weekday_of_dayNumber_eq (((day : Int) - date.day) / 7) (by omega)
  exact ⟨other, hotherSupported, hmonth, hweekday, hotherDay⟩

/-- A month that lacks the `n`th of a weekday lacks those after it. -/
theorem nthWeekday?_succ_eq_none {n : Nat} (hpositive : 1 ≤ n)
    (hnone : ym.nthWeekday? weekday n = none) : ym.nthWeekday? weekday (n + 1) = none := by
  by_contra hsome
  obtain ⟨date, hdate⟩ := Option.ne_none_iff_exists'.mp hsome
  obtain ⟨hsupported, rfl, hweekday, hplace⟩ := nthWeekday?_eq_some_iff.mp hdate
  -- A week before the date the weekday has come round in this month already.
  have hday := day_le_lastDay date
  obtain ⟨earlier, hearlierSupported, hmonth, hsame, hearlierDay⟩ :=
    exists_date_of_weeks_apart hsupported (show 1 ≤ date.day - 7 ∧ _ by omega) (by omega)
  have hfound : (ofDate date).nthWeekday? weekday n = some earlier :=
    nthWeekday?_eq_some_iff.mpr ⟨hearlierSupported, hmonth, hsame.trans hweekday, by omega⟩
  rw [hnone] at hfound
  cases hfound

/-- A month has a weekday five times at most. -/
theorem nthWeekday?_eq_none {n : Nat} (hn : 5 < n) : ym.nthWeekday? weekday n = none := by
  by_contra hsome
  obtain ⟨date, hdate⟩ := Option.ne_none_iff_exists'.mp hsome
  obtain ⟨_, rfl, _, hplace⟩ := nthWeekday?_eq_some_iff.mp hdate
  have hday := day_le_lastDay date
  have hlong := (ofDate date).lastDay_bounds
  omega

/-- The dates on a weekday are the first to the fifth of it, as far as there are so many. -/
theorem datesOn_eq_filterMap (ym : YearMonth) (weekday : Weekday) :
    ym.datesOn weekday = (List.range' 1 5).filterMap (ym.nthWeekday? weekday) := by
  refine (ym.pairwise_datesOn weekday).eq_of_mem_iff ?_ fun date => ?_
  · refine List.Pairwise.filterMap _ ?_ List.pairwise_lt_range'
    intro n later hlt date hdate laterDate hlater
    obtain ⟨_, hmonth, _, hplace⟩ := nthWeekday?_eq_some_iff.mp hdate
    obtain ⟨_, hlaterMonth, _, hlaterPlace⟩ := nthWeekday?_eq_some_iff.mp hlater
    have hnumber := dayNumber_eq_of_ofDate_eq (hlaterMonth.trans hmonth.symm)
    change date.dayNumber < laterDate.dayNumber
    omega
  · simp only [mem_datesOn, List.mem_filterMap, List.mem_range'_1, nthWeekday?_eq_some_iff]
    constructor
    · rintro ⟨hsupported, rfl, hweekday⟩
      have hday := day_le_lastDay date
      have hlong := (ofDate date).lastDay_bounds
      exact ⟨(date.day - 1) / 7 + 1, by omega, hsupported, rfl, hweekday, rfl⟩
    · rintro ⟨_, _, hsupported, hmonth, hweekday, _⟩
      exact ⟨hsupported, hmonth, hweekday⟩

/-- The weekday that is counted after `n` others of its kind has `n` dates before it in the
list. -/
theorem nthWeekday?_eq_getElem? (ym : YearMonth) (weekday : Weekday) (n : Nat) :
    ym.nthWeekday? weekday (n + 1) = (ym.datesOn weekday)[n]? := by
  rw [datesOn_eq_filterMap, getElem?_filterMap_range' (fun _ => nthWeekday?_succ_eq_none)
    (fun n hn => nthWeekday?_eq_none (by omega)), Nat.add_comm]

/-- The last of a weekday is the latest date on it. -/
theorem lastWeekday?_eq_getLast? (ym : YearMonth) (weekday : Weekday) :
    ym.lastWeekday? weekday = (ym.datesOn weekday).getLast? := by
  ext date
  rw [lastWeekday?_eq_some_iff,
    Date.getLast?_eq_some_iff (ym.pairwise_datesOn weekday), mem_datesOn]
  constructor
  · rintro ⟨hsupported, hmonth, hweekday, hclose⟩
    refine ⟨⟨hsupported, hmonth, hweekday⟩, fun other hother => ?_⟩
    obtain ⟨_, hotherMonth, hotherWeekday⟩ := mem_datesOn.mp hother
    have hnumber := dayNumber_eq_of_ofDate_eq (hotherMonth.trans hmonth.symm)
    have hotherDay := day_le_lastDay other
    rw [hotherMonth] at hotherDay
    have hindex := Date.weekday_eq_iff.mp hweekday
    have hotherIndex := Date.weekday_eq_iff.mp hotherWeekday
    change other.dayNumber ≤ date.dayNumber
    omega
  · rintro ⟨⟨hsupported, rfl, hweekday⟩, hlatest⟩
    refine ⟨hsupported, rfl, hweekday, ?_⟩
    by_contra hfar
    -- Otherwise the weekday comes round once more in this month.
    obtain ⟨later, hlaterSupported, hmonth, hsame, hlaterDay⟩ :=
      exists_date_of_weeks_apart hsupported (show 1 ≤ date.day + 7 ∧ _ by omega) (by omega)
    have hnumber := dayNumber_eq_of_ofDate_eq hmonth
    have hle : later.dayNumber ≤ date.dayNumber :=
      hlatest later (mem_datesOn.mpr ⟨hlaterSupported, hmonth, hsame.trans hweekday⟩)
    omega

/-- The last working day is the latest of the month. -/
theorem lastBusinessDate?_eq_getLast? (ym : YearMonth) :
    ym.lastBusinessDate? = ym.businessDates.getLast? := by
  ext date
  rw [lastBusinessDate?_eq_some_iff,
    Date.getLast?_eq_some_iff ym.pairwise_businessDates, mem_businessDates, and_assoc, and_assoc]
  refine and_congr_right fun hsupported => and_congr_right fun hmonth =>
    and_congr_right fun _ => ?_
  constructor <;> intro hlatest other hother
  · obtain ⟨_, hotherMonth, hworking⟩ := mem_businessDates.mp hother
    exact hlatest other hotherMonth hworking
  · intro hworking
    have hyear := year_bounds_of_isSupported hsupported hmonth
    have hotherSupported : other.IsSupported :=
      Date.isSupported_iff_year.mpr (by rwa [← hother] at hyear)
    exact hlatest other (mem_businessDates.mpr ⟨hotherSupported, hother, hworking⟩)

/-- A month of the calendar has four or five dates on a weekday, and any other month none. -/
theorem length_datesOn (ym : YearMonth) (weekday : Weekday) :
    (ym.datesOn weekday).length = 0 ∨ (ym.datesOn weekday).length = 4 ∨
      (ym.datesOn weekday).length = 5 := by
  have hfew : (ym.datesOn weekday)[5]? = none := by
    rw [← nthWeekday?_eq_getElem?]
    exact nthWeekday?_eq_none (by omega)
  rw [List.getElem?_eq_none_iff] at hfew
  by_cases hnil : ym.datesOn weekday = []
  · exact .inl (List.length_eq_zero_iff.mpr hnil)
  · obtain ⟨date, hdate⟩ := List.exists_mem_of_ne_nil _ hnil
    obtain ⟨hsupported, rfl, _⟩ := mem_datesOn.mp hdate
    obtain ⟨fourth, hfourth⟩ := exists_positionedWeekday? (isRegular_ofDate date)
      (year_bounds_of_isSupported hsupported rfl) (show Position.fourth ≠ .fifth by decide) weekday
    have hmany : ((ofDate date).datesOn weekday)[3]? = some fourth :=
      ((ofDate date).nthWeekday?_eq_getElem? weekday 3).symm.trans hfourth
    obtain ⟨hlength, _⟩ := List.getElem?_eq_some_iff.mp hmany
    omega

/-- The last of a weekday is the fifth or, where there is none, the fourth. -/
theorem lastWeekday?_eq_or (ym : YearMonth) (weekday : Weekday) :
    ym.lastWeekday? weekday = (ym.nthWeekday? weekday 5).or (ym.nthWeekday? weekday 4) := by
  rw [lastWeekday?_eq_getLast?, List.getLast?_eq_getElem?,
    nthWeekday?_eq_getElem? ym weekday 4, nthWeekday?_eq_getElem? ym weekday 3]
  rcases ym.length_datesOn weekday with hnone | hfour | hfive
  · rw [List.length_eq_zero_iff.mp hnone]
    rfl
  · rw [hfour, List.getElem?_eq_none (Nat.le_of_eq hfour), Option.none_or]
  · rw [hfive, List.getElem?_eq_getElem (show 4 < _ by omega), Option.some_or]

/-- Weekdays are counted through the ascending list of the dates of a month: the `n`th is
its `n`th entry as long as there are so many, and the last one, which is found from the end
of the month, is the last entry.  The last working day is the latest of all of them. -/
theorem weekdays_are_counted (ym : YearMonth) (weekday : Weekday) (n : Nat) :
    (ym.nthWeekday? weekday n = if n = 0 then none else (ym.datesOn weekday)[n - 1]?) ∧
      (ym.nthWeekday? weekday n = none ↔ n = 0 ∨ (ym.datesOn weekday).length < n) ∧
      ym.lastWeekday? weekday = (ym.datesOn weekday).getLast? ∧
      ym.lastWeekday? weekday = (ym.nthWeekday? weekday 5).or (ym.nthWeekday? weekday 4) ∧
      ym.lastBusinessDate? = ym.businessDates.getLast? := by
  refine ⟨?_, ?_, ym.lastWeekday?_eq_getLast? weekday, ym.lastWeekday?_eq_or weekday,
    ym.lastBusinessDate?_eq_getLast?⟩
  · cases n with
    | zero => rfl
    | succ n => exact ym.nthWeekday?_eq_getElem? weekday n
  · cases n with
    | zero => exact ⟨fun _ => .inl rfl, fun _ => rfl⟩
    | succ n => rw [nthWeekday?_eq_getElem?, List.getElem?_eq_none_iff]; omega

end YearMonth

end Cadence
