import Cadence.Proofs.Calendar.DayNumbers

/-!
# Weeks on the line of days

A week begins on its Monday, and a date lies as many days after it as the index
of its weekday says.
-/

namespace Cadence

theorem Weekday.index_lt (day : Weekday) : day.index < 7 := by
  cases day <;> decide

theorem Weekday.ofIndex_index (day : Weekday) : ofIndex day.index = day := by
  cases day <;> rfl

theorem Weekday.index_injective {first second : Weekday} (hindex : first.index = second.index) :
    first = second := by
  rw [← first.ofIndex_index, hindex, second.ofIndex_index]

theorem mem_sortedWeekdays {days : List Weekday} {day : Weekday} :
    day ∈ sortedWeekdays days ↔ day ∈ days := by
  simp only [sortedWeekdays, List.mem_filter, List.contains_iff_mem, and_iff_right_iff_imp]
  intro _
  cases day <;> decide

/-- A filter made of listed weekdays lets these pass. -/
theorem DayFilter.allows_ofDays_iff {days : List Weekday} {day : Weekday} :
    (DayFilter.ofDays days).allows day = true ↔ day ∈ days := by
  rw [← mem_sortedWeekdays, DayFilter.ofDays]
  split
  · rename_i hbusiness
    rw [hbusiness]
    cases day <;> decide
  · split
    · rename_i hweekend
      rw [hweekend]
      cases day <;> decide
    · rw [mem_sortedWeekdays]
      exact List.contains_iff_mem

/-- It lets the same weekdays pass as the list itself. -/
theorem DayFilter.allows_ofDays (days : List Weekday) (day : Weekday) :
    (DayFilter.ofDays days).allows day = (DayFilter.listed days).allows day := by
  rw [Bool.eq_iff_iff, allows_ofDays_iff]
  exact List.contains_iff_mem.symm

theorem sortedWeekdays_pairwise (days : List Weekday) :
    (sortedWeekdays days).Pairwise (·.index < ·.index) :=
  List.Pairwise.filter _ (by decide)

namespace Date

/-- The number of the Monday of the week a date lies in. -/
def weekStart (date : Date) : Int := date.dayNumber - date.weekday.index

theorem weekday_index (date : Date) : (date.weekday.index : Int) = (date.dayNumber - 1) % 7 :=
  Weekday.index_ofDayNumber date.dayNumber

/-- Weekdays recur after seven days, and after multiples of seven days. -/
theorem weekday_of_dayNumber_eq {date other : Date} (weeks : Int)
    (hweeks : other.dayNumber = date.dayNumber + 7 * weeks) : other.weekday = date.weekday := by
  apply Weekday.index_injective
  have hindex := date.weekday_index
  have hother := other.weekday_index
  omega

/-- Each weekday comes round within seven days. -/
theorem exists_weekday_after (start : Date) (day : Weekday) :
    ∃ next : Date, start < next ∧ next.dayNumber ≤ start.dayNumber + 7 ∧ next.weekday = day := by
  obtain ⟨wait, hwait⟩ : ∃ wait, (day.index - start.dayNumber) % 7 = wait := ⟨_, rfl⟩
  refine ⟨⟨start.dayNumber + 1 + wait⟩, ?_, ?_, Weekday.index_injective ?_⟩
  · change start.dayNumber < start.dayNumber + 1 + wait
    omega
  · change start.dayNumber + 1 + wait ≤ start.dayNumber + 7
    omega
  · have hindex := weekday_index ⟨start.dayNumber + 1 + wait⟩
    have hday := day.index_lt
    simp only at hindex
    omega

theorem weekStart_emod (date : Date) : date.weekStart % 7 = 1 := by
  have := date.weekday_index
  simp only [weekStart]
  omega

theorem weekStart_bounds (date : Date) :
    date.weekStart ≤ date.dayNumber ∧ date.dayNumber < date.weekStart + 7 := by
  have := date.weekday_index
  simp only [weekStart]
  omega

theorem weekStart_mono {first second : Date} (hle : first ≤ second) :
    first.weekStart ≤ second.weekStart := by
  have hle : first.dayNumber ≤ second.dayNumber := hle
  have hfirst := first.weekday_index
  have hsecond := second.weekday_index
  simp only [weekStart]
  omega

theorem lt_of_weekStart_lt {first second : Date} (hlt : first.weekStart < second.weekStart) :
    first < second :=
  Int.not_le.mp fun hle => Int.not_lt.mpr (weekStart_mono hle) hlt

/-- The week of a Monday begins on it. -/
theorem weekStart_of_emod {date : Date} (hmonday : date.dayNumber % 7 = 1) :
    date.weekStart = date.dayNumber := by
  have hmod := date.weekStart_emod
  have hbounds := date.weekStart_bounds
  omega

/-- The day at a weekday's index after a Monday is that weekday of that week. -/
theorem dayNumber_eq_add_index_iff {date : Date} {monday : Int} {day : Weekday}
    (hmonday : monday % 7 = 1) :
    date.dayNumber = monday + day.index ↔ date.weekStart = monday ∧ date.weekday = day := by
  have hindex := date.weekday_index
  have hday := day.index_lt
  constructor
  · intro hnumber
    have hsame : date.weekday = day := Weekday.index_injective (by omega)
    refine ⟨?_, hsame⟩
    simp only [weekStart, hsame]
    omega
  · rintro ⟨rfl, rfl⟩
    simp only [weekStart]
    omega

/-- The listed weekdays of a week are the dates of that week with a listed weekday. -/
theorem exists_listed_weekday_iff {days : List Weekday} {week date : Date}
    (hweek : week.dayNumber % 7 = 1) :
    (∃ day ∈ sortedWeekdays days, week.addDays? day.index = some date) ↔
      date.IsSupported ∧ date.weekday ∈ days ∧ date.weekStart = week.dayNumber := by
  simp only [addDays?_eq_some_iff, mem_sortedWeekdays,
    dayNumber_eq_add_index_iff hweek]
  constructor
  · rintro ⟨day, hday, ⟨hstart, rfl⟩, hsupported⟩
    exact ⟨hsupported, hday, hstart⟩
  · rintro ⟨hsupported, hday, hstart⟩
    exact ⟨_, hday, ⟨hstart, rfl⟩, hsupported⟩

theorem monday?_eq_some_iff {date monday : Date} :
    date.monday? = some monday ↔ monday.dayNumber = date.weekStart ∧ monday.IsSupported := by
  rw [monday?, addDays?_eq_some_iff, weekStart]
  rfl

theorem HasFourDigitYear.isSome_monday? {date : Date} (hyear : date.HasFourDigitYear) :
    date.monday?.isSome = true := by
  have hbounds := date.weekStart_bounds
  have hsupported : (⟨date.weekStart⟩ : Date).IsSupported :=
    hyear.isSupported_of_near (by simp only; omega) (by simp only; omega)
  exact Option.isSome_iff_exists.mpr ⟨_, monday?_eq_some_iff.mpr ⟨rfl, hsupported⟩⟩

end Date

end Cadence
