import Cadence.Proofs.Calendar.Months
import Cadence.Proofs.Calendar.Weeks

/-!
# Days picked out of a month, told from its other days

Each way of picking a day is compared with the days of the month themselves: the
last working day has no later one in its month, the nearest working day is at
the least distance of all, and a weekday is the `n`th of its month when it lies
in the `n`th run of seven days.
-/

namespace Cadence

theorem Weekday.isWeekend_eq_false_iff {day : Weekday} :
    day.isWeekend = false ↔ day.index < 5 := by
  cases day <;> decide

theorem Date.isWeekend_eq_false_iff {date : Date} :
    date.isWeekend = false ↔ (date.dayNumber - 1) % 7 < 5 := by
  have hindex := date.weekday_index
  rw [Date.isWeekend, Weekday.isWeekend_eq_false_iff]
  omega

theorem Date.weekday_eq_iff {date : Date} {weekday : Weekday} :
    date.weekday = weekday ↔ (date.dayNumber - 1) % 7 = weekday.index := by
  have hindex := date.weekday_index
  constructor
  · rintro rfl
    exact hindex.symm
  · intro hsame
    exact Weekday.index_injective (by omega)

namespace YearMonth

variable {ym : YearMonth} {date : Date}

/-- The month of a supported date has a year of the calendar. -/
theorem year_bounds_of_isSupported (hsupported : date.IsSupported) (hmonth : ofDate date = ym) :
    Date.leastYear ≤ ym.year ∧ ym.year ≤ Date.greatestYear := by
  obtain rfl := hmonth
  exact Date.isSupported_iff_year.mp hsupported

/-! ## The last working day -/

/-- Among the working days of its month the last one is the latest. -/
theorem le_lastBusinessDate? (hdate : ym.lastBusinessDate? = some date) :
    date.isWeekend = false ∧
      ∀ other : Date, ofDate other = ym → other.isWeekend = false → other ≤ date := by
  simp only [lastBusinessDate?, Option.bind_eq_some_iff] at hdate
  obtain ⟨last, hlast, hmoved⟩ := hdate
  have hmonth : ofDate last = ym := (lastDate?_eq_some_iff.mp hlast).2.1
  have hregular : ym.IsRegular := hmonth ▸ isRegular_ofDate last
  have hnumber := dayNumber_of_date? hlast
  have hle : ∀ other : Date, ofDate other = ym → other.dayNumber ≤ last.dayNumber := by
    intro other hother
    have := ((ofDate_eq_iff hregular).mp hother).2
    omega
  have hindex := last.weekday_index
  -- What follows is about the last day's place in its week.
  suffices hplace : (date.dayNumber - 1) % 7 < 5 ∧ ∀ other : Date,
      other.dayNumber ≤ last.dayNumber → (other.dayNumber - 1) % 7 < 5 →
        other.dayNumber ≤ date.dayNumber from
    ⟨Date.isWeekend_eq_false_iff.mpr hplace.1, fun other hother hworking =>
      hplace.2 other (hle other hother) (Date.isWeekend_eq_false_iff.mp hworking)⟩
  split at hmoved
  · rename_i hday
    rw [hday] at hindex
    obtain ⟨hshift, _⟩ := Date.addDays?_eq_some_iff.mp hmoved
    simp only [Weekday.index] at hindex
    exact ⟨by omega, fun other _ _ => by omega⟩
  · rename_i hday
    rw [hday] at hindex
    obtain ⟨hshift, _⟩ := Date.addDays?_eq_some_iff.mp hmoved
    simp only [Weekday.index] at hindex
    exact ⟨by omega, fun other _ _ => by omega⟩
  · rename_i hsaturday hsunday
    obtain rfl := Option.some.inj hmoved
    have hworking : last.weekday.index < 5 := by
      cases hday : last.weekday <;> first | decide | exact absurd hday ‹_›
    exact ⟨by omega, fun other hother _ => hother⟩

/-- The last working day of a month is the working day without a later one. -/
theorem lastBusinessDate?_eq_some_iff : ym.lastBusinessDate? = some date ↔
    date.IsSupported ∧ ofDate date = ym ∧ date.isWeekend = false ∧
      ∀ other : Date, ofDate other = ym → other.isWeekend = false → other ≤ date := by
  constructor
  · intro hdate
    obtain ⟨hsupported, hmonth⟩ := ofDate_of_lastBusinessDate? hdate
    exact ⟨hsupported, hmonth, le_lastBusinessDate? hdate⟩
  · rintro ⟨hsupported, hmonth, hworking, hlatest⟩
    have hregular : ym.IsRegular := hmonth ▸ isRegular_ofDate date
    obtain ⟨found, hfound⟩ :=
      exists_lastBusinessDate? hregular (year_bounds_of_isSupported hsupported hmonth)
    obtain ⟨hfoundWorking, hfoundLatest⟩ := le_lastBusinessDate? hfound
    have hle : found.dayNumber ≤ date.dayNumber :=
      hlatest found (ofDate_of_lastBusinessDate? hfound).2 hfoundWorking
    have hge : date.dayNumber ≤ found.dayNumber := hfoundLatest date hmonth hworking
    rw [hfound, show found = date from Date.le_antisymm hle hge]

/-! ## The nearest working day -/

/-- A working day of a month that no other working day of the month is nearer to
a given day of it. -/
structure IsNearestBusinessDay (ym : YearMonth) (day : Nat) (date : Date) : Prop where
  month : ofDate date = ym
  working : date.isWeekend = false
  nearest : ∀ other : Date, ofDate other = ym → other.isWeekend = false →
    (date.day - day : Int).natAbs ≤ (other.day - day : Int).natAbs

/-- It is enough to compare with the days of the month by their numbers. -/
theorem isNearestBusinessDay_iff {day : Nat} (hmonth : ofDate date = ym) :
    ym.IsNearestBusinessDay day date ↔ (date.dayNumber - 1) % 7 < 5 ∧
      ∀ number : Nat, 1 ≤ number → number ≤ ym.lastDay → (ym.daysBefore + number - 1) % 7 < 5 →
        (date.day - day : Int).natAbs ≤ (number - day : Int).natAbs := by
  have hregular : ym.IsRegular := hmonth ▸ isRegular_ofDate date
  constructor
  · intro hdate
    refine ⟨Date.isWeekend_eq_false_iff.mp hdate.working, fun number hlow hhigh hworking => ?_⟩
    have hnumberMonth : ofDate ⟨ym.daysBefore + number⟩ = ym :=
      (ofDate_eq_iff hregular).mpr ⟨by simp only; omega, by simp only; omega⟩
    have hnumber := daysBefore_ofDate ⟨ym.daysBefore + number⟩
    rw [hnumberMonth] at hnumber
    have hday : (⟨ym.daysBefore + number⟩ : Date).day = number := by
      simp only at hnumber
      omega
    have hle := hdate.nearest _ hnumberMonth (Date.isWeekend_eq_false_iff.mpr hworking)
    rwa [hday] at hle
  · rintro ⟨hworking, hnearest⟩
    refine ⟨hmonth, Date.isWeekend_eq_false_iff.mpr hworking, fun other hother hotherWorking => ?_⟩
    have hnumber := daysBefore_ofDate other
    have hbounds := day_le_lastDay other
    rw [hother] at hnumber hbounds
    have hotherWorking := Date.isWeekend_eq_false_iff.mp hotherWorking
    exact hnearest other.day hbounds.1 hbounds.2 (by rwa [← hnumber])

/-- A month has one day at most that is the nearest working day.  Two of them
would lie on either side of the day, which then is no working day, and between
a weekend and a working day two days away lies one that is nearer. -/
theorem IsNearestBusinessDay.unique {day : Nat} {other : Date}
    (hday : 1 ≤ day ∧ day ≤ ym.lastDay) (hdate : ym.IsNearestBusinessDay day date)
    (hother : ym.IsNearestBusinessDay day other) : date = other := by
  have hnumber := daysBefore_ofDate date
  have hotherNumber := daysBefore_ofDate other
  rw [hdate.month] at hnumber
  rw [hother.month] at hotherNumber
  have hsame := hdate.nearest other hother.month hother.working
  have hsame' := hother.nearest date hdate.month hdate.working
  obtain ⟨hworking, hleast⟩ := (isNearestBusinessDay_iff hdate.month).mp hdate
  have hotherWorking := Date.isWeekend_eq_false_iff.mp hother.working
  have hbounds := day_le_lastDay date
  have hotherBounds := day_le_lastDay other
  rw [hdate.month] at hbounds
  rw [hother.month] at hotherBounds
  refine congrArg Date.mk ?_
  by_contra hne
  have hitself := hleast day hday.1 hday.2
  have hbefore := hleast (day - 1)
  have hafter := hleast (day + 1)
  omega

/-- Without a direction the day found is the nearest working day. -/
theorem isNearestBusinessDay_of_nearestBusinessDate? {day : Nat}
    (hdate : ym.nearestBusinessDate? day none = some date) :
    (1 ≤ day ∧ day ≤ ym.lastDay) ∧ ym.IsNearestBusinessDay day date := by
  obtain ⟨_, hregular, hday, _, _, hmonth⟩ := nearestBusinessDate?_spec hdate
  have hmonth := hmonth rfl
  refine ⟨hday, (isNearestBusinessDay_iff hmonth).mpr ?_⟩
  have hnumber := daysBefore_ofDate date
  rw [hmonth] at hnumber
  simp only [nearestBusinessDate?, Option.bind_eq_some_iff] at hdate
  obtain ⟨asked, hasked, hmoved⟩ := hdate
  have hasked := dayNumber_of_date? hasked
  have hindex := asked.weekday_index
  cases hweekday : asked.weekday <;> rw [hweekday] at hmoved hindex <;>
    simp only [Weekday.index] at hindex
  case saturday =>
    obtain ⟨hshift, _⟩ := Date.addDays?_eq_some_iff.mp hmoved
    split at hshift <;> exact ⟨by omega, fun number _ _ _ => by omega⟩
  case sunday =>
    obtain ⟨hshift, _⟩ := Date.addDays?_eq_some_iff.mp hmoved
    split at hshift <;> exact ⟨by omega, fun number _ _ _ => by omega⟩
  all_goals
    obtain rfl := Option.some.inj hmoved
    exact ⟨by omega, fun number _ _ _ => by omega⟩

/-- A day of the calendar has working days around it: the calendar begins on a Thursday and
ends on a Monday. -/
theorem exists_nearestBusinessDate? {day : Nat} {asked : Date}
    (hasked : ym.date? day = some asked) (direction : Option Direction) :
    ∃ date, ym.nearestBusinessDate? day direction = some date := by
  have hleast : Date.least.dayNumber % 7 = 4 := by decide
  have hgreatest : Date.greatest.dayNumber % 7 = 1 := by decide
  obtain ⟨hlow, hhigh⟩ := (date?_eq_some_iff.mp hasked).1
  have hlow : Date.least.dayNumber ≤ asked.dayNumber := hlow
  have hhigh : asked.dayNumber ≤ Date.greatest.dayNumber := hhigh
  have hmoved : ∀ shift : Int, Date.least.dayNumber ≤ asked.dayNumber + shift →
      asked.dayNumber + shift ≤ Date.greatest.dayNumber →
        ∃ moved, asked.addDays? shift = some moved :=
    fun shift hafter hbefore => ⟨⟨asked.dayNumber + shift⟩,
      Date.addDays?_eq_some_iff.mpr ⟨rfl, hafter, hbefore⟩⟩
  have hindex := asked.weekday_index
  rw [nearestBusinessDate?, hasked, Option.bind_some]
  cases hweekday : asked.weekday <;> rw [hweekday] at hindex <;>
    simp only [Weekday.index] at hindex
  case saturday | sunday =>
    rcases direction with _ | _ | _
    · exact hmoved _ (by split <;> omega) (by split <;> omega)
    · exact hmoved _ (by omega) (by omega)
    · exact hmoved _ (by omega) (by omega)
  all_goals exact ⟨asked, rfl⟩

/-- Without a direction the nearest working day of the month is found. -/
theorem nearestBusinessDate?_eq_some_iff {day : Nat} :
    ym.nearestBusinessDate? day none = some date ↔
      date.IsSupported ∧ (1 ≤ day ∧ day ≤ ym.lastDay) ∧ ym.IsNearestBusinessDay day date := by
  constructor
  · intro hdate
    exact ⟨(nearestBusinessDate?_spec hdate).1, isNearestBusinessDay_of_nearestBusinessDate? hdate⟩
  · rintro ⟨hsupported, hday, hnearest⟩
    have hregular : ym.IsRegular := hnearest.month ▸ isRegular_ofDate date
    obtain ⟨asked, hasked⟩ :=
      exists_date? hregular (year_bounds_of_isSupported hsupported hnearest.month) hday
    obtain ⟨found, hfound⟩ := exists_nearestBusinessDate? hasked none
    obtain ⟨_, hfoundNearest⟩ := isNearestBusinessDay_of_nearestBusinessDate? hfound
    rw [hfound, hnearest.unique hday hfoundNearest]

/-! ## Weekdays by position -/

/-- The `n`th of a weekday lies in the `n`th run of seven days of its month. -/
theorem nthWeekday?_eq_some_iff {weekday : Weekday} {n : Nat} :
    ym.nthWeekday? weekday n = some date ↔
      date.IsSupported ∧ ofDate date = ym ∧ date.weekday = weekday ∧
        (date.day - 1) / 7 + 1 = n := by
  have hindex := weekday.index_lt
  simp only [nthWeekday?, Option.ite_none_left_eq_some, Option.bind_eq_some_iff]
  constructor
  · rintro ⟨hpos, first, hfirst, hdate⟩
    obtain ⟨hsupported, hmonth, hday⟩ := date?_eq_some_iff.mp hdate
    have hfirstNumber := dayNumber_of_date? hfirst
    have hnumber := dayNumber_of_date? hdate
    have hfirstIndex := first.weekday_index
    have hfirstLt := first.weekday.index_lt
    exact ⟨hsupported, hmonth, Date.weekday_eq_iff.mpr (by omega), by omega⟩
  · rintro ⟨hsupported, hmonth, rfl, rfl⟩
    have hregular : ym.IsRegular := hmonth ▸ isRegular_ofDate date
    have hlong := ym.lastDay_bounds
    obtain ⟨first, hfirst⟩ := exists_date? hregular
      (year_bounds_of_isSupported hsupported hmonth) (show 1 ≤ 1 ∧ 1 ≤ ym.lastDay by omega)
    have hfirstNumber := dayNumber_of_date? hfirst
    have hfirstIndex := first.weekday_index
    have hfirstLt := first.weekday.index_lt
    have hdateIndex := date.weekday_index
    have hnumber := daysBefore_ofDate date
    have hday := day_le_lastDay date
    rw [hmonth] at hnumber
    exact ⟨by omega, first, hfirst, date?_eq_some_iff.mpr ⟨hsupported, hmonth, by omega⟩⟩

/-- The last of a weekday lies in the last seven days of its month. -/
theorem lastWeekday?_eq_some_iff {weekday : Weekday} :
    ym.lastWeekday? weekday = some date ↔
      date.IsSupported ∧ ofDate date = ym ∧ date.weekday = weekday ∧ ym.lastDay < date.day + 7 := by
  have hindex := weekday.index_lt
  simp only [lastWeekday?, Option.bind_eq_some_iff, Date.addDays?_eq_some_iff]
  constructor
  · rintro ⟨last, hlast, hshift, hsupported⟩
    have hlastMonth : ofDate last = ym := (lastDate?_eq_some_iff.mp hlast).2.1
    have hregular : ym.IsRegular := hlastMonth ▸ isRegular_ofDate last
    have hlastNumber := dayNumber_of_date? hlast
    have hlastIndex := last.weekday_index
    have hlong := ym.lastDay_bounds
    have hmonth : ofDate date = ym := (ofDate_eq_iff hregular).mpr ⟨by omega, by omega⟩
    have hnumber := daysBefore_ofDate date
    rw [hmonth] at hnumber
    exact ⟨hsupported, hmonth, Date.weekday_eq_iff.mpr (by omega), by omega⟩
  · rintro ⟨hsupported, hmonth, rfl, hclose⟩
    have hregular : ym.IsRegular := hmonth ▸ isRegular_ofDate date
    obtain ⟨last, hlast⟩ :=
      exists_lastDate? hregular (year_bounds_of_isSupported hsupported hmonth)
    have hlastNumber := dayNumber_of_date? hlast
    have hlastIndex := last.weekday_index
    have hdateIndex := date.weekday_index
    have hnumber := daysBefore_ofDate date
    have hday := day_le_lastDay date
    rw [hmonth] at hnumber hday
    exact ⟨last, hlast, by omega, hsupported⟩

end YearMonth

end Cadence
