import Cadence.Calendar.CalendarDay
import Cadence.Proofs.Calendar.Months

/-!
# Seasons and days of every year

A search that lands outside the season is resumed at the closest month of the
season.  No date in between lies in the season, so nothing is passed over.  A
day of every year is looked for in the years ahead, and is always found there.
-/

namespace Cadence

/-! ## Months of a season -/

/-- Whether a season lists a month. -/
def YearMonth.isListed (season : List Month) (ym : YearMonth) : Bool :=
  season.any (·.number = ym.month)

variable {season : List Month} {ym target : YearMonth} {date start last other : Date}

theorem inSeason_eq_false :
    inSeason season date = false ↔
      season.isEmpty = false ∧ (YearMonth.ofDate date).isListed season = false :=
  Bool.or_eq_false_iff

/-- Months walked in one direction, of which `sign` is the step, stop at the
first listed one. -/
theorem seasonMonth?_spec {step : YearMonth → YearMonth} {sign : Int} {fuel : Nat}
    (hsign : sign = 1 ∨ sign = -1)
    (hstep : ∀ ym : YearMonth, ym.IsRegular →
      (step ym).IsRegular ∧ (step ym).index = ym.index + sign)
    (hregular : ym.IsRegular) (hfound : seasonMonth? season step fuel ym = some target) :
    target.IsRegular ∧ 0 < sign * (target.index - ym.index) ∧
      ∀ between : YearMonth, between.IsRegular → 0 < sign * (between.index - ym.index) →
        0 < sign * (target.index - between.index) → between.isListed season = false := by
  induction fuel generalizing ym with
  | zero => simp [seasonMonth?] at hfound
  | succ fuel ih =>
    obtain ⟨hthere, hindex⟩ := hstep ym hregular
    rw [seasonMonth?] at hfound
    split at hfound
    · obtain rfl := Option.some.inj hfound
      refine ⟨hthere, ?_, fun between _ hafter hbefore => ?_⟩
      · rcases hsign with rfl | rfl <;> omega
      · rcases hsign with rfl | rfl <;> omega
    · rename_i hunlisted
      obtain ⟨htarget, hbeyond, hbetween⟩ := ih hthere hfound
      refine ⟨htarget, ?_, fun between hregular' hafter hbefore => ?_⟩
      · rcases hsign with rfl | rfl <;> omega
      · by_cases hsame : between.index = (step ym).index
        · rw [YearMonth.eq_of_index_eq hregular' hthere hsame]
          exact Bool.eq_false_iff.mpr hunlisted
        · refine hbetween between hregular' ?_ hbefore
          rcases hsign with rfl | rfl <;> omega

/-- The months from that of a date outside the season up to a month beyond are
unlisted if those in between are. -/
theorem inSeason_eq_false_of_between (hout : inSeason season date = false)
    (hbetween : (YearMonth.ofDate other).index ≠ (YearMonth.ofDate date).index →
      (YearMonth.ofDate other).isListed season = false) : inSeason season other = false := by
  obtain ⟨hempty, hown⟩ := inSeason_eq_false.mp hout
  refine inSeason_eq_false.mpr ⟨hempty, ?_⟩
  by_cases hsame : (YearMonth.ofDate other).index = (YearMonth.ofDate date).index
  · rwa [YearMonth.eq_of_index_eq (YearMonth.isRegular_ofDate other)
      (YearMonth.isRegular_ofDate date) hsame]
  · exact hbetween hsame

/-- From a date outside the season up to the next month of it, no date lies in
the season. -/
theorem nextSeasonStart?_spec (hstart : nextSeasonStart? season date = some start)
    (hout : inSeason season date = false) :
    date < start ∧
      ∀ other : Date, date ≤ other → other < start → inSeason season other = false := by
  obtain ⟨target, htarget, hfirst⟩ := Option.bind_eq_some_iff.mp hstart
  obtain ⟨hregular, hbeyond, hbetween⟩ := seasonMonth?_spec (.inl rfl)
    (fun ym hym => ⟨YearMonth.isRegular_next hym, YearMonth.index_next hym⟩)
    (YearMonth.isRegular_ofDate date) htarget
  have hnumber := YearMonth.dayNumber_of_date? hfirst
  have hbefore : ∀ other : Date, other < start ↔
      (YearMonth.ofDate other).index < target.index := fun other => by
    rw [YearMonth.index_ofDate_lt_iff hregular]
    change other.dayNumber < start.dayNumber ↔ _
    omega
  refine ⟨(hbefore date).mpr (by omega), fun other hle hlt => ?_⟩
  have hmonths := YearMonth.index_ofDate_mono hle
  have hearlier := (hbefore other).mp hlt
  exact inSeason_eq_false_of_between hout fun hne =>
    hbetween _ (YearMonth.isRegular_ofDate other) (by omega) (by omega)

theorem isListed_of_seasonMonth? {step : YearMonth → YearMonth} {fuel : Nat}
    (hfound : seasonMonth? season step fuel ym = some target) :
    target.isListed season = true := by
  induction fuel generalizing ym with
  | zero => exact nomatch hfound
  | succ fuel ih =>
    rw [seasonMonth?] at hfound
    split at hfound
    · rename_i hlisted
      exact Option.some.inj hfound ▸ hlisted
    · exact ih hfound

/-- From the first of a month of the season on, a whole month lies in it. -/
theorem inSeason_of_nextSeasonStart?_le (hstart : nextSeasonStart? season date = some start)
    (hle : start ≤ other) (hlt : other.dayNumber < start.dayNumber + 28) :
    inSeason season other = true := by
  obtain ⟨target, htarget, hfirst⟩ := Option.bind_eq_some_iff.mp hstart
  have hregular : target.IsRegular := by
    obtain ⟨_, rfl, _⟩ := YearMonth.date?_eq_some_iff.mp hfirst
    exact YearMonth.isRegular_ofDate start
  have hnumber := YearMonth.dayNumber_of_date? hfirst
  have hlong := target.lastDay_bounds
  have hle : start.dayNumber ≤ other.dayNumber := hle
  obtain rfl : YearMonth.ofDate other = target :=
    (YearMonth.ofDate_eq_iff hregular).mpr ⟨by omega, by omega⟩
  exact Bool.or_eq_true_iff.mpr (.inr (isListed_of_seasonMonth? htarget))

theorem inSeason_of_nextSeasonStart? (hstart : nextSeasonStart? season date = some start) :
    inSeason season start = true :=
  inSeason_of_nextSeasonStart?_le hstart (Int.le_refl start.dayNumber)
    (show start.dayNumber < start.dayNumber + 28 by omega)

/-- A listed month among the ones that are walked is not missed. -/
theorem exists_seasonMonth? (season : List Month) {step : YearMonth → YearMonth} {sign : Int}
    (hstep : ∀ ym : YearMonth, ym.IsRegular →
      (step ym).IsRegular ∧ (step ym).index = ym.index + sign)
    {fuel ahead : Nat} (hregular : ym.IsRegular) (hahead : ahead < fuel)
    (hlisted : (YearMonth.ofIndex (ym.index + sign * (1 + ahead))).isListed season = true) :
    ∃ target, seasonMonth? season step fuel ym = some target := by
  induction fuel generalizing ym ahead with
  | zero => exact absurd hahead (Nat.not_lt_zero ahead)
  | succ fuel ih =>
    obtain ⟨hthere, hindex⟩ := hstep ym hregular
    rw [seasonMonth?]
    split
    · exact ⟨_, rfl⟩
    · rename_i hunlisted
      cases ahead with
      | zero =>
        rw [Int.natCast_zero, Int.add_zero, Int.mul_one, ← hindex,
          YearMonth.ofIndex_index_of_isRegular hthere] at hlisted
        exact absurd hlisted hunlisted
      | succ ahead =>
        have hsteps : sign * (1 + (ahead + 1 : Nat)) = sign + sign * (1 + ahead) := by
          rw [Int.natCast_succ, Int.add_comm (ahead : Int) 1, Int.mul_add sign 1, Int.mul_one]
        rw [hsteps, ← Int.add_assoc, ← hindex] at hlisted
        exact ih hthere (Nat.lt_of_succ_lt_succ hahead) hlisted

/-- The walk through the months comes to one of the season by the next month that the
season lists. -/
theorem exists_seasonMonth?_by {step : YearMonth → YearMonth} {sign : Int}
    (hsign : sign = 1 ∨ sign = -1)
    (hstep : ∀ ym : YearMonth, ym.IsRegular →
      (step ym).IsRegular ∧ (step ym).index = ym.index + sign)
    (hregular : ym.IsRegular) {listed : YearMonth} (hlistedRegular : listed.IsRegular)
    (hbeyond : 0 < sign * (listed.index - ym.index)) (hlisted : listed.isListed season = true) :
    ∃ target, seasonMonth? season step 12 ym = some target ∧
      0 ≤ sign * (listed.index - target.index) := by
  -- The same month of the year comes round within the twelve months that are walked.
  obtain ⟨ahead, hahead⟩ : ∃ ahead : Nat,
      (ahead : Int) = (sign * (listed.index - ym.index) - 1) % 12 :=
    ⟨_, Int.toNat_of_nonneg (by omega)⟩
  have hround : (YearMonth.ofIndex (ym.index + sign * (1 + ahead))).month = listed.month := by
    have hlow := hlistedRegular.1
    have hhigh := hlistedRegular.2
    simp only [YearMonth.ofIndex, YearMonth.index] at *
    rcases hsign with rfl | rfl <;> omega
  obtain ⟨target, htarget⟩ := exists_seasonMonth? season hstep hregular
    (show ahead < 12 by omega) (by rw [YearMonth.isListed, hround]; exact hlisted)
  obtain ⟨_, _, hbetween⟩ := seasonMonth?_spec hsign hstep hregular htarget
  refine ⟨target, htarget, ?_⟩
  by_contra hpassed
  have hunlisted := hbetween listed hlistedRegular hbeyond
    (by rcases hsign with rfl | rfl <;> omega)
  rw [hlisted] at hunlisted
  cases hunlisted

/-- A date of the season lies in another month than one out of season. -/
theorem index_ofDate_ne_of_inSeason (hout : inSeason season date = false)
    (hin : inSeason season other = true) :
    (YearMonth.ofDate other).isListed season = true ∧
      (YearMonth.ofDate date).index ≠ (YearMonth.ofDate other).index := by
  obtain ⟨hempty, hunlisted⟩ := inSeason_eq_false.mp hout
  have hlisted : (YearMonth.ofDate other).isListed season = true :=
    (Bool.or_eq_true_iff.mp hin).resolve_left (Bool.eq_false_iff.mp hempty)
  refine ⟨hlisted, fun hsame => ?_⟩
  rw [← YearMonth.eq_of_index_eq (YearMonth.isRegular_ofDate date)
    (YearMonth.isRegular_ofDate other) hsame, hunlisted] at hlisted
  cases hlisted

/-- The next month of the season begins by the next date that lies in the season. -/
theorem exists_nextSeasonStart? (hsupported : date.IsSupported) (hother : other.IsSupported)
    (hout : inSeason season date = false) (hin : inSeason season other = true)
    (hlt : date < other) :
    ∃ start, nextSeasonStart? season date = some start ∧ start ≤ other := by
  obtain ⟨hlisted, hdiffer⟩ := index_ofDate_ne_of_inSeason hout hin
  have hregular := YearMonth.isRegular_ofDate date
  have hregular' := YearMonth.isRegular_ofDate other
  have hmonths := YearMonth.index_ofDate_mono (Int.le_of_lt hlt)
  have hnext : ∀ ym : YearMonth, ym.IsRegular → ym.next.IsRegular ∧ ym.next.index = ym.index + 1 :=
    fun ym hym => ⟨YearMonth.isRegular_next hym, YearMonth.index_next hym⟩
  obtain ⟨target, htarget, hreached⟩ :=
    exists_seasonMonth?_by (.inl rfl) hnext hregular hregular' (by omega) hlisted
  obtain ⟨hregularTarget, hbeyond, _⟩ := seasonMonth?_spec (.inl rfl) hnext hregular htarget
  have hyear := YearMonth.year_mono hregular hregularTarget (by omega)
  have hyear' := YearMonth.year_mono hregularTarget hregular' (by omega)
  have hleast := (Date.isSupported_iff_year.mp hsupported).1
  have hgreatest := (Date.isSupported_iff_year.mp hother).2
  have hlong := target.lastDay_bounds
  obtain ⟨start, hstart⟩ := YearMonth.exists_date? hregularTarget
    (show Date.leastYear ≤ target.year ∧ target.year ≤ Date.greatestYear from
      ⟨hleast.trans hyear, hyear'.trans hgreatest⟩) (show 1 ≤ 1 ∧ 1 ≤ target.lastDay by omega)
  have hfound : nextSeasonStart? season date = some start := by
    rw [nextSeasonStart?, htarget, Option.bind_some, hstart]
  refine ⟨start, hfound, Int.not_lt.mp fun hbefore => ?_⟩
  have hnone := (nextSeasonStart?_spec hfound hout).2 other (Int.le_of_lt hlt) hbefore
  rw [hin] at hnone
  cases hnone

/-- Up to the next month of the season all dates wait for that month. -/
theorem nextSeasonStart?_congr (hsupported : date.IsSupported)
    (hstart : nextSeasonStart? season date = some start) (hout : inSeason season date = false)
    (hle : date ≤ other) (hlt : other < start) : nextSeasonStart? season other = some start := by
  obtain ⟨hahead, hbetween⟩ := nextSeasonStart?_spec hstart hout
  obtain ⟨target, _, hfirst⟩ := Option.bind_eq_some_iff.mp hstart
  have hstartSupported := (YearMonth.date?_eq_some_iff.mp hfirst).1
  have hother := hsupported.of_between hstartSupported hle (Int.le_of_lt hlt)
  obtain ⟨first, hfound, hby⟩ := exists_nextSeasonStart? hother hstartSupported
    (hbetween other hle hlt) (inSeason_of_nextSeasonStart? hstart) hlt
  have hafter := (nextSeasonStart?_spec hfound (hbetween other hle hlt)).1
  have hin := inSeason_of_nextSeasonStart? hfound
  have hsame : start ≤ first := Int.not_lt.mp fun hbefore => by
    rw [hbetween first (Int.le_of_lt (Int.lt_of_le_of_lt hle hafter)) hbefore] at hin
    exact nomatch hin
  rw [hfound, show first = start from Date.le_antisymm hby hsame]

/-- From a date outside the season back to the month of it before, no date lies
in the season. -/
theorem previousSeasonEnd?_spec (hlast : previousSeasonEnd? season date = some last)
    (hout : inSeason season date = false) :
    last < date ∧
      ∀ other : Date, last < other → other ≤ date → inSeason season other = false := by
  rw [previousSeasonEnd?] at hlast
  split at hlast
  · rename_i target htarget
    obtain ⟨hregular, hbeyond, hbetween⟩ := seasonMonth?_spec (.inr rfl)
      (fun ym hym => ⟨YearMonth.isRegular_previous hym, YearMonth.index_previous hym⟩)
      (YearMonth.isRegular_ofDate date) htarget
    have hnumber := YearMonth.dayNumber_of_date? hlast
    have hafter : ∀ other : Date, last < other ↔
        target.index < (YearMonth.ofDate other).index := fun other => by
      rw [YearMonth.lt_index_ofDate_iff hregular]
      change last.dayNumber < other.dayNumber ↔ _
      omega
    refine ⟨(hafter date).mpr (by omega), fun other hlt hle => ?_⟩
    have hmonths := YearMonth.index_ofDate_mono hle
    have hlater := (hafter other).mp hlt
    exact inSeason_eq_false_of_between hout fun hne =>
      hbetween _ (YearMonth.isRegular_ofDate other) (by omega) (by omega)
  · have hnumber := (Date.addDays?_eq_some_iff.mp hlast).1
    refine ⟨show last.dayNumber < date.dayNumber by omega, fun other hlt hle => ?_⟩
    rwa [Date.eq_of_addDays?_neg_one_lt hlast hlt hle]

/-- The last day of a month of the season ends a whole month that lies in it. -/
theorem inSeason_of_le_previousSeasonEnd? {target : YearMonth}
    (htarget : seasonMonth? season YearMonth.previous 12 (.ofDate date) = some target)
    (hlast : target.lastDate? = some last) (hle : other ≤ last)
    (hlt : last.dayNumber < other.dayNumber + 28) : inSeason season other = true := by
  have hregular : target.IsRegular := by
    obtain ⟨_, rfl, _⟩ := YearMonth.lastDate?_eq_some_iff.mp hlast
    exact YearMonth.isRegular_ofDate last
  have hnumber := YearMonth.dayNumber_of_date? hlast
  have hlong := target.lastDay_bounds
  have hle : other.dayNumber ≤ last.dayNumber := hle
  obtain rfl : YearMonth.ofDate other = target :=
    (YearMonth.ofDate_eq_iff hregular).mpr ⟨by omega, by omega⟩
  exact Bool.or_eq_true_iff.mpr (.inr (isListed_of_seasonMonth? htarget))

/-- The month of the season before ends no earlier than the last date that lies in the
season, and a whole month up to this end lies in it. -/
theorem exists_previousSeasonEnd? (hsupported : date.IsSupported) (hother : other.IsSupported)
    (hout : inSeason season date = false) (hin : inSeason season other = true)
    (hlt : other < date) :
    ∃ last, previousSeasonEnd? season date = some last ∧ other ≤ last ∧
      ∀ near : Date, near ≤ last → last.dayNumber < near.dayNumber + 28 →
        inSeason season near = true := by
  obtain ⟨hlisted, hdiffer⟩ := index_ofDate_ne_of_inSeason hout hin
  have hregular := YearMonth.isRegular_ofDate date
  have hregular' := YearMonth.isRegular_ofDate other
  have hmonths := YearMonth.index_ofDate_mono (Int.le_of_lt hlt)
  have hprevious : ∀ ym : YearMonth, ym.IsRegular →
      ym.previous.IsRegular ∧ ym.previous.index = ym.index + -1 :=
    fun ym hym => ⟨YearMonth.isRegular_previous hym, YearMonth.index_previous hym⟩
  obtain ⟨target, htarget, hreached⟩ :=
    exists_seasonMonth?_by (.inr rfl) hprevious hregular hregular' (by omega) hlisted
  obtain ⟨hregularTarget, hbeyond, _⟩ := seasonMonth?_spec (.inr rfl) hprevious hregular htarget
  have hyear := YearMonth.year_mono hregular' hregularTarget (by omega)
  have hyear' := YearMonth.year_mono hregularTarget hregular (by omega)
  have hleast := (Date.isSupported_iff_year.mp hother).1
  have hgreatest := (Date.isSupported_iff_year.mp hsupported).2
  obtain ⟨last, hlast⟩ := YearMonth.exists_lastDate? hregularTarget
    (show Date.leastYear ≤ target.year ∧ target.year ≤ Date.greatestYear from
      ⟨hleast.trans hyear, hyear'.trans hgreatest⟩)
  have hfound : previousSeasonEnd? season date = some last := by
    rw [previousSeasonEnd?, htarget]
    exact hlast
  refine ⟨last, hfound, Int.not_lt.mp fun hafter => ?_,
    fun near => inSeason_of_le_previousSeasonEnd? htarget hlast⟩
  have hnone := (previousSeasonEnd?_spec hfound hout).2 other hafter (Int.le_of_lt hlt)
  rw [hin] at hnone
  cases hnone

/-- Back to the month of the season before all dates go back to that month. -/
theorem previousSeasonEnd?_congr (hsupported : date.IsSupported)
    (hlast : previousSeasonEnd? season date = some last) (hout : inSeason season date = false)
    (hlt : last < other) (hle : other ≤ date) : previousSeasonEnd? season other = some last := by
  obtain ⟨hbehind, hbetween⟩ := previousSeasonEnd?_spec hlast hout
  have hend := hlast
  rw [previousSeasonEnd?] at hend
  split at hend
  · rename_i target htarget
    have hlastSupported := (YearMonth.lastDate?_eq_some_iff.mp hend).1
    have hin := inSeason_of_le_previousSeasonEnd? htarget hend (Int.le_refl last.dayNumber)
      (show last.dayNumber < last.dayNumber + 28 by omega)
    have hother := hlastSupported.of_between hsupported (Int.le_of_lt hlt) hle
    obtain ⟨found, hfound, hby, hnear⟩ :=
      exists_previousSeasonEnd? hother hlastSupported (hbetween other hlt hle) hin hlt
    have hbefore := (previousSeasonEnd?_spec hfound (hbetween other hlt hle)).1
    have hfoundIn := hnear found (Int.le_refl _)
      (show found.dayNumber < found.dayNumber + 28 by omega)
    have hsame : found ≤ last := Int.not_lt.mp fun hafter => by
      rw [hbetween found hafter (Int.le_of_lt (Int.lt_of_lt_of_le hbefore hle))] at hfoundIn
      exact nomatch hfoundIn
    rw [hfound, show found = last from Date.le_antisymm hsame hby]
  · rwa [Date.eq_of_addDays?_neg_one_lt hend hlt hle]

/-! ## Days of every year -/

theorem Month.number_bounds (month : Month) : 1 ≤ month.number ∧ month.number ≤ 12 := by
  cases month <;> decide

/-- In a leap year every month is as long as it ever gets. -/
theorem Month.daysInMonth_of_isLeapYear (month : Month) {year : Int}
    (hleap : isLeapYear year = true) : daysInMonth year month.number = month.maxDays := by
  cases month <;> simp only [daysInMonth, number, hleap, if_true, maxDays]

/-- A month is never longer than in a leap year. -/
theorem Month.daysInMonth_le (month : Month) (year : Int) :
    daysInMonth year month.number ≤ month.maxDays := by
  cases month with
  | february =>
    simp only [daysInMonth, number, maxDays]
    split <;> decide
  | _ => exact Nat.le_refl _

namespace CalendarDay

/-- A closing day stands for some date if it covers one not far ahead. -/
theorem exists_resolveFrom?_of_near {closing : CalendarDay} {reference date : Date}
    (hsupported : date.IsSupported) (hcovers : closing.covers date = true) (hle : reference ≤ date)
    (hnear : date.year ≤ reference.year + lookahead) :
    ∃ last, closing.resolveFrom? reference = some last := by
  cases closing with
  | fixed last => exact ⟨last, rfl⟩
  | yearly month day =>
    simp only [covers, Bool.and_eq_true, decide_eq_true_eq] at hcovers
    have hyear := Date.year_mono hle
    rw [← Option.isSome_iff_exists, resolveFrom?, List.findSome?_isSome_iff]
    refine ⟨(date.year - reference.year).toNat, List.mem_range.mpr (by omega), ?_⟩
    rw [Date.ofYmd?_eq_some_iff.mpr ⟨hsupported, by omega, hcovers⟩, Option.filter_some,
      if_pos (decide_eq_true hle)]
    rfl

/-- A day of every year comes again within eight years. -/
theorem resolveFrom?_yearly {month : Month} {day : Nat} {reference : Date}
    (hday : 1 ≤ day ∧ day ≤ month.maxDays) (hleast : Date.leastYear ≤ reference.year)
    (hgreatest : reference.year + lookahead ≤ Date.greatestYear) :
    ∃ date, (CalendarDay.yearly month day).resolveFrom? reference = some date ∧
      reference ≤ date ∧ date.year ≤ reference.year + lookahead := by
  obtain ⟨ahead, hpositive, hbound, hleap⟩ := exists_leapYear reference.year
  have hlookahead : lookahead = 8 := rfl
  have hmonth := month.number_bounds
  have hexists : (Date.ofYmd? (reference.year + ahead) month.number day).isSome :=
    Date.ofYmd?_isSome_iff.mpr ⟨by omega, hmonth, by
      rwa [month.daysInMonth_of_isLeapYear hleap]⟩
  obtain ⟨leap, hdate⟩ := Option.isSome_iff_exists.mp hexists
  obtain ⟨hsupported, hyear, hparts⟩ := Date.ofYmd?_eq_some_iff.mp hdate
  have hcovers : (CalendarDay.yearly month day).covers leap = true := by simp [covers, hparts]
  have hlater : reference ≤ leap := Int.le_of_lt <| Date.lt_of_year_lt <| by omega
  obtain ⟨date, hresolved⟩ := exists_resolveFrom?_of_near hsupported hcovers hlater (by omega)
  refine ⟨date, hresolved, ?_⟩
  rw [resolveFrom?] at hresolved
  obtain ⟨years, hyears, hpicked⟩ := List.exists_of_findSome?_eq_some hresolved
  obtain ⟨hpicked, hle⟩ := Option.filter_eq_some_iff.mp hpicked
  have hyear := (Date.ofYmd?_eq_some_iff.mp hpicked).2.1
  rw [List.mem_range] at hyears
  exact ⟨by simpa only [decide_eq_true_eq] using hle, by omega⟩

end CalendarDay

/-- What a closing day stands for: the first date on or after the reference that it
covers. -/
theorem CalendarDay.resolveFrom?_spec {month : Month} {day : Nat} {reference last : Date}
    (hlast : (CalendarDay.yearly month day).resolveFrom? reference = some last) :
    (last.IsSupported ∧ (CalendarDay.yearly month day).covers last = true) ∧ reference ≤ last ∧
      last.year ≤ reference.year + lookahead ∧
      ∀ other : Date, other.IsSupported → (CalendarDay.yearly month day).covers other = true →
        reference ≤ other → last ≤ other := by
  obtain ⟨earlier, ahead, later, hrange, hpicked, hnone⟩ := List.findSome?_eq_some_iff.mp hlast
  obtain ⟨hpicked, hle⟩ := Option.filter_eq_some_iff.mp hpicked
  obtain ⟨hsupported, hyear, hmonth, hday⟩ := Date.ofYmd?_eq_some_iff.mp hpicked
  have hsorted := List.pairwise_lt_range (n := lookahead + 1)
  rw [hrange] at hsorted
  have hmem : ahead ∈ List.range (lookahead + 1) := by
    rw [hrange]
    exact List.mem_append_right _ List.mem_cons_self
  rw [List.mem_range] at hmem
  refine ⟨⟨hsupported, Bool.and_eq_true_iff.mpr ⟨decide_eq_true hmonth, decide_eq_true hday⟩⟩,
    of_decide_eq_true hle, by omega, ?_⟩
  intro other hother hcovers hreference
  refine Int.not_lt.mp fun hbefore => ?_
  have hlow := Date.year_mono hreference
  have hhigh := Date.year_mono (Int.le_of_lt hbefore)
  obtain ⟨years, hyears⟩ : ∃ years : Nat, other.year = reference.year + years :=
    ⟨(other.year - reference.year).toNat, by omega⟩
  simp only [covers, Bool.and_eq_true, decide_eq_true_eq] at hcovers
  have hfound : Date.ofYmd? (reference.year + years) month.number day = some other :=
    Date.ofYmd?_eq_some_iff.mpr ⟨hother, hyears, hcovers⟩
  have hyearsMem : years ∈ List.range (lookahead + 1) := List.mem_range.mpr (by omega)
  rw [hrange] at hyearsMem
  rcases List.mem_append.mp hyearsMem with hbefore' | hafter
  · have := hnone years hbefore'
    simp only [hfound, Option.filter_some, hreference, decide_true, if_true, reduceCtorEq] at this
  · rcases List.mem_cons.mp hafter with rfl | hafter
    · obtain rfl := Option.some.inj (hfound.symm.trans hpicked)
      exact Int.lt_irrefl _ hbefore
    · have := (List.pairwise_cons.mp (List.pairwise_append.mp hsorted).2.1).1 years hafter
      omega

/-- Up to the date that a closing day stands for all references give this date. -/
theorem CalendarDay.resolveFrom?_congr {closing : CalendarDay} {reference later last : Date}
    (hlast : closing.resolveFrom? reference = some last) (hle : reference ≤ later)
    (hopen : later ≤ last) : closing.resolveFrom? later = some last := by
  cases closing with
  | fixed date => exact hlast
  | yearly month day =>
    obtain ⟨⟨hsupported, hcovers⟩, _, hyear, hfirst⟩ := resolveFrom?_spec hlast
    have hlow := Date.year_mono hle
    obtain ⟨other, hother⟩ := exists_resolveFrom?_of_near hsupported hcovers hopen (by omega)
    obtain ⟨⟨hotherSupported, hotherCovers⟩, hlater, _, hotherFirst⟩ := resolveFrom?_spec hother
    rw [hother, Option.some.injEq]
    exact Date.le_antisymm (hotherFirst last hsupported hcovers hopen)
      (hfirst other hotherSupported hotherCovers (Int.le_trans hle hlater))

/-- A closing day stands for some date wherever it covers one ahead, be it near or far. -/
theorem CalendarDay.exists_resolveFrom? {closing : CalendarDay} {reference date : Date}
    (hreference : reference.IsSupported) (hsupported : date.IsSupported)
    (hcovers : closing.covers date = true) (hle : reference ≤ date) :
    ∃ last, closing.resolveFrom? reference = some last := by
  by_cases hnear : date.year ≤ reference.year + lookahead
  · exact exists_resolveFrom?_of_near hsupported hcovers hle hnear
  · cases closing with
    | fixed last => exact ⟨last, rfl⟩
    | yearly month day =>
      simp only [covers, Bool.and_eq_true, decide_eq_true_eq] at hcovers
      obtain ⟨hmonth, rfl⟩ := hcovers
      have hday : 1 ≤ date.day ∧ date.day ≤ month.maxDays := by
        have hbounds := date.day_bounds
        rw [hmonth] at hbounds
        exact ⟨hbounds.1, hbounds.2.trans (month.daysInMonth_le date.year)⟩
      have hgreatest := (Date.isSupported_iff_year.mp hsupported).2
      obtain ⟨last, hlast, _⟩ := resolveFrom?_yearly hday
        (Date.isSupported_iff_year.mp hreference).1 (by omega)
      exact ⟨last, hlast⟩

end Cadence
