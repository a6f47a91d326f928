import Cadence.Proofs.Occurrence.YearWalks

/-!
# Walks over months, and of any recurrence

A walk over months keeps the year in its word from month to month.  It finds what the
search that jumps finds, and so does the walk of any recurrence, unless it finds nothing
and does not stay in the word.
-/

namespace Cadence

/-! ## Walks over months -/

namespace Heading

variable {ym : YearMonth}

theorem isRegular_month (heading : Heading) (hregular : ym.IsRegular) :
    (heading.month ym).IsRegular := by
  cases heading with
  | ahead => exact YearMonth.isRegular_next hregular
  | behind => exact YearMonth.isRegular_previous hregular

theorem index_month (heading : Heading) (hregular : ym.IsRegular) :
    (heading.month ym).index = heading.move ym.index 1 := by
  cases heading with
  | ahead => exact YearMonth.index_next hregular
  | behind => exact YearMonth.index_previous hregular

theorem year_month_bounds (heading : Heading) (ym : YearMonth) :
    ym.year - 1 ≤ (heading.month ym).year ∧ (heading.month ym).year ≤ ym.year + 1 := by
  cases heading with
  | ahead =>
    simp only [month, YearMonth.next]
    by_cases hlast : 12 ≤ ym.month
    · rw [if_pos hlast]
      dsimp only
      omega
    · rw [if_neg hlast]
      dsimp only
      omega
  | behind =>
    simp only [month, YearMonth.previous]
    by_cases hfirst : ym.month ≤ 1
    · rw [if_pos hfirst]
      dsimp only
      omega
    · rw [if_neg hfirst]
      dsimp only
      omega

/-- A walk starts a step back. -/
theorem exists_firstMonth (heading : Heading) (today : Date) :
    ∃ other : Heading, heading.firstMonth today = other.month (YearMonth.ofDate today) := by
  cases heading with
  | ahead => exact ⟨.behind, rfl⟩
  | behind => exact ⟨.ahead, rfl⟩

end Heading

section Months

variable {heading : Heading} {start anchor : YearMonth} {interval : Nat}
  {attempt : YearMonth → Option Instant} {remaining step : Nat}

/-- The month at which a walk is after a number of steps. -/
def monthAfter (heading : Heading) (start : YearMonth) (step : Nat) : YearMonth :=
  .ofIndex (heading.move start.index step)

theorem month_monthAfter :
    heading.month (monthAfter heading start step) = monthAfter heading start (step + 1) := by
  have hregular : (monthAfter heading start step).IsRegular := YearMonth.isRegular_ofIndex _
  refine YearMonth.eq_of_index_eq (heading.isRegular_month hregular)
    (YearMonth.isRegular_ofIndex _) ?_
  rw [heading.index_month hregular, monthAfter, monthAfter, YearMonth.index_ofIndex,
    YearMonth.index_ofIndex, Heading.move_add]

/-- On the way from a word to a word all years are words. -/
theorem holds_monthAfter {sooner later : Nat}
    (hstart : Word.holds (monthAfter heading start 0).year = true)
    (hlater : Word.holds (monthAfter heading start later).year = true) (hle : sooner ≤ later) :
    Word.holds (monthAfter heading start sooner).year = true := by
  rw [Word.holds_iff] at *
  cases heading <;>
    simp only [monthAfter, YearMonth.ofIndex, Heading.move] at hstart hlater ⊢ <;> omega

/-- What is found in an aligned month. -/
def monthHit (heading : Heading) (start anchor : YearMonth) (interval : Nat)
    (attempt : YearMonth → Option Instant) (step : Nat) : Option Instant :=
  if isAligned (heading.move start.index step - anchor.index) interval then
    attempt (monthAfter heading start step)
  else none

theorem monthHit_ne_none {hit : Instant}
    (hhit : monthHit heading start anchor interval attempt step = some hit) :
    attempt (monthAfter heading start step) ≠ none := by
  unfold monthHit at hhit
  split at hhit
  · rw [hhit]
    exact Option.some_ne_none hit
  · cases hhit

theorem walkMonths_succ : walkMonths heading anchor interval attempt (remaining + 1)
      (monthAfter heading start step) =
    match monthHit heading start anchor interval attempt step with
    | some hit => .ok (some hit)
    | none => (monthAfter heading start (step + 1)).inWord >>=
        walkMonths heading anchor interval attempt remaining := by
  have haligned : (decide (interval ≤ 1) ||
        isAligned ((monthAfter heading start step).monthsSince anchor) interval) =
      isAligned (heading.move start.index step - anchor.index) interval := by
    rw [YearMonth.monthsSince, monthAfter, YearMonth.index_ofIndex]
    by_cases hinterval : interval ≤ 1
    · rw [isAligned_of_le_one _ hinterval, Bool.or_true]
    · rw [decide_eq_false hinterval, Bool.false_or]
  rw [walkMonths, haligned, month_monthAfter]
  rfl

theorem isWalk_walkMonths (hstart : Word.holds (monthAfter heading start 0).year = true)
    (hsafe : ∀ {ym}, attempt ym ≠ none → Word.holds ym.year = true) :
    IsWalk
      (fun remaining step =>
        walkMonths heading anchor interval attempt remaining (monthAfter heading start step))
      (monthHit heading start anchor interval attempt)
      (fun step => Word.holds (monthAfter heading start (step + 1)).year = true) where
  ends _ := rfl
  stops hfound := by rw [walkMonths_succ, hfound]
  goesOn hnone hfits := by
    rw [walkMonths_succ, hnone, YearMonth.inWord_of_holds hfits]
    rfl
  fails hnone hout := by
    rw [walkMonths_succ, hnone, YearMonth.inWord_of_not_holds hout]
    rfl
  safe hfound _ hsooner := holds_monthAfter hstart (hsafe (monthHit_ne_none hfound)) hsooner

/-- The last month of a walk decides. -/
theorem monthsStay_iff (hstart : Word.holds (monthAfter heading start 0).year = true) :
    heading.monthsStay start interval = true ↔
      ∀ k < Reach.months * stepOf interval + 1,
        Word.holds (monthAfter heading start (k + 1)).year = true := by
  constructor
  · exact fun hfinal k hk => holds_monthAfter hstart hfinal hk
  · exact fun hall => hall _ (Nat.lt_succ_self _)

end Months

section Monthly

variable {frame : Frame} {heading : Heading} {interval : Nat}
  {attempt : YearMonth → Option Instant} {now : Instant}

theorem monthAfter_zero {start : YearMonth} (hregular : start.IsRegular) :
    monthAfter heading start 0 = start := by
  rw [monthAfter, Heading.move_zero, YearMonth.ofIndex_index_of_isRegular hregular]

/-- What is tried in the `k`th aligned month, if the walk gets there. -/
def Frame.monthTry (frame : Frame) (heading : Heading) (interval : Nat)
    (attempt : YearMonth → Option Instant) (now : Instant) (k : Nat) : Option Instant :=
  let start := heading.firstMonth (frame.zone.dateOf now)
  let step :=
    heading.lead (start.monthsSince (monthAnchor frame.anchor)) interval + k * stepOf interval
  if step ≤ Reach.months * stepOf interval then attempt (monthAfter heading start step) else none

/-- What a walk over months comes to: it finds what lies in the aligned months, a step apart. -/
theorem Frame.walkMonthly_eq (htoday : IsNearCalendar (frame.zone.dateOf now).year)
    (hattempt : ∀ {ym}, attempt ym ≠ none → IsNearCalendar ym.year) :
    frame.walkMonthly heading interval attempt now =
      outcome ((List.range (Reach.months + 1)).findSome?
          (frame.monthTry heading interval attempt now))
        (heading.monthsStay (heading.firstMonth (frame.zone.dateOf now)) interval) := by
  let today := frame.zone.dateOf now
  let start := heading.firstMonth today
  let anchor := monthAnchor frame.anchor
  let lead := heading.lead (start.monthsSince anchor) interval
  have hlead : lead < stepOf interval := heading.lead_lt _ interval
  obtain ⟨hregular, hholds⟩ : start.IsRegular ∧ Word.holds start.year = true := by
    obtain ⟨other, hother⟩ := heading.exists_firstMonth today
    have hyear : today.year - 1 ≤ (other.month (YearMonth.ofDate today)).year ∧
        (other.month (YearMonth.ofDate today)).year ≤ today.year + 1 :=
      other.year_month_bounds (YearMonth.ofDate today)
    have hnear : IsNearCalendar today.year := htoday
    simp only [IsNearCalendar, Date.leastYear, Date.greatestYear] at hnear
    rw [show start = _ from hother]
    exact ⟨other.isRegular_month (YearMonth.isRegular_ofDate today),
      Word.holds_iff.mpr (by omega)⟩
  have hfirst : monthAfter heading start 0 = start := monthAfter_zero hregular
  have hstart : Word.holds (monthAfter heading start 0).year = true := by rwa [hfirst]
  have hjumps : (List.range (Reach.months * stepOf interval + 1)).findSome?
        (monthHit heading start anchor interval attempt) =
      (List.range (Reach.months + 1)).findSome? (frame.monthTry heading interval attempt now) := by
    have hpos := stepOf_pos interval
    have hlimit : Reach.months * stepOf interval + 1 ≤ (Reach.months + 1) * stepOf interval := by
      rw [Nat.add_mul]
      omega
    refine (findSome?_range_steps (fun step => attempt (monthAfter heading start step)) hlead
      hlimit fun step => heading.isAligned_move_sub_iff).trans (findSome?_congr fun k _ => ?_)
    by_cases hreached : lead + k * stepOf interval ≤ Reach.months * stepOf interval
    · exact (if_pos (Nat.lt_succ_of_le hreached)).trans (if_pos hreached).symm
    · exact (if_neg (mt Nat.le_of_lt_succ hreached)).trans (if_neg hreached).symm
  have hwalk : IsWalk (fun remaining step =>
        walkMonths heading anchor interval attempt remaining (monthAfter heading start step))
      (monthHit heading start anchor interval attempt)
      (fun step => Word.holds (monthAfter heading start (step + 1)).year = true) :=
    isWalk_walkMonths hstart fun hfound => (hattempt hfound).holds
  refine Overflow.eq_of_ok_iff fun found => ?_
  rw [outcome_eq_ok_iff, monthsStay_iff hstart, ← hjumps, walkMonthly,
    YearMonth.inWord_of_holds hholds, ← hwalk.eq_ok_iff_of_start, hfirst]
  rfl

end Monthly

/-! ## Walks of recurrences -/

theorem isNearCalendar_yearAnchor {anchor : Option Date}
    (hanchor : ∀ date ∈ anchor, date.IsSupported) : IsNearCalendar (yearAnchor anchor) := by
  cases anchor with
  | none => exact ⟨by decide, by decide⟩
  | some date => exact .of_isSupported (hanchor date rfl)

namespace Frame

variable {frame : Frame} {heading : Heading} {now : Instant}

/-- If the dates of a month lie in it or in one next to it, something is found in months near
the calendar only. -/
theorem isNearCalendar_of_inMonth {dates : YearMonth → List Date} {seasonal : Bool}
    {times : List TimeOfDay} {ym : YearMonth}
    (hdates : ∀ {ym date}, date ∈ dates ym → date.IsSupported ∧
      date.year - 1 ≤ ym.year ∧ ym.year ≤ date.year + 1)
    (hfound : frame.inMonth heading dates seasonal times now ym ≠ none) :
    IsNearCalendar ym.year := by
  obtain ⟨date, hdate⟩ : ∃ date, date ∈ dates ym := by
    refine List.exists_mem_of_ne_nil _ fun hnil => ?_
    cases heading <;> simp [inMonth, hnil] at hfound
  obtain ⟨hsupported, hlow, hhigh⟩ := hdates hdate
  have hyear := Date.isSupported_iff_year.mp hsupported
  exact ⟨by omega, by omega⟩

theorem nextMonthly_eq {dates : YearMonth → List Date} {seasonal : Bool} {times : List TimeOfDay}
    {interval : Nat} :
    frame.nextMonthly interval dates seasonal times now =
      (List.range (Reach.months + 1)).findSome?
        (frame.monthTry .ahead interval (frame.inMonth .ahead dates seasonal times now) now) := by
  unfold nextMonthly
  refine findSome?_congr fun k _ => ?_
  dsimp only
  rw [ite_and]
  rfl

theorem closestOf_monthly {interval : Nat} {target : MonthTarget} {times : List TimeOfDay} :
    frame.closestOf heading (.monthly interval target times) now =
      (List.range (Reach.months + 1)).findSome? (frame.monthTry heading interval
        (frame.inMonth heading target.datesIn target.mayLeaveMonth times now) now) := by
  cases heading with
  | ahead => rw [closestOf, nextOf, nextMonthly_eq]
  | behind => rfl

theorem closestOf_ordinal {interval : Nat} {position : Position} {weekday : Weekday}
    {times : List TimeOfDay} :
    frame.closestOf heading (.ordinal interval position weekday times) now =
      (List.range (Reach.months + 1)).findSome? (frame.monthTry heading interval
        (frame.inMonth heading (fun ym => (ym.positionedWeekday? position weekday).toList) false
          times now) now) := by
  cases heading with
  | ahead => rw [closestOf, nextOf, nextMonthly_eq]
  | behind => rfl

theorem closestOf_yearly {interval : Nat} {target : YearTarget} {times : List TimeOfDay} :
    frame.closestOf heading (.yearly interval target times) now =
      (List.range Reach.years).findSome? fun k =>
        (target.dateIn? (heading.move (frame.zone.dateOf now).year
          (heading.lead ((frame.zone.dateOf now).year - yearAnchor frame.anchor) interval +
            k * stepOf interval))).bind fun date => frame.onDate heading date times now := by
  cases heading <;> rfl

theorem closestOf_once {month : Month} {day : Nat} {times : List TimeOfDay} :
    frame.closestOf heading (.once (.yearly month day) times) now =
      (List.range Reach.years).findSome? fun k =>
        (Date.ofYmd? (heading.move (frame.zone.dateOf now).year
          (heading.lead ((frame.zone.dateOf now).year - yearAnchor frame.anchor) 1 +
            k * stepOf 1)) month.number day).bind fun date =>
          frame.onDate heading date times now := by
  have hlead := heading.lead_lt ((frame.zone.dateOf now).year - yearAnchor frame.anchor) 1
  have hsteps (k : Nat) :
      heading.lead ((frame.zone.dateOf now).year - yearAnchor frame.anchor) 1 + k * stepOf 1 =
        k := by
    rw [stepOf_of_le_one (Nat.le_refl 1)] at hlead ⊢
    omega
  simp only [hsteps]
  cases heading <;> rfl

/-- Eight years from a year near the calendar there is still room. -/
theorem yearsStay_one {start : Int} (hstart : IsNearCalendar start) (anchor : Int) :
    heading.yearsStay start anchor 1 = true := by
  simp only [IsNearCalendar, Date.leastYear, Date.greatestYear] at hstart
  simp only [Heading.yearsStay, Bool.and_eq_true, Bool.or_eq_true, Word.holds_iff]
  refine ⟨?_, .inl rfl⟩
  cases heading <;> simp only [Heading.move, Reach.years, stepOf, Word.greatest] <;> omega

/-- What a walk comes to: what the search that jumps finds, or an overflow if that finds
nothing and the walk does not stay in the word. -/
theorem walkOf_eq_jumpOf (hnow : IsNearCalendar (frame.zone.dateOf now).year)
    (hanchor : ∀ date ∈ frame.anchor, date.IsSupported) (recurrence : Recurrence) :
    frame.walkOf heading recurrence now = frame.jumpOf heading recurrence now := by
  have hyearAnchor := isNearCalendar_yearAnchor hanchor
  cases recurrence with
  | window | daily | weekly => exact (outcome_true _).symm
  | monthly interval target times =>
    have hdates {ym : YearMonth} {date : Date} (hdate : date ∈ target.datesIn ym) :
        date.IsSupported ∧ date.year - 1 ≤ ym.year ∧ ym.year ≤ date.year + 1 := by
      obtain ⟨hsupported, hregular, _⟩ := MonthTarget.dayNumber_of_mem_datesIn hdate
      have hindex := MonthTarget.index_of_mem_datesIn hdate
      have hmonth := YearMonth.isRegular_ofDate date
      simp only [YearMonth.index, YearMonth.ofDate, YearMonth.IsRegular] at hindex hmonth hregular
      exact ⟨hsupported, by omega, by omega⟩
    rw [walkOf, walkMonthly_eq hnow (isNearCalendar_of_inMonth hdates), jumpOf, closestOf_monthly]
    rfl
  | ordinal interval position weekday times =>
    have hdates {ym : YearMonth} {date : Date}
        (hdate : date ∈ (ym.positionedWeekday? position weekday).toList) :
        date.IsSupported ∧ date.year - 1 ≤ ym.year ∧ ym.year ≤ date.year + 1 := by
      obtain ⟨hsupported, rfl⟩ :=
        YearMonth.ofDate_of_positionedWeekday? (Option.mem_toList.mp hdate)
      exact ⟨hsupported, Int.sub_le_self _ (by decide), Int.le_add_one (Int.le_refl _)⟩
    rw [walkOf, walkMonthly_eq hnow (isNearCalendar_of_inMonth hdates), jumpOf, closestOf_ordinal]
    rfl
  | once day times =>
    cases day with
    | fixed date => exact (outcome_true _).symm
    | yearly month day =>
      have hdate {year : Int} {date : Date}
          (hpicked : Date.ofYmd? year month.number day = some date) :
          date.IsSupported ∧ date.year = year :=
        ⟨(Date.ofYmd?_eq_some_iff.mp hpicked).1, (Date.ofYmd?_eq_some_iff.mp hpicked).2.1⟩
      rw [walkOf, walkYearly_eq hnow hyearAnchor hdate, jumpOf, closestOf_once,
        yearsStay_one hnow]
      rfl
  | yearly interval target times =>
    rw [walkOf, walkYearly_eq hnow hyearAnchor YearTarget.year_of_dateIn?, jumpOf, closestOf_yearly]
    rfl

end Frame

/-- After how many units a recurrence comes again; a single day never does. -/
def Recurrence.interval : Recurrence → Nat
  | window interval _ _ _ _ | daily interval _ _ | weekly interval _ _ | monthly interval _ _
  | ordinal interval _ _ _ | yearly interval _ _ => interval
  | once _ _ => 1

/-- Walks of eight intervals stay in the word if these are not too long. -/
theorem Frame.staysInWord_of_interval_le {frame : Frame} {heading : Heading} {now : Instant}
    (hnow : IsNearCalendar (frame.zone.dateOf now).year)
    (hanchor : ∀ date ∈ frame.anchor, date.IsSupported) {recurrence : Recurrence}
    (hinterval : recurrence.interval ≤ 2 ^ 28 - 2 ^ 16) :
    frame.staysInWord heading recurrence now = true := by
  have hmonths {interval : Nat} (hinterval : interval ≤ 2 ^ 28 - 2 ^ 16) :
      heading.monthsStay (heading.firstMonth (frame.zone.dateOf now)) interval = true := by
    obtain ⟨other, hother⟩ := heading.exists_firstMonth (frame.zone.dateOf now)
    have hyear := other.year_month_bounds (YearMonth.ofDate (frame.zone.dateOf now))
    have hregular := other.isRegular_month (YearMonth.isRegular_ofDate (frame.zone.dateOf now))
    rw [← hother] at hyear hregular
    simp only [IsNearCalendar, Date.leastYear, Date.greatestYear] at hnow
    simp only [YearMonth.ofDate] at hyear
    simp only [YearMonth.IsRegular] at hregular
    rw [Heading.monthsStay, Word.holds_iff]
    cases heading <;>
      simp only [Heading.move, YearMonth.ofIndex, YearMonth.index, Reach.months, stepOf] <;> omega
  cases recurrence with
  | window | daily | weekly | once => rfl
  | monthly | ordinal => exact hmonths hinterval
  | yearly interval target times =>
    have hyearAnchor := isNearCalendar_yearAnchor hanchor
    simp only [Recurrence.interval] at hinterval
    simp only [IsNearCalendar, Date.leastYear, Date.greatestYear] at hnow hyearAnchor
    simp only [staysInWord, Heading.yearsStay, Bool.and_eq_true, Bool.or_eq_true, Word.holds_iff]
    cases heading <;> simp only [Heading.move, Reach.years, stepOf, Word.greatest] <;> omega

end Cadence
