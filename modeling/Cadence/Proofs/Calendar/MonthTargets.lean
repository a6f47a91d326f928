import Mathlib.Data.List.Sort
import Cadence.Proofs.Calendar.Months
import Cadence.Schedule.Basic

/-!
# The dates a target picks

The dates picked for one month are ascending, they lie in the month or close to
it, and the dates picked for a later month come later.  The last point holds
although a directed target may leave its month, because it moves by two days at
most.
-/

namespace Cadence

/-! ## Lists without repetitions -/

/-- Dropping repetitions from an ascending list leaves a strictly ascending one.
The entries already kept and the current one are strictly ascending throughout. -/
theorem pairwise_lt_eraseReps {items : List Nat} (hsorted : items.Pairwise (· ≤ ·)) :
    items.eraseReps.Pairwise (· < ·) := by
  have hloop : ∀ (rest : List Nat) (current : Nat) (kept : List Nat),
      (current :: rest).Pairwise (· ≤ ·) → (current :: kept).Pairwise (· > ·) →
        (List.eraseRepsBy.loop (· == ·) current rest kept).Pairwise (· < ·) := by
    intro rest
    induction rest with
    | nil =>
      intro current kept _ hkept
      rw [List.eraseRepsBy.loop, List.pairwise_reverse]
      exact hkept
    | cons other rest ih =>
      intro current kept hrest hkept
      obtain ⟨hcurrent, hother⟩ := List.pairwise_cons.mp hrest
      rw [List.eraseRepsBy.loop]
      by_cases hsame : current = other
      · simp only [hsame, beq_self_eq_true]
        exact ih other kept hother (hsame ▸ hkept)
      · simp only [beq_eq_false_iff_ne.mpr hsame]
        refine ih other (current :: kept) hother (List.pairwise_cons.mpr ⟨?_, hkept⟩)
        have hle := hcurrent other List.mem_cons_self
        intro earlier hearlier
        rcases List.mem_cons.mp hearlier with rfl | hmem
        · omega
        · have := (List.pairwise_cons.mp hkept).1 earlier hmem
          omega
  cases items with
  | nil => exact List.Pairwise.nil
  | cons first rest => exact hloop rest first [] hsorted (List.pairwise_singleton _ _)

/-- Dropping repetitions keeps every entry. -/
theorem mem_eraseReps {items : List Nat} {item : Nat} : item ∈ items.eraseReps ↔ item ∈ items := by
  have hloop : ∀ (rest : List Nat) (current : Nat) (kept : List Nat),
      item ∈ List.eraseRepsBy.loop (· == ·) current rest kept ↔
        item ∈ current :: rest ∨ item ∈ kept := by
    intro rest
    induction rest with
    | nil =>
      intro current kept
      rw [List.eraseRepsBy.loop, List.mem_reverse, List.mem_cons, List.mem_singleton]
    | cons other rest ih =>
      intro current kept
      rw [List.eraseRepsBy.loop]
      by_cases hsame : current = other
      · simp only [hsame, beq_self_eq_true, ih, List.mem_cons]
        tauto
      · simp only [beq_eq_false_iff_ne.mpr hsame, ih, List.mem_cons]
        tauto
  cases items with
  | nil => rfl
  | cons first rest =>
    rw [List.eraseReps, List.eraseRepsBy, hloop rest first []]
    simp only [List.not_mem_nil, or_false]

/-- Sorted and without repetitions, a list is strictly ascending. -/
theorem pairwise_lt_eraseReps_mergeSort (items : List Nat) :
    (items.mergeSort (· ≤ ·)).eraseReps.Pairwise (· < ·) := by
  apply pairwise_lt_eraseReps
  have hsorted : (items.mergeSort (· ≤ ·)).Pairwise fun a b => decide (a ≤ b) = true :=
    List.pairwise_mergeSort
      (fun a b c hab hbc => by simp only [decide_eq_true_eq] at *; omega)
      (fun a b => by simp only [Bool.or_eq_true, decide_eq_true_eq]; omega) _
  exact hsorted.imp fun hle => by simpa only [decide_eq_true_eq] using hle

/-- Sorted and without repetitions, a list is determined by its entries. -/
theorem eraseReps_mergeSort_congr {items others : List Nat}
    (hsame : ∀ item, item ∈ items ↔ item ∈ others) :
    (items.mergeSort (· ≤ ·)).eraseReps = (others.mergeSort (· ≤ ·)).eraseReps := by
  refine (pairwise_lt_eraseReps_mergeSort items).eq_of_mem_iff
    (pairwise_lt_eraseReps_mergeSort others) fun item => ?_
  rw [mem_eraseReps, mem_eraseReps, List.mem_mergeSort, List.mem_mergeSort, hsame]

namespace MonthTarget

theorem listedDays_pairwise (target : MonthTarget) : target.listedDays.Pairwise (· < ·) := by
  unfold listedDays
  split
  · exact pairwise_lt_eraseReps_mergeSort _
  · exact List.Pairwise.nil

/-- The dates picked for a month are strictly ascending. -/
theorem datesIn_pairwise (target : MonthTarget) (ym : YearMonth) :
    (target.datesIn ym).Pairwise (· < ·) := by
  have hoption : ∀ date? : Option Date, date?.toList.Pairwise (· < ·) := fun date? => by
    cases date? with
    | none => exact List.Pairwise.nil
    | some date => exact List.pairwise_singleton _ date
  cases target with
  | days entries =>
    refine List.Pairwise.filterMap _ ?_ (listedDays_pairwise (.days entries))
    intro day later hlt date hdate date' hdate'
    have hfirst := YearMonth.dayNumber_of_date? hdate
    have hsecond := YearMonth.dayNumber_of_date? hdate'
    change date.dayNumber < date'.dayNumber
    omega
  | lastDay => exact hoption _
  | lastBusinessDay => exact hoption _
  | nearestBusinessDay day direction => exact hoption _
  | positioned position weekday => exact hoption _

/-- A target that does not leave its month picks dates of that month. -/
theorem ofDate_of_mem_datesIn {target : MonthTarget} (hstays : target.mayLeaveMonth = false)
    {ym : YearMonth} {date : Date} (hdate : date ∈ target.datesIn ym) :
    date.IsSupported ∧ YearMonth.ofDate date = ym := by
  cases target with
  | days entries =>
    obtain ⟨day, _, hday⟩ := List.mem_filterMap.mp hdate
    obtain ⟨hsupported, hmonth, _⟩ := YearMonth.date?_eq_some_iff.mp hday
    exact ⟨hsupported, hmonth⟩
  | lastDay =>
    obtain ⟨hsupported, hmonth, _⟩ :=
      YearMonth.lastDate?_eq_some_iff.mp (Option.mem_toList.mp hdate)
    exact ⟨hsupported, hmonth⟩
  | lastBusinessDay => exact YearMonth.ofDate_of_lastBusinessDate? (Option.mem_toList.mp hdate)
  | nearestBusinessDay day direction =>
    obtain ⟨hsupported, _, _, _, _, hmonth⟩ :=
      YearMonth.nearestBusinessDate?_spec (Option.mem_toList.mp hdate)
    cases direction with
    | none => exact ⟨hsupported, hmonth rfl⟩
    | some direction => simp [mayLeaveMonth] at hstays
  | positioned position weekday =>
    exact YearMonth.ofDate_of_positionedWeekday? (Option.mem_toList.mp hdate)

/-- What a picked date has to do with its month: either it lies in the month, or
it lies at most two days from one day of the month, the same for all months. -/
theorem dayNumber_of_mem_datesIn {target : MonthTarget} {ym : YearMonth} {date : Date}
    (hdate : date ∈ target.datesIn ym) :
    date.IsSupported ∧ ym.IsRegular ∧
      (target.mayLeaveMonth = false ∧ YearMonth.ofDate date = ym ∨
        ∃ day direction, target = .nearestBusinessDay day (some direction) ∧
          (1 ≤ day ∧ day ≤ ym.lastDay) ∧ ym.daysBefore + day - 2 ≤ date.dayNumber ∧
          date.dayNumber ≤ ym.daysBefore + day + 2) := by
  cases hleaves : target.mayLeaveMonth with
  | false =>
    obtain ⟨hsupported, rfl⟩ := ofDate_of_mem_datesIn hleaves hdate
    exact ⟨hsupported, YearMonth.isRegular_ofDate date, .inl ⟨rfl, rfl⟩⟩
  | true =>
    cases target with
    | nearestBusinessDay day direction =>
      obtain ⟨hsupported, hregular, hday, hlow, hhigh, _⟩ :=
        YearMonth.nearestBusinessDate?_spec (Option.mem_toList.mp hdate)
      cases direction with
      | none => simp [mayLeaveMonth] at hleaves
      | some direction =>
        exact ⟨hsupported, hregular, .inr ⟨day, direction, rfl, hday, hlow, hhigh⟩⟩
    | days _ | lastDay | lastBusinessDay | positioned _ _ => simp [mayLeaveMonth] at hleaves

/-- Dates picked for a later month come later. -/
theorem lt_of_mem_datesIn {target : MonthTarget} {first second : YearMonth} {date date' : Date}
    (hdate : date ∈ target.datesIn first) (hdate' : date' ∈ target.datesIn second)
    (hlt : first.index < second.index) : date < date' := by
  change date.dayNumber < date'.dayNumber
  obtain ⟨_, hfirst, hplace⟩ := dayNumber_of_mem_datesIn hdate
  obtain ⟨_, hsecond, hplace'⟩ := dayNumber_of_mem_datesIn hdate'
  have hmonths := YearMonth.daysBefore_add_lastDay_le hfirst hsecond hlt
  have hlong := first.lastDay_bounds
  rcases hplace with ⟨hstays, hmonth⟩ | ⟨day, direction, rfl, hday, _, hhigh⟩
  · rcases hplace' with ⟨_, hmonth'⟩ | ⟨day, direction, rfl, _⟩
    · have hbefore := (YearMonth.ofDate_eq_iff hfirst).mp hmonth
      have hafter := (YearMonth.ofDate_eq_iff hsecond).mp hmonth'
      omega
    · simp [mayLeaveMonth] at hstays
  · rcases hplace' with ⟨hstays, _⟩ | ⟨day', direction', hsame, _, hlow, _⟩
    · simp [mayLeaveMonth] at hstays
    · simp only [nearestBusinessDay.injEq] at hsame
      omega

/-- A date is picked for one month at most. -/
theorem eq_of_mem_datesIn {target : MonthTarget} {first second : YearMonth} {date : Date}
    (hfirst : date ∈ target.datesIn first) (hsecond : date ∈ target.datesIn second) :
    first = second := by
  refine YearMonth.eq_of_index_eq (dayNumber_of_mem_datesIn hfirst).2.1
    (dayNumber_of_mem_datesIn hsecond).2.1 ?_
  rcases Int.lt_trichotomy first.index second.index with hlt | heq | hgt
  · exact absurd (lt_of_mem_datesIn hfirst hsecond hlt) (Int.lt_irrefl _)
  · exact heq
  · exact absurd (lt_of_mem_datesIn hsecond hfirst hgt) (Int.lt_irrefl _)

/-- A picked date lies in its month or in one of the two around it. -/
theorem index_of_mem_datesIn {target : MonthTarget} {ym : YearMonth} {date : Date}
    (hdate : date ∈ target.datesIn ym) :
    ym.index - 1 ≤ (YearMonth.ofDate date).index ∧
      (YearMonth.ofDate date).index ≤ ym.index + 1 := by
  obtain ⟨_, hregular, hplace⟩ := dayNumber_of_mem_datesIn hdate
  rcases hplace with ⟨_, rfl⟩ | ⟨day, direction, rfl, hday, hlow, hhigh⟩
  · omega
  · have hown := YearMonth.isRegular_ofDate date
    have hnumber := YearMonth.daysBefore_ofDate date
    have hinside := YearMonth.day_le_lastDay date
    have hnext := YearMonth.daysBefore_next hregular
    have hprevious := YearMonth.daysBefore_next (YearMonth.isRegular_previous hregular)
    have hindexNext := YearMonth.index_next hregular
    have hindexPrevious := YearMonth.index_previous hregular
    have hlong := ym.next.lastDay_bounds
    have hlong' := ym.previous.lastDay_bounds
    have hback : ym.previous.next = ym :=
      YearMonth.eq_of_index_eq (YearMonth.isRegular_next (YearMonth.isRegular_previous hregular))
        hregular (by rw [YearMonth.index_next (YearMonth.isRegular_previous hregular)]; omega)
    rw [hback] at hprevious
    constructor
    · by_contra hlt
      have := YearMonth.daysBefore_add_lastDay_le hown
        (YearMonth.isRegular_previous hregular) (by omega)
      omega
    · by_contra hgt
      have :=
        YearMonth.daysBefore_add_lastDay_le (YearMonth.isRegular_next hregular) hown (by omega)
      omega

end MonthTarget

/-- The date a target picks in a year lies in that year. -/
theorem YearTarget.year_of_dateIn? {target : YearTarget} {year : Int} {date : Date}
    (hdate : target.dateIn? year = some date) : date.IsSupported ∧ date.year = year := by
  cases target with
  | date month day | dayOfMonth day month =>
    obtain ⟨hsupported, hyear, _⟩ := Date.ofYmd?_eq_some_iff.mp hdate
    exact ⟨hsupported, hyear⟩
  | positioned position weekday month =>
    obtain ⟨hsupported, hmonth⟩ := YearMonth.ofDate_of_positionedWeekday? hdate
    exact ⟨hsupported, congrArg YearMonth.year hmonth⟩
  | lastBusinessDay month =>
    obtain ⟨hsupported, hmonth⟩ := YearMonth.ofDate_of_lastBusinessDate? hdate
    exact ⟨hsupported, congrArg YearMonth.year hmonth⟩

end Cadence
