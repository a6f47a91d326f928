import Cadence.Occurrence.Forward
import Cadence.Occurrence.Membership
import Cadence.Proofs.Occurrence.AlignedSteps
import Mathlib.Algebra.Ring.Divisibility.Basic

/-!
# Anchors a multiple of the interval apart

An interval counts days, weeks, months or years from its anchor, and only the
remainder of a distance from the anchor is ever used.  Two anchors that lie a
multiple of the interval apart, in the unit a recurrence counts, therefore make
the same days, weeks, months or years aligned, on either side of both.
-/

namespace Cadence

/-- Two dates serve a recurrence equally as anchors: they lie a multiple of its
interval apart in the unit it counts.  Windows and single days count nothing. -/
def Recurrence.CountsAlike (recurrence : Recurrence) (first second : Date) : Prop :=
  match recurrence with
  | .daily interval _ _ => (interval : Int) ∣ first.daysSince second
  | .weekly interval _ _ => 7 * (interval : Int) ∣ first.weekStart - second.weekStart
  | .monthly interval _ _ | .ordinal interval _ _ _ =>
    (interval : Int) ∣ (YearMonth.ofDate first).monthsSince (.ofDate second)
  | .yearly interval _ _ => (interval : Int) ∣ first.year - second.year
  | .window .. | .once .. => True

/-! ## Distances that differ by a multiple of the interval -/

section Distances

variable {first second : Int} {interval : Nat}

/-- An interval of zero counts as one, and divides no distance but zero. -/
theorem stepOf_dvd_of_dvd (hdvd : (interval : Int) ∣ first) : (stepOf interval : Int) ∣ first := by
  rcases Nat.eq_zero_or_pos interval with rfl | hpos
  · rw [Int.zero_dvd.mp hdvd]
    exact dvd_zero _
  · rwa [stepOf_of_pos hpos]

theorem isAligned_congr (hdvd : (interval : Int) ∣ first - second) :
    isAligned first interval = isAligned second interval := by
  rw [isAligned, isAligned, Int.emod_eq_emod_iff_emod_sub_eq_zero.mpr
    (Int.emod_eq_zero_of_dvd (stepOf_dvd_of_dvd hdvd))]

theorem stepsAhead_congr (hdvd : (interval : Int) ∣ first - second) :
    stepsAhead first interval = stepsAhead second interval := by
  have hneg : (interval : Int) ∣ -first - -second := by
    rw [neg_sub_neg]
    exact dvd_sub_comm.mp hdvd
  rw [stepsAhead, stepsAhead, Int.emod_eq_emod_iff_emod_sub_eq_zero.mpr
    (Int.emod_eq_zero_of_dvd (stepOf_dvd_of_dvd hneg))]

end Distances

/-! ## Distances from two anchors -/

section Anchors

variable {first second : Date} {interval : Nat}

theorem dvd_sub_dayAnchor (halike : (interval : Int) ∣ first.daysSince second) (day : Int) :
    (interval : Int) ∣ (day - dayAnchor (some first)) - (day - dayAnchor (some second)) := by
  rw [sub_sub_sub_cancel_left]
  exact dvd_sub_comm.mp halike

/-- Weeks are counted between Mondays, so the quotient by seven is exact for the
difference of two anchors even where a date in the middle of a week is counted. -/
theorem dvd_sub_weekAnchor (halike : 7 * (interval : Int) ∣ first.weekStart - second.weekStart)
    (day : Int) :
    (interval : Int) ∣
      (day - weekAnchor (some first)) / 7 - (day - weekAnchor (some second)) / 7 := by
  obtain ⟨count, hcount⟩ := halike
  refine ⟨-count, ?_⟩
  have hfirst : weekAnchor (some first) = first.weekStart := rfl
  have hsecond : weekAnchor (some second) = second.weekStart := rfl
  rw [Int.mul_assoc] at hcount
  rw [Int.mul_neg]
  omega

/-- The Monday of an anchor's week is in the calendar. -/
theorem exists_weekAnchor {anchor : Date} (hyear : anchor.HasFourDigitYear) :
    ∃ monday, Date.ofDayNumber? (weekAnchor (some anchor)) = some monday ∧
      monday.dayNumber = weekAnchor (some anchor) := by
  have hyears : ∀ date ∈ some anchor, date.HasFourDigitYear := by
    rintro date ⟨⟩
    exact hyear
  obtain ⟨monday, hmonday⟩ := Option.isSome_iff_exists.mp (isSome_weekAnchor hyears)
  exact ⟨monday, hmonday, (Date.ofDayNumber?_eq_some_iff.mp hmonday).1 ▸ rfl⟩

theorem dvd_sub_monthAnchor
    (halike : (interval : Int) ∣ (YearMonth.ofDate first).monthsSince (.ofDate second))
    (ym : YearMonth) :
    (interval : Int) ∣
      ym.monthsSince (monthAnchor (some first)) - ym.monthsSince (monthAnchor (some second)) := by
  rw [YearMonth.monthsSince, YearMonth.monthsSince, sub_sub_sub_cancel_left]
  exact dvd_sub_comm.mp halike

theorem dvd_sub_yearAnchor (halike : (interval : Int) ∣ first.year - second.year) (year : Int) :
    (interval : Int) ∣ (year - yearAnchor (some first)) - (year - yearAnchor (some second)) := by
  rw [sub_sub_sub_cancel_left]
  exact dvd_sub_comm.mp halike

end Anchors

namespace Frame

/-- The same frame with intervals counted from another date. -/
def countedFrom (frame : Frame) (date : Date) : Frame := { frame with anchor := some date }

variable {frame : Frame} {first second : Date} {interval : Nat} {days : DayFilter}
variable {times : List TimeOfDay} {now moment : Instant}

/-! ## Searches from two anchors -/

theorem nextDaily_congr (halike : (interval : Int) ∣ first.daysSince second) :
    (frame.countedFrom first).nextDaily interval days times now =
      (frame.countedFrom second).nextDaily interval days times now := by
  have hlead := stepsAhead_congr (dvd_sub_dayAnchor halike (frame.zone.dateOf now).dayNumber)
  simp only [nextDaily, countedFrom, hlead]
  rfl

/-- Both anchors have their Monday in the calendar, so neither search ends for want of one. -/
theorem nextWeekly_congr {days : List Weekday} (hfirst : first.HasFourDigitYear)
    (hsecond : second.HasFourDigitYear)
    (halike : 7 * (interval : Int) ∣ first.weekStart - second.weekStart) :
    (frame.countedFrom first).nextWeekly interval days times now =
      (frame.countedFrom second).nextWeekly interval days times now := by
  obtain ⟨firstMonday, hfirstMonday, hfirstNumber⟩ := exists_weekAnchor hfirst
  obtain ⟨secondMonday, hsecondMonday, hsecondNumber⟩ := exists_weekAnchor hsecond
  have hlead (monday : Date) : stepsAhead (monday.daysSince firstMonday / 7) interval =
      stepsAhead (monday.daysSince secondMonday / 7) interval := by
    apply stepsAhead_congr
    rw [Date.daysSince, Date.daysSince, hfirstNumber, hsecondNumber]
    exact dvd_sub_weekAnchor halike monday.dayNumber
  simp only [nextWeekly, countedFrom, hfirstMonday, hsecondMonday, Option.bind_eq_bind,
    Option.bind_some, hlead]
  rfl

theorem nextMonthly_congr {dates : YearMonth → List Date} {seasonal : Bool}
    (halike : (interval : Int) ∣ (YearMonth.ofDate first).monthsSince (.ofDate second)) :
    (frame.countedFrom first).nextMonthly interval dates seasonal times now =
      (frame.countedFrom second).nextMonthly interval dates seasonal times now := by
  have hlead := stepsAhead_congr
    (dvd_sub_monthAnchor halike (YearMonth.ofDate (frame.zone.dateOf now)).previous)
  simp only [nextMonthly, countedFrom, hlead]
  rfl

theorem nextYearly_congr {target : YearTarget}
    (halike : (interval : Int) ∣ first.year - second.year) :
    (frame.countedFrom first).nextYearly interval target times now =
      (frame.countedFrom second).nextYearly interval target times now := by
  have hlead := stepsAhead_congr (dvd_sub_yearAnchor halike (frame.zone.dateOf now).year)
  simp only [nextYearly, countedFrom, hlead]
  rfl

theorem nextOf_congr {recurrence : Recurrence} (hfirst : first.HasFourDigitYear)
    (hsecond : second.HasFourDigitYear) (halike : recurrence.CountsAlike first second)
    (now : Instant) :
    (frame.countedFrom first).nextOf recurrence now =
      (frame.countedFrom second).nextOf recurrence now := by
  cases recurrence with
  | window interval unit start stop days => rfl
  | daily interval days times => exact nextDaily_congr halike
  | weekly interval days times => exact nextWeekly_congr hfirst hsecond halike
  | monthly interval target times => exact nextMonthly_congr halike
  | ordinal interval position weekday times =>
    simp only [nextOf]
    exact nextMonthly_congr halike
  | once day times => rfl
  | yearly interval target times => exact nextYearly_congr halike

/-! ## Membership from two anchors -/

theorem monthAligned_congr
    (halike : (interval : Int) ∣ (YearMonth.ofDate first).monthsSince (.ofDate second))
    (ym : YearMonth) :
    (frame.countedFrom first).monthAligned ym interval =
      (frame.countedFrom second).monthAligned ym interval :=
  isAligned_congr (dvd_sub_monthAnchor halike ym)

theorem fires_congr {recurrence : Recurrence} (hfirst : first.HasFourDigitYear)
    (hsecond : second.HasFourDigitYear) (halike : recurrence.CountsAlike first second)
    (moment : Instant) :
    (frame.countedFrom first).fires recurrence moment =
      (frame.countedFrom second).fires recurrence moment := by
  cases recurrence with
  | window interval unit start stop days => rfl
  | daily interval days times =>
    have haligned := isAligned_congr
      (dvd_sub_dayAnchor halike (frame.zone.dateOf moment).dayNumber)
    simp only [fires, countedFrom, haligned]
    rfl
  | weekly interval days times =>
    obtain ⟨firstMonday, hfirstMonday, hfirstNumber⟩ := exists_weekAnchor hfirst
    obtain ⟨secondMonday, hsecondMonday, hsecondNumber⟩ := exists_weekAnchor hsecond
    have haligned := isAligned_congr
      (dvd_sub_weekAnchor halike (frame.zone.dateOf moment).dayNumber)
    rw [← hfirstNumber, ← hsecondNumber] at haligned
    simp only [fires, countedFrom, hfirstMonday, hsecondMonday, Option.any_some]
    rw [Date.daysSince, Date.daysSince, haligned]
    rfl
  | monthly interval target times =>
    simp only [fires, monthAligned_congr halike]
    rfl
  | ordinal interval position weekday times =>
    simp only [fires, monthAligned_congr halike]
    rfl
  | once day times => rfl
  | yearly interval target times =>
    have haligned := isAligned_congr
      (dvd_sub_yearAnchor halike (frame.zone.dateOf moment).year)
    simp only [fires, countedFrom, haligned]
    rfl

end Frame

end Cadence
