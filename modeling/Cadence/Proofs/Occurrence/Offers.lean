import Cadence.Occurrence.Backward
import Cadence.Occurrence.Membership
import Cadence.Proofs.Calendar.MonthTargets
import Cadence.Proofs.Calendar.Weeks
import Cadence.Proofs.Occurrence.AlignedSteps
import Cadence.Proofs.Zone.UniversalTime
import Cadence.Schedule.WellFormed

/-!
# What a recurrence offers

A recurrence selects dates and lists times of day, a window the times of its
slots.  What it offers are the instants at which a selected date shows a listed
time.  Both searches and the membership test are compared with these instants:
the searches in the modules on searching, membership in `fires_iff_offers`.
-/

namespace Cadence

/-- The dates on which a recurrence fires, times of day aside. -/
def Recurrence.Selects (anchor : Option Date) : Recurrence → Date → Prop
  | window _ _ _ _ days, date => ∀ filter ∈ days, filter.allows date.weekday = true
  | daily interval days _, date =>
    days.allows date.weekday = true ∧
      isAligned (date.dayNumber - dayAnchor anchor) interval = true
  | weekly interval days _, date =>
    date.weekday ∈ days ∧ ∃ monday, Date.ofDayNumber? (weekAnchor anchor) = some monday ∧
      isAligned (date.daysSince monday / 7) interval = true
  | monthly interval target _, date =>
    ∃ ym : YearMonth, isAligned (ym.monthsSince (monthAnchor anchor)) interval = true ∧
      date ∈ target.datesIn ym
  | ordinal interval position weekday _, date =>
    ∃ ym : YearMonth, isAligned (ym.monthsSince (monthAnchor anchor)) interval = true ∧
      date ∈ (ym.positionedWeekday? position weekday).toList
  | once day _, date => day.covers date = true
  | yearly interval target _, date =>
    isAligned (date.year - yearAnchor anchor) interval = true ∧
      target.dateIn? date.year = some date

/-- The times of day at which a recurrence fires on the dates it selects. -/
def Recurrence.times : Recurrence → List TimeOfDay
  | window interval unit start stop _ =>
    (Frame.slotsDown start.minutes (max (unit.inMinutes interval) 1) stop.minutes).map .ofMinutes
  | daily _ _ times | weekly _ _ times | monthly _ _ times | ordinal _ _ _ times
  | once _ times | yearly _ _ times => times

/-- Whether a recurrence may pick a date outside the month it looks at. -/
def Recurrence.mayLeaveMonth : Recurrence → Bool
  | monthly _ target _ => target.mayLeaveMonth
  | _ => false

/-- Whether a recurrence steps through a window of the day. -/
def Recurrence.isWindow : Recurrence → Bool
  | window _ _ _ _ _ => true
  | _ => false

/-- A day of every year is picked like the target of a yearly recurrence. -/
theorem Recurrence.selects_once_yearly {anchor : Option Date} {month : Month} {day : Nat}
    {times : List TimeOfDay} {date : Date} (hsupported : date.IsSupported) :
    (Recurrence.once (.yearly month day) times).Selects anchor date ↔
      (Recurrence.yearly 1 (.date month day) times).Selects anchor date := by
  have haligned := isAligned_of_le_one (date.year - yearAnchor anchor) (Nat.le_refl 1)
  simp only [Selects, CalendarDay.covers, Bool.and_eq_true, decide_eq_true_eq, haligned,
    YearTarget.dateIn?, Date.ofYmd?_eq_some_iff, hsupported, true_and]

namespace Frame

/-- The instants at which a date shows one of some times. -/
def OnDate (frame : Frame) (times : List TimeOfDay) (date : Date) (moment : Instant) : Prop :=
  ∃ time ∈ times, frame.zone.instantAt date time = moment

/-- The instants of selected dates that show a listed time. -/
def Offers (frame : Frame) (recurrence : Recurrence) (moment : Instant) : Prop :=
  ∃ date, date.IsSupported ∧ recurrence.Selects frame.anchor date ∧
    frame.OnDate recurrence.times date moment

theorem offers_once_yearly (frame : Frame) (month : Month) (day : Nat) (times : List TimeOfDay) :
    frame.Offers (.once (.yearly month day) times) =
      frame.Offers (.yearly 1 (.date month day) times) := by
  funext moment
  refine propext (exists_congr fun date => and_congr_right fun hsupported => ?_)
  rw [Recurrence.selects_once_yearly hsupported]
  rfl

/-! ## Slots of a window -/

theorem mem_slotsDown {start step final slot : Nat} (hstep : 0 < step) :
    slot ∈ slotsDown start step final ↔
      start ≤ slot ∧ slot ≤ final ∧ ∃ k, slot = start + k * step := by
  rw [slotsDown]
  split
  · simp only [List.not_mem_nil, false_iff, not_and]
    omega
  · simp only [List.mem_map, List.mem_reverse, List.mem_range, Nat.lt_succ_iff]
    constructor
    · rintro ⟨k, hk, rfl⟩
      rw [Nat.le_div_iff_mul_le hstep] at hk
      exact ⟨Nat.le_add_right _ _, by omega, k, rfl⟩
    · rintro ⟨_, hfinal, k, rfl⟩
      exact ⟨k, (Nat.le_div_iff_mul_le hstep).mpr (by omega), rfl⟩

theorem isSlot_iff {start stop step current : Nat} (hstep : 0 < step) :
    isSlot start stop step current = true ↔ current ∈ slotsDown start step stop := by
  rw [mem_slotsDown hstep]
  simp only [isSlot, Bool.and_eq_true, decide_eq_true_eq, and_assoc, and_congr_right_iff]
  intro hstart _
  rw [← Nat.dvd_iff_mod_eq_zero]
  constructor
  · rintro ⟨k, hk⟩
    exact ⟨k, by rw [Nat.mul_comm k]; omega⟩
  · rintro ⟨k, rfl⟩
    exact ⟨k, by rw [Nat.mul_comm step]; omega⟩

/-- Slots are tried from the last one down. -/
theorem slotsDown_pairwise {step : Nat} (start final : Nat) (hstep : 0 < step) :
    (slotsDown start step final).Pairwise (· > ·) := by
  rw [slotsDown]
  split
  · exact List.Pairwise.nil
  · rw [List.pairwise_map, List.pairwise_reverse]
    refine List.pairwise_lt_range.imp fun hlt => ?_
    have := Nat.mul_lt_mul_of_pos_right hlt hstep
    omega

end Frame

/-! ## Times on the clock -/

theorem Recurrence.WellFormed.isOnClock {recurrence : Recurrence} (hwell : recurrence.WellFormed)
    {time : TimeOfDay} (htime : time ∈ recurrence.times) : time.IsOnClock := by
  cases recurrence with
  | window interval unit start stop days =>
    obtain ⟨slot, hslot, rfl⟩ := List.mem_map.mp htime
    have hstop := hwell.2.2.1.minutes_lt
    have hbound := ((Frame.mem_slotsDown (by omega)).mp hslot).2.1
    exact TimeOfDay.isOnClock_ofMinutes (by omega)
  | daily interval days times => exact hwell.2.2.2.2 time htime
  | weekly interval days times => exact hwell.2.2.2 time htime
  | monthly interval target times => exact hwell.2.2.2 time htime
  | ordinal interval position weekday times => exact hwell.2.2 time htime
  | once day times => exact hwell.2.2 time htime
  | yearly interval target times => exact hwell.2.2.2 time htime

/-! ## Membership -/

namespace Frame

variable {frame : Frame} {recurrence : Recurrence} {moment : Instant}

/-- The month of a picked date is among the three that membership looks at. -/
theorem any_near_iff {date : Date} {test : YearMonth → Bool}
    (hnear : ∀ ym, test ym = true → ym.IsRegular ∧
      ym.index - 1 ≤ (YearMonth.ofDate date).index ∧
      (YearMonth.ofDate date).index ≤ ym.index + 1) :
    [(YearMonth.ofDate date).previous, YearMonth.ofDate date, (YearMonth.ofDate date).next].any
      test = true ↔ ∃ ym, test ym = true := by
  have hown := YearMonth.isRegular_ofDate date
  have hprevious := YearMonth.index_previous hown
  have hnext := YearMonth.index_next hown
  simp only [List.any_cons, List.any_nil, Bool.or_false, Bool.or_eq_true]
  constructor
  · rintro (htest | htest | htest) <;> exact ⟨_, htest⟩
  · rintro ⟨ym, htest⟩
    obtain ⟨hregular, hlow, hhigh⟩ := hnear ym htest
    rcases (show ym.index = (YearMonth.ofDate date).index - 1 ∨
        ym.index = (YearMonth.ofDate date).index ∨
        ym.index = (YearMonth.ofDate date).index + 1 by omega) with hindex | hindex | hindex
    · left
      rwa [YearMonth.eq_of_index_eq (YearMonth.isRegular_previous hown) hregular (by omega)]
    · right; left
      rwa [YearMonth.eq_of_index_eq hown hregular hindex.symm]
    · right; right
      rwa [YearMonth.eq_of_index_eq (YearMonth.isRegular_next hown) hregular (by omega)]

/-- The instants that membership counts as showing a listed time: those whose own
minute is listed and, windows apart, those that a listed time of the date is
resolved to. -/
def Shows (frame : Frame) (recurrence : Recurrence) (moment : Instant) : Prop :=
  frame.zone.timeOf moment ∈ recurrence.times ∨
    recurrence.isWindow = false ∧
      frame.OnDate recurrence.times (frame.zone.dateOf moment) moment

theorem showsTime_iff {date : Date} {times : List TimeOfDay} :
    frame.showsTime date times moment = true ↔
      frame.zone.timeOf moment ∈ times ∨ frame.OnDate times date moment := by
  simp only [showsTime, List.any_eq_true, Bool.or_eq_true, decide_eq_true_eq, OnDate]
  constructor
  · rintro ⟨time, htime, rfl | hresolved⟩
    · exact .inl htime
    · exact .inr ⟨time, htime, hresolved⟩
  · rintro (htime | ⟨time, htime, hresolved⟩)
    · exact ⟨_, htime, .inl rfl⟩
    · exact ⟨time, htime, .inr hresolved⟩

/-- A recurrence fires when its date is selected and a listed time is shown. -/
theorem fires_iff_shows : frame.fires recurrence moment = true ↔
    recurrence.Selects frame.anchor (frame.zone.dateOf moment) ∧
      frame.Shows recurrence moment := by
  have hshows : recurrence.isWindow = false →
      (frame.showsTime (frame.zone.dateOf moment) recurrence.times moment = true ↔
        frame.Shows recurrence moment) := by
    intro hlisted
    rw [showsTime_iff, Shows, hlisted]
    simp only [true_and]
  cases recurrence with
  | window interval unit start stop days =>
    have hclock := frame.zone.isOnClock_timeOf moment
    simp only [fires, Bool.and_eq_true,
      isSlot_iff (show 0 < max (unit.inMinutes interval) 1 by omega),
      Option.all_eq_true, Recurrence.Selects, Shows, Recurrence.isWindow, Bool.true_eq_false,
      false_and, or_false, Recurrence.times, List.mem_map]
    refine and_congr Iff.rfl ⟨fun hslot => ⟨_, hslot, hclock.ofMinutes_minutes⟩, ?_⟩
    rintro ⟨slot, hslot, hsame⟩
    rwa [← hsame, TimeOfDay.minutes_ofMinutes]
  | daily interval days times =>
    simp only [Recurrence.times] at hshows
    simp only [fires, Bool.and_eq_true, hshows rfl, Recurrence.Selects]
    tauto
  | weekly interval days times =>
    simp only [Recurrence.times] at hshows
    simp only [fires, Bool.and_eq_true, hshows rfl, Recurrence.Selects, List.contains_iff_mem,
      Option.any_eq_true]
    tauto
  | monthly interval target times =>
    simp only [Recurrence.times] at hshows
    simp only [fires, Bool.and_eq_true, hshows rfl, Recurrence.Selects, monthAligned]
    rw [any_near_iff, and_comm]
    · simp only [Bool.and_eq_true, List.contains_iff_mem]
    · intro ym htest
      simp only [Bool.and_eq_true, List.contains_iff_mem] at htest
      exact ⟨(MonthTarget.dayNumber_of_mem_datesIn htest.2).2.1,
        MonthTarget.index_of_mem_datesIn htest.2⟩
  | ordinal interval position weekday times =>
    simp only [Recurrence.times] at hshows
    simp only [fires, Bool.and_eq_true, hshows rfl, Recurrence.Selects, monthAligned,
      decide_eq_true_eq, Option.mem_toList]
    constructor
    · rintro ⟨⟨htime, haligned⟩, hdate⟩
      exact ⟨⟨_, haligned, hdate⟩, htime⟩
    · rintro ⟨⟨ym, haligned, hdate⟩, htime⟩
      obtain ⟨_, rfl⟩ := YearMonth.ofDate_of_positionedWeekday? hdate
      exact ⟨⟨htime, haligned⟩, hdate⟩
  | once day times =>
    simp only [Recurrence.times] at hshows
    simp only [fires, Bool.and_eq_true, hshows rfl, Recurrence.Selects]
  | yearly interval target times =>
    simp only [Recurrence.times] at hshows
    simp only [fires, Bool.and_eq_true, hshows rfl, Recurrence.Selects, decide_eq_true_eq]
    tauto

/-- In universal time an instant shows a listed time only if its own is listed. -/
theorem shows_iff_of_isOnClock (huniversal : frame.zone.IsUniversal)
    (hclock : recurrence.isWindow = false → ∀ time ∈ recurrence.times, time.IsOnClock) :
    frame.Shows recurrence moment ↔ frame.zone.timeOf moment ∈ recurrence.times := by
  rw [Shows, or_iff_left_iff_imp]
  rintro ⟨hlisted, time, htime, hresolved⟩
  rwa [← hresolved, huniversal.timeOf_instantAt (hclock hlisted time htime)]

theorem shows_iff (huniversal : frame.zone.IsUniversal) (hwell : recurrence.WellFormed) :
    frame.Shows recurrence moment ↔ frame.zone.timeOf moment ∈ recurrence.times :=
  shows_iff_of_isOnClock huniversal fun _ _ htime => hwell.isOnClock htime

/-- In universal time the whole minutes at which a recurrence fires are the
instants it offers. -/
theorem fires_iff_offers (huniversal : frame.zone.IsUniversal) (hwell : recurrence.WellFormed)
    (hminute : moment.IsWholeMinute) (hsupported : (frame.zone.dateOf moment).IsSupported) :
    frame.fires recurrence moment = true ↔ frame.Offers recurrence moment := by
  rw [fires_iff_shows, shows_iff huniversal hwell]
  constructor
  · rintro ⟨hselects, htime⟩
    exact ⟨_, hsupported, hselects, _, htime, huniversal.instantAt_dateOf_timeOf hminute⟩
  · rintro ⟨date, _, hselects, time, htime, rfl⟩
    rw [huniversal.keepsDates.dateOf_instantAt, huniversal.timeOf_instantAt (hwell.isOnClock htime)]
    exact ⟨hselects, htime⟩

/-- An offered instant is a whole minute of a supported date. -/
theorem Offers.isWholeMinute (huniversal : frame.zone.IsUniversal) (hwell : recurrence.WellFormed)
    (hoffers : frame.Offers recurrence moment) :
    moment.IsWholeMinute ∧ (frame.zone.dateOf moment).IsSupported := by
  obtain ⟨date, hsupported, _, time, htime, rfl⟩ := hoffers
  rw [huniversal.keepsDates.dateOf_instantAt]
  exact ⟨huniversal.isWholeMinute_instantAt (hwell.isOnClock htime), hsupported⟩

end Frame

end Cadence
