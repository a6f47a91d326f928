import Cadence.Proofs.Clock.Order
import Cadence.Zone.Basic

/-!
# Universal time

In a zone without any offset local readings are seconds of universal time, so
each date and time of day is shown by exactly one instant.  What searches need
of a zone is less: that the instants of a date lie apart from those of other
dates.  `Zone.KeepsDates` states that much.
-/

namespace Cadence

/-- An instant at the start of a minute. -/
def Instant.IsWholeMinute (moment : Instant) : Prop :=
  moment.nano = 0 ∧ moment.second % 60 = 0

instance (moment : Instant) : Decidable moment.IsWholeMinute :=
  inferInstanceAs (Decidable (_ ∧ _))

namespace Instant.IsWholeMinute

variable {first second : Instant}

/-- Before the next minute lie those that are not later. -/
theorem lt_shift_iff (hfirst : first.IsWholeMinute) (hsecond : second.IsWholeMinute) :
    second < first.shift 60 ↔ ¬ first < second := by
  obtain ⟨hnano, hwhole⟩ := hfirst
  obtain ⟨hnano', hwhole'⟩ := hsecond
  obtain ⟨number, _⟩ := first
  obtain rfl : _ = 0 := hnano
  rw [show (⟨number, 0⟩ : Instant) = .ofSecond number from rfl, shift_ofSecond, lt_ofSecond_iff,
    ofSecond_lt_iff]
  simp only at hwhole
  omega

/-- After the minute before lie those that are not earlier. -/
theorem shift_lt_iff (hfirst : first.IsWholeMinute) (hsecond : second.IsWholeMinute) :
    first.shift (-60) < second ↔ ¬ second < first := by
  obtain ⟨hnano, hwhole⟩ := hfirst
  obtain ⟨hnano', hwhole'⟩ := hsecond
  obtain ⟨number, _⟩ := first
  obtain rfl : _ = 0 := hnano
  rw [show (⟨number, 0⟩ : Instant) = .ofSecond number from rfl, shift_ofSecond, lt_ofSecond_iff,
    ofSecond_lt_iff]
  simp only at hwhole
  omega

theorem shift_neg_lt (hfirst : first.IsWholeMinute) : first.shift (-60) < first :=
  (hfirst.shift_lt_iff hfirst).mpr (Instant.lt_irrefl first)

end Instant.IsWholeMinute

namespace Zone

/-- A zone that never leaves universal time. -/
def IsUniversal (zone : Zone) : Prop := ∀ second, zone.offsetAt second = 0

/-- The times of a date are reached on that date, after all instants of earlier
dates and before all instants of later ones. -/
structure KeepsDates (zone : Zone) : Prop where
  instantAt_lt : ∀ {date : Date} {now : Instant} (time : TimeOfDay),
    date < zone.dateOf now → zone.instantAt date time < now
  lt_instantAt : ∀ {date : Date} {now : Instant} (time : TimeOfDay),
    zone.dateOf now < date → now < zone.instantAt date time

namespace KeepsDates

variable {zone : Zone}

theorem dateOf_instantAt (hzone : zone.KeepsDates) (date : Date) (time : TimeOfDay) :
    zone.dateOf (zone.instantAt date time) = date := by
  rcases Int.lt_trichotomy (zone.dateOf (zone.instantAt date time)).dayNumber date.dayNumber with
    hlt | heq | hgt
  · exact absurd (hzone.lt_instantAt time hlt) (Instant.lt_irrefl _)
  · exact congrArg Date.mk heq
  · exact absurd (hzone.instantAt_lt time hgt) (Instant.lt_irrefl _)

/-- Dates in order have their times in order. -/
theorem instantAt_lt_instantAt (hzone : zone.KeepsDates) {first second : Date}
    (hlt : first < second) (time time' : TimeOfDay) :
    zone.instantAt first time < zone.instantAt second time' :=
  hzone.instantAt_lt time (by rwa [hzone.dateOf_instantAt])

/-- A time after `now` is on the date of `now` or a later one. -/
theorem dateOf_le_of_lt (hzone : zone.KeepsDates) {date : Date} {time : TimeOfDay} {now : Instant}
    (hlt : now < zone.instantAt date time) : zone.dateOf now ≤ date :=
  Int.not_lt.mp fun hearlier => Instant.lt_asymm hlt (hzone.instantAt_lt time hearlier)

/-- A time before `now` is on the date of `now` or an earlier one. -/
theorem le_dateOf_of_lt (hzone : zone.KeepsDates) {date : Date} {time : TimeOfDay} {now : Instant}
    (hlt : zone.instantAt date time < now) : date ≤ zone.dateOf now :=
  Int.not_lt.mp fun hlater => Instant.lt_asymm hlt (hzone.lt_instantAt time hlater)

end KeepsDates

theorem offsetAt_mem_offsets (zone : Zone) (second : Int) :
    zone.offsetAt second ∈ zone.offsets := by
  have hmem : ∀ (later : List Transition) (current : Int),
      offsetAfter current later second ∈ current :: later.map Transition.offset := by
    intro later
    induction later with
    | nil => exact fun current => List.mem_singleton.mpr rfl
    | cons transition later ih =>
      intro current
      rw [offsetAfter]
      split
      · exact List.mem_cons_self
      · exact List.mem_cons_of_mem _ (ih transition.offset)
  exact List.mem_eraseDups.mpr (hmem zone.transitions zone.initial)

theorem isOnClock_timeOf (zone : Zone) (moment : Instant) : (zone.timeOf moment).IsOnClock := by
  rw [timeOf, clockOfSecond, daySeconds]
  exact TimeOfDay.isOnClock_ofMinutes (by omega)

theorem isUniversal_universal (name : String) : (universal name).IsUniversal := fun _ => rfl

namespace IsUniversal

variable {zone : Zone}

theorem localSecond (huniversal : zone.IsUniversal) (second : Int) :
    zone.localSecond second = second := by
  rw [Zone.localSecond, huniversal, Int.add_zero]

/-- Every reading is shown by the second of the same number alone. -/
theorem resolve (huniversal : zone.IsUniversal) (reading : Int) :
    zone.resolve reading = reading := by
  have hshown : ∀ second ∈ zone.secondsShowing reading, second = reading := by
    intro second hsecond
    simpa only [huniversal.localSecond, decide_eq_true_eq] using (List.mem_filter.mp hsecond).2
  have hmem : reading ∈ zone.secondsShowing reading := by
    refine List.mem_filter.mpr ⟨List.mem_map.mpr ⟨0, ?_, Int.sub_zero reading⟩, ?_⟩
    · simpa only [huniversal reading] using zone.offsetAt_mem_offsets reading
    · rw [huniversal.localSecond, decide_eq_true_eq]
  have hleast : (zone.secondsShowing reading).min? = some reading := by
    rw [List.min?_eq_some_iff]
    exact ⟨hmem, fun second hsecond => Int.le_of_eq (hshown second hsecond).symm⟩
  rw [Zone.resolve, hleast]

theorem instantAt (huniversal : zone.IsUniversal) (date : Date) (time : TimeOfDay) :
    zone.instantAt date time = .ofSecond (date.dayNumber * 86400 + time.secondOfDay) := by
  rw [Zone.instantAt, huniversal.resolve]
  rfl

theorem dateOf (huniversal : zone.IsUniversal) (moment : Instant) :
    zone.dateOf moment = ⟨moment.second / 86400⟩ := by
  rw [Zone.dateOf, huniversal.localSecond]
  rfl

theorem timeOf (huniversal : zone.IsUniversal) (moment : Instant) :
    zone.timeOf moment = .ofMinutes ((moment.second % 86400).toNat / 60) := by
  rw [Zone.timeOf, huniversal.localSecond]
  rfl

theorem keepsDates (huniversal : zone.IsUniversal) : zone.KeepsDates where
  instantAt_lt {date now} time hlt := by
    have hday := time.secondOfDay_lt
    have hlt : date.dayNumber < now.second / 86400 := by rwa [huniversal.dateOf] at hlt
    rw [huniversal.instantAt, Instant.ofSecond_lt_iff]
    omega
  lt_instantAt {date now} time hlt := by
    have hlt : now.second / 86400 < date.dayNumber := by rwa [huniversal.dateOf] at hlt
    rw [huniversal.instantAt, Instant.lt_ofSecond_iff]
    omega

theorem isWholeMinute_instantAt (huniversal : zone.IsUniversal) {date : Date} {time : TimeOfDay}
    (hclock : time.IsOnClock) : (zone.instantAt date time).IsWholeMinute := by
  rw [huniversal.instantAt, hclock.secondOfDay_eq]
  exact ⟨rfl, by simp only [Instant.ofSecond]; omega⟩

theorem timeOf_instantAt (huniversal : zone.IsUniversal) {date : Date} {time : TimeOfDay}
    (hclock : time.IsOnClock) : zone.timeOf (zone.instantAt date time) = time := by
  have hminutes := hclock.minutes_lt
  rw [huniversal.timeOf, huniversal.instantAt, hclock.secondOfDay_eq]
  rw [← hclock.ofMinutes_minutes, TimeOfDay.minutes_ofMinutes]
  congr 1
  simp only [Instant.ofSecond]
  omega

/-- A whole minute is given by its date and time of day. -/
theorem instantAt_dateOf_timeOf (huniversal : zone.IsUniversal) {moment : Instant}
    (hminute : moment.IsWholeMinute) :
    zone.instantAt (zone.dateOf moment) (zone.timeOf moment) = moment := by
  obtain ⟨second, nano⟩ := moment
  obtain ⟨hnano, hwhole⟩ := hminute
  simp only at hnano hwhole
  rw [huniversal.instantAt, (zone.isOnClock_timeOf _).secondOfDay_eq, huniversal.timeOf,
    huniversal.dateOf, TimeOfDay.minutes_ofMinutes]
  simp only [Instant.ofSecond, Instant.mk.injEq]
  omega

/-- A time of the current date lies ahead if its minute is later. -/
theorem lt_instantAt_dateOf_iff (huniversal : zone.IsUniversal) {now : Instant} {time : TimeOfDay}
    (hclock : time.IsOnClock) :
    now < zone.instantAt (zone.dateOf now) time ↔ (zone.timeOf now).minutes < time.minutes := by
  rw [huniversal.instantAt, hclock.secondOfDay_eq, huniversal.timeOf, huniversal.dateOf,
    TimeOfDay.minutes_ofMinutes, Instant.lt_ofSecond_iff]
  simp only
  omega

/-- A time of the current date that has passed is not later than the current
minute. -/
theorem minutes_le_of_instantAt_lt (huniversal : zone.IsUniversal) {now : Instant}
    {time : TimeOfDay} (hclock : time.IsOnClock)
    (hlt : zone.instantAt (zone.dateOf now) time < now) :
    time.minutes ≤ (zone.timeOf now).minutes := by
  have hnot := Instant.lt_asymm hlt
  rw [huniversal.lt_instantAt_dateOf_iff hclock] at hnot
  omega

/-- Within a date, later times are reached later. -/
theorem instantAt_lt_iff (huniversal : zone.IsUniversal) {date : Date} {first second : TimeOfDay}
    (hfirst : first.IsOnClock) (hsecond : second.IsOnClock) :
    zone.instantAt date first < zone.instantAt date second ↔ first.minutes < second.minutes := by
  rw [huniversal.instantAt, huniversal.instantAt, hfirst.secondOfDay_eq, hsecond.secondOfDay_eq,
    Instant.lt_ofSecond_iff]
  simp only [Instant.ofSecond]
  omega

theorem lt_of_dateOf_lt (huniversal : zone.IsUniversal) {first second : Instant}
    (hlt : zone.dateOf first < zone.dateOf second) : first < second := by
  rw [huniversal.dateOf, huniversal.dateOf] at hlt
  have hlt : first.second / 86400 < second.second / 86400 := hlt
  rw [Instant.lt_def]
  omega

theorem dateOf_mono (huniversal : zone.IsUniversal) {first second : Instant}
    (hlt : first < second) : zone.dateOf first ≤ zone.dateOf second :=
  Int.not_lt.mp fun hearlier => Instant.lt_asymm hlt (huniversal.lt_of_dateOf_lt hearlier)

end IsUniversal

end Zone

end Cadence
