import Cadence.Clock.Instant
import Cadence.Clock.TimeOfDay
import Mathlib.Order.Basic

/-!
# The order of instants and of times of day

Both orders are linear, so the least and greatest entries of a list are what
their names say.  On the clock, times of day are ordered as their minutes.
-/

namespace Cadence

namespace Instant

theorem le_def {first second : Instant} : first ≤ second ↔
    first.second < second.second ∨ first.second = second.second ∧ first.nano ≤ second.nano :=
  Iff.rfl

theorem lt_def {first second : Instant} : first < second ↔
    first.second < second.second ∨ first.second = second.second ∧ first.nano < second.nano :=
  Iff.rfl

instance : Std.IsLinearOrder Instant where
  le_refl _ := by
    rw [le_def]
    omega
  le_trans _ _ _ hfirst hsecond := by
    rw [le_def] at *
    omega
  le_antisymm := by
    rintro ⟨second, nano⟩ ⟨second', nano'⟩ hle hge
    simp only [le_def, mk.injEq] at *
    omega
  le_total _ _ := by
    rw [le_def, le_def]
    omega

theorem min_eq_ite (first second : Instant) :
    min first second = if first ≤ second then first else second := rfl

theorem max_eq_ite (first second : Instant) :
    max first second = if first ≤ second then second else first := rfl

instance : Std.LawfulOrderMin Instant where
  min_eq_or first second := by
    rw [min_eq_ite]
    exact ite_eq_or_eq _ _ _
  le_min_iff first second third := by
    simp only [min_eq_ite, le_def]
    split <;> omega

instance : Std.LawfulOrderMax Instant where
  max_eq_or first second := by
    rw [max_eq_ite]
    exact (ite_eq_or_eq _ _ _).symm
  max_le_iff first second third := by
    simp only [max_eq_ite, le_def]
    split <;> omega

theorem not_le {first second : Instant} : ¬ first ≤ second ↔ second < first := by
  rw [le_def, lt_def]
  omega

theorem not_lt {first second : Instant} : ¬ first < second ↔ second ≤ first := by
  rw [← not_le, Decidable.not_not]

theorem lt_irrefl (moment : Instant) : ¬ moment < moment := by
  rw [lt_def]
  omega

theorem lt_asymm {first second : Instant} (hlt : first < second) : ¬ second < first := by
  rw [lt_def] at *
  omega

theorem lt_trans {first second third : Instant} (hfirst : first < second)
    (hsecond : second < third) : first < third := by
  rw [lt_def] at *
  omega

theorem le_of_lt {first second : Instant} (hlt : first < second) : first ≤ second := by
  simp only [lt_def, le_def] at *
  omega

theorem lt_of_le_of_lt {first second third : Instant} (hfirst : first ≤ second)
    (hsecond : second < third) : first < third := by
  simp only [lt_def, le_def] at *
  omega

theorem lt_of_lt_of_le {first second third : Instant} (hfirst : first < second)
    (hsecond : second ≤ third) : first < third := by
  simp only [lt_def, le_def] at *
  omega

theorem eq_of_not_lt {first second : Instant} (hfirst : ¬ first < second)
    (hsecond : ¬ second < first) : first = second := by
  obtain ⟨second₁, nano₁⟩ := first
  obtain ⟨second₂, nano₂⟩ := second
  simp only [lt_def, mk.injEq] at *
  omega

theorem ofSecond_lt_iff {second : Int} {moment : Instant} :
    ofSecond second < moment ↔
      second < moment.second ∨ second = moment.second ∧ 0 < moment.nano :=
  Iff.rfl

theorem lt_ofSecond_iff {second : Int} {moment : Instant} :
    moment < ofSecond second ↔ moment.second < second := by
  simp only [lt_def, ofSecond]
  omega

theorem shift_ofSecond (second seconds : Int) :
    (ofSecond second).shift seconds = ofSecond (second + seconds) :=
  if_pos (show 0 < secondNanos by decide)

theorem second_add_le_shift (moment : Instant) (seconds : Int) :
    moment.second + seconds ≤ (moment.shift seconds).second := by
  rw [shift]
  split
  · exact Int.le_refl _
  · split
    · exact Int.le_refl _
    · split
      · change _ ≤ moment.second + 1 + seconds
        omega
      · omega

end Instant

namespace TimeOfDay

theorem le_def {first second : TimeOfDay} : first ≤ second ↔
    first.hour < second.hour ∨ first.hour = second.hour ∧ first.minute ≤ second.minute :=
  Iff.rfl

instance : Std.IsLinearOrder TimeOfDay where
  le_refl _ := by
    rw [le_def]
    omega
  le_trans _ _ _ hfirst hsecond := by
    rw [le_def] at *
    omega
  le_antisymm := by
    rintro ⟨hour, minute⟩ ⟨hour', minute'⟩ hle hge
    simp only [le_def, mk.injEq] at *
    omega
  le_total _ _ := by
    rw [le_def, le_def]
    omega

theorem max_eq_ite (first second : TimeOfDay) :
    max first second = if first ≤ second then second else first := rfl

instance : Std.LawfulOrderMax TimeOfDay where
  max_eq_or first second := by
    rw [max_eq_ite]
    exact (ite_eq_or_eq _ _ _).symm
  max_le_iff first second third := by
    simp only [max_eq_ite, le_def]
    split <;> omega

/-! ## Minutes of the day -/

theorem IsOnClock.minutes_lt {time : TimeOfDay} (hclock : time.IsOnClock) :
    time.minutes < 1440 := by
  obtain ⟨hhour, hminute⟩ := hclock
  simp only [minutes]
  omega

theorem IsOnClock.secondOfDay_eq {time : TimeOfDay} (hclock : time.IsOnClock) :
    time.secondOfDay = time.minutes * 60 := by
  have := hclock.minutes_lt
  simp only [secondOfDay]
  omega

theorem secondOfDay_lt (time : TimeOfDay) : time.secondOfDay < 86400 :=
  Nat.mod_lt _ (by omega)

theorem minutes_mono {first second : TimeOfDay} (hfirst : first.IsOnClock) (hle : first ≤ second) :
    first.minutes ≤ second.minutes := by
  have := hfirst.2
  rw [le_def] at hle
  simp only [minutes]
  omega

theorem minutes_ofMinutes (n : Nat) : (ofMinutes n).minutes = n := by
  simp only [minutes, ofMinutes]
  omega

theorem IsOnClock.ofMinutes_minutes {time : TimeOfDay} (hclock : time.IsOnClock) :
    ofMinutes time.minutes = time := by
  obtain ⟨hour, minute⟩ := time
  have := hclock.2
  simp only [minutes, ofMinutes, mk.injEq] at *
  omega

theorem isOnClock_ofMinutes {n : Nat} (hn : n < 1440) : (ofMinutes n).IsOnClock := by
  simp only [IsOnClock, ofMinutes]
  omega

end TimeOfDay

end Cadence
