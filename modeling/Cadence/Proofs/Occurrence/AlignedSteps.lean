import Cadence.Occurrence.Alignment
import Cadence.Proofs.Calendar.Weeks
import Mathlib.Algebra.Order.Ring.Int
import Mathlib.Data.Int.ModEq
import Mathlib.Tactic.Ring

/-!
# Aligned distances in steps

A search looks at the aligned distances ahead of or behind the one it starts
from.  These are the closest aligned distance and the ones that follow it in
steps of the interval.
-/

namespace Cadence

theorem stepOf_pos (interval : Nat) : 0 < stepOf interval := by
  simp only [stepOf]
  omega

theorem stepOf_of_le_one {interval : Nat} (hle : interval ≤ 1) : stepOf interval = 1 :=
  Nat.max_eq_right hle

theorem stepOf_of_pos {interval : Nat} (hpos : 0 < interval) : stepOf interval = interval :=
  Nat.max_eq_left hpos

theorem isAligned_iff_dvd {distance : Int} {interval : Nat} :
    isAligned distance interval = true ↔ (stepOf interval : Int) ∣ distance := by
  rw [isAligned, decide_eq_true_eq, Int.dvd_iff_emod_eq_zero]

/-- Every distance is a multiple of a single step. -/
theorem isAligned_of_le_one (distance : Int) {interval : Nat} (hle : interval ≤ 1) :
    isAligned distance interval = true := by
  rw [isAligned_iff_dvd, stepOf_of_le_one hle]
  exact one_dvd distance

theorem stepsAhead_lt (distance : Int) (interval : Nat) :
    stepsAhead distance interval < stepOf interval := by
  have hpos := stepOf_pos interval
  have hlt := Int.emod_lt_of_pos (-distance) (show (0 : Int) < stepOf interval by omega)
  simp only [stepsAhead]
  omega

theorem stepsBehind_lt (distance : Int) (interval : Nat) :
    stepsBehind distance interval < stepOf interval := by
  have hpos := stepOf_pos interval
  have hlt := Int.emod_lt_of_pos distance (show (0 : Int) < stepOf interval by omega)
  simp only [stepsBehind]
  omega

/-- A distance that differs from `lead` by a multiple of the step lies some steps on from it. -/
theorem exists_steps {step lead ahead : Nat} (hlead : lead < step)
    (hdvd : (step : Int) ∣ (ahead : Int) - lead) : ∃ k : Nat, ahead = lead + k * step := by
  obtain ⟨k, hk⟩ := hdvd
  have hnonneg : 0 ≤ k := by
    by_contra hneg
    have : (step : Int) * k ≤ step * (-1) := Int.mul_le_mul_of_nonneg_left (by omega) (by omega)
    omega
  obtain ⟨n, rfl⟩ := Int.eq_ofNat_of_zero_le hnonneg
  refine ⟨n, ?_⟩
  rw [Nat.mul_comm]
  push_cast [← Int.natCast_inj]
  omega

/-- The aligned distances ahead: the closest and every further step. -/
theorem isAligned_add_iff {distance : Int} {interval ahead : Nat} :
    isAligned (distance + ahead) interval = true ↔
      ∃ k : Nat, ahead = stepsAhead distance interval + k * stepOf interval := by
  have hclosest := isAligned_iff_dvd.mp (isAligned_add_stepsAhead distance interval)
  rw [isAligned_iff_dvd]
  constructor
  · intro hdvd
    apply exists_steps (stepsAhead_lt distance interval)
    have := Int.dvd_sub hdvd hclosest
    rwa [Int.add_sub_add_left] at this
  · rintro ⟨k, rfl⟩
    push_cast
    rw [← Int.add_assoc]
    exact Int.dvd_add hclosest (Dvd.intro_left _ rfl)

/-- The aligned distances behind: the closest and every further step. -/
theorem isAligned_sub_iff {distance : Int} {interval behind : Nat} :
    isAligned (distance - behind) interval = true ↔
      ∃ k : Nat, behind = stepsBehind distance interval + k * stepOf interval := by
  have hclosest := isAligned_iff_dvd.mp (isAligned_sub_stepsBehind distance interval)
  rw [isAligned_iff_dvd]
  constructor
  · intro hdvd
    apply exists_steps (stepsBehind_lt distance interval)
    have := Int.dvd_sub hclosest hdvd
    rwa [sub_sub_sub_cancel_left] at this
  · rintro ⟨k, rfl⟩
    push_cast
    rw [← Int.sub_sub]
    exact Int.dvd_sub hclosest (Dvd.intro_left _ rfl)

/-- What lies ahead of a start is aligned if it is the closest of its kind, or some steps on. -/
theorem isAligned_ahead_iff {place start : Int} {ahead : Nat} (anchor : Int) (interval : Nat)
    (hplace : place = start + ahead) :
    isAligned (place - anchor) interval = true ↔
      ∃ k : Nat, ahead = stepsAhead (start - anchor) interval + k * stepOf interval := by
  have hdistance : place - anchor = start - anchor + ahead := by omega
  rw [hdistance, isAligned_add_iff]

/-- What lies behind a start is aligned if it is the closest of its kind, or some steps back. -/
theorem isAligned_behind_iff {place start : Int} {behind : Nat} (anchor : Int) (interval : Nat)
    (hplace : place = start - behind) :
    isAligned (place - anchor) interval = true ↔
      ∃ k : Nat, behind = stepsBehind (start - anchor) interval + k * stepOf interval := by
  have hdistance : place - anchor = start - anchor - behind := by omega
  rw [hdistance, isAligned_sub_iff]

/-- After any distance that lies before an aligned one, an aligned distance is at
most a step away. -/
theorem exists_isAligned_after {start distance : Int} {interval : Nat}
    (haligned : isAligned distance interval = true) (hlt : start < distance) :
    ∃ closest, start < closest ∧ closest ≤ distance ∧ closest ≤ start + stepOf interval ∧
      isAligned closest interval = true := by
  obtain ⟨ahead, rfl⟩ : ∃ ahead : Nat, distance = start + 1 + ahead :=
    ⟨(distance - start - 1).toNat, by omega⟩
  obtain ⟨k, rfl⟩ := isAligned_add_iff.mp haligned
  have hlead := stepsAhead_lt (start + 1) interval
  exact ⟨start + 1 + stepsAhead (start + 1) interval, by omega, by omega, by omega,
    isAligned_add_stepsAhead _ _⟩

/-- Before any distance that lies after an aligned one, an aligned distance is at
most a step away. -/
theorem exists_isAligned_before {start distance : Int} {interval : Nat}
    (haligned : isAligned distance interval = true) (hlt : distance < start) :
    ∃ closest, closest < start ∧ distance ≤ closest ∧ start ≤ closest + stepOf interval ∧
      isAligned closest interval = true := by
  obtain ⟨behind, rfl⟩ : ∃ behind : Nat, distance = start - 1 - behind :=
    ⟨(start - 1 - distance).toNat, by omega⟩
  obtain ⟨k, rfl⟩ := isAligned_sub_iff.mp haligned
  have hlead := stepsBehind_lt (start - 1) interval
  exact ⟨start - 1 - stepsBehind (start - 1) interval, by omega, by omega, by omega,
    isAligned_sub_stepsBehind _ _⟩

/-- So many steps reach exactly the aligned distances below as many intervals. -/
theorem steps_lt_iff {step lead k count : Nat} (hlead : lead < step) :
    k < count ↔ lead + k * step < count * step := by
  constructor
  · intro hlt
    have : (k + 1) * step ≤ count * step := Nat.mul_le_mul_right step hlt
    rw [Nat.add_mul, Nat.one_mul] at this
    omega
  · intro hlt
    by_contra hge
    have := Nat.mul_le_mul_right step (Nat.not_lt.mp hge)
    omega

/-- Weeks are counted from a Monday. -/
theorem weekAnchor_emod (anchor : Option Date) : weekAnchor anchor % 7 = 1 := by
  cases anchor with
  | none => rfl
  | some date => exact date.weekStart_emod

theorem dayNumber_emod_of_weekAnchor {anchor : Option Date} {first : Date}
    (hfirst : Date.ofDayNumber? (weekAnchor anchor) = some first) : first.dayNumber % 7 = 1 := by
  rw [(Date.ofDayNumber?_eq_some_iff.mp hfirst).1, weekAnchor_emod]

/-- The week of a date begins whole weeks after the day that weeks are counted from. -/
theorem weekStart_eq_add_weeks {anchor : Option Date} {first : Date}
    (hfirst : Date.ofDayNumber? (weekAnchor anchor) = some first) (date : Date) :
    date.weekStart = first.dayNumber + 7 * (date.daysSince first / 7) := by
  have hmod := dayNumber_emod_of_weekAnchor hfirst
  have hstart := date.weekStart_emod
  have hbounds := date.weekStart_bounds
  rw [Date.daysSince]
  omega

/-- The Monday that weeks are counted from is in the calendar. -/
theorem isSome_weekAnchor {anchor : Option Date} (hyear : ∀ date ∈ anchor, date.HasFourDigitYear) :
    (Date.ofDayNumber? (weekAnchor anchor)).isSome = true := by
  cases anchor with
  | none => decide
  | some date =>
    have hweek := date.weekStart_bounds
    have hmonday : (⟨date.weekStart⟩ : Date).IsSupported :=
      (hyear date rfl).isSupported_of_near (by simp only; omega) (by simp only; omega)
    exact Option.isSome_iff_exists.mpr ⟨_, Date.ofDayNumber?_eq_some_iff.mpr ⟨rfl, hmonday⟩⟩

end Cadence
