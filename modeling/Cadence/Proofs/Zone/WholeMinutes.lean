import Cadence.Proofs.Zone.OrderlyZones

/-!
# Zones that count whole minutes

Offsets have been whole minutes, and have changed at the turn of a minute, since local
mean time went out of use.  In such a zone no minute of a date is reached after the last
one, and this is the minute that the clocks show then.
-/

namespace Cadence

namespace Zone

/-- Offsets are whole minutes and change at the turn of a minute. -/
structure CountsMinutes (zone : Zone) : Prop where
  offsets : ∀ second, zone.offsetAt second % 60 = 0
  changes : ∀ second, zone.offsetAt (second / 60 * 60) = zone.offsetAt second

namespace CountsMinutes

variable {zone : Zone} {reading second : Int}

theorem localSecond_emod (hminutes : zone.CountsMinutes) (hsecond : second % 60 = 0) :
    zone.localSecond second % 60 = 0 := by
  have hoffset := hminutes.offsets second
  rw [localSecond]
  omega

/-- Whole minutes on the clock are resolved to whole minutes. -/
theorem resolve_emod (hminutes : zone.CountsMinutes) (hreading : reading % 60 = 0) :
    zone.resolve reading % 60 = 0 := by
  rcases zone.resolve_spec reading with ⟨hshown, _⟩ | ⟨_, hresolve⟩
  · have hoffset := hminutes.offsets (zone.resolve reading)
    rw [localSecond] at hshown
    omega
  · have hoffset := hminutes.offsets (reading - daySeconds)
    omega

/-- Within a minute the clocks are not changed. -/
theorem localSecond_add_one (hminutes : zone.CountsMinutes) (hsecond : second % 60 = 0) :
    zone.localSecond (second + 1) = zone.localSecond second + 1 := by
  have hchange := hminutes.changes (second + 1)
  rw [show (second + 1) / 60 * 60 = second by omega] at hchange
  rw [localSecond, localSecond, ← hchange]
  omega

theorem isWholeMinute_instantAt (hminutes : zone.CountsMinutes) (date : Date) (time : TimeOfDay) :
    (zone.instantAt date time).IsWholeMinute := by
  refine ⟨rfl, hminutes.resolve_emod ?_⟩
  rw [secondOf, TimeOfDay.secondOfDay, daySeconds]
  omega

end CountsMinutes

/-- A skipped reading is moved forward. -/
theorem IsOrderly.le_localSecond_resolve {zone : Zone} (horderly : zone.IsOrderly) (reading : Int) :
    reading ≤ zone.localSecond (zone.resolve reading) := by
  obtain ⟨moment, before, after, ⟨hbefore, hafter, -, -⟩, hlocal, hresolve⟩ :=
    horderly.exists_change reading
  simp only [daySeconds] at hbefore hafter
  have hresolve := hresolve reading (by omega) (by omega)
  rw [hlocal _ (by split at hresolve <;> omega) (by split at hresolve <;> omega)]
  split at hresolve <;> split <;> omega

section LastMinute

variable {zone : Zone} (horderly : zone.IsOrderly) (hminutes : zone.CountsMinutes) (date : Date)
include horderly hminutes

/-- The last minute of a date is shown when it is reached. -/
theorem localSecond_resolve_lastMinute :
    zone.localSecond (zone.resolve (date.dayNumber * 86400 + 86340)) =
      date.dayNumber * 86400 + 86340 := by
  have hle := horderly.le_localSecond_resolve (date.dayNumber * 86400 + 86340)
  have hdate := horderly.dateOfSecond_resolve (date.dayNumber * 86400 + 86340)
  have hwhole := hminutes.localSecond_emod
    (hminutes.resolve_emod (show (date.dayNumber * 86400 + 86340) % 60 = 0 by omega))
  simp only [dateOfSecond, daySeconds, Date.mk.injEq] at hdate
  omega

/-- No minute of a date is reached after the last one. -/
theorem resolve_le_lastMinute {time : TimeOfDay} (htime : time.IsOnClock) :
    zone.resolve (secondOf date time.secondOfDay) ≤
      zone.resolve (date.dayNumber * 86400 + 86340) := by
  have hlate := htime.minutes_lt
  have hreading : secondOf date time.secondOfDay = date.dayNumber * 86400 + time.minutes * 60 := by
    rw [secondOf, htime.secondOfDay_eq, daySeconds]
    push_cast
    rfl
  rw [hreading]
  refine Int.not_lt.mp fun hlt => ?_
  have hsame : dateOfSecond (date.dayNumber * 86400 + 86340) =
      dateOfSecond (date.dayNumber * 86400 + time.minutes * 60) := by
    simp only [dateOfSecond, daySeconds, Date.mk.injEq]
    omega
  -- What the clocks show then lies between the last minute and midnight.
  have hshown := horderly.lt_localSecond_resolve hsame hlt
  have hdate := horderly.dateOfSecond_resolve (date.dayNumber * 86400 + time.minutes * 60)
  have hwhole := hminutes.localSecond_emod
    (hminutes.resolve_emod (show (date.dayNumber * 86400 + time.minutes * 60) % 60 = 0 by omega))
  simp only [dateOfSecond, daySeconds, Date.mk.injEq] at hdate
  omega

end LastMinute

/-! ## Zones given by a list of changes -/

/-- Whether offsets and moments of change are whole minutes. -/
def minutesOnly (zone : Zone) : Bool :=
  decide (zone.initial % 60 = 0) &&
    zone.transitions.all fun transition =>
      decide (transition.moment % 60 = 0) && decide (transition.offset % 60 = 0)

theorem countsMinutes_of_minutesOnly {zone : Zone} (honly : zone.minutesOnly = true) :
    zone.CountsMinutes := by
  simp only [minutesOnly, Bool.and_eq_true, decide_eq_true_eq, List.all_eq_true] at honly
  obtain ⟨hinitial, htransitions⟩ := honly
  refine ⟨fun second => ?_, fun second => ?_⟩
  · have hmem := List.mem_eraseDups.mp (zone.offsetAt_mem_offsets second)
    rcases List.mem_cons.mp hmem with hfirst | hlater
    · rwa [hfirst]
    · obtain ⟨transition, hlisted, hoffset⟩ := List.mem_map.mp hlater
      rw [← hoffset]
      exact (htransitions transition hlisted).2
  · unfold offsetAt
    generalize zone.initial = current
    generalize zone.transitions = transitions at htransitions
    induction transitions generalizing current with
    | nil => rfl
    | cons transition later ih =>
      obtain ⟨⟨hmoment, _⟩, hlater⟩ := List.forall_mem_cons.mp htransitions
      rw [offsetAfter, offsetAfter, ih transition.offset hlater]
      by_cases hbefore : second < transition.moment
      · rw [if_pos hbefore, if_pos (by omega)]
      · rw [if_neg hbefore, if_neg (by omega)]

/-- All zones of the table count whole minutes. -/
theorem countsMinutes_of_mem_table {zone : Zone} (hmem : zone ∈ table) : zone.CountsMinutes := by
  have htable : table.all minutesOnly = true := by decide +kernel
  exact countsMinutes_of_minutesOnly (List.all_eq_true.mp htable zone hmem)

end Zone

end Cadence
