import Mathlib.Data.Int.Init
import Cadence.Proofs.Zone.SpacedZones

/-!
# How readings are resolved

Offsets shorter than a day that change two days apart are all that it takes to
resolve readings.  A reading that is shown is resolved to the first second that shows
it.  One that is skipped lies in the gap of a change, and the offset that was in force
a day before it is the one before this gap, whichever side of universal time the two
offsets are on.
-/

namespace Cadence

namespace Zone

variable {zone : Zone} {moment reading first second : Int}

/-- From a second on another offset is in force than before. -/
def ChangesAt (zone : Zone) (moment : Int) : Prop :=
  zone.offsetAt (moment - 1) ≠ zone.offsetAt moment

/-- Between two seconds without a change the offset stays. -/
theorem offsetAt_eq_of_not_changesAt (hle : first ≤ second)
    (hnone : ∀ moment, first < moment → moment ≤ second → ¬ zone.ChangesAt moment) :
    zone.offsetAt first = zone.offsetAt second := by
  induction second, hle using Int.leInduction with
  | base => rfl
  | succ second hle ih =>
    have hstays : zone.offsetAt (second + 1 - 1) = zone.offsetAt (second + 1) :=
      not_not.mp (hnone (second + 1) (Int.lt_add_one_of_le hle) (Int.le_refl _))
    rw [Int.add_sub_cancel] at hstays
    rw [← hstays]
    exact ih fun moment hafter hby => hnone moment hafter (Int.le_add_one hby)

/-- Closer together, both changes would be the one that is seen from in between. -/
theorem HasSpacedChanges.add_le_of_changesAt (hspaced : zone.HasSpacedChanges)
    (hfirst : zone.ChangesAt first) (hsecond : zone.ChangesAt second) (hlt : first < second) :
    first + 2 * daySeconds ≤ second := by
  by_contra hclose
  obtain ⟨change, -, hagrees⟩ := hspaced (first - 1 + daySeconds)
  have hmoment : ∀ moment, first ≤ moment → moment ≤ second → zone.ChangesAt moment →
      moment = change.moment := by
    intro moment hlow hhigh hchanges
    by_contra hne
    apply hchanges
    rw [hagrees (moment - 1) (by omega) (by omega), hagrees moment (by omega) (by omega),
      OffsetChange.offsetAt, OffsetChange.offsetAt]
    split <;> split <;> first | rfl | omega
  have hsame := hmoment first (Int.le_refl _) (Int.le_of_lt hlt) hfirst
  rw [← hmoment second (Int.le_of_lt hlt) (Int.le_refl _) hsecond] at hsame
  exact absurd hsame (Int.ne_of_lt hlt)

/-- A zone has spaced changes if its offsets are shorter than a day and change two days
apart at the earliest. -/
theorem hasSpacedChanges_iff : zone.HasSpacedChanges ↔
    (∀ second, -daySeconds < zone.offsetAt second ∧ zone.offsetAt second < daySeconds) ∧
      ∀ first second, zone.ChangesAt first → zone.ChangesAt second → first < second →
        first + 2 * daySeconds ≤ second := by
  constructor
  · exact fun hspaced => ⟨hspaced.offsetAt_bounds, fun _ _ => hspaced.add_le_of_changesAt⟩
  · rintro ⟨hshort, hapart⟩ center
    by_cases hchange : ∃ moment, center - daySeconds < moment ∧ moment ≤ center + daySeconds ∧
        zone.ChangesAt moment
    · obtain ⟨moment, hlow, hhigh, hmoment⟩ := hchange
      refine ⟨⟨moment, zone.offsetAt (moment - 1), zone.offsetAt moment⟩,
        ⟨hshort _, hshort _⟩, fun second hfrom hto => ?_⟩
      rw [OffsetChange.offsetAt]
      split
      · rename_i hbefore
        refine offsetAt_eq_of_not_changesAt (Int.le_sub_one_of_lt hbefore) ?_
        intro other _ _ hother
        have hfar := hapart other moment hother hmoment (by omega)
        omega
      · rename_i hafter
        refine (offsetAt_eq_of_not_changesAt (Int.not_lt.mp hafter) ?_).symm
        intro other _ _ hother
        have hfar := hapart moment other hmoment hother (by omega)
        omega
    · refine ⟨⟨center - daySeconds, zone.offsetAt (center - daySeconds),
        zone.offsetAt (center - daySeconds)⟩, ⟨hshort _, hshort _⟩, fun second hfrom hto => ?_⟩
      rw [OffsetChange.offsetAt, ite_self]
      exact (offsetAt_eq_of_not_changesAt hfrom fun moment hlow hhigh hmoment =>
        hchange ⟨moment, hlow, Int.le_trans hhigh hto, hmoment⟩).symm

/-! ### Gaps -/

/-- A moment in whose gap a reading lies: the clocks go from an earlier one right to a
later one. -/
structure SkipsAt (zone : Zone) (moment reading : Int) : Prop where
  before : zone.localSecond (moment - 1) < reading
  after : reading < zone.localSecond moment

/-- The offsets around the change that passes over a reading. -/
theorem PassesOver.offsetAt_moment {change : OffsetChange}
    (hpasses : zone.PassesOver reading change) :
    zone.offsetAt (change.moment - 1) = change.before ∧
      zone.offsetAt change.moment = change.after := by
  have hbounds := hpasses.isShort
  have hlate := hpasses.late
  have hearly := hpasses.early
  simp only [OffsetChange.IsShort] at hbounds
  rw [hpasses.agrees _ (by omega) (by omega), hpasses.agrees _ (by omega) (by omega)]
  exact ⟨if_pos (Int.sub_one_lt_of_le (Int.le_refl _)), if_neg (Int.lt_irrefl _)⟩

theorem PassesOver.skipsAt {change : OffsetChange} (hpasses : zone.PassesOver reading change) :
    zone.SkipsAt change.moment reading := by
  obtain ⟨hbefore, hafter⟩ := hpasses.offsetAt_moment
  have hlate := hpasses.late
  have hearly := hpasses.early
  constructor
  · rw [localSecond, hbefore]
    omega
  · rw [localSecond, hafter]
    omega

theorem SkipsAt.changesAt (hskips : zone.SkipsAt moment reading) : zone.ChangesAt moment := by
  intro hsame
  have hbefore := hskips.before
  have hafter := hskips.after
  simp only [localSecond] at hbefore hafter
  omega

/-- The gaps of spaced changes do not overlap. -/
theorem HasSpacedChanges.eq_of_skipsAt (hspaced : zone.HasSpacedChanges)
    (hfirst : zone.SkipsAt first reading) (hsecond : zone.SkipsAt second reading) :
    first = second := by
  have hle : ∀ {first second}, zone.SkipsAt first reading → zone.SkipsAt second reading →
      second ≤ first := by
    intro first second hfirst hsecond
    by_contra hlt
    have hapart := hspaced.add_le_of_changesAt hfirst.changesAt hsecond.changesAt
      (Int.not_le.mp hlt)
    have hbounds := hspaced.offsetAt_bounds first
    have hbounds' := hspaced.offsetAt_bounds (second - 1)
    have hafter := hfirst.after
    have hbefore := hsecond.before
    simp only [localSecond, daySeconds] at *
    omega
  exact Int.le_antisymm (hle hsecond hfirst) (hle hfirst hsecond)

/-- A shown reading is resolved to the first second that shows it.  A skipped one is read
with the offset in force before its gap, which leads past the change and shows what comes
later by the length of the gap. -/
theorem resolve_spec_of_spaced
    (hshort : ∀ second, -daySeconds < zone.offsetAt second ∧ zone.offsetAt second < daySeconds)
    (hapart : ∀ first second, zone.ChangesAt first → zone.ChangesAt second → first < second →
      first + 2 * daySeconds ≤ second) (reading : Int) :
    ((∃ second, zone.localSecond second = reading) →
      zone.ShowsFirst (zone.resolve reading) reading) ∧
    ((∀ second, zone.localSecond second ≠ reading) →
      (∃ moment, zone.SkipsAt moment reading) ∧
      ∀ moment, zone.SkipsAt moment reading →
        zone.resolve reading = reading - zone.offsetAt (moment - 1) ∧
        moment ≤ zone.resolve reading ∧
        zone.localSecond (zone.resolve reading) =
          reading + (zone.offsetAt moment - zone.offsetAt (moment - 1))) := by
  have hspaced : zone.HasSpacedChanges := hasSpacedChanges_iff.mpr ⟨hshort, hapart⟩
  constructor
  · rintro ⟨second, hsecond⟩
    exact (zone.resolve_spec reading).resolve_right fun hskipped => hskipped.1 second hsecond
  · intro hskipped
    obtain ⟨change, hpasses, hresolve⟩ := hspaced.exists_passesOver hskipped
    refine ⟨⟨change.moment, hpasses.skipsAt⟩, fun moment hmoment => ?_⟩
    obtain rfl := hspaced.eq_of_skipsAt hmoment hpasses.skipsAt
    obtain ⟨hbefore, hafter⟩ := hpasses.offsetAt_moment
    rw [hbefore, hafter, hresolve]
    exact ⟨rfl, hpasses.late, hpasses.localSecond_sub_before⟩

/-- On 2011-12-30, which Apia left out, noon is moved to noon of the next date. -/
theorem resolve_spec_of_spaced_left_out :
    apia ∈ table ∧ (∀ second, apia.localSecond second ≠ 63460929600) ∧
      apia.SkipsAt 63460922400 63460929600 ∧ 63460922400 ≤ apia.resolve 63460929600 ∧
      apia.localSecond (apia.resolve 63460929600) = 63460929600 + daySeconds := by
  have hmem : apia ∈ table := by decide +kernel
  have hskipped : ∀ second, apia.localSecond second ≠ 63460929600 := by
    intro second hshown
    have hnone : apia.secondsShowing 63460929600 = [] := by decide +kernel
    rw [← mem_secondsShowing_iff, hnone] at hshown
    exact List.not_mem_nil hshown
  have hskips : apia.SkipsAt 63460922400 63460929600 :=
    ⟨by decide +kernel, by decide +kernel⟩
  have hlength : apia.offsetAt 63460922400 - apia.offsetAt (63460922400 - 1) = daySeconds := by
    decide +kernel
  obtain ⟨hshort, hapart⟩ := hasSpacedChanges_iff.mp (hasSpacedChanges_of_mem_table hmem)
  obtain ⟨-, hpast, hshows⟩ :=
    ((resolve_spec_of_spaced hshort hapart 63460929600).2 hskipped).2 _ hskips
  rw [hlength] at hshows
  exact ⟨hmem, hskipped, hskips, hpast, hshows⟩

end Zone

end Cadence
