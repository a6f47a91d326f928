import Cadence.Proofs.Zone.OrderlyZones

/-!
# Zones with spaced changes

Clocks that are changed once within two days at most, by offsets shorter than a day,
show around any second a single change of offset.  If they stay on their date when
they are put back, their dates never go back; if they also move the times they skip
to later ones of the same date, each date has its instants to itself.
-/

namespace Cadence

/-- Offsets are shorter than a day. -/
def OffsetChange.IsShort (change : OffsetChange) : Prop :=
  (-daySeconds < change.before ∧ change.before < daySeconds) ∧
    -daySeconds < change.after ∧ change.after < daySeconds

instance (change : OffsetChange) : Decidable change.IsShort :=
  inferInstanceAs (Decidable (_ ∧ _))

namespace Zone

/-- All offsets are shorter than a day. -/
def HasShortOffsets (zone : Zone) : Prop :=
  ∀ second, -daySeconds < zone.offsetAt second ∧ zone.offsetAt second < daySeconds

/-- A zone whose changes of offset lie two days apart: for a day in either direction
every second sees a single change. -/
def HasSpacedChanges (zone : Zone) : Prop :=
  ∀ center, ∃ change : OffsetChange, change.IsShort ∧
    ∀ second, center - daySeconds ≤ second → second ≤ center + daySeconds →
      zone.offsetAt second = change.offsetAt second

/-- Clocks that are put back stay on their date. -/
def FoldsKeepDates (zone : Zone) : Prop :=
  ∀ second, zone.localSecond second < zone.localSecond (second - 1) →
    dateOfSecond (zone.localSecond second) = dateOfSecond (zone.localSecond (second - 1))

/-- A change of offset at which the clocks pass over a reading: with the offset before
it would come too late, with the offset after it too early. -/
structure PassesOver (zone : Zone) (reading : Int) (change : OffsetChange) : Prop where
  isShort : change.IsShort
  agrees : ∀ second, reading - daySeconds ≤ second → second ≤ reading + daySeconds →
    zone.offsetAt second = change.offsetAt second
  late : change.moment ≤ reading - change.before
  early : reading - change.after < change.moment

/-- Behind the change the clocks show the offset after it. -/
theorem PassesOver.localSecond_eq {zone : Zone} {reading second : Int} {change : OffsetChange}
    (hpasses : zone.PassesOver reading change) (hfrom : change.moment ≤ second)
    (hto : second ≤ reading - change.before) :
    zone.localSecond second = second + change.after := by
  have hbounds := hpasses.isShort
  have hearly := hpasses.early
  simp only [OffsetChange.IsShort, daySeconds] at hbounds
  rw [localSecond, hpasses.agrees second (by simp only [daySeconds]; omega)
    (by simp only [daySeconds]; omega), OffsetChange.offsetAt, if_neg (by omega)]

/-- A reading that is read with the offset before the change comes out later by the
length of the gap. -/
theorem PassesOver.localSecond_sub_before {zone : Zone} {reading : Int} {change : OffsetChange}
    (hpasses : zone.PassesOver reading change) :
    zone.localSecond (reading - change.before) = reading + (change.after - change.before) := by
  rw [hpasses.localSecond_eq hpasses.late (Int.le_refl _)]
  omega

/-- The first second at which the clocks show a reading. -/
def ShowsFirst (zone : Zone) (second reading : Int) : Prop :=
  zone.localSecond second = reading ∧
    ∀ other, zone.localSecond other = reading → second ≤ other

namespace HasSpacedChanges

variable {zone : Zone} {reading first second : Int}

theorem offsetAt_bounds (hspaced : zone.HasSpacedChanges) (second : Int) :
    -86400 < zone.offsetAt second ∧ zone.offsetAt second < 86400 := by
  obtain ⟨change, ⟨hbefore, hafter⟩, hagrees⟩ := hspaced second
  have hday : (0 : Int) ≤ daySeconds := by decide
  rw [hagrees second (by omega) (by omega), OffsetChange.offsetAt]
  split
  · exact hbefore
  · exact hafter

/-! ### Skipped readings -/

/-- A skipped reading is moved forward from a change that passes over it. -/
theorem exists_passesOver (hspaced : zone.HasSpacedChanges)
    (hskipped : ∀ second, zone.localSecond second ≠ reading) :
    ∃ change, zone.PassesOver reading change ∧ zone.resolve reading = reading - change.before := by
  obtain ⟨⟨moment, before, after⟩, hshort, hagrees⟩ := hspaced reading
  have hbounds := hshort
  simp only [OffsetChange.IsShort, daySeconds] at hbounds
  have hlate : moment ≤ reading - before := by
    by_contra hlt
    apply hskipped (reading - before)
    rw [localSecond,
      hagrees _ (by simp only [daySeconds]; omega) (by simp only [daySeconds]; omega),
      OffsetChange.offsetAt, if_pos (by simp only; omega), Int.sub_add_cancel]
  have hearly : reading - after < moment := by
    by_contra hge
    apply hskipped (reading - after)
    rw [localSecond,
      hagrees _ (by simp only [daySeconds]; omega) (by simp only [daySeconds]; omega),
      OffsetChange.offsetAt, if_neg (by simp only; omega), Int.sub_add_cancel]
  refine ⟨⟨moment, before, after⟩, ⟨hshort, hagrees, hlate, hearly⟩, ?_⟩
  rcases zone.resolve_spec reading with ⟨hshown, _⟩ | ⟨_, hresolve⟩
  · exact absurd hshown (hskipped _)
  · have hdayBefore : zone.offsetAt (reading - daySeconds) = before := by
      rw [hagrees _ (Int.le_refl _) (by simp only [daySeconds]; omega)]
      exact if_pos (show reading - 86400 < moment by omega)
    rw [hresolve, hdayBefore]

/-- A reading is resolved to the first second that shows it, or moved forward from a
change that passes over it. -/
theorem showsFirst_or_passesOver (hspaced : zone.HasSpacedChanges) (reading : Int) :
    zone.ShowsFirst (zone.resolve reading) reading ∨
      ∃ change, zone.PassesOver reading change ∧
        zone.resolve reading = reading - change.before := by
  rcases zone.resolve_spec reading with hshown | ⟨hskipped, _⟩
  · exact .inl hshown
  · exact .inr (hspaced.exists_passesOver hskipped)

/-- The clocks show for the first time what they show when a reading is resolved,
whether it is shown or passed over. -/
theorem showsFirst_localSecond_resolve (hspaced : zone.HasSpacedChanges) (reading : Int) :
    zone.ShowsFirst (zone.resolve reading) (zone.localSecond (zone.resolve reading)) := by
  rcases hspaced.showsFirst_or_passesOver reading with
    ⟨hshown, hfirst⟩ | ⟨change, hpasses, hresolve⟩
  · rw [hshown]
    exact ⟨hshown, hfirst⟩
  · refine ⟨rfl, fun other hother => ?_⟩
    rw [hresolve] at hother ⊢
    rw [hpasses.localSecond_sub_before] at hother
    obtain ⟨moment, before, after⟩ := change
    obtain ⟨⟨⟨hbefore, hbefore'⟩, _⟩, hagrees, hlate, hearly⟩ := hpasses
    have hbounds := hspaced.offsetAt_bounds other
    simp only [localSecond, daySeconds, OffsetChange.offsetAt] at *
    by_contra hlt
    rw [hagrees other (by omega) (by omega)] at hother
    split at hother <;> omega

/-! ### The order of dates -/

/-- Until a time is reached, the clocks have not shown a later date than they show then. -/
theorem dateOf_le_dateOf_instantAt (hspaced : zone.HasSpacedChanges) {now : Instant} {date : Date}
    {time : TimeOfDay} (hle : now ≤ zone.instantAt date time) :
    zone.dateOf now ≤ zone.dateOf (zone.instantAt date time) := by
  obtain ⟨-, hfirst⟩ := hspaced.showsFirst_localSecond_resolve (secondOf date time.secondOfDay)
  have hle : now.second ≤ zone.resolve (secondOf date time.secondOfDay) := by
    rw [instantAt, Instant.le_def] at hle
    exact hle.elim Int.le_of_lt fun hsame => Int.le_of_eq hsame.1
  change zone.localSecond now.second / 86400 ≤
    zone.localSecond (zone.resolve (secondOf date time.secondOfDay)) / 86400
  generalize zone.resolve (secondOf date time.secondOfDay) = reached at *
  by_contra hlater
  -- The clocks have been put back in between, so they showed the reading before.
  have hbounds := hspaced.offsetAt_bounds now.second
  have hbounds' := hspaced.offsetAt_bounds reached
  obtain ⟨⟨moment, before, after⟩, hshort, hagrees⟩ := hspaced (reached - 86400)
  have hbefore := hfirst (reached + after - before)
  simp only [OffsetChange.IsShort, localSecond, daySeconds, OffsetChange.offsetAt] at *
  rw [hagrees now.second (by omega) (by omega)] at hlater
  rw [hagrees reached (by omega) (by omega)] at hlater hbefore
  rw [hagrees (reached + after - before) (by omega) (by omega)] at hbefore
  split at hlater <;> split at hbefore <;> omega

/-- Before a time is reached on its date, the clocks have not shown a later one. -/
theorem dateOf_le_of_lt_instantAt (hspaced : zone.HasSpacedChanges) {now : Instant} {date : Date}
    {time : TimeOfDay} (hdate : zone.dateOf (zone.instantAt date time) = date)
    (hlt : now < zone.instantAt date time) : zone.dateOf now ≤ date :=
  hdate ▸ hspaced.dateOf_le_dateOf_instantAt (Instant.le_of_lt hlt)

/-- A time of a date is not reached on an earlier one. -/
theorem le_dateOf_instantAt (hspaced : zone.HasSpacedChanges) (date : Date) (time : TimeOfDay) :
    date ≤ zone.dateOf (zone.instantAt date time) := by
  have hdate : dateOfSecond (secondOf date time.secondOfDay) = date :=
    dateOfSecond_secondOf time.secondOfDay_lt
  have hreached : secondOf date time.secondOfDay ≤
      zone.localSecond (zone.resolve (secondOf date time.secondOfDay)) := by
    rcases hspaced.showsFirst_or_passesOver (secondOf date time.secondOfDay) with
      ⟨hshown, _⟩ | ⟨change, hpasses, hresolve⟩
    · exact Int.le_of_eq hshown.symm
    · have hlate := hpasses.late
      have hearly := hpasses.early
      rw [hresolve, hpasses.localSecond_sub_before]
      omega
  conv_lhs => rw [← hdate]
  exact Int.ediv_le_ediv (by decide) hreached

/-- A time that is reached before a date is reached before every time of that date. -/
theorem instantAt_lt_instantAt (hspaced : zone.HasSpacedChanges) {date later : Date}
    {time : TimeOfDay} (hlt : zone.dateOf (zone.instantAt date time) < later)
    (other : TimeOfDay) : zone.instantAt date time < zone.instantAt later other := by
  have hlater := Int.lt_of_lt_of_le hlt (hspaced.le_dateOf_instantAt later other)
  rw [← Instant.not_le]
  exact fun hle => absurd hlater (Int.not_lt.mpr (hspaced.dateOf_le_dateOf_instantAt hle))

/-- Where skipped times stay on their date, the times of earlier dates have been reached. -/
theorem instantAt_lt (hspaced : zone.HasSpacedChanges) (hgaps : zone.GapsKeepDates) {now : Instant}
    {date : Date} (hlt : date < zone.dateOf now) (time : TimeOfDay) :
    zone.instantAt date time < now := by
  have hdate := hgaps.dateOf_instantAt date time
  by_contra hle
  by_cases hsame : zone.instantAt date time = now
  · rw [← hsame, hdate] at hlt
    exact Int.lt_irrefl _ hlt
  · have hbefore : now < zone.instantAt date time := by
      by_contra hnot
      exact hsame (Instant.eq_of_not_lt hle hnot)
    exact absurd hlt (Int.not_lt.mpr (hspaced.dateOf_le_of_lt_instantAt hdate hbefore))

section Folds

variable (hspaced : zone.HasSpacedChanges) (hfolds : zone.FoldsKeepDates)
include hspaced hfolds

/-- Dates never go back. -/
theorem dateOfSecond_mono (hle : first ≤ second) :
    dateOfSecond (zone.localSecond first) ≤ dateOfSecond (zone.localSecond second) := by
  change zone.localSecond first / 86400 ≤ zone.localSecond second / 86400
  have hfirst := hspaced.offsetAt_bounds first
  have hsecond := hspaced.offsetAt_bounds second
  by_cases hfar : first + 172800 ≤ second
  · simp only [localSecond]
    omega
  · -- One change at most lies in between, and it shows in the seconds around it.
    obtain ⟨⟨moment, before, after⟩, -, hagrees⟩ := hspaced (first + 86400)
    have hlocal : ∀ other, first ≤ other → other ≤ first + 172800 →
        zone.localSecond other = if other < moment then other + before else other + after := by
      intro other hlow hhigh
      rw [localSecond, hagrees other (by simp only [daySeconds]; omega)
        (by simp only [daySeconds]; omega), OffsetChange.offsetAt]
      split <;> rfl
    have hfold := hfolds moment
    simp only [dateOfSecond, daySeconds, Date.mk.injEq] at hfold
    rw [hlocal first (by omega) (by omega), hlocal second (by omega) (by omega)]
    by_cases hbetween : first < moment ∧ moment ≤ second
    · rw [hlocal moment (by omega) (by omega), hlocal (moment - 1) (by omega) (by omega),
        if_neg (by omega), if_pos (by omega)] at hfold
      rw [if_pos (by omega), if_neg (by omega)]
      omega
    · split <;> split <;> omega

theorem dateOf_mono {now later : Instant} (hle : now ≤ later) :
    zone.dateOf now ≤ zone.dateOf later := by
  rw [Instant.le_def] at hle
  exact hspaced.dateOfSecond_mono hfolds (by omega)

theorem lt_of_dateOf_lt {now later : Instant} (hlt : zone.dateOf now < zone.dateOf later) :
    now < later := by
  rw [← Instant.not_le]
  exact fun hle => absurd hlt (Int.not_lt.mpr (hspaced.dateOf_mono hfolds hle))

/-- A date is not reached before the clocks pass over one of its readings. -/
theorem lt_moment_of_passesOver {change : OffsetChange} (hpasses : zone.PassesOver reading change)
    (hdate : dateOfSecond (zone.localSecond second) < dateOfSecond reading) :
    second < change.moment := by
  by_contra hge
  have hmono := hspaced.dateOfSecond_mono hfolds (Int.not_lt.mp hge)
  rw [hpasses.localSecond_eq (Int.le_refl _) hpasses.late] at hmono
  have hearly : reading ≤ change.moment + change.after := by
    have := hpasses.early
    omega
  exact absurd (Int.ediv_le_ediv (by decide) hearly)
    (Int.not_le.mpr (Int.lt_of_le_of_lt hmono hdate))

/-- The times of later dates come later, also when the clocks skip them. -/
theorem lt_instantAt {now : Instant} {date : Date} (hlt : zone.dateOf now < date)
    (time : TimeOfDay) : now < zone.instantAt date time := by
  by_cases hskipped : zone.Skips date time
  · obtain ⟨change, hpasses, hresolve⟩ := hspaced.exists_passesOver hskipped
    rw [instantAt, hresolve, Instant.lt_ofSecond_iff]
    refine Int.lt_of_lt_of_le (hspaced.lt_moment_of_passesOver hfolds hpasses ?_) hpasses.late
    rwa [dateOfSecond_secondOf time.secondOfDay_lt]
  · refine hspaced.lt_of_dateOf_lt hfolds ?_
    rwa [dateOf_instantAt_of_shown hskipped]

/-- Clocks that move the times they skip to later ones of the same date keep to dates. -/
theorem keepsDates (hgaps : zone.GapsKeepDates) : zone.KeepsDates where
  instantAt_lt {date now} time hlt :=
    hspaced.lt_of_dateOf_lt hfolds (by rwa [hgaps.dateOf_instantAt])
  lt_instantAt time hlt := hspaced.lt_instantAt hfolds hlt time

end Folds

end HasSpacedChanges

/-! ## Zones that have spaced changes -/

/-- Offsets that change two days apart at the earliest are spaced. -/
theorem hasSpacedChanges_of_isChain {zone : Zone}
    (hinitial : -daySeconds < zone.initial ∧ zone.initial < daySeconds)
    (hshort : ∀ change ∈ offsetChanges zone.initial zone.transitions, change.IsShort)
    (hapart : (offsetChanges zone.initial zone.transitions).IsChain fun earlier later =>
      earlier.moment + 2 * daySeconds ≤ later.moment) : zone.HasSpacedChanges :=
  exists_change_of_isChain ⟨hinitial, hinitial⟩
    (fun change hmem => ⟨hshort change hmem, (hshort change hmem).2, (hshort change hmem).2⟩) hapart

/-- All zones of the table have spaced changes, also those that leave out a date. -/
theorem hasSpacedChanges_of_mem_table {zone : Zone} (hmem : zone ∈ table) :
    zone.HasSpacedChanges := by
  have htable : table.all (fun zone =>
      decide (-daySeconds < zone.initial ∧ zone.initial < daySeconds) &&
        (offsetChanges zone.initial zone.transitions).all (·.IsShort) &&
        decide ((offsetChanges zone.initial zone.transitions).IsChain fun earlier later =>
          earlier.moment + 2 * daySeconds ≤ later.moment)) = true := by decide +kernel
  have hzone := List.all_eq_true.mp htable zone hmem
  simp only [Bool.and_eq_true, decide_eq_true_eq, List.all_eq_true] at hzone
  exact hasSpacedChanges_of_isChain hzone.1.1 hzone.1.2 hzone.2

/-- The zones that a schedule may name have short offsets. -/
theorem hasShortOffsets_of_named {name : Option String} {zone : Zone}
    (hzone : named name = .ok zone) : zone.HasShortOffsets :=
  (hasSpacedChanges_of_mem_table (mem_table_of_named hzone).1).offsetAt_bounds

namespace IsOrderly

variable {zone : Zone}

theorem hasSpacedChanges (horderly : zone.IsOrderly) : zone.HasSpacedChanges := by
  intro center
  obtain ⟨change, hkeeps, hagrees⟩ := horderly center
  refine ⟨change, ⟨hkeeps.1, hkeeps.2.1⟩, fun second hlow hhigh => hagrees second ?_ ?_⟩
  · simp only [calm, daySeconds] at *
    omega
  · simp only [calm, daySeconds] at *
    omega

theorem foldsKeepDates (horderly : zone.IsOrderly) : zone.FoldsKeepDates := by
  intro second hback
  obtain ⟨moment, before, after, ⟨-, -, -, hfold⟩, hlocal, -⟩ := horderly.exists_change second
  rw [hlocal second (by omega) (by omega), hlocal (second - 1) (by omega) (by omega)] at hback ⊢
  obtain rfl : moment = second := by
    split at hback <;> split at hback <;> omega
  rw [if_neg (by omega), if_pos (by omega)] at hback ⊢
  simp only at hfold
  rw [hfold (by omega)]
  congr 1
  omega

end IsOrderly

end Zone

end Cadence
