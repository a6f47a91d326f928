import Mathlib.Data.List.Chain
import Cadence.Proofs.Zone.UniversalTime
import Cadence.Zone.Table

/-!
# Orderly zones

Clocks are put forward or back now and then.  In an orderly zone this happens at
most once within six days, and each change keeps to one date: the readings it
skips and those they are moved to lie on one date, and so do the readings it
shows twice.  Around any second such a zone looks like a single change of offset,
and what its clocks show is read off from there.
-/

namespace Cadence

/-! ## A single change of offset -/

/-- A moment at which the offset changes; there is no change if both offsets are
the same. -/
structure OffsetChange where
  moment : Int
  before : Int
  after : Int

namespace OffsetChange

/-- The offset in force if this is the only change. -/
def offsetAt (change : OffsetChange) (second : Int) : Int :=
  if second < change.moment then change.before else change.after

/-- Offsets are shorter than a day.  The readings skipped and those they are
moved to, or the readings shown twice, lie on one date. -/
def KeepsDates (change : OffsetChange) : Prop :=
  (-daySeconds < change.before ∧ change.before < daySeconds) ∧
    (-daySeconds < change.after ∧ change.after < daySeconds) ∧
    (change.before < change.after →
      dateOfSecond (change.moment + change.before) =
        dateOfSecond (change.moment + change.after + (change.after - change.before) - 1)) ∧
    (change.after < change.before →
      dateOfSecond (change.moment + change.after) =
        dateOfSecond (change.moment + change.before - 1))

instance (change : OffsetChange) : Decidable change.KeepsDates :=
  inferInstanceAs (Decidable (_ ∧ _))

end OffsetChange

namespace Zone

/-- How far around a second there is at most one change: three days. -/
def calm : Int := 3 * daySeconds

/-- A zone that around every second looks like a single change that keeps to one
date. -/
def IsOrderly (zone : Zone) : Prop :=
  ∀ center, ∃ change : OffsetChange, change.KeepsDates ∧
    ∀ second, center - calm ≤ second → second ≤ center + calm →
      zone.offsetAt second = change.offsetAt second

/-! ## Resolving in any zone -/

section Resolve

variable (zone : Zone) {reading second : Int}

theorem mem_secondsShowing_iff :
    second ∈ zone.secondsShowing reading ↔ zone.localSecond second = reading := by
  simp only [secondsShowing, List.mem_filter, List.mem_map, decide_eq_true_eq,
    and_iff_right_iff_imp]
  intro hshows
  exact ⟨zone.offsetAt second, zone.offsetAt_mem_offsets second, by
    rw [← hshows, localSecond, Int.add_sub_cancel]⟩

/-- A shown reading is resolved to the earliest second that shows it, a skipped
one with the offset of the day before. -/
theorem resolve_spec (reading : Int) :
    (zone.localSecond (zone.resolve reading) = reading ∧
        ∀ second, zone.localSecond second = reading → zone.resolve reading ≤ second) ∨
      ((∀ second, zone.localSecond second ≠ reading) ∧
        zone.resolve reading = reading - zone.offsetAt (reading - daySeconds)) := by
  rw [resolve]
  cases hmin : (zone.secondsShowing reading).min? with
  | some earliest =>
    rw [List.min?_eq_some_iff] at hmin
    exact .inl ⟨(zone.mem_secondsShowing_iff).mp hmin.1, fun second hshows =>
      hmin.2 second ((zone.mem_secondsShowing_iff).mpr hshows)⟩
  | none =>
    rw [List.min?_eq_none_iff] at hmin
    refine .inr ⟨fun second hshows => ?_, rfl⟩
    have hmem := (zone.mem_secondsShowing_iff).mpr hshows
    rw [hmin] at hmem
    exact List.not_mem_nil hmem

/-- Whether the clocks of a zone never show a time of day on a date. -/
def Skips (date : Date) (time : TimeOfDay) : Prop :=
  ∀ second, zone.localSecond second ≠ secondOf date time.secondOfDay

/-- A time of day that is skipped is moved to a later one of the same date. -/
def GapsKeepDates : Prop :=
  ∀ date time, zone.Skips date time → zone.dateOf (zone.instantAt date time) = date

variable {zone} {date : Date} {time : TimeOfDay}

theorem localSecond_instantAt (hshown : ¬ zone.Skips date time) :
    zone.localSecond (zone.instantAt date time).second = secondOf date time.secondOfDay :=
  (zone.resolve_spec _).elim And.left fun hskipped => absurd hskipped.1 hshown

/-- A time of day that is shown is reached on its date. -/
theorem dateOf_instantAt_of_shown (hshown : ¬ zone.Skips date time) :
    zone.dateOf (zone.instantAt date time) = date := by
  rw [dateOf, localSecond_instantAt hshown, dateOfSecond_secondOf time.secondOfDay_lt]

/-- The clocks show a time of day when they reach it, if they show it at all. -/
theorem timeOf_instantAt_of_shown (htime : time.IsOnClock) (hshown : ¬ zone.Skips date time) :
    zone.timeOf (zone.instantAt date time) = time := by
  rw [timeOf, localSecond_instantAt hshown, clockOfSecond_secondOf time.secondOfDay_lt,
    htime.secondOfDay_eq, Nat.mul_div_cancel _ (by decide), htime.ofMinutes_minutes]

theorem GapsKeepDates.dateOf_instantAt (hgaps : zone.GapsKeepDates) (date : Date)
    (time : TimeOfDay) : zone.dateOf (zone.instantAt date time) = date := by
  by_cases hskipped : zone.Skips date time
  · exact hgaps date time hskipped
  · exact dateOf_instantAt_of_shown hskipped

end Resolve

namespace IsOrderly

variable {zone : Zone}

theorem offsetAt_bounds (horderly : zone.IsOrderly) (second : Int) :
    -86400 < zone.offsetAt second ∧ zone.offsetAt second < 86400 := by
  obtain ⟨change, hkeeps, hagrees⟩ := horderly second
  have hcalm : (0 : Int) ≤ calm := by decide
  rw [hagrees second (by omega) (by omega), OffsetChange.offsetAt]
  split
  · exact hkeeps.1
  · exact hkeeps.2.1

/-- What the clocks show around a second, and how readings around it are
resolved, for the change that is seen from there. -/
theorem exists_change (horderly : zone.IsOrderly) (center : Int) :
    ∃ moment before after : Int, (OffsetChange.mk moment before after).KeepsDates ∧
      (∀ second, center - 259200 ≤ second → second ≤ center + 259200 →
        zone.localSecond second = if second < moment then second + before else second + after) ∧
      ∀ reading, center - 86400 ≤ reading → reading ≤ center + 86400 →
        zone.resolve reading =
          if reading - before < moment ∨ reading - after < moment then reading - before
          else reading - after := by
  obtain ⟨⟨moment, before, after⟩, hkeeps, hagrees⟩ := horderly center
  have hlocal : ∀ second, center - 259200 ≤ second → second ≤ center + 259200 →
      zone.localSecond second =
        if second < moment then second + before else second + after := by
    intro second hlow hhigh
    rw [localSecond, hagrees second hlow hhigh, OffsetChange.offsetAt]
    split <;> rfl
  refine ⟨moment, before, after, hkeeps, hlocal, fun reading hlow hhigh => ?_⟩
  obtain ⟨⟨hbefore, hbefore'⟩, ⟨hafter, hafter'⟩, -⟩ := hkeeps
  simp only [daySeconds] at hbefore hbefore' hafter hafter'
  have hwithBefore := hlocal (reading - before) (by omega) (by omega)
  have hwithAfter := hlocal (reading - after) (by omega) (by omega)
  rcases zone.resolve_spec reading with ⟨hshown, hearliest⟩ | ⟨hskipped, hresolve⟩
  · have hbounds := horderly.offsetAt_bounds (zone.resolve reading)
    have hnear : zone.resolve reading + zone.offsetAt (zone.resolve reading) = reading := hshown
    rw [hlocal _ (by omega) (by omega)] at hshown
    have hfirst := hearliest (reading - before)
    have hsecond := hearliest (reading - after)
    rw [hwithBefore] at hfirst
    rw [hwithAfter] at hsecond
    split at hshown <;> split <;> omega
  · have hfirst := hskipped (reading - before)
    have hsecond := hskipped (reading - after)
    rw [hwithBefore] at hfirst
    rw [hwithAfter] at hsecond
    have hlate : ¬ reading - before < moment := fun hlt => by
      rw [if_pos hlt] at hfirst
      omega
    have hearly : reading - after < moment := by
      by_contra hge
      rw [if_neg hge] at hsecond
      omega
    have hdayBefore : zone.offsetAt (reading - daySeconds) = before := by
      rw [hagrees _ (by simp only [calm, daySeconds]; omega)
        (by simp only [calm, daySeconds]; omega)]
      exact if_pos (show reading - 86400 < moment by omega)
    rw [hresolve, hdayBefore, if_pos (Or.inr hearly)]

/-! ### What the clocks show -/

/-- A reading is resolved to a second of its own date. -/
theorem dateOfSecond_resolve (horderly : zone.IsOrderly) (reading : Int) :
    dateOfSecond (zone.localSecond (zone.resolve reading)) = dateOfSecond reading := by
  obtain ⟨moment, before, after, ⟨hbefore, hafter, hgap, hfold⟩, hlocal, hresolve⟩ :=
    horderly.exists_change reading
  simp only [daySeconds, dateOfSecond, Date.mk.injEq] at *
  have hresolve := hresolve reading (by omega) (by omega)
  rw [hlocal _ (by split at hresolve <;> omega) (by split at hresolve <;> omega)]
  split at hresolve <;> split <;> omega

/-- Dates never go back. -/
theorem dateOfSecond_mono (horderly : zone.IsOrderly) {first second : Int} (hle : first ≤ second) :
    dateOfSecond (zone.localSecond first) ≤ dateOfSecond (zone.localSecond second) := by
  change zone.localSecond first / 86400 ≤ zone.localSecond second / 86400
  have hfirst := horderly.offsetAt_bounds first
  have hsecond := horderly.offsetAt_bounds second
  by_cases hfar : first + 172800 ≤ second
  · simp only [localSecond]
    omega
  · obtain ⟨moment, before, after, ⟨hbefore, hafter, hgap, hfold⟩, hlocal, -⟩ :=
      horderly.exists_change first
    simp only [daySeconds, dateOfSecond, Date.mk.injEq] at *
    rw [hlocal first (by omega) (by omega), hlocal second (by omega) (by omega)]
    split <;> split <;> omega

/-- A date begins with the second its midnight is resolved to. -/
theorem resolve_midnight_le (horderly : zone.IsOrderly) {day second : Int}
    (hday : day * 86400 ≤ zone.localSecond second) : zone.resolve (day * 86400) ≤ second := by
  obtain ⟨moment, before, after, ⟨hbefore, hafter, hgap, hfold⟩, hlocal, hresolve⟩ :=
    horderly.exists_change (day * 86400)
  simp only [daySeconds, dateOfSecond, Date.mk.injEq] at *
  have hbounds := horderly.offsetAt_bounds second
  have hresolve := hresolve (day * 86400) (by omega) (by omega)
  by_cases hfar : day * 86400 + 86400 ≤ second
  · split at hresolve <;> omega
  · have hnear : zone.localSecond second = second + zone.offsetAt second := rfl
    rw [hlocal second (by omega) (by omega)] at hday
    split at hresolve <;> split at hday <;> omega

/-- The second before midnight is the last one of the day before. -/
theorem localSecond_before_midnight (horderly : zone.IsOrderly) (day : Int) :
    zone.localSecond (zone.resolve (day * 86400) - 1) = day * 86400 - 1 := by
  obtain ⟨moment, before, after, ⟨hbefore, hafter, hgap, hfold⟩, hlocal, hresolve⟩ :=
    horderly.exists_change (day * 86400)
  simp only [daySeconds, dateOfSecond, Date.mk.injEq] at *
  have hresolve := hresolve (day * 86400) (by omega) (by omega)
  rw [hlocal _ (by split at hresolve <;> omega) (by split at hresolve <;> omega)]
  split at hresolve <;> split <;> omega

/-- Of two readings of a date, one that is resolved to an earlier second is not
later on the clock than what the clock shows at the other. -/
theorem lt_localSecond_resolve (horderly : zone.IsOrderly) {first second : Int}
    (hdate : dateOfSecond first = dateOfSecond second)
    (hlt : zone.resolve first < zone.resolve second) :
    first < zone.localSecond (zone.resolve second) := by
  obtain ⟨moment, before, after, ⟨hbefore, hafter, hgap, hfold⟩, hlocal, hresolve⟩ :=
    horderly.exists_change second
  simp only [daySeconds, dateOfSecond, Date.mk.injEq] at *
  have hfirst := hresolve first (by omega) (by omega)
  have hsecond := hresolve second (by omega) (by omega)
  rw [hlocal _ (by split at hsecond <;> omega) (by split at hsecond <;> omega)]
  split at hfirst <;> split at hsecond <;> split <;> omega

/-! ### Instants -/

theorem dateOf_mono (horderly : zone.IsOrderly) {first second : Instant} (hle : first ≤ second) :
    zone.dateOf first ≤ zone.dateOf second := by
  rw [Instant.le_def] at hle
  exact horderly.dateOfSecond_mono (by omega)

theorem dateOf_instantAt (horderly : zone.IsOrderly) (date : Date) (time : TimeOfDay) :
    zone.dateOf (zone.instantAt date time) = date := by
  rw [dateOf, instantAt, Instant.ofSecond, horderly.dateOfSecond_resolve,
    dateOfSecond_secondOf time.secondOfDay_lt]

theorem gapsKeepDates (horderly : zone.IsOrderly) : zone.GapsKeepDates :=
  fun date time _ => horderly.dateOf_instantAt date time

theorem lt_of_dateOf_lt (horderly : zone.IsOrderly) {first second : Instant}
    (hlt : zone.dateOf first < zone.dateOf second) : first < second := by
  rw [← Instant.not_le]
  exact fun hle => absurd hlt (Int.not_lt.mpr (horderly.dateOf_mono hle))

theorem keepsDates (horderly : zone.IsOrderly) : zone.KeepsDates where
  instantAt_lt {date now} time hlt :=
    horderly.lt_of_dateOf_lt (by rwa [horderly.dateOf_instantAt])
  lt_instantAt {date now} time hlt :=
    horderly.lt_of_dateOf_lt (by rwa [horderly.dateOf_instantAt])

/-- A time of day that is reached before another one of the same date is not
later on the clock than what the clock shows at the other. -/
theorem minutes_le_timeOf (horderly : zone.IsOrderly) {date : Date} {time other : TimeOfDay}
    (htime : time.IsOnClock) (hlt : zone.instantAt date time < zone.instantAt date other) :
    time.minutes ≤ (zone.timeOf (zone.instantAt date other)).minutes := by
  have hday := time.secondOfDay_lt
  have hotherDay := other.secondOfDay_lt
  have hdates : ∀ time : TimeOfDay,
      dateOfSecond (secondOf date time.secondOfDay) = date := fun time =>
    dateOfSecond_secondOf time.secondOfDay_lt
  have hshown := horderly.dateOfSecond_resolve (secondOf date other.secondOfDay)
  have hreading := horderly.lt_localSecond_resolve ((hdates time).trans (hdates other).symm)
    (Instant.lt_ofSecond_iff.mp hlt)
  rw [hdates other] at hshown
  rw [timeOf, TimeOfDay.minutes_ofMinutes, instantAt]
  simp only [Instant.ofSecond, secondOf, clockOfSecond, dateOfSecond, daySeconds,
    htime.secondOfDay_eq] at *
  generalize zone.localSecond _ = shown at *
  obtain ⟨dayNumber⟩ := date
  simp only [Date.mk.injEq] at *
  omega

end IsOrderly

/-- Universal time has no changes. -/
theorem IsUniversal.isOrderly {zone : Zone} (huniversal : zone.IsUniversal) : zone.IsOrderly :=
  fun _ => ⟨⟨0, 0, 0⟩, by decide, fun second _ _ => by
    rw [huniversal, OffsetChange.offsetAt, ite_self]⟩

/-! ## Zones given by a list of changes -/

/-- The changes of offset that transitions make. -/
def offsetChanges (current : Int) : List Transition → List OffsetChange
  | [] => []
  | transition :: later =>
    ⟨transition.moment, current, transition.offset⟩ :: offsetChanges transition.offset later

/-- Where changes lie far enough apart, at most one of them is seen from a second, and
if none is, the offset is constant. -/
theorem exists_change_of_isChain {P : OffsetChange → Prop} {reach current : Int}
    {transitions : List Transition} (hcurrent : P ⟨0, current, current⟩)
    (hchanges : ∀ change ∈ offsetChanges current transitions,
      P change ∧ P ⟨0, change.after, change.after⟩)
    (hapart : (offsetChanges current transitions).IsChain fun earlier later =>
      earlier.moment + 2 * reach ≤ later.moment) (center : Int) :
    ∃ change : OffsetChange, P change ∧
      ∀ second, center - reach ≤ second → second ≤ center + reach →
        offsetAfter current transitions second = change.offsetAt second := by
  induction transitions generalizing current with
  | nil =>
    refine ⟨⟨0, current, current⟩, hcurrent, fun second _ _ => ?_⟩
    rw [offsetAfter, OffsetChange.offsetAt, ite_self]
  | cons transition later ih =>
    obtain ⟨⟨hchange, hconstant⟩, hlater⟩ := List.forall_mem_cons.mp hchanges
    by_cases hnear : center < transition.moment + reach
    · -- The next change is too far away to be seen.
      refine ⟨_, hchange, fun second _ hhigh => ?_⟩
      rw [offsetAfter, OffsetChange.offsetAt]
      split
      · rfl
      · cases later with
        | nil => rfl
        | cons next rest =>
          have hnext : transition.moment + 2 * reach ≤ next.moment :=
            (List.isChain_cons_cons.mp hapart).1
          rw [offsetAfter, if_pos (by omega)]
    · obtain ⟨change, hchange, hagrees⟩ := ih hconstant hlater hapart.tail
      refine ⟨change, hchange, fun second hlow hhigh => ?_⟩
      rw [offsetAfter, if_neg (by omega), hagrees second hlow hhigh]

/-- Whether changes keep to one date each and lie six days apart. -/
def changesKeepDates (current : Int) : List Transition → Bool
  | [] => true
  | transition :: later =>
    decide (OffsetChange.mk transition.moment current transition.offset).KeepsDates &&
      later.head?.all (transition.moment + 2 * calm ≤ ·.moment) &&
      changesKeepDates transition.offset later

theorem keepsDates_of_changesKeepDates {current : Int} {transitions : List Transition}
    (hchanges : changesKeepDates current transitions = true) :
    (∀ change ∈ offsetChanges current transitions, change.KeepsDates) ∧
      (offsetChanges current transitions).IsChain fun earlier later =>
        earlier.moment + 2 * calm ≤ later.moment := by
  induction transitions generalizing current with
  | nil => exact ⟨List.forall_mem_nil _, .nil⟩
  | cons transition later ih =>
    simp only [changesKeepDates, Bool.and_eq_true, decide_eq_true_eq] at hchanges
    obtain ⟨⟨hkeeps, hapart⟩, hlater⟩ := hchanges
    obtain ⟨hrest, hchain⟩ := ih hlater
    refine ⟨List.forall_mem_cons.mpr ⟨hkeeps, hrest⟩, ?_⟩
    cases later with
    | nil => exact .singleton _
    | cons next rest =>
      simp only [List.head?_cons, Option.all_some, decide_eq_true_eq] at hapart
      exact .cons_cons hapart hchain

theorem OffsetChange.keepsDates_of_constant {offset : Int}
    (hoffset : -daySeconds < offset ∧ offset < daySeconds) :
    (OffsetChange.mk 0 offset offset).KeepsDates :=
  ⟨hoffset, hoffset, fun hlt => absurd hlt (Int.lt_irrefl _),
    fun hlt => absurd hlt (Int.lt_irrefl _)⟩

theorem isOrderly_of_changesKeepDates {zone : Zone}
    (hinitial : -daySeconds < zone.initial ∧ zone.initial < daySeconds)
    (hchanges : changesKeepDates zone.initial zone.transitions = true) : zone.IsOrderly := by
  obtain ⟨hkeeps, hapart⟩ := keepsDates_of_changesKeepDates hchanges
  exact exists_change_of_isChain (OffsetChange.keepsDates_of_constant hinitial)
    (fun change hmem => ⟨hkeeps change hmem,
      OffsetChange.keepsDates_of_constant (hkeeps change hmem).2.1⟩) hapart

/-- The zones of the table that once left out a date, or put their clocks back
over midnight. -/
def unruly : List String := ["America/St_Johns", "Pacific/Apia", "Pacific/Kiritimati"]

theorem isOrderly_of_mem_table {zone : Zone} (hmem : zone ∈ table) (hruly : zone.name ∉ unruly) :
    zone.IsOrderly := by
  have htable : table.all (fun zone => zone.name ∈ unruly ||
      decide (-daySeconds < zone.initial ∧ zone.initial < daySeconds) &&
        changesKeepDates zone.initial zone.transitions) = true := by decide +kernel
  have hzone := List.all_eq_true.mp htable zone hmem
  simp only [hruly, decide_false, Bool.false_or, Bool.and_eq_true, decide_eq_true_eq] at hzone
  exact isOrderly_of_changesKeepDates hzone.1 hzone.2

/-- Every zone that has a name, and the one of schedules that name none, is in the table. -/
theorem mem_table_of_named {name : Option String} {zone : Zone} (hzone : named name = .ok zone) :
    zone ∈ table ∧ ∀ text, name = some text → zone.name = text := by
  unfold named at hzone
  split at hzone
  · obtain rfl := Except.ok.inj hzone
    exact ⟨List.mem_cons_self, nofun⟩
  · rename_i text
    split at hzone
    · rename_i found hfound
      obtain rfl := Except.ok.inj hzone
      refine ⟨List.mem_of_find?_eq_some hfound, ?_⟩
      rintro _ ⟨⟩
      simpa only [beq_iff_eq] using List.find?_some hfound
    · cases hzone

/-- All other zones a schedule may name are orderly. -/
theorem isOrderly_of_named {name : Option String} {zone : Zone} (hzone : named name = .ok zone)
    (hruly : ∀ text ∈ name, text ∉ unruly) : zone.IsOrderly := by
  obtain ⟨hmem, hname⟩ := mem_table_of_named hzone
  refine isOrderly_of_mem_table hmem ?_
  cases name with
  | none =>
    obtain rfl : utc = zone := Except.ok.inj hzone
    decide
  | some text => exact hname text rfl ▸ hruly text rfl

theorem named_newYork :
    named (some "America/New_York") = .ok (easternTime "America/New_York") := by
  have hfound : find? "America/New_York" = some (easternTime "America/New_York") := by
    decide +kernel
  rw [named, hfound]

end Zone

end Cadence
