import Cadence.Occurrence.Walk
import Cadence.Proofs.Calendar.MonthTargets
import Cadence.Proofs.Occurrence.AlignedSteps

/-!
# Walks over years

A walk tries every year, where the search that jumps tries one in every interval.  They
find the same, for nothing is tried in the years between.  What is found lies in the
calendar, far from the ends of the word.  So an overflow is left to walks that find
nothing, and as years only grow on the way, or only shrink, the last one decides.
-/

namespace Cadence

/-! ## Words -/

theorem Word.holds_iff {number : Int} :
    holds number = true ↔ -2147483648 ≤ number ∧ number ≤ 2147483647 := by
  rw [holds, decide_eq_true_eq]
  rfl

theorem Word.ofInt_of_holds {number : Int} (hholds : holds number = true) :
    ofInt number = .ok number :=
  if_pos hholds

theorem Word.ofInt_of_not_holds {number : Int} (hout : holds number ≠ true) :
    ofInt number = .error .overflow :=
  if_neg hout

theorem YearMonth.inWord_of_holds {ym : YearMonth} (hholds : Word.holds ym.year = true) :
    ym.inWord = .ok ym :=
  if_pos hholds

theorem YearMonth.inWord_of_not_holds {ym : YearMonth} (hout : Word.holds ym.year ≠ true) :
    ym.inWord = .error .overflow :=
  if_neg hout

/-- There is only one way not to succeed. -/
theorem Overflow.eq_of_ok_iff {α : Type} {first second : Except Overflow α}
    (hiff : ∀ value, first = .ok value ↔ second = .ok value) : first = second := by
  cases first with
  | ok value => exact ((hiff value).mp rfl).symm
  | error fault =>
    cases second with
    | ok value => exact (hiff value).mpr rfl
    | error other => rfl

theorem Frame.outcome_true (found : Option Instant) : outcome found true = .ok found := by
  cases found <;> rfl

theorem Frame.outcome_eq_ok_iff {found result : Option Instant} {stays : Bool} :
    outcome found stays = .ok result ↔ found = result ∧ (result = none → stays = true) := by
  cases found with
  | some hit =>
    rw [outcome, Except.ok.injEq]
    exact ⟨fun heq => ⟨heq, fun hnone => by rw [hnone] at heq; cases heq⟩, And.left⟩
  | none =>
    cases stays with
    | true => exact ⟨fun heq => ⟨Except.ok.inj heq, fun _ => rfl⟩, fun heq => congrArg _ heq.1⟩
    | false =>
      refine iff_of_false (by rintro ⟨⟩) ?_
      rintro ⟨rfl, hstays⟩
      cases hstays rfl

/-! ## The first of many -/

theorem findSome?_congr {α β : Type} {items : List α} {f g : α → Option β}
    (hsame : ∀ a ∈ items, f a = g a) : items.findSome? f = items.findSome? g := by
  induction items with
  | nil => rfl
  | cons a items ih =>
    rw [List.findSome?_cons, List.findSome?_cons, hsame a List.mem_cons_self,
      ih fun b hb => hsame b (List.mem_cons_of_mem a hb)]

theorem findSome?_range_succ {α : Type} (f : Nat → Option α) (n : Nat) :
    (List.range (n + 1)).findSome? f =
      (f 0).or ((List.range n).findSome? fun k => f (k + 1)) := by
  rw [List.range_succ_eq_map, List.findSome?_cons, List.findSome?_map]
  cases f 0 <;> rfl

theorem findSome?_range_eq_some_iff {α : Type} {f : Nat → Option α} {n : Nat} {a : α} :
    (List.range n).findSome? f = some a ↔
      ∃ i < n, f i = some a ∧ ∀ j < i, f j = none := by
  induction n generalizing f with
  | zero => exact iff_of_false (by rintro ⟨⟩) fun ⟨i, hi, _⟩ => Nat.not_lt_zero i hi
  | succ n ih =>
    rw [findSome?_range_succ]
    cases hfirst : f 0 with
    | some first =>
      constructor
      · intro heq
        exact ⟨0, Nat.succ_pos n, hfirst.trans heq, fun j hj => absurd hj (Nat.not_lt_zero j)⟩
      · rintro ⟨i, _, hi, hbefore⟩
        cases i with
        | zero => exact hfirst.symm.trans hi
        | succ i => cases hfirst.symm.trans (hbefore 0 (Nat.succ_pos i))
    | none =>
      rw [Option.none_or, ih]
      constructor
      · rintro ⟨i, hlt, hi, hbefore⟩
        refine ⟨i + 1, Nat.succ_lt_succ hlt, hi, fun j hj => ?_⟩
        cases j with
        | zero => exact hfirst
        | succ j => exact hbefore j (Nat.lt_of_succ_lt_succ hj)
      · rintro ⟨i, hlt, hi, hbefore⟩
        cases i with
        | zero => cases hfirst.symm.trans hi
        | succ i =>
          exact ⟨i, Nat.lt_of_succ_lt_succ hlt, hi,
            fun j hj => hbefore (j + 1) (Nat.succ_lt_succ hj)⟩

/-- The first of all is the first of those that pass a test; if these lie a step apart, it is
enough to look at every step. -/
theorem findSome?_range_steps {α : Type} (f : Nat → Option α) {test : Nat → Bool}
    {lead step limit count : Nat} (hlead : lead < step) (hlimit : limit ≤ count * step)
    (htest : ∀ i, test i = true ↔ ∃ k, i = lead + k * step) :
    (List.range limit).findSome? (fun i => if test i then f i else none) =
      (List.range count).findSome? fun k =>
        if lead + k * step < limit then f (lead + k * step) else none := by
  have hpos : 0 < step := Nat.lt_of_le_of_lt (Nat.zero_le lead) hlead
  have hstep (k : Nat) : test (lead + k * step) = true := (htest _).mpr ⟨k, rfl⟩
  refine Option.ext fun a => ?_
  rw [findSome?_range_eq_some_iff, findSome?_range_eq_some_iff]
  constructor
  · rintro ⟨i, hlt, hi, hbefore⟩
    split at hi
    · rename_i hpasses
      obtain ⟨k, rfl⟩ := (htest i).mp hpasses
      have hk : k < count := (steps_lt_iff hlead).mpr (Nat.lt_of_lt_of_le hlt hlimit)
      refine ⟨k, hk, by rw [if_pos hlt]; exact hi, fun j hj => ?_⟩
      have hmul := Nat.mul_lt_mul_of_pos_right hj hpos
      have hnone := hbefore (lead + j * step) (by omega)
      rw [if_pos (hstep j)] at hnone
      rw [hnone, ite_self]
    · cases hi
  · rintro ⟨k, _, hk, hbefore⟩
    split at hk
    · rename_i hlt
      refine ⟨lead + k * step, hlt, by rw [if_pos (hstep k)]; exact hk, fun i hi => ?_⟩
      split
      · rename_i hpasses
        obtain ⟨j, rfl⟩ := (htest i).mp hpasses
        have hj : j < k := Nat.lt_of_mul_lt_mul_right (show j * step < k * step by omega)
        have hnone := hbefore j hj
        rwa [if_pos (Nat.lt_trans hi hlt)] at hnone
      · rfl
    · cases hk

/-! ## Walks in general -/

/-- A walk takes one step after another.  It stops at the first hit; without a hit it goes on
if the step fits.  Up to a hit everything fits. -/
structure IsWalk (walk : (remaining step : Nat) → Except Overflow (Option Instant))
    (hit : Nat → Option Instant) (fits : Nat → Prop) : Prop where
  ends (step : Nat) : walk 0 step = .ok none
  stops {remaining step : Nat} {found : Instant} (hfound : hit step = some found) :
    walk (remaining + 1) step = .ok (some found)
  goesOn {remaining step : Nat} (hnone : hit step = none) (hfits : fits step) :
    walk (remaining + 1) step = walk remaining (step + 1)
  fails {remaining step : Nat} (hnone : hit step = none) (hout : ¬ fits step) :
    walk (remaining + 1) step = .error .overflow
  safe {step : Nat} {found : Instant} (hfound : hit step = some found) :
    ∀ sooner < step, fits sooner

/-- A walk finds the first hit; without one it ends well if every step fits. -/
theorem IsWalk.eq_ok_iff {walk : (remaining step : Nat) → Except Overflow (Option Instant)}
    {hit : Nat → Option Instant} {fits : Nat → Prop} (hwalk : IsWalk walk hit fits)
    {remaining step : Nat} {found : Option Instant} :
    walk remaining step = .ok found ↔
      ((List.range remaining).findSome? fun k => hit (step + k)) = found ∧
        (found = none → ∀ k < remaining, fits (step + k)) := by
  induction remaining generalizing step with
  | zero =>
    rw [hwalk.ends, Except.ok.injEq]
    exact ⟨fun heq => ⟨heq, fun _ k hk => absurd hk (Nat.not_lt_zero k)⟩, And.left⟩
  | succ remaining ih =>
    cases hfirst : hit step with
    | some first =>
      rw [hwalk.stops hfirst, findSome?_range_succ, Nat.add_zero, hfirst, Option.some_or,
        Except.ok.injEq]
      refine ⟨fun heq => ⟨heq, fun hnone => ?_⟩, And.left⟩
      cases heq.trans hnone
    | none =>
      by_cases hfits : fits step
      · have hshift (k : Nat) : step + 1 + k = step + (k + 1) := by omega
        simp only [hwalk.goesOn hfirst hfits, ih, findSome?_range_succ, Nat.add_zero, hfirst,
          Option.none_or, hshift]
        refine and_congr_right fun _ => imp_congr_right fun _ => ⟨fun hrest k hk => ?_, ?_⟩
        · cases k with
          | zero => exact hfits
          | succ k => exact hrest k (Nat.lt_of_succ_lt_succ hk)
        · exact fun hall k hk => hall (k + 1) (Nat.succ_lt_succ hk)
      · rw [hwalk.fails hfirst hfits]
        refine iff_of_false (by rintro ⟨⟩) ?_
        rintro ⟨hfound, hall⟩
        cases found with
        | none => exact hfits (hall rfl 0 (Nat.succ_pos remaining))
        | some found =>
          obtain ⟨k, _, hk, _⟩ := findSome?_range_eq_some_iff.mp hfound
          cases k with
          | zero => cases hfirst.symm.trans hk
          | succ k => exact hfits (hwalk.safe hk step (by omega))

theorem IsWalk.eq_ok_iff_of_start {walk : (remaining step : Nat) → Except Overflow (Option Instant)}
    {hit : Nat → Option Instant} {fits : Nat → Prop} (hwalk : IsWalk walk hit fits)
    {remaining : Nat} {found : Option Instant} :
    walk remaining 0 = .ok found ↔
      (List.range remaining).findSome? hit = found ∧ (found = none → ∀ k < remaining, fits k) := by
  have hsteps : walk remaining 0 = .ok found ↔
      ((List.range remaining).findSome? fun k => hit (0 + k)) = found ∧
        (found = none → ∀ k < remaining, fits (0 + k)) := hwalk.eq_ok_iff
  simpa only [Nat.zero_add] using hsteps

/-! ## Headings -/

namespace Heading

/-- How far away the closest aligned distance lies. -/
def lead : Heading → (distance : Int) → (interval : Nat) → Nat
  | ahead => stepsAhead
  | behind => stepsBehind

theorem lead_lt (heading : Heading) (distance : Int) (interval : Nat) :
    heading.lead distance interval < stepOf interval := by
  cases heading with
  | ahead => exact stepsAhead_lt distance interval
  | behind => exact stepsBehind_lt distance interval

theorem move_zero (heading : Heading) (start : Int) : heading.move start 0 = start := by
  cases heading <;> simp only [move] <;> omega

theorem move_add (heading : Heading) (start : Int) (first second : Nat) :
    heading.move (heading.move start first) second = heading.move start (first + second) := by
  cases heading <;> simp only [move] <;> omega

theorem move_sub (heading : Heading) (start anchor : Int) (count : Nat) :
    heading.move start count - anchor = heading.move (start - anchor) count := by
  cases heading <;> simp only [move] <;> omega

/-- The aligned ones are those that lie whole steps beyond the closest. -/
theorem isAligned_move_sub_iff {heading : Heading} {start anchor : Int} {interval count : Nat} :
    isAligned (heading.move start count - anchor) interval = true ↔
      ∃ k, count = heading.lead (start - anchor) interval + k * stepOf interval := by
  rw [move_sub]
  cases heading with
  | ahead => exact isAligned_add_iff
  | behind => exact isAligned_sub_iff

/-- On the way from a word to a word there are only words. -/
theorem holds_move {heading : Heading} {start : Int} {sooner later : Nat}
    (hstart : Word.holds start = true) (hlater : Word.holds (heading.move start later) = true)
    (hle : sooner ≤ later) : Word.holds (heading.move start sooner) = true := by
  rw [Word.holds_iff] at *
  cases heading <;> simp only [move] at hlater ⊢ <;> omega

end Heading

/-! ## Walks over years -/

section Years

variable {heading : Heading} {start anchor : Int} {interval : Nat}
  {attempt : Int → Option Instant} {remaining counter : Nat} {found : Option Instant}

/-- Nothing that is computed of a year leaves the word. -/
structure YearFits (heading : Heading) (start anchor : Int) (interval counter : Nat) : Prop where
  year : Word.holds (heading.move start counter) = true
  distance : 1 < interval → Word.holds (heading.move start counter - anchor) = true

/-- What is found in an aligned year. -/
def yearHit (heading : Heading) (start anchor : Int) (interval : Nat)
    (attempt : Int → Option Instant) (counter : Nat) : Option Instant :=
  if isAligned (heading.move start counter - anchor) interval then
    attempt (heading.move start counter)
  else none

theorem yearHit_ne_none {hit : Instant}
    (hhit : yearHit heading start anchor interval attempt counter = some hit) :
    attempt (heading.move start counter) ≠ none := by
  unfold yearHit at hhit
  split at hhit
  · rw [hhit]
    exact Option.some_ne_none hit
  · cases hhit

theorem YearFits.yearAligned_eq (hfits : YearFits heading start anchor interval counter) :
    yearAligned (heading.move start counter) anchor interval =
      .ok (isAligned (heading.move start counter - anchor) interval) := by
  unfold yearAligned
  split
  · rename_i hinterval
    rw [Word.ofInt_of_holds (hfits.distance hinterval)]
    rfl
  · rename_i hinterval
    rw [isAligned_of_le_one _ (Nat.not_lt.mp hinterval)]

/-- One step of a walk, if the counter is a word. -/
theorem walkYears_succ_of_fits (hcounter : counter ≤ Word.greatest)
    (hfits : YearFits heading start anchor interval counter) :
    walkYears heading start anchor interval attempt (remaining + 1) counter =
      match yearHit heading start anchor interval attempt counter with
      | some hit => .ok (some hit)
      | none => walkYears heading start anchor interval attempt remaining (counter + 1) := by
  rw [walkYears, if_neg (Nat.not_lt.mpr hcounter), Word.ofInt_of_holds hfits.year]
  change (yearAligned (heading.move start counter) anchor interval >>= _) = _
  rw [hfits.yearAligned_eq]
  rfl

theorem walkYears_succ_of_not_fits (hcounter : counter ≤ Word.greatest)
    (hout : ¬ YearFits heading start anchor interval counter) :
    walkYears heading start anchor interval attempt (remaining + 1) counter =
      .error .overflow := by
  rw [walkYears, if_neg (Nat.not_lt.mpr hcounter)]
  by_cases hyear : Word.holds (heading.move start counter) = true
  · have hinterval : 1 < interval := by
      by_contra hsingle
      exact hout ⟨hyear, fun hmany => absurd hmany hsingle⟩
    have hdistance : Word.holds (heading.move start counter - anchor) ≠ true :=
      fun hholds => hout ⟨hyear, fun _ => hholds⟩
    rw [Word.ofInt_of_holds hyear]
    change (yearAligned (heading.move start counter) anchor interval >>= _) = _
    rw [yearAligned, if_pos hinterval, Word.ofInt_of_not_holds hdistance]
    rfl
  · rw [Word.ofInt_of_not_holds hyear]
    rfl

/-- A counter that is no word ends the walk. -/
theorem walkYears_of_lt (hcounter : Word.greatest < counter) :
    walkYears heading start anchor interval attempt remaining counter = .ok none := by
  cases remaining with
  | zero => rfl
  | succ remaining => rw [walkYears, if_pos hcounter]

theorem isWalk_walkYears
    (hsafe : ∀ later, attempt (heading.move start later) ≠ none →
      later ≤ Word.greatest ∧ ∀ sooner ≤ later, YearFits heading start anchor interval sooner) :
    IsWalk (walkYears heading start anchor interval attempt)
      (yearHit heading start anchor interval attempt)
      (fun k => k ≤ Word.greatest → YearFits heading start anchor interval k) where
  ends _ := rfl
  stops hfound := by
    obtain ⟨hcounter, hfits⟩ := hsafe _ (yearHit_ne_none hfound)
    rw [walkYears_succ_of_fits hcounter (hfits _ (Nat.le_refl _)), hfound]
  goesOn {_ step} hnone hfits := by
    by_cases hcounter : step ≤ Word.greatest
    · rw [walkYears_succ_of_fits hcounter (hfits hcounter), hnone]
    · rw [walkYears_of_lt (Nat.not_le.mp hcounter),
        walkYears_of_lt (Nat.lt_succ_of_lt (Nat.not_le.mp hcounter))]
  fails _ hout := by
    obtain ⟨hcounter, hout⟩ := Classical.not_imp.mp hout
    exact walkYears_succ_of_not_fits hcounter hout
  safe hfound sooner hsooner _ :=
    (hsafe _ (yearHit_ne_none hfound)).2 sooner (Nat.le_of_lt hsooner)

variable (hstart : Word.holds start = true) (hdistance : Word.holds (start - anchor) = true)
include hstart hdistance

/-- What fits later on the way fits sooner. -/
theorem YearFits.of_le {sooner later : Nat} (hle : sooner ≤ later)
    (hfits : YearFits heading start anchor interval later) :
    YearFits heading start anchor interval sooner where
  year := Heading.holds_move hstart hfits.year hle
  distance hinterval := by
    have hlater := hfits.distance hinterval
    rw [Heading.move_sub] at hlater ⊢
    exact Heading.holds_move hdistance hlater hle

/-- The last year of a walk decides. -/
theorem yearsStay_iff : heading.yearsStay start anchor interval = true ↔
    ∀ k < Reach.years * stepOf interval, k ≤ Word.greatest →
      YearFits heading start anchor interval k := by
  have hpos := stepOf_pos interval
  have hcount : 0 < Reach.years * stepOf interval := Nat.mul_pos (by decide) hpos
  let final := min (Reach.years * stepOf interval - 1) Word.greatest
  have hfinal : heading.yearsStay start anchor interval = true ↔
      YearFits heading start anchor interval final := by
    simp only [Heading.yearsStay, Bool.and_eq_true, Bool.or_eq_true, decide_eq_true_eq]
    constructor
    · rintro ⟨hyear, hdistance⟩
      exact ⟨hyear, fun hinterval => hdistance.resolve_left (Nat.not_le.mpr hinterval)⟩
    · rintro ⟨hyear, hdistance⟩
      exact ⟨hyear, (Nat.lt_or_ge 1 interval).elim (fun hmany => .inr (hdistance hmany)) .inl⟩
  rw [hfinal]
  constructor
  · intro hfits k hk hword
    exact hfits.of_le hstart hdistance (Nat.le_min.mpr ⟨Nat.le_sub_one_of_lt hk, hword⟩)
  · intro hall
    exact hall final (by omega) (Nat.min_le_right _ _)

end Years

/-- A year of the calendar, or one next to it. -/
def IsNearCalendar (year : Int) : Prop := Date.leastYear - 1 ≤ year ∧ year ≤ Date.greatestYear + 1

theorem IsNearCalendar.holds {year : Int} (hnear : IsNearCalendar year) :
    Word.holds year = true := by
  simp only [IsNearCalendar, Date.leastYear, Date.greatestYear] at hnear
  exact Word.holds_iff.mpr (by omega)

theorem IsNearCalendar.holds_sub {first second : Int} (hfirst : IsNearCalendar first)
    (hsecond : IsNearCalendar second) : Word.holds (first - second) = true := by
  simp only [IsNearCalendar, Date.leastYear, Date.greatestYear] at hfirst hsecond
  exact Word.holds_iff.mpr (by omega)

theorem IsNearCalendar.of_isSupported {date : Date} (hsupported : date.IsSupported) :
    IsNearCalendar date.year := by
  have hyear := Date.isSupported_iff_year.mp hsupported
  exact ⟨by omega, by omega⟩

/-- Years near the calendar are reached by counters that are words. -/
theorem IsNearCalendar.counter_le {heading : Heading} {start : Int} {counter : Nat}
    (hstart : IsNearCalendar start) (hnear : IsNearCalendar (heading.move start counter)) :
    counter ≤ Word.greatest := by
  simp only [IsNearCalendar, Date.leastYear, Date.greatestYear] at hstart hnear
  cases heading <;> simp only [Heading.move, Word.greatest] at hnear ⊢ <;> omega

section Yearly

variable {frame : Frame} {heading : Heading} {interval : Nat} {date? : Int → Option Date}
  {times : List TimeOfDay} {now : Instant}

/-- What a walk over years comes to: it finds what lies in the aligned years, a step apart. -/
theorem Frame.walkYearly_eq (hstart : IsNearCalendar (frame.zone.dateOf now).year)
    (hanchor : IsNearCalendar (yearAnchor frame.anchor))
    (hdate : ∀ {year date}, date? year = some date → date.IsSupported ∧ date.year = year) :
    frame.walkYearly heading interval date? times now =
      outcome ((List.range Reach.years).findSome? fun k =>
          (date? (heading.move (frame.zone.dateOf now).year
            (heading.lead ((frame.zone.dateOf now).year - yearAnchor frame.anchor) interval +
              k * stepOf interval))).bind fun date => frame.onDate heading date times now)
        (heading.yearsStay (frame.zone.dateOf now).year (yearAnchor frame.anchor) interval) := by
  let start := (frame.zone.dateOf now).year
  let anchor := yearAnchor frame.anchor
  let lead := heading.lead (start - anchor) interval
  let attempt (year : Int) := (date? year).bind fun date => frame.onDate heading date times now
  have hlead : lead < stepOf interval := heading.lead_lt (start - anchor) interval
  have hsafe (later : Nat) (hattempt : attempt (heading.move start later) ≠ none) :
      later ≤ Word.greatest ∧ ∀ sooner ≤ later, YearFits heading start anchor interval sooner := by
    cases hpicked : date? (heading.move start later) with
    | none => exact absurd (by simp only [attempt, hpicked, Option.bind_none]) hattempt
    | some date =>
      obtain ⟨hsupported, hyear⟩ := hdate hpicked
      have hnear : IsNearCalendar (heading.move start later) :=
        hyear ▸ IsNearCalendar.of_isSupported hsupported
      have hfits : YearFits heading start anchor interval later :=
        ⟨hnear.holds, fun _ => hnear.holds_sub hanchor⟩
      exact ⟨hstart.counter_le hnear, fun sooner hle =>
        hfits.of_le hstart.holds (hstart.holds_sub hanchor) hle⟩
  have hjumps : (List.range (Reach.years * stepOf interval)).findSome?
        (yearHit heading start anchor interval attempt) =
      (List.range Reach.years).findSome? fun k =>
        attempt (heading.move start (lead + k * stepOf interval)) := by
    refine (findSome?_range_steps (fun i => attempt (heading.move start i)) hlead
      (Nat.le_refl _) fun i => heading.isAligned_move_sub_iff).trans ?_
    exact findSome?_congr fun k hk => if_pos ((steps_lt_iff hlead).mp (List.mem_range.mp hk))
  refine Overflow.eq_of_ok_iff fun found => ?_
  rw [outcome_eq_ok_iff, yearsStay_iff hstart.holds (hstart.holds_sub hanchor), ← hjumps]
  exact (isWalk_walkYears hsafe).eq_ok_iff_of_start

end Yearly

end Cadence
