import Cadence.Proofs.Clock.Order

/-!
# The closest instant beyond another

A search for occurrences looks in one direction: forward, where an instant lies
beyond another if it is later, or backward, where it does if it is earlier.
`Finds beyond P now result` says that `result` is the right answer to a search
for the instants with property `P`: the closest one beyond `now`, or nothing if
there is none.

Searches are composed of smaller ones, and so are these statements: a search
that tries one block of instants after another finds what the blocks hold
together, provided that each block lies beyond the blocks before it.
-/

namespace Cadence

variable {α : Type} {beyond : Instant → Instant → Prop} {P Q : Instant → Prop} {now hit : Instant}

/-- The closest instant with a property beyond another instant. -/
structure IsNearest (beyond : Instant → Instant → Prop) (P : Instant → Prop)
    (now hit : Instant) : Prop where
  holds : P hit
  isBeyond : beyond now hit
  closest : ∀ moment, P moment → beyond now moment → ¬ beyond moment hit

/-- The right answer to a search for the closest instant with a property. -/
def Finds (beyond : Instant → Instant → Prop) (P : Instant → Prop) (now : Instant) :
    Option Instant → Prop
  | some hit => IsNearest beyond P now hit
  | none => ∀ moment, P moment → ¬ beyond now moment

theorem IsNearest.congr (hnearest : IsNearest beyond P now hit)
    (hsame : ∀ moment, beyond now moment → (P moment ↔ Q moment)) : IsNearest beyond Q now hit where
  holds := (hsame hit hnearest.isBeyond).mp hnearest.holds
  isBeyond := hnearest.isBeyond
  closest moment hholds hmoment :=
    hnearest.closest moment ((hsame moment hmoment).mpr hholds) hmoment

/-- There is one closest instant at most, where of two instants one lies beyond the
other. -/
theorem IsNearest.unique {other : Instant}
    (htotal : ∀ {first second : Instant}, ¬ beyond first second → ¬ beyond second first →
      first = second)
    (hnearest : IsNearest beyond P now hit) (hother : IsNearest beyond P now other) : hit = other :=
  htotal (hother.closest hit hnearest.holds hnearest.isBeyond)
    (hnearest.closest other hother.holds hother.isBeyond)

/-- A closest instant stays closest when the property is widened, as long as the
wider property adds nothing in between. -/
theorem IsNearest.widen (hnearest : IsNearest beyond P now hit) (hwider : P hit → Q hit)
    (hbetween : ∀ moment, Q moment → beyond now moment → beyond moment hit → P moment) :
    IsNearest beyond Q now hit where
  holds := hwider hnearest.holds
  isBeyond := hnearest.isBeyond
  closest moment hholds hmoment hcloser :=
    hnearest.closest moment (hbetween moment hholds hmoment hcloser) hmoment hcloser

/-- A closest instant stays closest among fewer instants. -/
theorem IsNearest.restrict (hnearest : IsNearest beyond P now hit) (hholds : Q hit)
    (hnarrower : ∀ moment, Q moment → P moment) : IsNearest beyond Q now hit where
  holds := hholds
  isBeyond := hnearest.isBeyond
  closest moment hmoment := hnearest.closest moment (hnarrower moment hmoment)

/-- What is closest beyond a cursor is closest beyond `now`, if the cursor only
passes over instants without the property. -/
theorem IsNearest.resume {cursor : Instant} (hnearest : IsNearest beyond P cursor hit)
    (hbeyond : beyond now hit)
    (hpassed : ∀ moment, P moment → beyond now moment → beyond cursor moment) :
    IsNearest beyond P now hit where
  holds := hnearest.holds
  isBeyond := hbeyond
  closest moment hholds hmoment :=
    hnearest.closest moment hholds (hpassed moment hholds hmoment)

namespace Finds

theorem congr {result : Option Instant} (hfinds : Finds beyond P now result)
    (hsame : ∀ moment, beyond now moment → (P moment ↔ Q moment)) : Finds beyond Q now result := by
  cases result with
  | some hit => exact IsNearest.congr hfinds hsame
  | none => exact fun moment hholds hmoment =>
      hfinds moment ((hsame moment hmoment).mpr hholds) hmoment

/-- A search that has something to find finds something. -/
theorem exists_eq_some {result : Option Instant} {moment : Instant}
    (hfinds : Finds beyond P now result) (hholds : P moment) (hbeyond : beyond now moment) :
    ∃ hit, result = some hit := by
  cases result with
  | some hit => exact ⟨hit, rfl⟩
  | none => exact absurd hbeyond (hfinds moment hholds)

/-- A search finds the closest instant, if there is one. -/
theorem eq_some {result : Option Instant}
    (htotal : ∀ {first second : Instant}, ¬ beyond first second → ¬ beyond second first →
      first = second)
    (hfinds : Finds beyond P now result) (hnearest : IsNearest beyond P now hit) :
    result = some hit := by
  cases result with
  | some found => exact congrArg some (IsNearest.unique htotal hfinds hnearest)
  | none => exact absurd hnearest.isBeyond (hfinds hit hnearest.holds)

/-- A search that is not made finds nothing. -/
theorem none_of_empty (hempty : ∀ moment, ¬ P moment) : Finds beyond P now none :=
  fun moment hholds => absurd hholds (hempty moment)

/-- A search that has a single instant to offer. -/
theorem single (hasymm : ∀ {first second : Instant}, beyond first second → ¬ beyond second first)
    (moment : Instant) [Decidable (beyond now moment)] :
    Finds beyond (· = moment) now (if beyond now moment then some moment else none) := by
  split
  · rename_i hmoment
    refine ⟨rfl, hmoment, ?_⟩
    rintro _ rfl _ hself
    exact hasymm hself hself
  · rename_i hnot
    rintro _ rfl
    exact hnot

/-- A search that is only made under a condition. -/
theorem ite {c : Prop} [Decidable c] {result : Option Instant}
    (hfinds : c → Finds beyond P now result) :
    Finds beyond (fun moment => c ∧ P moment) now (if c then result else none) := by
  split
  · rename_i hc
    exact (hfinds hc).congr fun moment _ => by simp only [hc, true_and]
  · rename_i hc
    exact none_of_empty fun moment hholds => hc hholds.1

/-- A search that depends on something that may be missing. -/
theorem bind {source : Option α} {search : α → Option Instant} {block : α → Instant → Prop}
    (hfinds : ∀ a, source = some a → Finds beyond (block a) now (search a)) :
    Finds beyond (fun moment => ∃ a, source = some a ∧ block a moment) now
      (source.bind search) := by
  cases source with
  | none => exact none_of_empty fun moment ⟨a, ha, _⟩ => by simp at ha
  | some a =>
    exact (hfinds a rfl).congr fun moment _ =>
      ⟨fun hblock => ⟨a, rfl, hblock⟩, fun ⟨b, hb, hblock⟩ => Option.some.inj hb ▸ hblock⟩

/-- Trying blocks one after the other finds the closest instant of all, if every
block lies beyond the ones tried before. -/
theorem findSome? (hasymm : ∀ {first second : Instant}, beyond first second → ¬ beyond second first)
    {items : List α} {search : α → Option Instant} (block : α → Instant → Prop)
    (hfinds : ∀ a ∈ items, Finds beyond (block a) now (search a))
    (hordered : items.Pairwise fun a b =>
      ∀ first second, block a first → block b second → beyond first second) :
    Finds beyond (fun moment => ∃ a ∈ items, block a moment) now (items.findSome? search) := by
  induction items with
  | nil => exact none_of_empty fun moment ⟨a, ha, _⟩ => by simp at ha
  | cons a rest ih =>
    obtain ⟨hahead, hrest⟩ := List.pairwise_cons.mp hordered
    have hfirst := hfinds a List.mem_cons_self
    rw [List.findSome?_cons]
    cases hsearch : search a with
    | some hit =>
      rw [hsearch] at hfirst
      refine IsNearest.widen hfirst (fun hblock => ⟨a, List.mem_cons_self, hblock⟩) ?_
      rintro moment ⟨b, hb, hblock⟩ hmoment hcloser
      rcases List.mem_cons.mp hb with rfl | hb
      · exact hblock
      · exact absurd hcloser (hasymm (hahead b hb hit moment hfirst.holds hblock))
    | none =>
      rw [hsearch] at hfirst
      refine (ih (fun b hb => hfinds b (List.mem_cons_of_mem a hb)) hrest).congr ?_
      intro moment hmoment
      constructor
      · rintro ⟨b, hb, hblock⟩
        exact ⟨b, List.mem_cons_of_mem a hb, hblock⟩
      · rintro ⟨b, hb, hblock⟩
        rcases List.mem_cons.mp hb with rfl | hb
        · exact absurd hmoment (hfirst moment hblock)
        · exact ⟨b, hb, hblock⟩

/-- The least of what several searches find is what they find together. -/
theorem min?_filterMap {items : List α} {search : α → Option Instant}
    {block : α → Instant → Prop}
    (hfinds : ∀ a ∈ items, Finds (· < ·) (block a) now (search a)) :
    Finds (· < ·) (fun moment => ∃ a ∈ items, block a moment) now
      (items.filterMap search).min? := by
  cases hmin : (items.filterMap search).min? with
  | none =>
    rw [List.min?_eq_none_iff, List.filterMap_eq_nil_iff] at hmin
    rintro moment ⟨a, ha, hblock⟩
    have hfound := hfinds a ha
    rw [hmin a ha] at hfound
    exact hfound moment hblock
  | some hit =>
    rw [List.min?_eq_some_iff] at hmin
    obtain ⟨hmem, hleast⟩ := hmin
    obtain ⟨a, ha, hsearch⟩ := List.mem_filterMap.mp hmem
    have hnearest := hfinds a ha
    rw [hsearch] at hnearest
    refine ⟨⟨a, ha, hnearest.holds⟩, hnearest.isBeyond, ?_⟩
    rintro moment ⟨b, hb, hblock⟩ hmoment hearlier
    have hother := hfinds b hb
    cases hsecond : search b with
    | none =>
      rw [hsecond] at hother
      exact hother moment hblock hmoment
    | some found =>
      rw [hsecond] at hother
      have hle := hleast found (List.mem_filterMap.mpr ⟨b, hb, hsecond⟩)
      have hnot := hother.closest moment hblock hmoment
      rw [Instant.le_def] at hle
      simp only [Instant.lt_def] at hnot hearlier
      omega

/-- The least of listed instants after `now`. -/
theorem min?_filter {moments : List Instant} :
    Finds (· < ·) (· ∈ moments) now ((moments.filter (now < ·)).min?) := by
  cases hmin : (moments.filter (now < ·)).min? with
  | none =>
    rw [List.min?_eq_none_iff, List.filter_eq_nil_iff] at hmin
    exact fun moment hmem => by simpa only [decide_eq_true_eq] using hmin moment hmem
  | some hit =>
    rw [List.min?_eq_some_iff] at hmin
    obtain ⟨hmem, hleast⟩ := hmin
    simp only [List.mem_filter, decide_eq_true_eq] at hmem hleast
    refine ⟨hmem.1, hmem.2, fun moment hlisted hmoment hearlier => ?_⟩
    exact Instant.not_le.mpr hearlier (hleast moment ⟨hlisted, hmoment⟩)

/-- The greatest of listed instants before `now`. -/
theorem max?_filter {moments : List Instant} :
    Finds (· > ·) (· ∈ moments) now ((moments.filter (· < now)).max?) := by
  cases hmax : (moments.filter (· < now)).max? with
  | none =>
    rw [List.max?_eq_none_iff, List.filter_eq_nil_iff] at hmax
    exact fun moment hmem => by simpa only [decide_eq_true_eq] using hmax moment hmem
  | some hit =>
    rw [List.max?_eq_some_iff] at hmax
    obtain ⟨hmem, hgreatest⟩ := hmax
    simp only [List.mem_filter, decide_eq_true_eq] at hmem hgreatest
    refine ⟨hmem.1, hmem.2, fun moment hlisted hmoment hlater => ?_⟩
    exact Instant.not_le.mpr hlater (hgreatest moment ⟨hlisted, hmoment⟩)

end Finds

end Cadence
