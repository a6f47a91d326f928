import Mathlib
import Cadence.Proofs.Expression.Vocabulary
import Cadence.Proofs.Text.EditDistances

/-!
# The closest word

For a word that is not read the closest one of a list is offered.  Distances are those by
recursion over the bytes of the words.  What is offered is as close as any word in lower case
that is read, and of several that are equally close it is the first of the list; nothing is
offered only if all of them are too far away.
-/

namespace Cadence

/-! ## The first entry with the least value -/

section FirstLeast

variable {α : Type}

/-- A limit may be applied to the entries or to the one that is chosen. -/
theorem argmin_filter_le (measure : α → Nat) (limit : Nat) (items : List α) :
    (items.filter (measure · ≤ limit)).argmin measure =
      (items.argmin measure).filter (measure · ≤ limit) := by
  induction items with
  | nil => rfl
  | cons item items ih =>
    by_cases hwithin : measure item ≤ limit
    · rw [List.filter_cons_of_pos (by simpa using hwithin), List.argmin_cons, List.argmin_cons, ih]
      cases items.argmin measure with
      | none => simp only [Option.filter_none, Option.filter_some, hwithin, decide_true, if_true]
      | some best =>
        by_cases hnear : measure best ≤ limit
        · simp only [Option.filter_some, hnear, decide_true, if_true]
          split <;> simp only [Option.filter_some, hnear, hwithin, decide_true, if_true]
        · -- An entry beyond the limit is no closer than one within it.
          have hfarther : ¬ measure best < measure item := by omega
          simp only [Option.filter_some, hnear, hfarther, hwithin, decide_true, decide_false,
            if_true, if_false, Bool.false_eq_true]
    · rw [List.filter_cons_of_neg (by simpa using hwithin), List.argmin_cons, ih]
      cases items.argmin measure with
      | none => simp only [Option.filter_none, Option.filter_some, hwithin, decide_false,
          Bool.false_eq_true, if_false]
      | some best =>
        by_cases hless : measure best < measure item
        · simp only [hless, if_true]
        · have hfar : ¬ measure best ≤ limit := by omega
          simp only [Option.filter_some, hless, hfar, hwithin, decide_false, Bool.false_eq_true,
            if_false]

/-- The scan finds a first least entry and keeps it if it is within the limit. -/
theorem firstLeast?_eq_filter_argmin (measure : α → Nat) (limit : Nat) (items : List α) :
    firstLeast? measure limit items = (items.argmin measure).filter (measure · ≤ limit) := by
  rw [← argmin_filter_le, firstLeast?, List.argmin]
  congr 1
  funext best item
  cases best <;> rfl

/-- What is chosen is the first entry with the least value, which is within the limit. -/
theorem firstLeast?_eq_some_iff [DecidableEq α] {measure : α → Nat} {limit : Nat}
    {items : List α} {item : α} :
    firstLeast? measure limit items = some item ↔
      (item ∈ items ∧ (∀ other ∈ items, measure item ≤ measure other) ∧
        ∀ other ∈ items, measure other ≤ measure item → items.idxOf item ≤ items.idxOf other) ∧
      measure item ≤ limit := by
  rw [firstLeast?_eq_filter_argmin, Option.filter_eq_some_iff, List.argmin_eq_some_iff,
    decide_eq_true_iff]

/-- Nothing is chosen if no entry is within the limit. -/
theorem firstLeast?_eq_none_iff {measure : α → Nat} {limit : Nat} {items : List α} :
    firstLeast? measure limit items = none ↔ ∀ item ∈ items, limit < measure item := by
  rw [firstLeast?_eq_filter_argmin, ← argmin_filter_le, List.argmin_eq_none,
    List.filter_eq_nil_iff]
  simp only [decide_eq_true_iff, not_le]

end FirstLeast

/-! ## Words for slips -/

/-- The word to offer for another one: a word of the list that is read, at a distance of two
at most and no farther than any word in lower case that is read, and the first of the list
at that distance. -/
structure IsClosestWord (word fix : String) : Prop where
  mem : fix ∈ vocabularyWords
  isRead : (symbolOfWord? fix).isSome = true
  near : byteLevenshtein word fix ≤ 2
  least : ∀ other, IsLowerCase other → (symbolOfWord? other).isSome = true →
    byteLevenshtein word fix ≤ byteLevenshtein word other
  first : ∀ other ∈ vocabularyWords, byteLevenshtein word other = byteLevenshtein word fix →
    vocabularyWords.idxOf fix ≤ vocabularyWords.idxOf other

variable {word fix : String}

/-- A word that is offered is one of the list. -/
theorem mem_of_closestWord? (hfix : closestWord? word = some fix) : fix ∈ vocabularyWords :=
  (firstLeast?_eq_some_iff.mp hfix).1.1

theorem closestWord?_eq_some_iff : closestWord? word = some fix ↔ IsClosestWord word fix := by
  rw [closestWord?, byteDistance_eq_byteLevenshtein, firstLeast?_eq_some_iff]
  constructor
  · rintro ⟨⟨hmem, hleast, hfirst⟩, hnear⟩
    exact {
      mem := hmem
      isRead := (mem_vocabularyWords_iff.mp hmem).2
      near := hnear
      least := fun other hlower hread => hleast other (mem_vocabularyWords_iff.mpr ⟨hlower, hread⟩)
      first := fun other hother hequal => hfirst other hother hequal.le }
  · intro hclosest
    have hleast : ∀ other ∈ vocabularyWords,
        byteLevenshtein word fix ≤ byteLevenshtein word other := by
      intro other hother
      obtain ⟨hlower, hread⟩ := mem_vocabularyWords_iff.mp hother
      exact hclosest.least other hlower hread
    exact ⟨⟨hclosest.mem, hleast, fun other hother hle =>
      hclosest.first other hother (hle.antisymm (hleast other hother))⟩, hclosest.near⟩

theorem closestWord?_eq_none_iff : closestWord? word = none ↔
    ∀ other, IsLowerCase other → (symbolOfWord? other).isSome = true →
      2 < byteLevenshtein word other := by
  rw [closestWord?, byteDistance_eq_byteLevenshtein, firstLeast?_eq_none_iff]
  constructor
  · exact fun hfar other hlower hread => hfar other (mem_vocabularyWords_iff.mpr ⟨hlower, hread⟩)
  · intro hfar other hother
    obtain ⟨hlower, hread⟩ := mem_vocabularyWords_iff.mp hother
    exact hfar other hlower hread

/-- The rows give the distance by recursion over bytes, and the word that is offered for a
slip is the closest by this distance. -/
theorem byteDistance_and_closestWord?_spec :
    (∀ source target : String, byteDistance source target =
      levenshtein source.toUTF8.data.toList target.toUTF8.data.toList) ∧
    ∀ word : String,
      (∀ fix, closestWord? word = some fix ↔ IsClosestWord word fix) ∧
      (closestWord? word = none ↔ ∀ other, IsLowerCase other →
        (symbolOfWord? other).isSome = true → 2 < byteLevenshtein word other) :=
  ⟨fun source => congrFun (byteDistance_eq_byteLevenshtein source), fun _ =>
    ⟨fun _ => closestWord?_eq_some_iff, closestWord?_eq_none_iff⟩⟩

end Cadence
