import Mathlib.Data.List.Forall2

/-!
# Outcomes

A reader comes to a result or to a cause of failure.  It comes to a result exactly if all
its parts do.
-/

namespace Cadence

variable {cause α β γ : Type}

/-- A reader succeeds if its first part does and the rest does with what that found. -/
theorem bind_eq_ok_iff {first : Except cause α} {rest : α → Except cause β} {result : β} :
    (first >>= rest) = .ok result ↔ ∃ found, first = .ok found ∧ rest found = .ok result := by
  constructor
  · intro hread
    cases first with
    | error _ => cases hread
    | ok found => exact ⟨found, rfl, hread⟩
  · rintro ⟨found, rfl, hrest⟩
    exact hrest

theorem map_eq_ok_iff {reader : Except cause α} {f : α → β} {result : β} :
    f <$> reader = .ok result ↔ ∃ found, reader = .ok found ∧ f found = result := by
  constructor
  · intro hmap
    cases reader with
    | error _ => cases hmap
    | ok found => exact ⟨found, rfl, Except.ok.inj hmap⟩
  · rintro ⟨found, rfl, rfl⟩
    rfl

/-- A list is read if every entry is. -/
theorem mapM_eq_ok_iff {reader : α → Except cause β} {items : List α} {results : List β} :
    items.mapM reader = .ok results ↔
      List.Forall₂ (fun item result => reader item = .ok result) items results := by
  induction items generalizing results with
  | nil =>
    rw [List.mapM_nil, List.forall₂_nil_left_iff]
    exact ⟨fun hnil => (Except.ok.inj hnil).symm, fun hnil => hnil ▸ rfl⟩
  | cons item items ih =>
    simp only [List.mapM_cons, bind_eq_ok_iff, ih, List.forall₂_cons_left_iff]
    constructor
    · rintro ⟨result, hresult, others, hothers, hall⟩
      exact ⟨result, others, hresult, hothers, (Except.ok.inj hall).symm⟩
    · rintro ⟨result, others, hresult, hothers, rfl⟩
      exact ⟨result, hresult, others, hothers, rfl⟩

/-- A list of texts is read entry by entry. -/
theorem mapM_map_eq_ok {items : List α} {written : α → β} {result : α → γ}
    {reader : β → Except cause γ}
    (hread : ∀ item ∈ items, reader (written item) = .ok (result item)) :
    (items.map written).mapM reader = .ok (items.map result) := by
  induction items with
  | nil => rfl
  | cons item items ih =>
    obtain ⟨hitem, hitems⟩ := List.forall_mem_cons.mp hread
    rw [List.map_cons, List.mapM_cons, hitem, ih hitems]
    rfl

theorem exists_item_of_mapM {reader : α → Except cause β} {items : List α} {results : List β}
    (hread : items.mapM reader = .ok results) {result : β} (hmem : result ∈ results) :
    ∃ item ∈ items, reader item = .ok result := by
  have hall := mapM_eq_ok_iff.mp hread
  clear hread
  induction hall with
  | nil => cases hmem
  | @cons item _ _ _ hitem _ ih =>
    rcases List.mem_cons.mp hmem with rfl | hmem
    · exact ⟨item, List.mem_cons_self, hitem⟩
    · exact (ih hmem).imp fun _ hother => ⟨List.mem_cons_of_mem _ hother.1, hother.2⟩

theorem exists_result_of_mapM {reader : α → Except cause β} {items : List α}
    {results : List β} (hread : items.mapM reader = .ok results) {item : α} (hmem : item ∈ items) :
    ∃ result ∈ results, reader item = .ok result := by
  have hall := mapM_eq_ok_iff.mp hread
  clear hread
  induction hall with
  | nil => cases hmem
  | @cons _ result _ _ hitem _ ih =>
    rcases List.mem_cons.mp hmem with rfl | hmem
    · exact ⟨result, List.mem_cons_self, hitem⟩
    · exact (ih hmem).imp fun _ hother => ⟨List.mem_cons_of_mem _ hother.1, hother.2⟩

end Cadence
