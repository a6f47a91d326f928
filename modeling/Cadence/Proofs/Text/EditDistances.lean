import Mathlib.Data.List.Basic
import Mathlib.Order.MinMax
import Mathlib.Tactic.Basic
import Cadence.Text.EditDistance

/-!
# Edit distances

The distance between two sequences is given by recursion from their front, while the rows
are written towards their end.  Both count the fewest edits, and a sequence of edits may be
read in either direction; so the recursion holds at the end of the sequences as well.  That
is how an entry of the table follows from its three neighbours.

Of the two rows that are kept, the upper one holds the distances from the part of the source
that has been taken.  The lower one holds those from a part that is longer by an item, as far
as it has been written, and behind that whatever was left there.
-/

namespace Cadence

variable {α : Type} [DecidableEq α]

/-! ## The distance by recursion -/

/-- The Levenshtein distance.  Equal first items are kept; of others, the first is replaced by
the second, dropped, or the second is added before it, whichever leaves the least to do. -/
def levenshtein : List α → List α → Nat
  | [], target => target.length
  | source, [] => source.length
  | item :: source, other :: target =>
    if item = other then levenshtein source target
    else 1 + min (levenshtein source target)
      (min (levenshtein source (other :: target)) (levenshtein (item :: source) target))
termination_by source target => source.length + target.length

@[simp]
theorem levenshtein_nil_left (target : List α) : levenshtein [] target = target.length := by
  rw [levenshtein]

@[simp]
theorem levenshtein_nil_right (source : List α) : levenshtein source [] = source.length := by
  cases source <;> simp [levenshtein]

theorem levenshtein_comm (source target : List α) :
    levenshtein source target = levenshtein target source := by
  fun_induction levenshtein source target with
  | case1 target => rw [levenshtein_nil_right]
  | case2 source => rw [levenshtein_nil_left]
  | case3 source item target ih => rw [levenshtein, if_pos rfl, ih]
  | case4 item source other target hne ih₁ ih₂ ih₃ =>
    rw [levenshtein, if_neg (Ne.symm hne), ih₁, ih₂, ih₃, min_comm (levenshtein _ (item :: _))]

/-- If an item more in the target costs at most one, then an item less in the source saves at
most one. -/
theorem levenshtein_le_cons_left_of {source : List α} (hadd : ∀ other target,
      levenshtein source (other :: target) ≤ levenshtein source target + 1)
    (item : α) (target : List α) :
    levenshtein source target ≤ levenshtein (item :: source) target + 1 := by
  induction target with
  | nil =>
    rw [levenshtein_nil_right, levenshtein_nil_right, List.length_cons]
    omega
  | cons other target ih =>
    have hother := hadd other target
    rw [levenshtein]
    split <;> omega

/-- An item more in the target costs at most one. -/
theorem levenshtein_cons_right_le (source : List α) (other : α) (target : List α) :
    levenshtein source (other :: target) ≤ levenshtein source target + 1 := by
  induction source generalizing other target with
  | nil => rw [levenshtein_nil_left, levenshtein_nil_left, List.length_cons]
  | cons item source ih =>
    have hdrop := levenshtein_le_cons_left_of ih item target
    rw [levenshtein]
    split <;> omega

/-- Keeping equal items leaves no more to do than dropping or adding one of them. -/
theorem levenshtein_cons_cons (item other : α) (source target : List α) :
    levenshtein (item :: source) (other :: target) =
      min (min (levenshtein source target + if item = other then 0 else 1)
        (levenshtein source (other :: target) + 1)) (levenshtein (item :: source) target + 1) := by
  have hleft := levenshtein_le_cons_left_of (levenshtein_cons_right_le source) item target
  have hright := levenshtein_le_cons_left_of (levenshtein_cons_right_le target) other source
  rw [levenshtein_comm target, levenshtein_comm (other :: target)] at hright
  rw [levenshtein]
  split <;> omega

/-! ## The fewest edits -/

/-- A number of edits that turn one sequence into another. -/
inductive Edits : Nat → List α → List α → Prop
  | done : Edits 0 [] []
  | keep {count : Nat} {source target : List α} (item : α) (hrest : Edits count source target) :
      Edits count (item :: source) (item :: target)
  | replace {count : Nat} {source target : List α} (item other : α)
      (hrest : Edits count source target) : Edits (count + 1) (item :: source) (other :: target)
  | drop {count : Nat} {source target : List α} (item : α) (hrest : Edits count source target) :
      Edits (count + 1) (item :: source) target
  | add {count : Nat} {source target : List α} (other : α) (hrest : Edits count source target) :
      Edits (count + 1) source (other :: target)

namespace Edits

variable {count first second : Nat} {source target source' target' : List α}

omit [DecidableEq α] in
theorem append (hfirst : Edits first source target) (hsecond : Edits second source' target') :
    Edits (second + first) (source ++ source') (target ++ target') := by
  induction hfirst with
  | done => exact hsecond
  | keep item _ ih => exact .keep item ih
  | replace item other _ ih => exact .replace item other ih
  | drop item _ ih => exact .drop item ih
  | add other _ ih => exact .add other ih

omit [DecidableEq α] in
/-- The same edits turn the sequences into each other when both are read from the end. -/
theorem reverse (hedits : Edits count source target) :
    Edits count source.reverse target.reverse := by
  induction hedits with
  | done => exact .done
  | keep item _ ih => simpa using ih.append (.keep item .done)
  | replace item other _ ih => simpa [Nat.add_comm] using ih.append (.replace item other .done)
  | drop item _ ih => simpa [Nat.add_comm] using ih.append (.drop item .done)
  | add other _ ih => simpa [Nat.add_comm] using ih.append (.add other .done)

omit [DecidableEq α] in
theorem of_nil_left : (target : List α) → Edits target.length [] target
  | [] => .done
  | other :: target => .add other (of_nil_left target)

omit [DecidableEq α] in
theorem of_nil_right : (source : List α) → Edits source.length source []
  | [] => .done
  | item :: source => .drop item (of_nil_right source)

/-- As many edits as the distance are enough. -/
theorem of_levenshtein (source target : List α) :
    Edits (levenshtein source target) source target := by
  fun_induction levenshtein source target with
  | case1 target => exact of_nil_left target
  | case2 source => exact of_nil_right source
  | case3 source item target ih => exact .keep item ih
  | case4 item source other target _ hreplace hdrop hadd =>
    rw [Nat.add_comm]
    rcases min_choice (levenshtein source target) _ with hleast | hleast <;> rw [hleast]
    · exact .replace item other hreplace
    rcases min_choice (levenshtein source (other :: target)) _ with hleast | hleast <;> rw [hleast]
    · exact .drop item hdrop
    · exact .add other hadd

/-- Fewer edits than the distance are not enough. -/
theorem levenshtein_le (hedits : Edits count source target) :
    levenshtein source target ≤ count := by
  induction hedits with
  | done => rw [levenshtein_nil_left, List.length_nil]
  | keep item _ ih => rwa [levenshtein, if_pos rfl]
  | replace item other _ ih =>
    rw [levenshtein_cons_cons]
    split <;> omega
  | @drop count source target item _ ih =>
    have hcost := levenshtein_cons_right_le target item source
    rw [levenshtein_comm target, levenshtein_comm target] at hcost
    omega
  | @add count source target other _ ih =>
    have hcost := levenshtein_cons_right_le source other target
    omega

end Edits

/-- The distance is the same when both sequences are read from the end. -/
theorem levenshtein_reverse (source target : List α) :
    levenshtein source.reverse target.reverse = levenshtein source target := by
  have hle (source target : List α) :
      levenshtein source.reverse target.reverse ≤ levenshtein source target :=
    (Edits.of_levenshtein source target).reverse.levenshtein_le
  refine le_antisymm (hle source target) ?_
  simpa only [List.reverse_reverse] using hle source.reverse target.reverse

/-- The distance from its three neighbours at the end of the sequences. -/
theorem levenshtein_concat_concat (item other : α) (source target : List α) :
    levenshtein (source ++ [item]) (target ++ [other]) =
      min (min (levenshtein source target + if item = other then 0 else 1)
        (levenshtein source (target ++ [other]) + 1))
        (levenshtein (source ++ [item]) target + 1) := by
  have hfront := levenshtein_cons_cons item other source.reverse target.reverse
  simpa only [← List.reverse_concat', levenshtein_reverse] using hfront

/-! ## The two rows -/

namespace DistanceRows

variable {width : Nat} {rows : DistanceRows width} {target : Vector α width} {source : List α}
  {item : α}

/-- The first `count` entries of a row are the distances from a sequence to the initial parts
of the target.  What the others hold is left open. -/
def IsRow (row : Vector Nat (width + 1)) (source : List α) (target : Vector α width)
    (count : Nat) : Prop :=
  ∀ (column : Nat) (hcolumn : column < width + 1), column < count →
    row[column] = levenshtein source (target.toList.take column)

/-- The upper row is finished, and the row for an item more is written below up to `count`
entries. -/
structure IsWritten (rows : DistanceRows width) (source : List α) (item : α)
    (target : Vector α width) (count : Nat) : Prop where
  above : IsRow rows.above source target (width + 1)
  below : IsRow rows.below (source ++ [item]) target count

theorem isRow_start (target : Vector α width) :
    IsRow (start width).above [] target (width + 1) := by
  intro column hcolumn _
  have hwidth : column ≤ target.toList.length := by
    rw [Vector.length_toList]
    omega
  rw [levenshtein_nil_left, List.length_take_of_le hwidth]
  simp only [start, Vector.getElem_ofFn]

theorem isWritten_writeCorner (habove : IsRow rows.above source target (width + 1)) :
    (rows.writeCorner (source.length + 1)).IsWritten source item target 1 := by
  refine ⟨habove, fun column hcolumn hfirst => ?_⟩
  obtain rfl : column = 0 := by omega
  simp [writeCorner]

theorem IsWritten.writeEntry {column : Nat} (hcolumn : column < width)
    (hwritten : rows.IsWritten source item target (column + 1)) :
    (rows.writeEntry target item column hcolumn).IsWritten source item target (column + 2) := by
  refine ⟨hwritten.above, fun place hplace hcount => ?_⟩
  rcases Nat.lt_succ_iff_lt_or_eq.mp hcount with hbefore | rfl
  · -- The entries before it stay as they are.
    have hkept := hwritten.below place hplace hbefore
    rwa [DistanceRows.writeEntry, Vector.getElem_set_ne _ _ (Nat.ne_of_gt hbefore)]
  · have htake : target.toList.take (column + 1) =
        target.toList.take column ++ [target[column]] := by
      rw [List.take_succ_eq_append_getElem (by simpa using hcolumn), Vector.getElem_toList]
    have hdiagonal := hwritten.above column (by omega) (by omega)
    have habove := hwritten.above (column + 1) hplace hplace
    have hleft := hwritten.below column (by omega) (by omega)
    rw [DistanceRows.writeEntry, Vector.getElem_set_self, hdiagonal, habove, hleft, htake,
      levenshtein_concat_concat]

/-- The row below is written from the left to the right. -/
theorem isWritten_writeRow (habove : IsRow rows.above source target (width + 1)) :
    (rows.writeRow target source.length item).IsWritten source item target (width + 1) := by
  have hcolumns : ∀ (count : Nat) (hcount : count ≤ width),
      (count.fold (fun column hcolumn =>
          DistanceRows.writeEntry target item column (hcolumn.trans_le hcount))
        (rows.writeCorner (source.length + 1))).IsWritten source item target (count + 1) := by
    intro count hcount
    induction count with
    | zero => exact isWritten_writeCorner habove
    | succ count ih =>
      rw [Nat.fold_succ]
      exact (ih (Nat.le_of_succ_le hcount)).writeEntry hcount
  exact hcolumns width (Nat.le_refl width)

/-- After an item more the upper row belongs to a source that is longer by it. -/
theorem isRow_advance (habove : IsRow rows.above source target (width + 1)) :
    IsRow (rows.advance target (item, source.length)).above (source ++ [item]) target
      (width + 1) :=
  (isWritten_writeRow habove).below

/-- Once some items have been taken, the upper row belongs to all of them. -/
theorem isRow_foldl_advance (items : List α)
    (habove : IsRow rows.above source target (width + 1)) :
    IsRow ((items.zipIdx source.length).foldl (advance target) rows).above (source ++ items)
      target (width + 1) := by
  induction items generalizing source rows with
  | nil => simpa using habove
  | cons item items ih =>
    have hadvanced : IsRow (rows.advance target (item, source.length)).above (source ++ [item])
        target (width + 1) := isRow_advance habove
    have hrest := ih hadvanced
    rwa [List.length_append, List.append_assoc] at hrest

end DistanceRows

/-- What the two rows end with is the distance by recursion. -/
theorem editDistance_eq_levenshtein (source : List α) (target : Array α) :
    editDistance source target = levenshtein source target.toList := by
  have hlast : editDistance source target =
      levenshtein ([] ++ source) (target.toVector.toList.take target.size) :=
    DistanceRows.isRow_foldl_advance source (DistanceRows.isRow_start target.toVector)
      target.size (Nat.lt_succ_self _) (Nat.lt_succ_self _)
  rw [hlast, List.nil_append, List.take_of_length_le Vector.length_toList.le]
  rfl

example : editDistance "kitten".toList "sitting".toList.toArray = 3 := by decide +kernel

/-- The distance between two texts by recursion over their UTF-8 bytes. -/
def byteLevenshtein (source target : String) : Nat :=
  levenshtein source.toUTF8.data.toList target.toUTF8.data.toList

theorem byteDistance_eq_byteLevenshtein (source : String) :
    byteDistance source = byteLevenshtein source :=
  funext fun _ => editDistance_eq_levenshtein _ _

end Cadence
