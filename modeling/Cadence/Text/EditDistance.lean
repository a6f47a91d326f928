/-!
# Edit distance

The Levenshtein distance counts the fewest insertions, deletions and
replacements that turn one sequence into another.  It is computed row by row:
the row of a sequence `a` holds the distances from `a` to every initial part of
the other sequence.

Two rows are kept.  The row of a longer sequence is written from the one above
it, entry by entry, over whatever the second row still holds from before, and
then the two change places.
-/

namespace Cadence

/-- A finished row and the row that is written from it, for a sequence of
`width` items. -/
structure DistanceRows (width : Nat) where
  above : Vector Nat (width + 1)
  below : Vector Nat (width + 1)

namespace DistanceRows

variable {α : Type} [DecidableEq α] {width : Nat}

/-- The row of the empty sequence, and room for the next. -/
def start (width : Nat) : DistanceRows width where
  above := Vector.ofFn fun column => column.val
  below := Vector.replicate (width + 1) 0

/-- Writes the first entry below: all items before it are dropped. -/
def writeCorner (rows : DistanceRows width) (entry : Nat) : DistanceRows width :=
  { rows with below := rows.below.set 0 entry }

/-- Writes the entry below that follows a column, from its three neighbours. -/
def writeEntry (target : Vector α width) (item : α) (column : Nat) (hcolumn : column < width)
    (rows : DistanceRows width) : DistanceRows width :=
  let replaced := rows.above[column] + (if item = target[column] then 0 else 1)
  let dropped := rows.above[column + 1] + 1
  let added := rows.below[column] + 1
  { rows with below := rows.below.set (column + 1) (min (min replaced dropped) added) }

/-- Writes the row below for the item at an index of the sequence compared. -/
def writeRow (target : Vector α width) (index : Nat) (item : α) (rows : DistanceRows width) :
    DistanceRows width :=
  width.fold (writeEntry target item) (rows.writeCorner (index + 1))

/-- The two rows change places. -/
def swap (rows : DistanceRows width) : DistanceRows width := ⟨rows.below, rows.above⟩

/-- Takes one more item of the sequence compared, with its index. -/
def advance (target : Vector α width) (rows : DistanceRows width) (entry : α × Nat) :
    DistanceRows width :=
  (rows.writeRow target entry.2 entry.1).swap

end DistanceRows

variable {α : Type} [DecidableEq α]

/-- The distance between two sequences: the last entry of the last row. -/
def editDistance (source : List α) (target : Array α) : Nat :=
  let rows := source.zipIdx.foldl (DistanceRows.advance target.toVector) (.start target.size)
  rows.above[target.size]

/-- The distance between two texts, counted in UTF-8 bytes. -/
def byteDistance (source target : String) : Nat :=
  editDistance source.toUTF8.data.toList target.toUTF8.data

end Cadence
