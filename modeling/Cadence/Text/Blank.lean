/-!
# Blank characters

Two classes of blank occur.  Expressions are separated by ASCII blanks alone.
Cron fields and settings are separated and trimmed by every character with the
Unicode property `White_Space`.
-/

namespace Cadence

/-- The blanks that separate the words of an expression: space, tab, line
feed, form feed and carriage return. -/
def isAsciiBlank (c : Char) : Bool :=
  c = ' ' || c = '\t' || c = '\n' || c = '\x0c' || c = '\r'

/-- Code points with the Unicode property `White_Space`, in ascending order. -/
def whiteSpace : List Nat :=
  [0x09, 0x0A, 0x0B, 0x0C, 0x0D, 0x20, 0x85, 0xA0, 0x1680,
   0x2000, 0x2001, 0x2002, 0x2003, 0x2004, 0x2005, 0x2006, 0x2007, 0x2008, 0x2009, 0x200A,
   0x2028, 0x2029, 0x202F, 0x205F, 0x3000]

/-- Whether a character has the Unicode property `White_Space`. -/
def isWhiteSpace (c : Char) : Bool :=
  whiteSpace.contains c.toNat

/-- Every blank that separates an expression is white space. -/
theorem isWhiteSpace_of_isAsciiBlank {c : Char} (hblank : isAsciiBlank c = true) :
    isWhiteSpace c = true := by
  simp only [isAsciiBlank, Bool.or_eq_true, decide_eq_true_eq] at hblank
  rcases hblank with (((rfl | rfl) | rfl) | rfl) | rfl <;> decide

/-- Drops white space from both ends. -/
def trimmed (text : List Char) : List Char :=
  ((text.dropWhile isWhiteSpace).reverse.dropWhile isWhiteSpace).reverse

/-- The maximal runs of characters that are not white space. -/
def words : List Char → List (List Char)
  | [] => []
  | c :: rest =>
    if isWhiteSpace c then words rest
    else
      (c :: rest.takeWhile (!isWhiteSpace ·)) :: words (rest.dropWhile (!isWhiteSpace ·))
termination_by text => text.length
decreasing_by
  · simp
  · have := (List.dropWhile_sublist (l := rest) (!isWhiteSpace ·)).length_le
    simp only [List.length_cons]
    omega

end Cadence
