/-!
# Byte spans

A span names a stretch of a text by byte offsets into its UTF-8 form.  Columns
on a screen are counted in characters, so an offset is turned into a column by
counting the characters that lie before it.
-/

namespace Cadence

/-- The length of a text in UTF-8 bytes. -/
def byteLength : List Char → Nat
  | [] => 0
  | c :: rest => c.utf8Size + byteLength rest

/-- The bytes from `start` up to but not including `stop`. -/
structure Span where
  start : Nat
  stop : Nat
  deriving DecidableEq, Repr

namespace Span

/-- The empty span at a position. -/
def empty (position : Nat) : Span := ⟨position, position⟩

/-- How many bytes a span covers; none when its ends are reversed. -/
def length (span : Span) : Nat := span.stop - span.start

/-- Whether a span covers no byte. -/
def isEmpty (span : Span) : Bool := span.length = 0

/-- A span in figures, such as `6..11`. -/
def text (span : Span) : String :=
  Nat.repr span.start ++ ".." ++ Nat.repr span.stop

end Span

/-- How many characters make up the first `bytes` bytes of a text; nothing if
that offset lies inside a character or past the end. -/
def charsBefore? : (bytes : Nat) → List Char → Option Nat
  | 0, _ => some 0
  | _ + 1, [] => none
  | bytes + 1, c :: rest =>
    if c.utf8Size ≤ bytes + 1 then
      (charsBefore? (bytes + 1 - c.utf8Size) rest).map (· + 1)
    else none

end Cadence
