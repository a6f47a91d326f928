/-!
# Decimal numerals

Counts, days and steps are written in decimal and must fit a stated limit.
Reading goes through `Nat.ofDigitChars`, writing through `Nat.repr`, so that a
written count is always read back.
-/

namespace Cadence.Numeral

/-- The largest count an expression may name: 32 bits, unsigned. -/
def countLimit : Nat := 4294967295

/-- The value of a run of decimal digits, provided it is at most `limit`. -/
def ofDigits? (limit : Nat) (digits : List Char) : Option Nat :=
  let value := Nat.ofDigitChars 10 digits 0
  if value ≤ limit then some value else none

/-- Reads a whole text as a count: one optional plus sign, then at least one
digit and nothing else. -/
def read? (limit : Nat) (text : List Char) : Option Nat :=
  let digits := match text with
    | '+' :: rest => rest
    | _ => text
  if !digits.isEmpty && digits.all Char.isDigit then ofDigits? limit digits else none

/-- Decimal text filled up with leading zeros to at least `width` digits. -/
def padded (width value : Nat) : String :=
  let digits := Nat.toDigits 10 value
  String.ofList (List.replicate (width - digits.length) '0' ++ digits)

/-- The English ending of an ordinal: 1st, 2nd, 3rd, 4th, 11th, 12th, 13th,
21st and so on. -/
def ordinalEnding (value : Nat) : String :=
  if value % 100 = 11 ∨ value % 100 = 12 ∨ value % 100 = 13 then "th"
  else match value % 10 with
    | 1 => "st"
    | 2 => "nd"
    | 3 => "rd"
    | _ => "th"

/-- An ordinal in figures, such as `22nd`. -/
def ordinalText (value : Nat) : String :=
  Nat.repr value ++ ordinalEnding value

/-- Whether two letters, in either case, end an ordinal in figures. -/
def isOrdinalEnding (first second : Char) : Bool :=
  match first.toLower, second.toLower with
  | 's', 't' => true
  | 'n', 'd' => true
  | 'r', 'd' => true
  | 't', 'h' => true
  | _, _ => false

end Cadence.Numeral
