import Cadence.Clock.Instant
import Cadence.Text.Span
import Cadence.Zone.Basic

/-!
# Timestamps

A timestamp is an instant together with the offset it is written with, in the
format of internet dates: `2026-02-06T12:00:00.5+05:30`.

The reader takes the parts from left to right and reports the first that is
wrong.  The date is judged as soon as it is read, the time once its fraction is
read.  Lengths are counted in bytes.
-/

namespace Cadence

/-- An instant and an offset in seconds east to show it with. -/
structure Timestamp where
  instant : Instant
  offset : Int
  deriving DecidableEq, Repr

namespace Timestamp

/-- What is wrong with a text that is not a timestamp. -/
inductive Fault where
  | tooShort
  | invalid
  | outOfRange
  | tooLong
  deriving DecidableEq, Repr

def Fault.message : Fault → String
  | tooShort => "premature end of input"
  | invalid => "input contains invalid characters"
  | outOfRange => "input is out of range"
  | tooLong => "trailing input"

/-! ## Writing -/

/-- The local reading of a timestamp. -/
def localSecond (stamp : Timestamp) : Int := stamp.instant.second + stamp.offset

/-- A fraction of a second with as many digits as needed of 0, 3, 6 and 9. -/
def fractionText (nano : Nat) : String :=
  if nano = 0 then ""
  else if nano % 1000000 = 0 then "." ++ Numeral.padded 3 (nano / 1000000)
  else if nano % 1000 = 0 then "." ++ Numeral.padded 6 (nano / 1000)
  else "." ++ Numeral.padded 9 nano

/-- An offset as a sign, hours and minutes. -/
def offsetText (offset : Int) : String :=
  let minutes := offset.natAbs / 60
  (if offset < 0 then "-" else "+") ++
    Numeral.padded 2 (minutes / 60) ++ ":" ++ Numeral.padded 2 (minutes % 60)

/-- The written form.  A leap second is shown as second 60. -/
def text (stamp : Timestamp) : String :=
  let clock := clockOfSecond stamp.localSecond
  let second := clock % 60 + stamp.instant.nano / secondNanos
  (dateOfSecond stamp.localSecond).text ++ "T" ++ Numeral.padded 2 (clock / 3600) ++ ":" ++
    Numeral.padded 2 (clock / 60 % 60) ++ ":" ++ Numeral.padded 2 second ++
    fractionText (stamp.instant.nano % secondNanos) ++ offsetText stamp.offset

/-! ## Reading -/

/-- Reads exactly `count` digits. -/
def readDigits : (count : Nat) → (value : Nat) → List Char → Except Fault (Nat × List Char)
  | 0, value, text => .ok (value, text)
  | count + 1, value, c :: rest =>
    if c.isDigit then readDigits count (value * 10 + (c.toNat - '0'.toNat)) rest
    else .error .invalid
  | _ + 1, _, [] => .error .invalid

/-- Reads one of the allowed characters. -/
def readMark (allowed : List Char) : List Char → Except Fault (List Char)
  | c :: rest => if allowed.contains c then .ok rest else .error .invalid
  | [] => .error .invalid

/-- Reads the fraction of a second after the point, in nanoseconds: nine digits,
filled up with zeros.  Digits after the ninth count for nothing. -/
def readFraction (text : List Char) : Except Fault (Nat × List Char) :=
  match text with
  | [] => .error .tooShort
  | c :: _ =>
    if c.isDigit then
      let digits := text.takeWhile Char.isDigit ++ List.replicate 9 '0'
      .ok (Nat.ofDigitChars 10 (digits.take 9) 0, text.dropWhile Char.isDigit)
    else .error .invalid

/-- Reads two digits of an offset. -/
def readOffsetPair (text : List Char) : Except Fault (Nat × List Char) :=
  if byteLength text < 2 then .error .tooShort
  else readDigits 2 0 text

/-- Reads the offset: `Z`, or a sign, hours and minutes.  The true minus sign
is taken as well as the hyphen. -/
def readOffset (text : List Char) : Except Fault (Int × List Char) :=
  match text with
  | [] => .error .tooShort
  | c :: rest =>
    if c = 'Z' ∨ c = 'z' then .ok (0, rest)
    else if c = '+' ∨ c = '-' ∨ c = '\u2212' then do
      let (hours, rest) ← readOffsetPair rest
      let rest ← if rest.isEmpty then .error .tooShort else readMark [':'] rest
      let (minutes, rest) ← readOffsetPair rest
      if 60 ≤ minutes then .error .outOfRange
      else
        let seconds : Int := hours * 3600 + minutes * 60
        .ok (if c = '+' then seconds else -seconds, rest)
    else .error .invalid

/-- Reads a timestamp. -/
def read (text : String) : Except Fault Timestamp := do
  let rest := text.toList
  if byteLength rest < 19 then .error .tooShort
  let (year, rest) ← readDigits 4 0 rest
  let rest ← readMark ['-'] rest
  let (month, rest) ← readDigits 2 0 rest
  let rest ← readMark ['-'] rest
  let (day, rest) ← readDigits 2 0 rest
  match Date.ofYmd? year month day with
  | none => .error .outOfRange
  | some date =>
    let rest ← readMark ['T', 't', ' '] rest
    let (hour, rest) ← readDigits 2 0 rest
    let rest ← readMark [':'] rest
    let (minute, rest) ← readDigits 2 0 rest
    let rest ← readMark [':'] rest
    let (second, rest) ← readDigits 2 0 rest
    let (fraction, rest) ← match rest with
      | '.' :: rest => readFraction rest
      | _ => .ok (0, rest)
    if 24 ≤ hour ∨ 60 ≤ minute ∨ 60 < second then .error .outOfRange
    let (offset, rest) ← readOffset rest
    if !rest.isEmpty then .error .tooLong
    if 86400 ≤ offset.natAbs then .error .outOfRange
    let (second, nano) := if second = 60 then (59, secondNanos + fraction) else (second, fraction)
    let reading := secondOf date (hour * 3600 + minute * 60 + second)
    .ok ⟨⟨reading - offset, nano⟩, offset⟩

/-- Moves a timestamp by whole seconds and keeps its offset.  Nothing if the
move leaves the calendar. -/
def shift? (stamp : Timestamp) (seconds : Int) : Option Timestamp :=
  let moved := stamp.instant.shift seconds
  (Date.ofDayNumber? (dateOfSecond moved.second).dayNumber).map fun _ => ⟨moved, stamp.offset⟩

end Timestamp

/-- An instant with the offset a zone has at that moment. -/
def Zone.timestamp (zone : Zone) (instant : Instant) : Timestamp :=
  ⟨instant, zone.offsetAt instant.second⟩

end Cadence
