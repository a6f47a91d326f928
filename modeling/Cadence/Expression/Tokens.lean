import Cadence.Expression.Vocabulary
import Cadence.Text.Blank
import Cadence.Text.Span

/-!
# Cutting a text into tokens

A text is read from left to right.  Blanks separate tokens and are dropped.  A
digit starts a date, a time, an ordinal or a number, a letter starts a word of
the vocabulary, and a comma stands for itself.  After the word `in` the next run
of characters without a blank is the name of a zone, whatever it is made of.

Only ASCII characters can be part of a token other than a zone name, and every
position is counted in bytes.
-/

namespace Cadence

/-- A symbol and where it stands in the text. -/
structure Token where
  symbol : Symbol
  span : Span
  deriving DecidableEq, Repr

/-- Why a text cannot be cut into tokens. -/
inductive LexicalCause where
  | unexpectedCharacter (c : Char)
  | unknownWord (word : String)
  | invalidTime
  | numberOutOfRange
  | missingZone
  deriving DecidableEq, Repr

namespace LexicalCause

def message : LexicalCause → String
  | unexpectedCharacter c => "unexpected character '" ++ String.singleton c ++ "'"
  | unknownWord word => "unknown keyword '" ++ word ++ "'"
  | invalidTime => "invalid time"
  | numberOutOfRange => "number out of range"
  | missingZone => "expected timezone after 'in'"

/-- What to write instead, if there is a likely candidate. -/
def suggestion : LexicalCause → Option String
  | unknownWord word => closestWord? word
  | _ => none

end LexicalCause

/-- A cause and the place it concerns. -/
structure LexicalError where
  cause : LexicalCause
  span : Span
  deriving DecidableEq, Repr

/-- What stands at the front of a text: how many characters it takes after the
first, and the symbol it stands for. -/
structure Lexeme where
  extent : Nat
  symbol : Except LexicalCause Symbol

/-- Letters, digits and the underscore continue a word. -/
def isWordCharacter (c : Char) : Bool := c.isAlphanum || c = '_'

/-- Reads a word that starts with the letter `first`. -/
def readWord (first : Char) (rest : List Char) : Lexeme :=
  let run := rest.takeWhile isWordCharacter
  let word := String.ofList ((first :: run).map Char.toLower)
  { extent := run.length
    symbol := match symbolOfWord? word with
      | some symbol => .ok symbol
      | none => .error (.unknownWord word) }

/-- The time with the given digits, if it lies on the clock. -/
def timeOfDigits? (hourDigits minuteDigits : List Char) : Option TimeOfDay :=
  let hour := Nat.ofDigitChars 10 hourDigits 0
  let minute := Nat.ofDigitChars 10 minuteDigits 0
  if minuteDigits.length = 2 ∧ hour ≤ 23 ∧ minute ≤ 59 then some ⟨hour, minute⟩ else none

/-- What follows a year to make a date: a hyphen and two digits, twice. -/
def dateTail? : List Char → Option (List Char)
  | '-' :: m₁ :: m₂ :: '-' :: d₁ :: d₂ :: _ =>
    if [m₁, m₂, d₁, d₂].all Char.isDigit then some ['-', m₁, m₂, '-', d₁, d₂] else none
  | _ => none

/-- Reads a number, and an ordinal ending if it has one. -/
def readNumber (digits after : List Char) : Lexeme :=
  match Numeral.ofDigits? Numeral.countLimit digits with
  | none => ⟨digits.length - 1, .error .numberOutOfRange⟩
  | some value =>
    match after with
    | c₁ :: c₂ :: _ =>
      if Numeral.isOrdinalEnding c₁ c₂ then ⟨digits.length + 1, .ok (.ordinal value)⟩
      else ⟨digits.length - 1, .ok (.number value)⟩
    | _ => ⟨digits.length - 1, .ok (.number value)⟩

/-- Reads a time: after the hour's digits and a colon come the minute's. -/
def readTime (hourDigits afterColon : List Char) : Lexeme :=
  let minuteDigits := afterColon.takeWhile Char.isDigit
  { extent := hourDigits.length + minuteDigits.length
    symbol := match timeOfDigits? hourDigits minuteDigits with
      | some time => .ok (.time time)
      | none => .error .invalidTime }

/-- Reads what starts with the digit `first`: a date if a year of four digits
and the rest of a date follow, a time if a colon follows one or two digits, and
a number otherwise. -/
def readNumeric (first : Char) (rest : List Char) : Lexeme :=
  let digits := first :: rest.takeWhile Char.isDigit
  let after := rest.dropWhile Char.isDigit
  match (if digits.length = 4 then dateTail? after else none) with
  | some tail => ⟨9, .ok (.date (String.ofList (digits ++ tail)))⟩
  | none =>
    match after with
    | ':' :: afterColon =>
      if digits.length ≤ 2 then readTime digits afterColon else readNumber digits after
    | _ => readNumber digits after

/-- Reads what stands at the front of a text that starts with no blank. -/
def readLexeme (first : Char) (rest : List Char) : Lexeme :=
  if first = ',' then ⟨0, .ok .comma⟩
  else if first.isDigit then readNumeric first rest
  else if first.isAlpha then readWord first rest
  else ⟨0, .error (.unexpectedCharacter first)⟩

/-- Reads the name of a zone, up to the next blank. -/
def readZoneName (first : Char) (rest : List Char) : Lexeme :=
  let run := rest.takeWhile (!isAsciiBlank ·)
  ⟨run.length, .ok (.zone (String.ofList (first :: run)))⟩

/-- The tokens of a text that begins at a byte position.  `zoneNext` says that
the token before was `in`. -/
def tokensFrom (position : Nat) (zoneNext : Bool) :
    List Char → Except LexicalError (List Token)
  | [] => if zoneNext then .error ⟨.missingZone, .empty position⟩ else .ok []
  | first :: rest =>
    if isAsciiBlank first then tokensFrom (position + 1) zoneNext rest
    else
      let lexeme := if zoneNext then readZoneName first rest else readLexeme first rest
      let stop := position + byteLength (first :: rest.take lexeme.extent)
      match lexeme.symbol with
      | .error cause => .error ⟨cause, ⟨position, stop⟩⟩
      | .ok symbol =>
        match tokensFrom stop (symbol = .keyword .«in») (rest.drop lexeme.extent) with
        | .error later => .error later
        | .ok tokens => .ok (⟨symbol, ⟨position, stop⟩⟩ :: tokens)
termination_by text => text.length

/-- Cuts a text into tokens. -/
def tokenize (text : String) : Except LexicalError (List Token) :=
  tokensFrom 0 false text.toList

end Cadence
