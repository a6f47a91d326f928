import Cadence.Schedule.Basic
import Cadence.Text.EditDistance

/-!
# The vocabulary of expressions

The vocabulary of expressions is closed.  A word is read if it is one of the
common words or the name of a weekday or a month.  For a word that is not read, the
closest one from a list of words is offered; the list is kept apart from the
reader, and both have the same words.
-/

namespace Cadence

/-- The words that shape an expression. -/
inductive Keyword where
  | every
  | «on»
  | «at»
  | «from»
  | «to»
  | «in»
  | «of»
  | «the»
  | last
  | except
  | «until»
  | starting
  | during
  | next
  | previous
  | nearest
  | year
  | day
  | weekday
  | weekend
  | week
  | month
  deriving DecidableEq, Repr

/-- The spelling a keyword is shown with. -/
def Keyword.text : Keyword → String
  | every => "every"
  | «on» => "on"
  | «at» => "at"
  | «from» => "from"
  | «to» => "to"
  | «in» => "in"
  | «of» => "of"
  | «the» => "the"
  | last => "last"
  | except => "except"
  | «until» => "until"
  | starting => "starting"
  | during => "during"
  | next => "next"
  | previous => "previous"
  | nearest => "nearest"
  | year => "year"
  | day => "day"
  | weekday => "weekday"
  | weekend => "weekend"
  | week => "weeks"
  | month => "month"

/-- What a token stands for.  A date is only known to have the shape of one. -/
inductive Symbol where
  | keyword (word : Keyword)
  | weekday (day : Weekday)
  | month (month : Month)
  | position (position : Position)
  | unit (unit : StepUnit)
  | number (value : Nat)
  | ordinal (value : Nat)
  | time (time : TimeOfDay)
  | date (text : String)
  | zone (name : String)
  | comma
  deriving DecidableEq, Repr

namespace Symbol

/-- The spelling a symbol is shown with. -/
def text : Symbol → String
  | .keyword word => word.text
  | .weekday day => day.name
  | .month named => named.name
  | .position rank => rank.text
  | .unit step => step.text
  | .number value => Nat.repr value
  | .ordinal value => Numeral.ordinalText value
  | .time clock => clock.text
  | .date written => written
  | .zone name => name
  | .comma => ","

/-- A symbol in quotation marks. -/
def quoted (symbol : Symbol) : String := "'" ++ symbol.text ++ "'"

end Symbol

/-- The words that name neither a weekday nor a month, in lower case, with what
they stand for. -/
def commonWords : List (String × Symbol) :=
  [("every", .keyword .every), ("on", .keyword .«on»), ("at", .keyword .«at»),
   ("from", .keyword .«from»), ("to", .keyword .«to»), ("in", .keyword .«in»),
   ("of", .keyword .«of»), ("the", .keyword .«the»), ("last", .keyword .last),
   ("except", .keyword .except), ("until", .keyword .«until»),
   ("starting", .keyword .starting), ("during", .keyword .during),
   ("next", .keyword .next), ("previous", .keyword .previous),
   ("nearest", .keyword .nearest), ("year", .keyword .year), ("years", .keyword .year),
   ("day", .keyword .day), ("days", .keyword .day), ("weekday", .keyword .weekday),
   ("weekdays", .keyword .weekday), ("weekend", .keyword .weekend),
   ("weekends", .keyword .weekend), ("week", .keyword .week), ("weeks", .keyword .week),
   ("month", .keyword .month), ("months", .keyword .month),
   ("first", .position .first), ("second", .position .second),
   ("third", .position .third), ("fourth", .position .fourth),
   ("fifth", .position .fifth), ("min", .unit .minutes), ("mins", .unit .minutes),
   ("minute", .unit .minutes), ("minutes", .unit .minutes), ("hour", .unit .hours),
   ("hours", .unit .hours), ("hr", .unit .hours), ("hrs", .unit .hours)]

/-- What a word stands for: a common word in lower case, or a weekday or a month
by its full or three-letter name in any case. -/
def symbolOfWord? (word : String) : Option Symbol :=
  match commonWords.lookup word with
  | some symbol => some symbol
  | none =>
    match Weekday.ofName? word with
    | some day => some (.weekday day)
    | none => (Month.ofName? word).map .month

/-- The words that are offered in the place of one that is not read, in the order
in which the first of several equally close ones is taken. -/
def vocabularyWords : List String :=
  ["every", "on", "at", "from", "to", "in", "of", "the", "last", "except", "until",
   "starting", "during", "next", "previous", "nearest", "year", "years", "day", "days",
   "weekday", "weekdays", "weekend", "weekends", "week", "weeks", "month", "months",
   "monday", "mon", "tuesday", "tue", "wednesday", "wed", "thursday", "thu", "friday", "fri",
   "saturday", "sat", "sunday", "sun", "january", "jan", "february", "feb", "march", "mar",
   "april", "apr", "may", "june", "jun", "july", "jul", "august", "aug", "september", "sep",
   "october", "oct", "november", "nov", "december", "dec", "first", "second", "third",
   "fourth", "fifth", "min", "mins", "minute", "minutes", "hour", "hours", "hr", "hrs"]

/-- The largest edit distance at which a word is still taken for a slip. -/
def slipLimit : Nat := 2

/-- The first entry with the least value of a measure, if that is at most
`limit`. -/
def firstLeast? {α : Type} (measure : α → Nat) (limit : Nat) (items : List α) : Option α :=
  (items.filter (measure · ≤ limit)).foldl
    (fun best item => match best with
      | none => some item
      | some held => if measure item < measure held then some item else some held)
    none

/-- The closest word of the vocabulary to one that is not in it, if it is close
enough to be a slip. -/
def closestWord? (word : String) : Option String :=
  firstLeast? (byteDistance word) slipLimit vocabularyWords

end Cadence
