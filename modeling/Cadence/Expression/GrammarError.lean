import Cadence.Expression.Vocabulary
import Cadence.Text.Span

/-!
# Grammatical errors

Each place of the grammar at which nothing that stands there can be accepted has
a constructor.  Its wording is given once, in `GrammarCause.message`.
-/

namespace Cadence

/-- The places at which a day is named. -/
inductive DayPlace where
  | recurrence
  | skipped
  | lastDay
  deriving DecidableEq, Repr

/-- The places at which an ordinal day of the month is required. -/
inductive OrdinalPlace where
  | ofMonth
  | rangeEnd
  | ofYear
  deriving DecidableEq, Repr

def OrdinalPlace.message : OrdinalPlace → String
  | ofMonth => "expected ordinal day number"
  | rangeEnd => "expected ordinal day number after 'to'"
  | ofYear => "expected ordinal, day number, or 'last' after 'the' in yearly expression"

/-- The places at which the name of a weekday is required. -/
inductive WeekdayPlace where
  | listStart
  | listRest
  | afterPosition
  | afterPositionInYear
  deriving DecidableEq, Repr

def WeekdayPlace.message : WeekdayPlace → String
  | listStart => "expected day name"
  | listRest => "expected day name after ','"
  | afterPosition => "expected day name after ordinal"
  | afterPositionInYear => "expected day name after ordinal in yearly expression"

/-- Why a sequence of tokens is no expression. -/
inductive GrammarCause where
  | emptyText
  | leftover
  | noRecurrence
  /-- Another word, or the end, stands where this one has to. -/
  | missingKeyword (word : Keyword) (found : Option Symbol)
  | missingRepeater
  | wrongRepeater
  | missingUnit
  | zeroInterval
  | missingMonthTarget
  | missingLastTarget
  | missingYearTarget
  | missingLastYearTarget
  | missingDay (place : DayPlace)
  | wrongDay (place : DayPlace)
  | missingDayOfMonth (place : DayPlace)
  | missingOrdinal (place : OrdinalPlace)
  /-- A plain number stands where an ordinal is required. -/
  | plainNumber (place : OrdinalPlace) (value : Nat)
  | missingWeekday (place : WeekdayPlace)
  | missingDayFilter
  | missingMonth
  | missingTime
  | missingAnchor
  | missingZone
  | dayOutOfRange (day : Nat)
  | dayOutOfMonth (day : Nat) (month : Month)
  | reversedDays (start stop : Nat)
  | impossibleDate (text : String)
  deriving DecidableEq, Repr

namespace GrammarCause

def message : GrammarCause → String
  | emptyText => "empty expression"
  | leftover => "unexpected tokens after expression"
  | noRecurrence => "expected 'every', 'on', or an ordinal (first, second, ...)"
  | missingKeyword word found =>
    "expected " ++ (Symbol.keyword word).quoted ++
      (match found with
        | some symbol => ", got " ++ symbol.quoted
        | none => "")
  | missingRepeater => "expected repeater"
  | wrongRepeater =>
    "expected day, weekday, weekend, year, day name, month, or number after 'every'"
  | missingUnit =>
    "expected 'weeks', 'min', 'minutes', 'hour', 'hours', 'day(s)', 'month(s)', " ++
      "or 'year(s)' after number"
  | zeroInterval => "interval must be at least 1"
  | missingMonthTarget =>
    "expected ordinal day (1st, 15th), 'last', or '[next|previous] nearest' after 'the'"
  | missingLastTarget => "expected 'day' or 'weekday' after 'last'"
  | missingYearTarget => "expected month name or 'the' after 'every year on'"
  | missingLastYearTarget =>
    "expected 'weekday' or day name after 'last' in yearly expression"
  | missingDay place => match place with
    | .recurrence => "expected date"
    | .skipped => "expected exception date"
    | .lastDay => "expected until date"
  | wrongDay place => match place with
    | .recurrence => "expected date (ISO date or month name)"
    | .skipped => "expected ISO date or month-day in exception"
    | .lastDay => "expected ISO date or month-day after 'until'"
  | missingDayOfMonth place => match place with
    | .recurrence => "expected day number after month name"
    | .skipped => "expected day number after month name in exception"
    | .lastDay => "expected day number after month name in until"
  | missingOrdinal place => place.message
  | plainNumber place _ => place.message
  | missingWeekday place => place.message
  | missingDayFilter => "expected 'day', 'weekday', 'weekend', or day name"
  | missingMonth => "expected month name"
  | missingTime => "expected time (HH:MM)"
  | missingAnchor => "expected ISO date (YYYY-MM-DD) after 'starting'"
  | missingZone => "expected timezone after 'in'"
  | dayOutOfRange day => "invalid day of month: " ++ Nat.repr day
  | dayOutOfMonth day month => "invalid day " ++ Nat.repr day ++ " for " ++ month.fullName
  | reversedDays start stop =>
    "invalid day range: " ++ Numeral.ordinalText start ++ " is after " ++ Numeral.ordinalText stop
  | impossibleDate text => "invalid date: " ++ text

/-- What to write instead: the ordinal for a plain number. -/
def suggestion : GrammarCause → Option String
  | plainNumber _ value => some (Numeral.ordinalText value)
  | _ => none

end GrammarCause

/-- A cause and the place it concerns; without a span, the end of the text. -/
structure GrammarError where
  cause : GrammarCause
  span : Option Span
  deriving DecidableEq, Repr

end Cadence
