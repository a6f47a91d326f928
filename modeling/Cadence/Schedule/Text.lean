import Cadence.Schedule.Basic

/-!
# Canonical text

Every schedule has one canonical spelling: full weekday names, three-letter
month names, times in two-digit figures, one space between words and a comma
and a space between list entries.  The clauses follow the recurrence in a fixed
order, each only where it says something.
-/

namespace Cadence

def Weekday.listText (days : List Weekday) : String :=
  joined ", " (days.map Weekday.name)

def DayFilter.text : DayFilter → String
  | every => "day"
  | business => "weekday"
  | weekend => "weekend"
  | listed days => Weekday.listText days

def MonthDays.text : MonthDays → String
  | single day => Numeral.ordinalText day
  | range start stop => Numeral.ordinalText start ++ " to " ++ Numeral.ordinalText stop

def MonthTarget.text : MonthTarget → String
  | days entries => joined ", " (entries.map MonthDays.text)
  | lastDay => "last day"
  | lastBusinessDay => "last weekday"
  | nearestBusinessDay day direction =>
    (match direction with
      | some direction => direction.text ++ " "
      | none => "") ++ "nearest weekday to " ++ Numeral.ordinalText day
  | positioned position weekday => position.text ++ " " ++ weekday.name

def YearTarget.text : YearTarget → String
  | date month day => month.name ++ " " ++ Nat.repr day
  | positioned position weekday month =>
    "the " ++ position.text ++ " " ++ weekday.name ++ " of " ++ month.name
  | dayOfMonth day month => "the " ++ Numeral.ordinalText day ++ " of " ++ month.name
  | lastBusinessDay month => "the last weekday of " ++ month.name

/-- A repeated unit: `every month`, or `every 3 months` for longer intervals. -/
def repeatedText (interval : Nat) (unit : String) : String :=
  if 1 < interval then "every " ++ Nat.repr interval ++ " " ++ unit ++ "s" else "every " ++ unit

namespace Recurrence

def text : Recurrence → String
  | window interval unit start stop days =>
    "every " ++ Nat.repr interval ++ " " ++ unit.textFor interval ++
      " from " ++ start.text ++ " to " ++ stop.text ++
      (match days with
        | some filter => " on " ++ filter.text
        | none => "")
  | daily interval days times =>
    (if 1 < interval then "every " ++ Nat.repr interval ++ " days" else "every " ++ days.text) ++
      " at " ++ TimeOfDay.listText times
  | weekly interval days times =>
    "every " ++ Nat.repr interval ++ " weeks on " ++ Weekday.listText days ++
      " at " ++ TimeOfDay.listText times
  | monthly interval target times =>
    repeatedText interval "month" ++ " on the " ++ target.text ++
      " at " ++ TimeOfDay.listText times
  | ordinal interval position weekday times =>
    position.text ++ " " ++ weekday.name ++ " of " ++ repeatedText interval "month" ++
      " at " ++ TimeOfDay.listText times
  | once day times => "on " ++ day.text ++ " at " ++ TimeOfDay.listText times
  | yearly interval target times =>
    repeatedText interval "year" ++ " on " ++ target.text ++
      " at " ++ TimeOfDay.listText times

end Recurrence

/-- A clause made of a word and what it governs, empty if there is nothing. -/
def clauseText (word : String) : List String → String
  | [] => ""
  | items => " " ++ word ++ " " ++ joined ", " items

/-- The canonical text of a schedule. -/
def Schedule.text (schedule : Schedule) : String :=
  schedule.recurrence.text ++
    clauseText "except" (schedule.skipped.map CalendarDay.text) ++
    clauseText "until" (schedule.lastDay.toList.map CalendarDay.text) ++
    clauseText "starting" (schedule.anchor.toList.map Date.text) ++
    clauseText "during" (schedule.season.map Month.name) ++
    clauseText "in" schedule.zone.toList

end Cadence
