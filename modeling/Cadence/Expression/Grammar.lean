import Cadence.Expression.GrammarError
import Cadence.Expression.Tokens

/-!
# Reading expressions

The grammar has one rule for each part of a schedule, and one token is enough to
choose between rules.  A rule takes tokens from the front and returns what is
left; when it fails it names a cause and the token at which it stands.

Calendar conditions are part of the grammar: a date has to exist, a day of the
month must lie in 1 to 31, and a day of a named month must be one the month can
have.
-/

namespace Cadence

/-- A rule of the grammar: a value and the tokens left, or an error. -/
def Rule (α : Type) : Type := List Token → Except GrammarError (α × List Token)

namespace Rule

variable {α β : Type}

instance : Monad Rule where
  pure value := fun tokens => .ok (value, tokens)
  bind rule continuation := fun tokens => match rule tokens with
    | .ok (value, rest) => continuation value rest
    | .error error => .error error

/-- A sequence runs its second part on the tokens its first part leaves. -/
theorem bind_apply (rule : Rule α) (continuation : α → Rule β) (tokens : List Token) :
    (rule >>= continuation) tokens = match rule tokens with
      | .ok (value, rest) => continuation value rest
      | .error error => .error error := rfl

/-- Fails at a span. -/
def failAt (cause : GrammarCause) (span : Option Span) : Rule α := fun _ =>
  .error ⟨cause, span⟩

/-- Fails at the token at the front. -/
def fail (cause : GrammarCause) : Rule α := fun tokens =>
  .error ⟨cause, tokens.head?.map Token.span⟩

/-- The symbol at the front, which stays where it is. -/
def peek : Rule (Option Symbol) := fun tokens =>
  .ok (tokens.head?.map Token.symbol, tokens)

/-- Drops the token at the front. -/
def skip : Rule Unit := fun tokens => .ok ((), tokens.tail)

/-- The span of the token at the front. -/
def here : Rule (Option Span) := fun tokens =>
  .ok (tokens.head?.map Token.span, tokens)

/-- Takes a symbol if it stands at the front, and says whether it did. -/
def eat (symbol : Symbol) : Rule Bool := do
  if (← peek) = some symbol then
    skip
    return true
  else
    return false

/-- Requires a keyword at the front. -/
def expect (word : Keyword) : Rule Unit := do
  let found ← peek
  if found = some (.keyword word) then skip else fail (.missingKeyword word found)

/-- Reads further items, each after a comma.  Every round takes a token, so as
many rounds as there are tokens suffice. -/
def afterCommas (item : Rule α) : (rounds : Nat) → Rule (List α)
  | 0 => return []
  | rounds + 1 => do
    if ← eat .comma then
      let value ← item
      let values ← afterCommas item rounds
      return value :: values
    else
      return []

/-- Reads a list of at least one item, separated by commas.  The first item may
follow a rule of its own. -/
def commaList (first item : Rule α) : Rule (List α) := do
  let value ← first
  let values ← fun tokens => afterCommas item tokens.length tokens
  return value :: values

end Rule

open Rule

/-! ## Parts shared by several rules -/

def timeRule : Rule TimeOfDay := do
  match ← peek with
  | some (.time time) =>
    skip
    return time
  | _ => fail .missingTime

def timesRule : Rule (List TimeOfDay) := commaList timeRule timeRule

/-- `at` and a list of times. -/
def atTimesRule : Rule (List TimeOfDay) := do
  expect .«at»
  timesRule

def weekdayRule (place : WeekdayPlace) : Rule Weekday := do
  match ← peek with
  | some (.weekday day) =>
    skip
    return day
  | _ => fail (.missingWeekday place)

def weekdaysRule : Rule (List Weekday) :=
  commaList (weekdayRule .listStart) (weekdayRule .listRest)

def monthRule : Rule Month := do
  match ← peek with
  | some (.month month) =>
    skip
    return month
  | _ => fail .missingMonth

/-- A date that exists. -/
def dateOfTextRule (text : String) : Rule Date := do
  match Date.ofText? text.toList with
  | some date =>
    skip
    return date
  | none => fail (.impossibleDate text)

/-- The day after the name of a month, plain or ordinal. -/
def dayOfMonthRule (month : Month) (place : DayPlace) : Rule Nat := do
  let checked (day : Nat) : Rule Nat :=
    if day = 0 ∨ month.maxDays < day then fail (.dayOutOfMonth day month)
    else do
      skip
      return day
  match ← peek with
  | some (.number day) => checked day
  | some (.ordinal day) => checked day
  | _ => fail (.missingDayOfMonth place)

/-- A day of every year, or a date. -/
def calendarDayRule (place : DayPlace) : Rule CalendarDay := do
  match ← peek with
  | none => fail (.missingDay place)
  | some (.date text) => return .fixed (← dateOfTextRule text)
  | some (.month month) =>
    skip
    return .yearly month (← dayOfMonthRule month place)
  | some _ => fail (.wrongDay place)

/-- An ordinal day of the month, `1st` to `31st`. -/
def ordinalDayRule (place : OrdinalPlace) : Rule Nat := do
  match ← peek with
  | some (.ordinal day) =>
    if 1 ≤ day ∧ day ≤ 31 then
      skip
      return day
    else fail (.dayOutOfRange day)
  | some (.number value) => fail (.plainNumber place value)
  | _ => fail (.missingOrdinal place)

/-- A day of the month or a range of them.  A reversed range is reported from
its first to its last token. -/
def monthDaysRule : Rule MonthDays := do
  let startSpan ← here
  let start ← ordinalDayRule .ofMonth
  if ← eat (.keyword .«to») then
    let stopSpan ← here
    let stop ← ordinalDayRule .rangeEnd
    if start ≤ stop then return .range start stop
    else
      failAt (.reversedDays start stop)
        (startSpan.bind fun first => stopSpan.map fun final => ⟨first.start, final.stop⟩)
  else return .single start

/-! ## Recurrences -/

def dayFilterRule : Rule DayFilter := do
  match ← peek with
  | some (.keyword .day) =>
    skip
    return .every
  | some (.keyword .weekday) =>
    skip
    return .business
  | some (.keyword .weekend) =>
    skip
    return .weekend
  | some (.weekday _) => return .listed (← weekdaysRule)
  | _ => fail .missingDayFilter

/-- `min from 09:00 to 17:00`, with `on` and a filter if it has one. -/
def windowRule (interval : Nat) (unit : StepUnit) : Rule Recurrence := do
  skip
  expect .«from»
  let start ← timeRule
  expect .«to»
  let stop ← timeRule
  if ← eat (.keyword .«on») then
    return .window interval unit start stop (some (← dayFilterRule))
  else
    return .window interval unit start stop none

def dailyRule (interval : Nat) : Rule Recurrence := do
  expect .day
  return .daily interval .every (← atTimesRule)

def filteredRule (days : DayFilter) : Rule Recurrence := do
  return .daily 1 days (← atTimesRule)

def weeklyRule (interval : Nat) : Rule Recurrence := do
  expect .«on»
  let days ← weekdaysRule
  return .weekly interval days (← atTimesRule)

/-- `[next|previous] nearest weekday to 15th`. -/
def nearestRule : Rule MonthTarget := do
  let direction : Option Direction ← do
    match ← peek with
    | some (.keyword .next) =>
      skip
      pure (some .next)
    | some (.keyword .previous) =>
      skip
      pure (some .previous)
    | _ => pure none
  expect .nearest
  expect .weekday
  expect .«to»
  return .nearestBusinessDay (← ordinalDayRule .ofMonth) direction

/-- What follows `on the` in a monthly expression. -/
def monthTargetRule : Rule MonthTarget := do
  match ← peek with
  | some (.keyword .last) =>
    skip
    match ← peek with
    | some (.keyword .day) =>
      skip
      return .lastDay
    | some (.keyword .weekday) =>
      skip
      return .lastBusinessDay
    | some (.weekday day) =>
      skip
      return .positioned .last day
    | _ => fail .missingLastTarget
  | some (.position position) =>
    skip
    return .positioned position (← weekdayRule .afterPosition)
  | some (.ordinal _) | some (.number _) =>
    return .days (← commaList monthDaysRule monthDaysRule)
  | some (.keyword .next) | some (.keyword .previous) | some (.keyword .nearest) => nearestRule
  | _ => fail .missingMonthTarget

def monthlyRule (interval : Nat) : Rule Recurrence := do
  expect .«on»
  expect .«the»
  let target ← monthTargetRule
  return .monthly interval target (← atTimesRule)

/-- `of` and the name of a month. -/
def ofMonthRule : Rule Month := do
  expect .«of»
  monthRule

/-- What follows `on the` in a yearly expression. -/
def yearTargetRule : Rule YearTarget := do
  match ← peek with
  | some (.keyword .last) =>
    skip
    match ← peek with
    | some (.keyword .weekday) =>
      skip
      return .lastBusinessDay (← ofMonthRule)
    | some (.weekday day) =>
      skip
      return .positioned .last day (← ofMonthRule)
    | _ => fail .missingLastYearTarget
  | some (.position position) =>
    skip
    let day ← weekdayRule .afterPositionInYear
    return .positioned position day (← ofMonthRule)
  | some (.ordinal _) | some (.number _) =>
    let span ← here
    let day ← ordinalDayRule .ofYear
    let month ← ofMonthRule
    if day ≤ month.maxDays then return .dayOfMonth day month
    else failAt (.dayOutOfMonth day month) span
  | _ => fail (.missingOrdinal .ofYear)

def yearlyRule (interval : Nat) : Rule Recurrence := do
  expect .«on»
  let target ← do
    match ← peek with
    | some (.keyword .«the») =>
      skip
      yearTargetRule
    | some (.month month) =>
      skip
      pure (.date month (← dayOfMonthRule month .recurrence))
    | _ => fail .missingYearTarget
  return .yearly interval target (← atTimesRule)

/-- What follows `every` and a number. -/
def countedRule (interval : Nat) : Rule Recurrence := do
  match ← peek with
  | some (.keyword .week) =>
    skip
    weeklyRule interval
  | some (.unit unit) => windowRule interval unit
  | some (.keyword .day) => dailyRule interval
  | some (.keyword .month) =>
    skip
    monthlyRule interval
  | some (.keyword .year) =>
    skip
    yearlyRule interval
  | _ => fail .missingUnit

/-- What follows `every`. -/
def everyRule : Rule Recurrence := do
  match ← peek with
  | none => fail .missingRepeater
  | some (.keyword .year) =>
    skip
    yearlyRule 1
  | some (.keyword .day) => dailyRule 1
  | some (.keyword .weekday) =>
    skip
    filteredRule .business
  | some (.keyword .weekend) =>
    skip
    filteredRule .weekend
  | some (.weekday _) =>
    let days ← weekdaysRule
    filteredRule (.listed days)
  | some (.keyword .month) =>
    skip
    monthlyRule 1
  | some (.number interval) =>
    if interval = 0 then fail .zeroInterval
    else
      skip
      countedRule interval
  | some (.unit unit) => windowRule 1 unit
  | some _ => fail .wrongRepeater

/-- The optional interval of `first monday of every 2 months`. -/
def monthIntervalRule : Rule Nat := do
  match ← peek with
  | some (.number interval) =>
    if interval = 0 then fail .zeroInterval
    else
      skip
      return interval
  | _ => return 1

/-- What follows the position in `first monday of every month at 09:00`. -/
def positionedRule (position : Position) : Rule Recurrence := do
  let day ← weekdayRule .afterPosition
  expect .«of»
  expect .every
  let interval ← monthIntervalRule
  expect .month
  return .ordinal interval position day (← atTimesRule)

def recurrenceRule : Rule Recurrence := do
  match ← peek with
  | some (.keyword .every) =>
    skip
    everyRule
  | some (.keyword .«on») =>
    skip
    let day ← calendarDayRule .recurrence
    return .once day (← atTimesRule)
  | some (.position position) =>
    skip
    positionedRule position
  | some (.keyword .last) =>
    skip
    positionedRule .last
  | _ => fail .noRecurrence

/-! ## Clauses -/

/-- Reads what follows a keyword, if the keyword stands at the front. -/
def clauseRule {α : Type} (word : Keyword) (absent : α) (body : Rule α) : Rule α := do
  if ← eat (.keyword word) then body else return absent

def skippedRule : Rule (List CalendarDay) :=
  commaList (calendarDayRule .skipped) (calendarDayRule .skipped)

def anchorRule : Rule Date := do
  match ← peek with
  | some (.date text) => dateOfTextRule text
  | _ => fail .missingAnchor

def zoneRule : Rule String := do
  match ← peek with
  | some (.zone name) =>
    skip
    return name
  | _ => fail .missingZone

/-- A recurrence and its clauses, in their order. -/
def scheduleRule : Rule Schedule := do
  let recurrence ← recurrenceRule
  let skipped ← clauseRule .except [] skippedRule
  let lastDay ← clauseRule .«until» none (some <$> calendarDayRule .lastDay)
  let anchor ← clauseRule .starting none (some <$> anchorRule)
  let season ← clauseRule .during [] (commaList monthRule monthRule)
  let zone ← clauseRule .«in» none (some <$> zoneRule)
  return { recurrence, zone, skipped, lastDay, anchor, season }

/-- Reads a whole sequence of tokens as a schedule. -/
def scheduleOfTokens (tokens : List Token) : Except GrammarError Schedule :=
  if tokens.isEmpty then .error ⟨.emptyText, none⟩
  else match scheduleRule tokens with
    | .error error => .error error
    | .ok (schedule, []) => .ok schedule
    | .ok (_, token :: _) => .error ⟨.leftover, some token.span⟩

/-- Where the last token ends, 0 if there is none. -/
def endOfTokens (tokens : List Token) : Nat :=
  (tokens.getLast?.map (·.span.stop)).getD 0

/-- What is wrong with a text that is no expression, and where. -/
inductive ExpressionError where
  | lexical (cause : LexicalCause) (span : Span)
  | grammatical (cause : GrammarCause) (span : Span)
  deriving DecidableEq, Repr

/-- Reads an expression.  An error at the end of the text is placed behind the
last token. -/
def Schedule.ofText (text : String) : Except ExpressionError Schedule :=
  match tokenize text with
  | .error error => .error (.lexical error.cause error.span)
  | .ok tokens => match scheduleOfTokens tokens with
    | .error error =>
      .error (.grammatical error.cause (error.span.getD (.empty (endOfTokens tokens))))
    | .ok schedule => .ok schedule

/-- Whether a text is an expression. -/
def Schedule.isExpression (text : String) : Bool :=
  (Schedule.ofText text).isOk

end Cadence
