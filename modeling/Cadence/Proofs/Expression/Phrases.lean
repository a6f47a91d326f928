import Cadence.Proofs.Expression.CanonicalSymbols

/-!
# Phrases

The grammar of expressions, apart from any way of reading them.  A phrase is a
derivation from the grammar: each type of phrases is a nonterminal, each
constructor a production, and the conditions a production has on numbers and
dates are fields of it.  A phrase keeps every choice of spelling, such as a
count of one that is written out, so that it has the symbols it derives on the
one side and the value it stands for on the other.
-/

namespace Cadence

/-! ## Parts -/

/-- A list of at least one item, with commas between them. -/
structure CommaPhrase (α : Type) where
  first : α
  following : List α

namespace CommaPhrase

variable {α β : Type}

def items (list : CommaPhrase α) : List α := list.first :: list.following

def symbols (list : CommaPhrase α) (itemSymbols : α → List Symbol) : List Symbol :=
  commaSeparated (list.items.map itemSymbols)

end CommaPhrase

/-- A keyword and what it governs, or nothing. -/
def governedSymbols (word : Keyword) : Option (List Symbol) → List Symbol
  | none => []
  | some symbols => .keyword word :: symbols

/-- A count, which is at least one. -/
@[ext]
structure CountPhrase where
  count : Nat
  pos : count ≠ 0

/-- The count of a repetition, if it is written. -/
def countSymbols (count : Option CountPhrase) : List Symbol :=
  count.toList.map fun written => .number written.count

/-- The interval of a repetition: its count, one if none is written. -/
def countedInterval (count : Option CountPhrase) : Nat :=
  (count.map CountPhrase.count).getD 1

/-- An ordinal day of the month. -/
@[ext]
structure OrdinalPhrase where
  day : Nat
  inMonth : 1 ≤ day ∧ day ≤ 31

/-- A written date that exists. -/
structure DatePhrase where
  text : String
  date : Date
  named : Date.ofText? text.toList = some date

/-- The two ways a day behind the name of a month is written. -/
inductive DaySpelling where
  | plain
  | ordinal

def DaySpelling.symbol : DaySpelling → Nat → Symbol
  | plain => .number
  | ordinal => .ordinal

/-- A month and one of the days it can have. -/
structure MonthDayPhrase where
  month : Month
  spelling : DaySpelling
  day : Nat
  inMonth : 1 ≤ day ∧ day ≤ month.maxDays

def MonthDayPhrase.symbols (phrase : MonthDayPhrase) : List Symbol :=
  [.month phrase.month, phrase.spelling.symbol phrase.day]

/-- A day of every year, or a date. -/
inductive DayPhrase where
  | yearly (day : MonthDayPhrase)
  | fixed (date : DatePhrase)

namespace DayPhrase

def symbols : DayPhrase → List Symbol
  | yearly day => day.symbols
  | fixed date => [.date date.text]

def value : DayPhrase → CalendarDay
  | yearly day => .yearly day.month day.day
  | fixed date => .fixed date.date

end DayPhrase

/-- The place of a weekday in its month: the last, or one with a rank. -/
inductive PlacePhrase where
  | last
  | ranked (rank : Position)

namespace PlacePhrase

def symbol : PlacePhrase → Symbol
  | last => .keyword .last
  | ranked rank => .position rank

def value : PlacePhrase → Position
  | last => .last
  | ranked rank => rank

end PlacePhrase

/-- A day of the month, or a range that does not descend. -/
inductive MonthDaysPhrase where
  | single (day : OrdinalPhrase)
  | range (start stop : OrdinalPhrase) (ordered : start.day ≤ stop.day)

namespace MonthDaysPhrase

def symbols : MonthDaysPhrase → List Symbol
  | single day => [.ordinal day.day]
  | range start stop _ => [.ordinal start.day, .keyword .«to», .ordinal stop.day]

def value : MonthDaysPhrase → MonthDays
  | single day => .single day.day
  | range start stop _ => .range start.day stop.day

end MonthDaysPhrase

/-- `at` and a list of times. -/
def CommaPhrase.timesSymbols (times : CommaPhrase TimeOfDay) : List Symbol :=
  .keyword .«at» :: times.symbols fun time => [.time time]

def CommaPhrase.weekdaysSymbols (days : CommaPhrase Weekday) : List Symbol :=
  days.symbols fun day => [.weekday day]

inductive FilterPhrase where
  | every
  | business
  | weekend
  | listed (days : CommaPhrase Weekday)

namespace FilterPhrase

def symbols : FilterPhrase → List Symbol
  | every => [.keyword .day]
  | business => [.keyword .weekday]
  | weekend => [.keyword .weekend]
  | listed days => days.weekdaysSymbols

def value : FilterPhrase → DayFilter
  | every => .every
  | business => .business
  | weekend => .weekend
  | listed days => .listed days.items

end FilterPhrase

/-! ## Recurrences -/

/-- What stands behind `on the` in a monthly repetition. -/
inductive MonthTargetPhrase where
  | days (entries : CommaPhrase MonthDaysPhrase)
  | lastDay
  | lastBusinessDay
  | nearestBusinessDay (direction : Option Direction) (day : OrdinalPhrase)
  | positioned (place : PlacePhrase) (weekday : Weekday)

namespace MonthTargetPhrase

def symbols : MonthTargetPhrase → List Symbol
  | days entries => entries.symbols MonthDaysPhrase.symbols
  | lastDay => [.keyword .last, .keyword .day]
  | lastBusinessDay => [.keyword .last, .keyword .weekday]
  | nearestBusinessDay direction day =>
    direction.toList.map Direction.symbol ++
      [.keyword .nearest, .keyword .weekday, .keyword .«to», .ordinal day.day]
  | positioned place weekday => [place.symbol, .weekday weekday]

def value : MonthTargetPhrase → MonthTarget
  | days entries => .days (entries.items.map MonthDaysPhrase.value)
  | lastDay => .lastDay
  | lastBusinessDay => .lastBusinessDay
  | nearestBusinessDay direction day => .nearestBusinessDay day.day direction
  | positioned place weekday => .positioned place.value weekday

end MonthTargetPhrase

/-- What stands behind `on` in a yearly repetition. -/
inductive YearTargetPhrase where
  | date (day : MonthDayPhrase)
  | positioned (place : PlacePhrase) (weekday : Weekday) (month : Month)
  | dayOfMonth (day : Nat) (month : Month) (inMonth : 1 ≤ day ∧ day ≤ month.maxDays)
  | lastBusinessDay (month : Month)

namespace YearTargetPhrase

def symbols : YearTargetPhrase → List Symbol
  | date day => day.symbols
  | positioned place weekday month =>
    [.keyword .«the», place.symbol, .weekday weekday, .keyword .«of», .month month]
  | dayOfMonth day month _ => [.keyword .«the», .ordinal day, .keyword .«of», .month month]
  | lastBusinessDay month =>
    [.keyword .«the», .keyword .last, .keyword .weekday, .keyword .«of», .month month]

def value : YearTargetPhrase → YearTarget
  | date day => .date day.month day.day
  | positioned place weekday month => .positioned place.value weekday month
  | dayOfMonth day month _ => .dayOfMonth day month
  | lastBusinessDay month => .lastBusinessDay month

end YearTargetPhrase

inductive RecurrencePhrase where
  /-- `every weekday at 09:00`. -/
  | filtered (days : FilterPhrase) (times : CommaPhrase TimeOfDay)
  /-- `every 30 min from 09:00 to 17:00 on weekday`. -/
  | windowed (count : Option CountPhrase) (unit : StepUnit) (start stop : TimeOfDay)
      (days : Option FilterPhrase)
  /-- `every 3 days at 09:00`. -/
  | daily (count : CountPhrase) (times : CommaPhrase TimeOfDay)
  /-- `every 2 weeks on monday at 09:00`. -/
  | weekly (count : CountPhrase) (days : CommaPhrase Weekday) (times : CommaPhrase TimeOfDay)
  /-- `every 2 months on the 1st at 09:00`. -/
  | monthly (count : Option CountPhrase) (target : MonthTargetPhrase)
      (times : CommaPhrase TimeOfDay)
  /-- `every year on dec 25 at 09:00`. -/
  | yearly (count : Option CountPhrase) (target : YearTargetPhrase)
      (times : CommaPhrase TimeOfDay)
  /-- `on feb 14 at 09:00`. -/
  | once (day : DayPhrase) (times : CommaPhrase TimeOfDay)
  /-- `first monday of every month at 09:00`. -/
  | positioned (place : PlacePhrase) (weekday : Weekday) (count : Option CountPhrase)
      (times : CommaPhrase TimeOfDay)

namespace RecurrencePhrase

def symbols : RecurrencePhrase → List Symbol
  | filtered days times => .keyword .every :: (days.symbols ++ times.timesSymbols)
  | windowed count unit start stop days =>
    .keyword .every :: (countSymbols count ++ .unit unit :: .keyword .«from» :: .time start ::
      .keyword .«to» :: .time stop :: governedSymbols .«on» (days.map FilterPhrase.symbols))
  | daily count times =>
    .keyword .every :: .number count.count :: .keyword .day :: times.timesSymbols
  | weekly count days times =>
    .keyword .every :: .number count.count :: .keyword .week :: .keyword .«on» ::
      (days.weekdaysSymbols ++ times.timesSymbols)
  | monthly count target times =>
    .keyword .every :: (countSymbols count ++ .keyword .month :: .keyword .«on» ::
      .keyword .«the» :: (target.symbols ++ times.timesSymbols))
  | yearly count target times =>
    .keyword .every :: (countSymbols count ++ .keyword .year :: .keyword .«on» ::
      (target.symbols ++ times.timesSymbols))
  | once day times => .keyword .«on» :: (day.symbols ++ times.timesSymbols)
  | positioned place weekday count times =>
    place.symbol :: .weekday weekday :: .keyword .«of» :: .keyword .every ::
      (countSymbols count ++ .keyword .month :: times.timesSymbols)

def value : RecurrencePhrase → Recurrence
  | filtered days times => .daily 1 days.value times.items
  | windowed count unit start stop days =>
    .window (countedInterval count) unit start stop (days.map FilterPhrase.value)
  | daily count times => .daily count.count .every times.items
  | weekly count days times => .weekly count.count days.items times.items
  | monthly count target times => .monthly (countedInterval count) target.value times.items
  | yearly count target times => .yearly (countedInterval count) target.value times.items
  | once day times => .once day.value times.items
  | positioned place weekday count times =>
    .ordinal (countedInterval count) place.value weekday times.items

end RecurrencePhrase

/-! ## Schedules -/

/-- A recurrence and its clauses; each may be missing. -/
structure SchedulePhrase where
  recurrence : RecurrencePhrase
  skipped : Option (CommaPhrase DayPhrase)
  lastDay : Option DayPhrase
  anchor : Option DatePhrase
  season : Option (CommaPhrase Month)
  zone : Option String

namespace SchedulePhrase

/-! The clauses stand behind the recurrence in one order.  Their symbols are put
together from the last clause to the first. -/

def zoneClause (phrase : SchedulePhrase) : List Symbol :=
  governedSymbols .«in» (phrase.zone.map fun name => [.zone name])

/-- The clauses from the months on. -/
def seasonClauses (phrase : SchedulePhrase) : List Symbol :=
  governedSymbols .during (phrase.season.map (·.symbols fun month => [.month month])) ++
    phrase.zoneClause

/-- The clauses from the date that intervals are counted from on. -/
def anchorClauses (phrase : SchedulePhrase) : List Symbol :=
  governedSymbols .starting (phrase.anchor.map fun date => [.date date.text]) ++
    phrase.seasonClauses

/-- The clauses from the last day on. -/
def lastDayClauses (phrase : SchedulePhrase) : List Symbol :=
  governedSymbols .«until» (phrase.lastDay.map DayPhrase.symbols) ++ phrase.anchorClauses

def clauses (phrase : SchedulePhrase) : List Symbol :=
  governedSymbols .except (phrase.skipped.map (·.symbols DayPhrase.symbols)) ++
    phrase.lastDayClauses

def symbols (phrase : SchedulePhrase) : List Symbol :=
  phrase.recurrence.symbols ++ phrase.clauses

def value (phrase : SchedulePhrase) : Schedule where
  recurrence := phrase.recurrence.value
  zone := phrase.zone
  skipped := phrase.skipped.elim [] fun days => days.items.map DayPhrase.value
  lastDay := phrase.lastDay.map DayPhrase.value
  anchor := phrase.anchor.map DatePhrase.date
  season := phrase.season.elim [] CommaPhrase.items

end SchedulePhrase

end Cadence
