/-!
# Days of the week

The week starts on Monday.  Weekdays carry two numberings: 1 to 7 from Monday,
and the one of cron fields, 0 to 6 from Sunday.
-/

namespace Cadence

/-- A day of the week, Monday first. -/
inductive Weekday where
  | monday
  | tuesday
  | wednesday
  | thursday
  | friday
  | saturday
  | sunday
  deriving DecidableEq, Repr

namespace Weekday

/-- The week in order. -/
def all : List Weekday :=
  [monday, tuesday, wednesday, thursday, friday, saturday, sunday]

/-- The working days in order. -/
def business : List Weekday :=
  [monday, tuesday, wednesday, thursday, friday]

/-- The full name, in lower case. -/
def name : Weekday → String
  | monday => "monday"
  | tuesday => "tuesday"
  | wednesday => "wednesday"
  | thursday => "thursday"
  | friday => "friday"
  | saturday => "saturday"
  | sunday => "sunday"

/-- The three-letter name. -/
def shortName : Weekday → String
  | monday => "mon"
  | tuesday => "tue"
  | wednesday => "wed"
  | thursday => "thu"
  | friday => "fri"
  | saturday => "sat"
  | sunday => "sun"

/-- The weekday with a full or three-letter name, in any ASCII case. -/
def ofName? (text : String) : Option Weekday :=
  let word := text.toLower
  all.find? fun day => day.name == word || day.shortName == word

theorem toLower_of_ofName? {text : String} {day : Weekday} (hname : ofName? text = some day) :
    text.toLower = day.name ∨ text.toLower = day.shortName := by
  have hfound := List.find?_some hname
  simp only [Bool.or_eq_true, beq_iff_eq] at hfound
  exact hfound.imp Eq.symm Eq.symm

/-- Days since Monday, 0 to 6. -/
def index : Weekday → Nat
  | monday => 0
  | tuesday => 1
  | wednesday => 2
  | thursday => 3
  | friday => 4
  | saturday => 5
  | sunday => 6

/-- Counted from Monday as 1 to Sunday as 7. -/
def number (day : Weekday) : Nat := day.index + 1

/-- The weekday with a number from 1 to 7. -/
def ofNumber? : Nat → Option Weekday
  | 1 => some monday
  | 2 => some tuesday
  | 3 => some wednesday
  | 4 => some thursday
  | 5 => some friday
  | 6 => some saturday
  | 7 => some sunday
  | _ => none

theorem ofNumber?_number (day : Weekday) : ofNumber? day.number = some day := by
  cases day <;> rfl

/-- The number in a cron field, from Sunday as 0 to Saturday as 6. -/
def cronNumber (day : Weekday) : Nat := day.number % 7

/-- The weekday a cron number stands for; both 0 and 7 are Sunday. -/
def ofCronNumber? (number : Nat) : Option Weekday :=
  ofNumber? (if number = 0 then 7 else number)

theorem ofCronNumber?_cronNumber (day : Weekday) :
    ofCronNumber? day.cronNumber = some day := by
  cases day <;> rfl

/-- Saturday and Sunday. -/
def isWeekend (day : Weekday) : Bool := day = saturday || day = sunday

/-- The weekday a number of days after a Monday. -/
def ofIndex : Nat → Weekday
  | 0 => monday
  | 1 => tuesday
  | 2 => wednesday
  | 3 => thursday
  | 4 => friday
  | 5 => saturday
  | _ => sunday

/-- The weekday of the day with this number, where day 1 is a Monday. -/
def ofDayNumber (dayNumber : Int) : Weekday :=
  ofIndex ((dayNumber - 1) % 7).toNat

theorem index_ofIndex {n : Nat} (hn : n < 7) : (ofIndex n).index = n := by
  match n, hn with
  | 0, _ | 1, _ | 2, _ | 3, _ | 4, _ | 5, _ | 6, _ => rfl

theorem index_ofDayNumber (dayNumber : Int) :
    ((ofDayNumber dayNumber).index : Int) = (dayNumber - 1) % 7 := by
  rw [ofDayNumber, index_ofIndex (by omega)]
  omega

end Weekday

/-- An ascending list of weekdays without repetitions. -/
def sortedWeekdays (days : List Weekday) : List Weekday :=
  Weekday.all.filter days.contains

/-- Which days of the week a repetition fires on. -/
inductive DayFilter where
  | every
  | business
  | weekend
  | listed (days : List Weekday)
  deriving DecidableEq, Repr

namespace DayFilter

/-- Whether a filter lets a weekday pass. -/
def allows : DayFilter → Weekday → Bool
  | every, _ => true
  | business, day => !day.isWeekend
  | weekend, day => day.isWeekend
  | listed days, day => days.contains day

/-- The filter for a list of weekdays: the working days and the weekend have
names of their own, any other list is kept as it stands. -/
def ofDays (days : List Weekday) : DayFilter :=
  let sorted := sortedWeekdays days
  if sorted = Weekday.business then business
  else if sorted = [.saturday, .sunday] then weekend
  else listed days

end DayFilter

end Cadence
