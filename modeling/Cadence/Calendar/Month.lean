/-!
# Months of the year
-/

namespace Cadence

/-- A month of the year. -/
inductive Month where
  | january
  | february
  | march
  | april
  | may
  | june
  | july
  | august
  | september
  | october
  | november
  | december
  deriving DecidableEq, Repr

namespace Month

/-- The year in order. -/
def all : List Month :=
  [january, february, march, april, may, june,
   july, august, september, october, november, december]

/-- The full name, in lower case. -/
def fullName : Month → String
  | january => "january"
  | february => "february"
  | march => "march"
  | april => "april"
  | may => "may"
  | june => "june"
  | july => "july"
  | august => "august"
  | september => "september"
  | october => "october"
  | november => "november"
  | december => "december"

/-- The three-letter name, used in canonical text. -/
def name : Month → String
  | january => "jan"
  | february => "feb"
  | march => "mar"
  | april => "apr"
  | may => "may"
  | june => "jun"
  | july => "jul"
  | august => "aug"
  | september => "sep"
  | october => "oct"
  | november => "nov"
  | december => "dec"

/-- The month with a full or three-letter name, in any ASCII case. -/
def ofName? (text : String) : Option Month :=
  let word := text.toLower
  all.find? fun month => month.name == word || month.fullName == word

theorem toLower_of_ofName? {text : String} {month : Month} (hname : ofName? text = some month) :
    text.toLower = month.name ∨ text.toLower = month.fullName := by
  have hfound := List.find?_some hname
  simp only [Bool.or_eq_true, beq_iff_eq] at hfound
  exact hfound.imp Eq.symm Eq.symm

/-- Counted from January as 1 to December as 12. -/
def number : Month → Nat
  | january => 1
  | february => 2
  | march => 3
  | april => 4
  | may => 5
  | june => 6
  | july => 7
  | august => 8
  | september => 9
  | october => 10
  | november => 11
  | december => 12

/-- The month with a number from 1 to 12. -/
def ofNumber? : Nat → Option Month
  | 1 => some january
  | 2 => some february
  | 3 => some march
  | 4 => some april
  | 5 => some may
  | 6 => some june
  | 7 => some july
  | 8 => some august
  | 9 => some september
  | 10 => some october
  | 11 => some november
  | 12 => some december
  | _ => none

theorem ofNumber?_number (month : Month) : ofNumber? month.number = some month := by
  cases month <;> rfl

/-- The most days the month has in any year; February counts 29. -/
def maxDays : Month → Nat
  | february => 29
  | april | june | september | november => 30
  | _ => 31

end Month

end Cadence
