import Cadence.Proofs.Expression.PhraseReading

/-!
# Canonical symbols are derived

The symbols of the canonical text of a well-formed schedule have a derivation
from the grammar, and its value is the schedule.
-/

namespace Cadence

open Rule

/-! ## Lists -/

section Lists

variable {α τ : Type} {symbols : τ → List Symbol} {value : τ → α}

theorem CommaPhrase.exists_items_eq {items : List α} (hne : items ≠ []) :
    ∃ list : CommaPhrase α, list.items = items := by
  obtain ⟨first, following, rfl⟩ := List.exists_cons_of_ne_nil hne
  exact ⟨⟨first, following⟩, rfl⟩

/-- If every item has a phrase, the list has a list of phrases. -/
theorem exists_phrases {itemSymbols : α → List Symbol} {items : List α}
    (hitems : ∀ item ∈ items, Spelled symbols value (itemSymbols item) item) :
    ∃ phrases : List τ, phrases.map symbols = items.map itemSymbols ∧
      phrases.map value = items := by
  induction items with
  | nil => exact ⟨[], rfl, rfl⟩
  | cons item items ih =>
    obtain ⟨hitem, hitems⟩ := List.forall_mem_cons.mp hitems
    obtain ⟨phrase, hsymbols, hvalue⟩ := hitem
    obtain ⟨phrases, hrest, hvalues⟩ := ih hitems
    refine ⟨phrase :: phrases, ?_, ?_⟩
    · rw [List.map_cons, List.map_cons, hsymbols, hrest]
    · rw [List.map_cons, hvalue, hvalues]

theorem commaSeparated_spelled {itemSymbols : α → List Symbol} {items : List α} (hne : items ≠ [])
    (hitems : ∀ item ∈ items, Spelled symbols value (itemSymbols item) item) :
    Spelled (fun list : CommaPhrase τ => list.symbols symbols) (·.items.map value)
      (commaSeparated (items.map itemSymbols)) items := by
  obtain ⟨phrases, hsymbols, hvalues⟩ := exists_phrases hitems
  have hphrases : phrases ≠ [] := by
    rintro rfl
    exact hne hvalues.symm
  obtain ⟨list, rfl⟩ := CommaPhrase.exists_items_eq hphrases
  exact ⟨list, congrArg commaSeparated hsymbols, hvalues⟩

/-- A clause for a list, which is missing if the list is empty. -/
theorem clauseSymbols_spelled {itemSymbols : α → List Symbol} {items : List α} (word : Keyword)
    (hitems : ∀ item ∈ items, Spelled symbols value (itemSymbols item) item) :
    Spelled (fun phrase : Option (CommaPhrase τ) =>
        governedSymbols word (phrase.map (·.symbols symbols)))
      (·.elim [] (·.items.map value)) (clauseSymbols word (items.map itemSymbols)) items := by
  cases items with
  | nil => exact ⟨none, rfl, rfl⟩
  | cons item items =>
    obtain ⟨list, hsymbols, hvalues⟩ := commaSeparated_spelled (List.cons_ne_nil item items) hitems
    exact ⟨some list, congrArg (Symbol.keyword word :: ·) hsymbols, hvalues⟩

/-- A clause for one value, which may be missing. -/
theorem clauseSymbols_spelled_option {itemSymbols : α → List Symbol} {found : Option α}
    (word : Keyword) (hitem : ∀ item ∈ found, Spelled symbols value (itemSymbols item) item) :
    Spelled (fun phrase : Option τ => governedSymbols word (phrase.map symbols))
      (Option.map value) (clauseSymbols word (found.toList.map itemSymbols)) found := by
  cases found with
  | none => exact ⟨none, rfl, rfl⟩
  | some item =>
    obtain ⟨phrase, hsymbols, rfl⟩ := hitem item rfl
    have hsingle : commaSeparated [itemSymbols (value phrase)] = symbols phrase := by
      rw [hsymbols]
      exact List.append_nil _
    exact ⟨some phrase, congrArg (Symbol.keyword word :: ·) hsingle.symm, rfl⟩

end Lists

/-! ## Parts -/

theorem timesSymbols_spelled {times : List TimeOfDay} (htimes : TimesWellFormed times) :
    Spelled CommaPhrase.timesSymbols CommaPhrase.items (timesSymbols times) times := by
  obtain ⟨list, rfl⟩ := CommaPhrase.exists_items_eq htimes.1
  exact ⟨list, rfl, rfl⟩

theorem weekdaysSymbols_spelled {days : List Weekday} (hdays : days ≠ []) :
    Spelled CommaPhrase.weekdaysSymbols CommaPhrase.items (weekdaysSymbols days) days := by
  obtain ⟨list, rfl⟩ := CommaPhrase.exists_items_eq hdays
  exact ⟨list, rfl, rfl⟩

theorem Date.spelled {date : Date} (hyear : date.HasFourDigitYear) :
    Spelled (fun phrase : DatePhrase => [.date phrase.text]) DatePhrase.date [.date date.text]
      date :=
  ⟨⟨date.text, date, Date.ofText?_text hyear⟩, rfl, rfl⟩

theorem CalendarDay.spelled {day : CalendarDay} (hday : day.WellFormed) :
    Spelled DayPhrase.symbols DayPhrase.value day.symbols day := by
  cases day with
  | yearly month day => exact ⟨.yearly ⟨month, .plain, day, hday⟩, rfl, rfl⟩
  | fixed date => exact ⟨.fixed ⟨date.text, date, Date.ofText?_text hday⟩, rfl, rfl⟩

theorem MonthDays.spelled {entry : MonthDays} (hentry : entry.WellFormed) :
    Spelled MonthDaysPhrase.symbols MonthDaysPhrase.value entry.symbols entry := by
  cases entry with
  | single day => exact ⟨.single ⟨day, hentry⟩, rfl, rfl⟩
  | range start stop =>
    obtain ⟨hstart, hordered, hstop⟩ := hentry
    exact ⟨.range ⟨start, hstart, by omega⟩ ⟨stop, by omega, hstop⟩ hordered, rfl, rfl⟩

theorem DayFilter.spelled {days : DayFilter} (hdays : days.WellFormed) :
    Spelled FilterPhrase.symbols FilterPhrase.value days.symbols days := by
  cases days with
  | every => exact ⟨.every, rfl, rfl⟩
  | business => exact ⟨.business, rfl, rfl⟩
  | weekend => exact ⟨.weekend, rfl, rfl⟩
  | listed days =>
    obtain ⟨list, rfl⟩ := CommaPhrase.exists_items_eq hdays
    exact ⟨.listed list, rfl, rfl⟩

theorem Position.spelled (position : Position) :
    ∃ place : PlacePhrase, place.symbol = position.symbol ∧ place.value = position := by
  cases position with
  | last => exact ⟨.last, rfl, rfl⟩
  | first | second | third | fourth | fifth => exact ⟨.ranked _, rfl, rfl⟩

theorem MonthTarget.spelled {target : MonthTarget} (htarget : target.WellFormed) :
    Spelled MonthTargetPhrase.symbols MonthTargetPhrase.value target.symbols target := by
  cases target with
  | days entries =>
    obtain ⟨list, hsymbols, rfl⟩ := commaSeparated_spelled htarget.1 fun entry hentry =>
      MonthDays.spelled (htarget.2 entry hentry)
    exact ⟨.days list, hsymbols, rfl⟩
  | lastDay => exact ⟨.lastDay, rfl, rfl⟩
  | lastBusinessDay => exact ⟨.lastBusinessDay, rfl, rfl⟩
  | nearestBusinessDay day direction =>
    exact ⟨.nearestBusinessDay direction ⟨day, htarget⟩, rfl, rfl⟩
  | positioned position weekday =>
    obtain ⟨place, hplace, rfl⟩ := position.spelled
    refine ⟨.positioned place weekday, ?_, rfl⟩
    rw [symbols, MonthTargetPhrase.symbols, hplace]

theorem YearTarget.spelled {target : YearTarget} (htarget : target.WellFormed) :
    Spelled YearTargetPhrase.symbols YearTargetPhrase.value target.symbols target := by
  cases target with
  | date month day => exact ⟨.date ⟨month, .plain, day, htarget⟩, rfl, rfl⟩
  | positioned position weekday month =>
    obtain ⟨place, hplace, rfl⟩ := position.spelled
    refine ⟨.positioned place weekday month, ?_, rfl⟩
    rw [symbols, YearTargetPhrase.symbols, hplace]
  | dayOfMonth day month => exact ⟨.dayOfMonth day month htarget, rfl, rfl⟩
  | lastBusinessDay month => exact ⟨.lastBusinessDay month, rfl, rfl⟩

/-! ## Schedules -/

/-- The count of an interval, which is not written where it is one. -/
theorem repeatedSymbols_spelled {interval : Nat} (hinterval : IntervalWellFormed interval)
    (unit : Keyword) : Spelled (fun count => .keyword .every :: (countSymbols count ++
      [.keyword unit])) countedInterval (repeatedSymbols interval unit) interval := by
  have hpos := hinterval.1
  rw [repeatedSymbols]
  split
  · exact ⟨some ⟨interval, by omega⟩, rfl, rfl⟩
  · obtain rfl : interval = 1 := by omega
    exact ⟨none, rfl, rfl⟩

theorem Recurrence.spelled {recurrence : Recurrence} (hwell : recurrence.WellFormed) :
    Spelled RecurrencePhrase.symbols RecurrencePhrase.value recurrence.symbols recurrence := by
  cases recurrence with
  | window interval unit start stop days =>
    obtain ⟨hinterval, _, _, hdays⟩ := hwell
    have hpos : interval ≠ 0 := Nat.ne_of_gt hinterval.1
    cases days with
    | none => exact ⟨.windowed (some ⟨interval, hpos⟩) unit start stop none, rfl, rfl⟩
    | some days =>
      obtain ⟨filter, hfilter, rfl⟩ := DayFilter.spelled (hdays days rfl)
      refine ⟨.windowed (some ⟨interval, hpos⟩) unit start stop (some filter), ?_, rfl⟩
      rw [symbols, ← hfilter]
      rfl
  | daily interval days times =>
    obtain ⟨hinterval, hdays, hevery, htimes⟩ := hwell
    obtain ⟨list, hlist, rfl⟩ := timesSymbols_spelled htimes
    rw [symbols, ← hlist]
    split
    · rename_i hlong
      obtain rfl := hevery hlong
      exact ⟨.daily ⟨interval, Nat.ne_of_gt hinterval.1⟩ list, rfl, rfl⟩
    · have hpos := hinterval.1
      obtain rfl : interval = 1 := by omega
      obtain ⟨filter, hfilter, rfl⟩ := DayFilter.spelled hdays
      refine ⟨.filtered filter list, ?_, rfl⟩
      rw [← hfilter, RecurrencePhrase.symbols, List.cons_append]
  | weekly interval days times =>
    obtain ⟨hinterval, hdays, htimes⟩ := hwell
    obtain ⟨weekdays, hweekdays, rfl⟩ := weekdaysSymbols_spelled hdays
    obtain ⟨list, hlist, rfl⟩ := timesSymbols_spelled htimes
    refine ⟨.weekly ⟨interval, Nat.ne_of_gt hinterval.1⟩ weekdays list, ?_, rfl⟩
    rw [symbols, ← hweekdays, ← hlist]
    rfl
  | monthly interval target times =>
    obtain ⟨hinterval, htarget, htimes⟩ := hwell
    obtain ⟨count, hcount, rfl⟩ := repeatedSymbols_spelled hinterval .month
    obtain ⟨phrase, hphrase, rfl⟩ := MonthTarget.spelled htarget
    obtain ⟨list, hlist, rfl⟩ := timesSymbols_spelled htimes
    refine ⟨.monthly count phrase list, ?_, rfl⟩
    simp [symbols, RecurrencePhrase.symbols, ← hcount, hphrase, hlist]
  | ordinal interval position weekday times =>
    obtain ⟨hinterval, htimes⟩ := hwell
    obtain ⟨count, hcount, rfl⟩ := repeatedSymbols_spelled hinterval .month
    obtain ⟨place, hplace, rfl⟩ := position.spelled
    obtain ⟨list, hlist, rfl⟩ := timesSymbols_spelled htimes
    refine ⟨.positioned place weekday count list, ?_, rfl⟩
    simp [symbols, RecurrencePhrase.symbols, ← hcount, hplace, hlist]
  | once day times =>
    obtain ⟨hday, htimes⟩ := hwell
    obtain ⟨phrase, hphrase, rfl⟩ := CalendarDay.spelled hday
    obtain ⟨list, hlist, rfl⟩ := timesSymbols_spelled htimes
    refine ⟨.once phrase list, ?_, rfl⟩
    rw [symbols, RecurrencePhrase.symbols, hphrase, hlist, List.cons_append]
  | yearly interval target times =>
    obtain ⟨hinterval, htarget, htimes⟩ := hwell
    obtain ⟨count, hcount, rfl⟩ := repeatedSymbols_spelled hinterval .year
    obtain ⟨phrase, hphrase, rfl⟩ := YearTarget.spelled htarget
    obtain ⟨list, hlist, rfl⟩ := timesSymbols_spelled htimes
    refine ⟨.yearly count phrase list, ?_, rfl⟩
    simp [symbols, RecurrencePhrase.symbols, ← hcount, hphrase, hlist]

/-- The symbols of a well-formed schedule have a derivation with the schedule as
its value. -/
theorem Schedule.spelled {schedule : Schedule} (hwell : schedule.WellFormed) :
    Spelled SchedulePhrase.symbols SchedulePhrase.value schedule.symbols schedule := by
  obtain ⟨recurrence, zone, skipped, lastDay, anchor, season⟩ := schedule
  obtain ⟨hrecurrence, hskipped, hlastDay, hanchor, hzone⟩ := hwell
  obtain ⟨recurrence, hrecurrence, rfl⟩ := Recurrence.spelled hrecurrence
  obtain ⟨skipped, hskipped, rfl⟩ := clauseSymbols_spelled .except fun day hday =>
    CalendarDay.spelled (hskipped day hday)
  obtain ⟨lastDay, hlastDay, rfl⟩ := clauseSymbols_spelled_option .«until» fun day hday =>
    CalendarDay.spelled (hlastDay day hday)
  obtain ⟨anchor, hanchor, rfl⟩ := clauseSymbols_spelled_option .starting fun date hdate =>
    Date.spelled (hanchor date hdate)
  have hmonths : ∀ month ∈ season,
      Spelled (fun month => [.month month]) id [.month month] month :=
    fun month _ => ⟨month, rfl, rfl⟩
  have hname : ∀ name ∈ zone, Spelled (fun name => [.zone name]) id [.zone name] name :=
    fun name _ => ⟨name, rfl, rfl⟩
  obtain ⟨season, hseason, rfl⟩ := clauseSymbols_spelled .during hmonths
  obtain ⟨zone, hzone, rfl⟩ := clauseSymbols_spelled_option .«in» hname
  refine ⟨⟨recurrence, skipped, lastDay, anchor, season, zone⟩, ?_, ?_⟩
  · rw [Schedule.symbols, Schedule.clausesSymbols, ← hrecurrence, ← hskipped, ← hlastDay,
      ← hanchor, ← hseason, ← hzone]
    rfl
  · simp only [List.map_id, Option.map_id]
    rfl

end Cadence
