import Cadence.Proofs.Expression.Unambiguity

/-!
# What is read is what is derived

Whatever a rule takes from the front are the symbols of a phrase, and what it
returns is the value of that phrase.  Together with the reading of phrases and
their unambiguity this says that a sequence of tokens is read as a schedule just
when it has a derivation with that value, and that it has no other derivation.
-/

namespace Cadence

open Rule

variable {front : Option Symbol}

/-! ## Parts -/

theorem timeRule_takes :
    timeRule.Takes front (Spelled (fun time => [.time time]) id) := by
  apply Takes.peek
  split
  · rename_i time
    exact .skip_pure ⟨time, rfl, rfl⟩
  · exact .fail _

theorem weekdayRule_takes (place : WeekdayPlace) :
    (weekdayRule place).Takes front (Spelled (fun day => [.weekday day]) id) := by
  apply Takes.peek
  split
  · rename_i day
    exact .skip_pure ⟨day, rfl, rfl⟩
  · exact .fail _

theorem monthRule_takes :
    monthRule.Takes front (Spelled (fun month => [.month month]) id) := by
  apply Takes.peek
  split
  · rename_i month
    exact .skip_pure ⟨month, rfl, rfl⟩
  · exact .fail _

/-- A list of items is taken as a list of phrases. -/
theorem commaList_takes {α τ : Type} {first item : Rule α} {symbols : τ → List Symbol}
    {value : τ → α} (hfirst : ∀ front, first.Takes front (Spelled symbols value))
    (hitem : ∀ front, item.Takes front (Spelled symbols value)) :
    (commaList first item).Takes front
      (Spelled (fun list : CommaPhrase τ => list.symbols symbols) (·.items.map value)) := by
  apply (Takes.commaList hfirst hitem).imp
  rintro _ _ ⟨phrase, phrases, rfl, rfl⟩
  exact ⟨⟨phrase, phrases⟩, rfl, rfl⟩

/-- A list of items that are values of their own. -/
theorem commaList_takes_items {α : Type} {first item : Rule α} {symbols : α → List Symbol}
    (hfirst : ∀ front, first.Takes front (Spelled symbols id))
    (hitem : ∀ front, item.Takes front (Spelled symbols id)) :
    (commaList first item).Takes front
      (Spelled (fun list : CommaPhrase α => list.symbols symbols) CommaPhrase.items) := by
  apply (commaList_takes hfirst hitem).imp
  rintro _ _ ⟨list, rfl, rfl⟩
  exact ⟨list, rfl, (List.map_id _).symm⟩

theorem atTimesRule_takes :
    atTimesRule.Takes front (Spelled CommaPhrase.timesSymbols CommaPhrase.items) := by
  refine .expect fun front => ?_
  apply (commaList_takes_items (fun _ => timeRule_takes) fun _ => timeRule_takes).imp
  rintro _ _ ⟨times, rfl, rfl⟩
  exact ⟨times, rfl, rfl⟩

theorem weekdaysRule_takes :
    weekdaysRule.Takes front (Spelled CommaPhrase.weekdaysSymbols CommaPhrase.items) :=
  commaList_takes_items (fun _ => weekdayRule_takes _) fun _ => weekdayRule_takes _

/-- The date at the front is taken if it exists. -/
theorem dateOfTextRule_takes (text : String) :
    (dateOfTextRule text).Takes (some (.date text))
      (Spelled (fun phrase : DatePhrase => [.date phrase.text]) DatePhrase.date) := by
  rw [dateOfTextRule]
  split
  · rename_i date hdate
    exact .skip_pure ⟨⟨text, date, hdate⟩, rfl, rfl⟩
  · exact .fail _

/-- Behind the name of a month a day of it is taken. -/
theorem dayOfMonthRule_takes (month : Month) (place : DayPlace) :
    (dayOfMonthRule month place).Takes front fun taken day => ∃ phrase : MonthDayPhrase,
      phrase.symbols = .month month :: taken ∧ phrase.month = month ∧ phrase.day = day := by
  apply Takes.peek
  split
  · rename_i day
    refine .ite (fun _ => .fail _) fun hday => .skip_pure ?_
    exact ⟨⟨month, .plain, day, by omega⟩, rfl, rfl, rfl⟩
  · rename_i day
    refine .ite (fun _ => .fail _) fun hday => .skip_pure ?_
    exact ⟨⟨month, .ordinal, day, by omega⟩, rfl, rfl, rfl⟩
  · exact .fail _

theorem calendarDayRule_takes (place : DayPlace) :
    (calendarDayRule place).Takes front (Spelled DayPhrase.symbols DayPhrase.value) := by
  apply Takes.peek
  split
  · exact .fail _
  · apply (dateOfTextRule_takes _).bind
    rintro _ _ _ ⟨date, rfl, rfl⟩
    exact .pure ⟨.fixed date, rfl, rfl⟩
  · refine .skip fun front => (dayOfMonthRule_takes _ _).bind ?_
    rintro _ taken _ ⟨day, hsymbols, rfl, rfl⟩
    exact .pure ⟨.yearly day, by rw [DayPhrase.symbols, hsymbols, List.append_nil], rfl⟩
  · exact .fail _

theorem ordinalDayRule_takes (place : OrdinalPlace) :
    (ordinalDayRule place).Takes front
      (Spelled (fun phrase : OrdinalPhrase => [.ordinal phrase.day]) OrdinalPhrase.day) := by
  apply Takes.peek
  split
  · rename_i day
    exact .ite (fun hday => .skip_pure ⟨⟨day, hday⟩, rfl, rfl⟩) fun _ => .fail _
  · exact .fail _
  · exact .fail _

theorem monthDaysRule_takes :
    monthDaysRule.Takes front (Spelled MonthDaysPhrase.symbols MonthDaysPhrase.value) := by
  refine .here fun startSpan => (ordinalDayRule_takes _).bind ?_
  rintro _ _ _ ⟨start, rfl, rfl⟩
  refine .eat (fun front => .here fun stopSpan => (ordinalDayRule_takes _).bind ?_) fun _ =>
    .pure ⟨.single start, rfl, rfl⟩
  rintro _ _ _ ⟨stop, rfl, rfl⟩
  exact .ite (fun ordered => .pure ⟨.range start stop ordered, rfl, rfl⟩) fun _ => .failAt _ _

theorem dayFilterRule_takes :
    dayFilterRule.Takes front (Spelled FilterPhrase.symbols FilterPhrase.value) := by
  apply Takes.peek
  split
  · exact .skip_pure ⟨.every, rfl, rfl⟩
  · exact .skip_pure ⟨.business, rfl, rfl⟩
  · exact .skip_pure ⟨.weekend, rfl, rfl⟩
  · apply weekdaysRule_takes.bind
    rintro _ _ _ ⟨days, rfl, rfl⟩
    exact .pure ⟨.listed days, (List.append_nil _).symm, rfl⟩
  · exact .fail _

/-! ## Targets -/

/-- A direction, if there is one, and a day. -/
theorem nearestRule_takes :
    nearestRule.Takes front (Spelled MonthTargetPhrase.symbols MonthTargetPhrase.value) := by
  have hrest : ∀ (direction : Option Direction) front, (do
      expect .nearest
      expect .weekday
      expect .«to»
      return .nearestBusinessDay (← ordinalDayRule .ofMonth) direction :
        Rule MonthTarget).Takes front fun taken target => ∃ day : OrdinalPhrase,
          [.keyword .nearest, .keyword .weekday, .keyword .«to», .ordinal day.day] = taken ∧
            .nearestBusinessDay day.day direction = target := by
    intro direction front
    refine .expect fun _ => .expect fun _ => .expect fun _ => (ordinalDayRule_takes _).bind ?_
    rintro _ _ _ ⟨day, rfl, rfl⟩
    exact .pure ⟨day, rfl, rfl⟩
  apply Takes.peek
  dsimp only
  split
  · refine .skip fun front => (hrest _ front).imp ?_
    rintro _ _ ⟨day, rfl, rfl⟩
    exact ⟨.nearestBusinessDay (some .next) day, rfl, rfl⟩
  · refine .skip fun front => (hrest _ front).imp ?_
    rintro _ _ ⟨day, rfl, rfl⟩
    exact ⟨.nearestBusinessDay (some .previous) day, rfl, rfl⟩
  · refine (hrest _ _).imp ?_
    rintro _ _ ⟨day, rfl, rfl⟩
    exact ⟨.nearestBusinessDay none day, rfl, rfl⟩

theorem monthTargetRule_takes :
    monthTargetRule.Takes front (Spelled MonthTargetPhrase.symbols MonthTargetPhrase.value) := by
  have hlist : ∀ front, (do return .days (← commaList monthDaysRule monthDaysRule) :
      Rule MonthTarget).Takes front
        (Spelled MonthTargetPhrase.symbols MonthTargetPhrase.value) := by
    intro front
    apply (commaList_takes (fun _ => monthDaysRule_takes) fun _ => monthDaysRule_takes).bind
    rintro _ _ _ ⟨entries, rfl, rfl⟩
    exact .pure ⟨.days entries, (List.append_nil _).symm, rfl⟩
  apply Takes.peek
  split
  · refine .skip fun front => .peek ?_
    split
    · exact .skip_pure ⟨.lastDay, rfl, rfl⟩
    · exact .skip_pure ⟨.lastBusinessDay, rfl, rfl⟩
    · exact .skip_pure ⟨.positioned .last _, rfl, rfl⟩
    · exact .fail _
  · refine .skip fun front => (weekdayRule_takes _).bind ?_
    rintro _ _ _ ⟨day, rfl, rfl⟩
    exact .pure ⟨.positioned (.ranked _) day, rfl, rfl⟩
  · exact hlist _
  · exact hlist _
  · exact nearestRule_takes
  · exact nearestRule_takes
  · exact nearestRule_takes
  · exact .fail _

theorem ofMonthRule_takes :
    ofMonthRule.Takes front (Spelled (fun month => [.keyword .«of», .month month]) id) := by
  refine .expect fun front => monthRule_takes.imp ?_
  rintro _ _ ⟨month, rfl, rfl⟩
  exact ⟨month, rfl, rfl⟩

theorem yearTargetRule_takes : yearTargetRule.Takes front fun taken target =>
    Spelled YearTargetPhrase.symbols YearTargetPhrase.value (.keyword .«the» :: taken) target := by
  have hordinal : ∀ front, (do
      let span ← here
      let day ← ordinalDayRule .ofYear
      let month ← ofMonthRule
      if day ≤ month.maxDays then return YearTarget.dayOfMonth day month
      else failAt (.dayOutOfMonth day month) span : Rule YearTarget).Takes front fun taken target =>
        Spelled YearTargetPhrase.symbols YearTargetPhrase.value (.keyword .«the» :: taken)
          target := by
    refine fun front => .here fun span => (ordinalDayRule_takes _).bind ?_
    rintro _ _ _ ⟨day, rfl, rfl⟩
    apply ofMonthRule_takes.bind
    rintro _ _ _ ⟨month, rfl, rfl⟩
    refine .ite (fun hle => .pure ?_) fun _ => .failAt _ _
    exact ⟨.dayOfMonth day.day month ⟨day.inMonth.1, hle⟩, rfl, rfl⟩
  apply Takes.peek
  split
  · refine .skip fun front => .peek ?_
    split
    · refine .skip fun front => ofMonthRule_takes.bind ?_
      rintro _ _ _ ⟨month, rfl, rfl⟩
      exact .pure ⟨.lastBusinessDay month, rfl, rfl⟩
    · refine .skip fun front => ofMonthRule_takes.bind ?_
      rintro _ _ _ ⟨month, rfl, rfl⟩
      exact .pure ⟨.positioned .last _ month, rfl, rfl⟩
    · exact .fail _
  · refine .skip fun front => (weekdayRule_takes _).bind ?_
    rintro _ _ _ ⟨day, rfl, rfl⟩
    apply ofMonthRule_takes.bind
    rintro _ _ _ ⟨month, rfl, rfl⟩
    exact .pure ⟨.positioned (.ranked _) day month, rfl, rfl⟩
  · exact hordinal _
  · exact hordinal _
  · exact .fail _

/-! ## Recurrences -/

section Recurrences

variable {interval : Nat}

theorem windowRule_takes (unit : StepUnit) :
    (windowRule interval unit).Takes (some (.unit unit)) fun taken recurrence =>
      ∃ start stop, ∃ days : Option FilterPhrase,
        .unit unit :: .keyword .«from» :: .time start :: .keyword .«to» :: .time stop ::
          governedSymbols .«on» (days.map FilterPhrase.symbols) = taken ∧
        .window interval unit start stop (days.map FilterPhrase.value) = recurrence := by
  refine .skip fun _ => .expect fun _ => timeRule_takes.bind ?_
  rintro _ _ _ ⟨start, rfl, rfl⟩
  refine .expect fun _ => timeRule_takes.bind ?_
  rintro _ _ _ ⟨stop, rfl, rfl⟩
  refine .eat (fun _ => dayFilterRule_takes.bind ?_) fun _ => .pure ⟨start, stop, none, rfl, rfl⟩
  rintro _ _ _ ⟨days, rfl, rfl⟩
  exact .pure ⟨start, stop, some days, by simp [governedSymbols], rfl⟩

theorem dailyRule_takes : (dailyRule interval).Takes front fun taken recurrence =>
    ∃ times : CommaPhrase TimeOfDay, .keyword .day :: times.timesSymbols = taken ∧
      .daily interval .every times.items = recurrence := by
  refine .expect fun _ => atTimesRule_takes.bind ?_
  rintro _ _ _ ⟨times, rfl, rfl⟩
  exact .pure ⟨times, by rw [List.append_nil], rfl⟩

theorem filteredRule_takes (days : DayFilter) :
    (filteredRule days).Takes front
      (Spelled CommaPhrase.timesSymbols fun times => .daily 1 days times.items) := by
  apply atTimesRule_takes.bind
  rintro _ _ _ ⟨times, rfl, rfl⟩
  exact .pure ⟨times, (List.append_nil _).symm, rfl⟩

theorem weeklyRule_takes : (weeklyRule interval).Takes front fun taken recurrence =>
    ∃ (days : CommaPhrase Weekday) (times : CommaPhrase TimeOfDay),
      .keyword .«on» :: (days.weekdaysSymbols ++ times.timesSymbols) = taken ∧
        .weekly interval days.items times.items = recurrence := by
  refine .expect fun _ => weekdaysRule_takes.bind ?_
  rintro _ _ _ ⟨days, rfl, rfl⟩
  apply atTimesRule_takes.bind
  rintro _ _ _ ⟨times, rfl, rfl⟩
  exact .pure ⟨days, times, by rw [List.append_nil], rfl⟩

theorem monthlyRule_takes : (monthlyRule interval).Takes front fun taken recurrence =>
    ∃ (target : MonthTargetPhrase) (times : CommaPhrase TimeOfDay),
      .keyword .«on» :: .keyword .«the» :: (target.symbols ++ times.timesSymbols) = taken ∧
        .monthly interval target.value times.items = recurrence := by
  refine .expect fun _ => .expect fun _ => monthTargetRule_takes.bind ?_
  rintro _ _ _ ⟨target, rfl, rfl⟩
  apply atTimesRule_takes.bind
  rintro _ _ _ ⟨times, rfl, rfl⟩
  exact .pure ⟨target, times, by rw [List.append_nil], rfl⟩

theorem yearlyRule_takes : (yearlyRule interval).Takes front fun taken recurrence =>
    ∃ (target : YearTargetPhrase) (times : CommaPhrase TimeOfDay),
      .keyword .«on» :: (target.symbols ++ times.timesSymbols) = taken ∧
        .yearly interval target.value times.items = recurrence := by
  have hrest : ∀ (target : YearTargetPhrase) front,
      (do return Recurrence.yearly interval target.value (← atTimesRule) : Rule Recurrence).Takes
        front (Spelled CommaPhrase.timesSymbols fun times =>
          .yearly interval target.value times.items) := by
    intro target front
    apply atTimesRule_takes.bind
    rintro _ _ _ ⟨times, rfl, rfl⟩
    exact .pure ⟨times, (List.append_nil _).symm, rfl⟩
  refine .expect fun _ => .peek ?_
  dsimp only
  split
  · refine .skip fun _ => yearTargetRule_takes.bind ?_
    rintro front taken _ ⟨target, hsymbols, rfl⟩
    apply (hrest target front).imp
    rintro _ _ ⟨times, rfl, rfl⟩
    exact ⟨target, times, by rw [hsymbols, List.cons_append], rfl⟩
  · refine .skip fun _ => (dayOfMonthRule_takes _ _).bind ?_
    rintro front taken _ ⟨day, hsymbols, rfl, rfl⟩
    apply (hrest (.date day) front).imp
    rintro _ _ ⟨times, rfl, rfl⟩
    exact ⟨.date day, times, by rw [YearTargetPhrase.symbols, hsymbols, List.cons_append], rfl⟩
  · exact (Takes.fail (P := fun _ _ => False) _).bind fun _ _ _ hfalse => hfalse.elim

theorem monthIntervalRule_takes :
    monthIntervalRule.Takes front (Spelled countSymbols countedInterval) := by
  apply Takes.peek
  split
  · exact .ite (fun _ => .fail _) fun hpos => .skip_pure ⟨some ⟨_, hpos⟩, rfl, rfl⟩
  · exact .pure ⟨none, rfl, rfl⟩

/-- The symbols behind `every` and a count. -/
theorem countedRule_takes (count : CountPhrase) :
    (countedRule count.count).Takes front fun taken recurrence =>
      Spelled RecurrencePhrase.symbols RecurrencePhrase.value
        (.keyword .every :: .number count.count :: taken) recurrence := by
  apply Takes.peek
  split
  · refine .skip fun _ => weeklyRule_takes.imp ?_
    rintro _ _ ⟨days, times, rfl, rfl⟩
    exact ⟨.weekly count days times, rfl, rfl⟩
  · apply (windowRule_takes _).imp
    rintro _ _ ⟨start, stop, days, rfl, rfl⟩
    exact ⟨.windowed (some count) _ start stop days, rfl, rfl⟩
  · apply dailyRule_takes.imp
    rintro _ _ ⟨times, rfl, rfl⟩
    exact ⟨.daily count times, rfl, rfl⟩
  · refine .skip fun _ => monthlyRule_takes.imp ?_
    rintro _ _ ⟨target, times, rfl, rfl⟩
    exact ⟨.monthly (some count) target times, rfl, rfl⟩
  · refine .skip fun _ => yearlyRule_takes.imp ?_
    rintro _ _ ⟨target, times, rfl, rfl⟩
    exact ⟨.yearly (some count) target times, rfl, rfl⟩
  · exact .fail _

/-- The symbols behind `every`. -/
theorem everyRule_takes : everyRule.Takes front fun taken recurrence =>
    Spelled RecurrencePhrase.symbols RecurrencePhrase.value (.keyword .every :: taken)
      recurrence := by
  apply Takes.peek
  split
  · exact .fail _
  · refine .skip fun _ => yearlyRule_takes.imp ?_
    rintro _ _ ⟨target, times, rfl, rfl⟩
    exact ⟨.yearly none target times, rfl, rfl⟩
  · apply dailyRule_takes.imp
    rintro _ _ ⟨times, rfl, rfl⟩
    exact ⟨.filtered .every times, rfl, rfl⟩
  · refine .skip fun _ => (filteredRule_takes _).imp ?_
    rintro _ _ ⟨times, rfl, rfl⟩
    exact ⟨.filtered .business times, rfl, rfl⟩
  · refine .skip fun _ => (filteredRule_takes _).imp ?_
    rintro _ _ ⟨times, rfl, rfl⟩
    exact ⟨.filtered .weekend times, rfl, rfl⟩
  · apply weekdaysRule_takes.bind
    rintro _ _ _ ⟨days, rfl, rfl⟩
    apply (filteredRule_takes _).imp
    rintro _ _ ⟨times, rfl, rfl⟩
    exact ⟨.filtered (.listed days) times, rfl, rfl⟩
  · refine .skip fun _ => monthlyRule_takes.imp ?_
    rintro _ _ ⟨target, times, rfl, rfl⟩
    exact ⟨.monthly none target times, rfl, rfl⟩
  · rename_i interval
    exact .ite (fun _ => .fail _) fun hpos => .skip fun _ => countedRule_takes ⟨interval, hpos⟩
  · apply (windowRule_takes _).imp
    rintro _ _ ⟨start, stop, days, rfl, rfl⟩
    exact ⟨.windowed none _ start stop days, rfl, rfl⟩
  · exact .fail _

theorem positionedRule_takes (place : PlacePhrase) :
    (positionedRule place.value).Takes front fun taken recurrence =>
      Spelled RecurrencePhrase.symbols RecurrencePhrase.value (place.symbol :: taken)
        recurrence := by
  apply (weekdayRule_takes _).bind
  rintro _ _ _ ⟨weekday, rfl, rfl⟩
  refine .expect fun _ => .expect fun _ => monthIntervalRule_takes.bind ?_
  rintro _ _ _ ⟨count, rfl, rfl⟩
  refine .expect fun _ => atTimesRule_takes.bind ?_
  rintro _ _ _ ⟨times, rfl, rfl⟩
  exact .pure ⟨.positioned place weekday count times, by simp [RecurrencePhrase.symbols], rfl⟩

theorem recurrenceRule_takes :
    recurrenceRule.Takes front (Spelled RecurrencePhrase.symbols RecurrencePhrase.value) := by
  apply Takes.peek
  split
  · exact .skip fun _ => everyRule_takes
  · refine .skip fun _ => (calendarDayRule_takes _).bind ?_
    rintro _ _ _ ⟨day, rfl, rfl⟩
    apply atTimesRule_takes.bind
    rintro _ _ _ ⟨times, rfl, rfl⟩
    exact .pure ⟨.once day times, by rw [List.append_nil, RecurrencePhrase.symbols], rfl⟩
  · exact .skip fun _ => positionedRule_takes (.ranked _)
  · exact .skip fun _ => positionedRule_takes .last
  · exact .fail _

end Recurrences

/-! ## Clauses -/

section Clauses

variable {α τ : Type} {symbols : τ → List Symbol} {value : τ → α}

theorem clauseRule_takes (word : Keyword) (absent : α) {body : Rule α}
    (hbody : ∀ front, body.Takes front (Spelled symbols value)) :
    (clauseRule word absent body).Takes front
      (Spelled (fun phrase : Option τ => governedSymbols word (phrase.map symbols))
        (·.elim absent value)) := by
  refine .eat (fun front => (hbody front).imp ?_) fun _ => .pure ⟨none, rfl, rfl⟩
  rintro _ _ ⟨phrase, rfl, rfl⟩
  exact ⟨some phrase, rfl, rfl⟩

/-- A clause for one value. -/
theorem clauseRule_takes_option (word : Keyword) {body : Rule α}
    (hbody : ∀ front, body.Takes front (Spelled symbols value)) :
    (clauseRule word none (some <$> body)).Takes front
      (Spelled (fun phrase : Option τ => governedSymbols word (phrase.map symbols))
        (Option.map value)) := by
  have hsome : ∀ front, (some <$> body).Takes front (Spelled symbols (some ∘ value)) := by
    intro front
    apply (hbody front).map
    rintro _ _ ⟨phrase, rfl, rfl⟩
    exact ⟨phrase, rfl, rfl⟩
  apply (clauseRule_takes word none hsome).imp
  rintro _ _ ⟨phrase, rfl, rfl⟩
  cases phrase with
  | none => exact ⟨none, rfl, rfl⟩
  | some phrase => exact ⟨some phrase, rfl, rfl⟩

theorem anchorRule_takes : anchorRule.Takes front
    (Spelled (fun phrase : DatePhrase => [.date phrase.text]) DatePhrase.date) := by
  apply Takes.peek
  split
  · exact dateOfTextRule_takes _
  · exact .fail _

theorem zoneRule_takes : zoneRule.Takes front (Spelled (fun name => [.zone name]) id) := by
  apply Takes.peek
  split
  · rename_i name
    exact .skip_pure ⟨name, rfl, rfl⟩
  · exact .fail _

theorem scheduleRule_takes :
    scheduleRule.Takes front (Spelled SchedulePhrase.symbols SchedulePhrase.value) := by
  apply recurrenceRule_takes.bind
  rintro _ _ _ ⟨recurrence, rfl, rfl⟩
  apply (clauseRule_takes _ _ fun _ => commaList_takes (fun _ => calendarDayRule_takes _)
    fun _ => calendarDayRule_takes _).bind
  rintro _ _ _ ⟨skipped, rfl, rfl⟩
  apply (clauseRule_takes_option _ fun _ => calendarDayRule_takes _).bind
  rintro _ _ _ ⟨lastDay, rfl, rfl⟩
  apply (clauseRule_takes_option _ fun _ => anchorRule_takes).bind
  rintro _ _ _ ⟨anchor, rfl, rfl⟩
  apply (clauseRule_takes _ _ fun _ => commaList_takes_items (fun _ => monthRule_takes)
    fun _ => monthRule_takes).bind
  rintro _ _ _ ⟨season, rfl, rfl⟩
  apply (clauseRule_takes_option _ fun _ => zoneRule_takes).bind
  rintro _ _ _ ⟨zone, rfl, rfl⟩
  refine .pure ⟨⟨recurrence, skipped, lastDay, anchor, season, zone⟩, ?_, ?_⟩
  · rw [List.append_nil]
    rfl
  · rw [Option.map_id]
    rfl

end Clauses

/-- What is read has a derivation. -/
theorem exists_phrase_of_scheduleOfTokens {tokens : List Token} {schedule : Schedule}
    (hread : scheduleOfTokens tokens = .ok schedule) :
    ∃ phrase : SchedulePhrase, phrase.symbols = tokens.map Token.symbol ∧
      phrase.value = schedule := by
  rw [scheduleOfTokens] at hread
  split at hread
  · cases hread
  · split at hread
    · cases hread
    · rename_i parsed hparsed
      obtain rfl := Except.ok.inj hread
      obtain ⟨_, htaken, phrase, rfl, hvalue⟩ :=
        scheduleRule_takes.sound tokens parsed [] rfl hparsed
      refine ⟨phrase, ?_, hvalue⟩
      rw [htaken, List.map_nil, List.append_nil]
    · cases hread

/-- Tokens are read as a schedule just when their symbols have a derivation from
the grammar whose value is that schedule, and no sequence of symbols has two
derivations. -/
theorem scheduleOfTokens_eq_ok_iff_derived (tokens : List Token) (schedule : Schedule) :
    (scheduleOfTokens tokens = .ok schedule ↔
      ∃ derivation : SchedulePhrase,
        derivation.symbols = tokens.map Token.symbol ∧ derivation.value = schedule) ∧
    SchedulePhrase.symbols.Injective := by
  refine ⟨⟨exists_phrase_of_scheduleOfTokens, ?_⟩, SchedulePhrase.symbols_injective⟩
  rintro ⟨derivation, hsymbols, rfl⟩
  exact scheduleOfTokens_of_phrase derivation hsymbols.symm

end Cadence
