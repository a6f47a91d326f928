import Cadence.Proofs.Expression.DayRules
import Cadence.Proofs.Expression.Derivations

/-!
# Errors are not reported late

Where a rule fails, the symbols before the place of the error begin a phrase: at
each place where it can fail a completion is given.  So the tokens in front of an
error are the beginning of tokens that are read as a schedule.

Every rule has one lemma here, which goes through it as the lemma about what it
takes does.  The causes are followed too: only a plain number in the place of an
ordinal day makes a suggestion.
-/

namespace Cadence

open Rule

theorem Month.one_le_maxDays (month : Month) : 1 ≤ month.maxDays := by
  cases month <;> decide

section Rules

variable {front : Option Symbol} {causes : GrammarCause → Prop}

/-! ## Parts -/

section Plain

variable (hplain : ∀ cause : GrammarCause, cause.suggestion = none → causes cause)

include hplain

theorem timeRule_follows :
    timeRule.Follows front causes (Spelled (fun time => [.time time]) id) := by
  apply Follows.peek
  split
  · exact .skip_pure ⟨_, rfl, rfl⟩
  · exact .fail (hplain _ rfl) ⟨.midnight, rfl, rfl⟩

theorem weekdayRule_follows (place : WeekdayPlace) :
    (weekdayRule place).Follows front causes (Spelled (fun day => [.weekday day]) id) := by
  apply Follows.peek
  split
  · exact .skip_pure ⟨_, rfl, rfl⟩
  · exact .fail (hplain _ rfl) ⟨.monday, rfl, rfl⟩

theorem monthRule_follows :
    monthRule.Follows front causes (Spelled (fun month => [.month month]) id) := by
  apply Follows.peek
  split
  · exact .skip_pure ⟨_, rfl, rfl⟩
  · exact .fail (hplain _ rfl) ⟨.january, rfl, rfl⟩

omit hplain in
theorem commaList_follows {α τ : Type} {first item : Rule α} {symbols : τ → List Symbol}
    {value : τ → α} (hfirstTakes : ∀ front, first.Takes front (Spelled symbols value))
    (htakes : ∀ front, item.Takes front (Spelled symbols value))
    (hfirst : ∀ front, first.Follows front causes (Spelled symbols value))
    (hitem : ∀ front, item.Follows front causes (Spelled symbols value)) :
    (commaList first item).Follows front causes
      (Spelled (fun list : CommaPhrase τ => list.symbols symbols) (·.items.map value)) := by
  apply (Follows.commaList hfirstTakes htakes hfirst hitem).imp
  rintro _ _ ⟨phrase, phrases, rfl, rfl⟩
  exact ⟨⟨phrase, phrases⟩, rfl, rfl⟩

omit hplain in
theorem commaList_follows_items {α : Type} {first item : Rule α} {symbols : α → List Symbol}
    (hfirstTakes : ∀ front, first.Takes front (Spelled symbols id))
    (htakes : ∀ front, item.Takes front (Spelled symbols id))
    (hfirst : ∀ front, first.Follows front causes (Spelled symbols id))
    (hitem : ∀ front, item.Follows front causes (Spelled symbols id)) :
    (commaList first item).Follows front causes
      (Spelled (fun list : CommaPhrase α => list.symbols symbols) CommaPhrase.items) := by
  apply (commaList_follows hfirstTakes htakes hfirst hitem).imp
  rintro _ _ ⟨list, rfl, rfl⟩
  exact ⟨list, rfl, (List.map_id _).symm⟩

theorem atTimesRule_follows :
    atTimesRule.Follows front causes (Spelled CommaPhrase.timesSymbols CommaPhrase.items) := by
  refine .expect (fun _ => hplain _ rfl) fun front => ?_
  have htimes : timesRule.Follows front causes _ := commaList_follows_items
    (fun _ => timeRule_takes) (fun _ => timeRule_takes) (fun _ => timeRule_follows hplain)
    fun _ => timeRule_follows hplain
  apply htimes.imp
  rintro _ _ ⟨times, rfl, rfl⟩
  exact ⟨times, rfl, rfl⟩

theorem weekdaysRule_follows : weekdaysRule.Follows front causes
    (Spelled CommaPhrase.weekdaysSymbols CommaPhrase.items) :=
  commaList_follows_items (fun _ => weekdayRule_takes _) (fun _ => weekdayRule_takes _)
    (fun _ => weekdayRule_follows hplain _) fun _ => weekdayRule_follows hplain _

omit hplain in
theorem exists_datePhrase : Nonempty DatePhrase := by
  have hsome : (Date.ofText? "2000-01-01".toList).isSome = true := by decide
  obtain ⟨date, hdate⟩ := Option.isSome_iff_exists.mp hsome
  exact ⟨"2000-01-01", date, hdate⟩

theorem dateOfTextRule_follows (text : String) :
    (dateOfTextRule text).Follows (some (.date text)) causes
      (Spelled (fun phrase : DatePhrase => [.date phrase.text]) DatePhrase.date) := by
  rw [dateOfTextRule]
  split
  · rename_i date hdate
    exact .skip_pure ⟨⟨text, date, hdate⟩, rfl, rfl⟩
  · obtain ⟨phrase⟩ := exists_datePhrase
    exact .fail (hplain _ rfl) ⟨phrase, rfl, rfl⟩

/-- Whatever day is written behind the name of a month, its first could be. -/
theorem dayOfMonthRule_follows (month : Month) (place : DayPlace) :
    (dayOfMonthRule month place).Follows front causes fun taken day => ∃ phrase : MonthDayPhrase,
      phrase.symbols = .month month :: taken ∧ phrase.month = month ∧ phrase.day = day := by
  have hfail : ∀ {front} cause, cause.suggestion = none →
      (Rule.fail cause : Rule Nat).Follows front causes fun taken day => ∃ phrase : MonthDayPhrase,
        phrase.symbols = .month month :: taken ∧ phrase.month = month ∧ phrase.day = day :=
    fun cause hcause => .fail (hplain _ hcause)
      ⟨⟨month, .plain, 1, Nat.le_refl 1, month.one_le_maxDays⟩, rfl, rfl, rfl⟩
  apply Follows.peek
  split
  · rename_i day
    refine .ite (fun _ => hfail _ rfl) fun hday => .skip_pure ?_
    exact ⟨⟨month, .plain, day, by omega⟩, rfl, rfl, rfl⟩
  · rename_i day
    refine .ite (fun _ => hfail _ rfl) fun hday => .skip_pure ?_
    exact ⟨⟨month, .ordinal, day, by omega⟩, rfl, rfl, rfl⟩
  · exact hfail _ rfl

theorem calendarDayRule_follows (place : DayPlace) :
    (calendarDayRule place).Follows front causes (Spelled DayPhrase.symbols DayPhrase.value) := by
  obtain ⟨date⟩ := exists_datePhrase
  apply Follows.peek
  split
  · exact .fail (hplain _ rfl) ⟨.fixed date, rfl, rfl⟩
  · apply Follows.bind (dateOfTextRule_takes _) (dateOfTextRule_follows hplain _)
    rintro _ _ _ ⟨date, rfl, rfl⟩
    exact .pure ⟨.fixed date, rfl, rfl⟩
  · refine .skip fun front =>
      .bind (dayOfMonthRule_takes _ _) (dayOfMonthRule_follows hplain _ _) ?_
    rintro _ taken _ ⟨day, hsymbols, rfl, rfl⟩
    exact .pure ⟨.yearly day, by rw [DayPhrase.symbols, hsymbols, List.append_nil], rfl⟩
  · exact .fail (hplain _ rfl) ⟨.fixed date, rfl, rfl⟩

theorem dayFilterRule_follows :
    dayFilterRule.Follows front causes (Spelled FilterPhrase.symbols FilterPhrase.value) := by
  apply Follows.peek
  split
  · exact .skip_pure ⟨.every, rfl, rfl⟩
  · exact .skip_pure ⟨.business, rfl, rfl⟩
  · exact .skip_pure ⟨.weekend, rfl, rfl⟩
  · apply Follows.bind weekdaysRule_takes (weekdaysRule_follows hplain)
    rintro _ _ _ ⟨days, rfl, rfl⟩
    exact .pure ⟨.listed days, (List.append_nil _).symm, rfl⟩
  · exact .fail (hplain _ rfl) ⟨.every, rfl, rfl⟩

theorem ofMonthRule_follows : ofMonthRule.Follows front causes
    (Spelled (fun month => [.keyword .«of», .month month]) id) := by
  refine .expect (fun _ => hplain _ rfl) fun front => (monthRule_follows hplain).imp ?_
  rintro _ _ ⟨month, rfl, rfl⟩
  exact ⟨month, rfl, rfl⟩

end Plain

/-! ## Ordinal days -/

section OrdinalDays

variable (hplain : ∀ cause : GrammarCause, cause.suggestion = none → causes cause)
  (hnumber : ∀ place value, causes (.plainNumber place value))

include hplain hnumber

theorem ordinalDayRule_follows (place : OrdinalPlace) :
    (ordinalDayRule place).Follows front causes
      (Spelled (fun phrase : OrdinalPhrase => [.ordinal phrase.day]) OrdinalPhrase.day) := by
  apply Follows.peek
  split
  · rename_i day
    exact .ite (fun hday => .skip_pure ⟨⟨day, hday⟩, rfl, rfl⟩) fun _ =>
      .fail (hplain _ rfl) ⟨⟨1, by decide⟩, rfl, rfl⟩
  · exact .fail (hnumber _ _) ⟨⟨1, by decide⟩, rfl, rfl⟩
  · exact .fail (hplain _ rfl) ⟨⟨1, by decide⟩, rfl, rfl⟩

/-- A missed ordinal day interrupts at the front. -/
theorem OrdinalDayRun.interrupts {α : Type} {place : OrdinalPlace} {tokens : List Token}
    {error : GrammarError} {P : List Symbol → α → Prop}
    (hrun : OrdinalDayRun place tokens (.error error)) (hpossible : ∃ later value, P later value) :
    error.Interrupts tokens causes P := by
  obtain ⟨hspan, hcause⟩ := hrun.error_at_front
  refine .front hspan ?_ hpossible
  rcases hcause with hnone | ⟨value, hvalue⟩
  · exact hplain _ hnone
  · exact hvalue ▸ hnumber place value

/-- A range may always end with the last day that a month can have. -/
theorem monthDaysRule_follows : monthDaysRule.Follows front causes
    (Spelled MonthDaysPhrase.symbols MonthDaysPhrase.value) := by
  have hpossible :
      ∃ taken value, Spelled MonthDaysPhrase.symbols MonthDaysPhrase.value taken value :=
    ⟨_, _, .single ⟨1, by decide⟩, rfl, rfl⟩
  refine ⟨hpossible, fun tokens value rest _ hread => ?_, fun tokens error _ herror => ?_⟩
  · have hrun := monthDaysRule_run tokens
    rw [hread] at hrun
    cases hrun with
    | single => exact List.suffix_cons _ _
    | @range first word final => exact List.suffix_append [first, word, final] rest
  · have hrun := monthDaysRule_run tokens
    rw [herror] at hrun
    cases hrun with
    | noStart hstart =>
      have hstartRun := ordinalDayRule_run .ofMonth tokens
      rw [hstart] at hstartRun
      exact hstartRun.interrupts hplain hnumber hpossible
    | @noStop first word rest _ start hfirst hword hstop =>
      have hstopRun := ordinalDayRule_run .rangeEnd rest
      rw [hstop] at hstopRun
      have hlast : Spelled MonthDaysPhrase.symbols MonthDaysPhrase.value
          [.ordinal start.day, .keyword .«to», .ordinal 31] (.range start.day 31) :=
        ⟨.range start ⟨31, by decide⟩ start.inMonth.2, rfl, rfl⟩
      rw [← hfirst, ← hword] at hlast
      change error.Interrupts ([first, word] ++ rest) causes _
      exact .append (hstopRun.interrupts hplain hnumber ⟨_, _, hlast⟩)
    | @reversed first word final rest =>
      exact ⟨hplain _ rfl, [], _, rfl, ⟨final, by simp, rfl⟩, hpossible⟩

/-- What stands behind `the` in a yearly repetition, from an ordinal on. -/
theorem yearDayRule_follows : yearDayRule.Follows front causes fun taken target =>
    Spelled YearTargetPhrase.symbols YearTargetPhrase.value (.keyword .«the» :: taken)
      target := by
  have hpossible : ∃ taken target, Spelled YearTargetPhrase.symbols YearTargetPhrase.value
      (.keyword .«the» :: taken) target :=
    ⟨_, _, .dayOfMonth 1 .january (by decide), rfl, rfl⟩
  refine ⟨hpossible, fun tokens value rest _ hread => ?_, fun tokens error _ herror => ?_⟩
  · have hrun := yearDayRule_run tokens
    rw [hread] at hrun
    cases hrun with
    | day _ _ hmonth =>
      exact ((ofMonthRule_follows hplain).suffix _ _ _ rfl hmonth).trans
        (List.suffix_cons _ _)
  · have hrun := yearDayRule_run tokens
    rw [herror] at hrun
    cases hrun with
    | noDay hday =>
      have hdayRun := ordinalDayRule_run .ofYear tokens
      rw [hday] at hdayRun
      exact hdayRun.interrupts hplain hnumber hpossible
    | @noMonth first rest _ day hfirst hmonth =>
      -- While no month is named, the day can be one of January.
      have hjanuary : Spelled YearTargetPhrase.symbols YearTargetPhrase.value
          [.keyword .«the», .ordinal day.day, .keyword .«of», .month .january]
          (.dayOfMonth day.day .january) := ⟨.dayOfMonth day.day .january day.inMonth, rfl, rfl⟩
      rw [← hfirst] at hjanuary
      have hmonthRun := ofMonthRule_run rest
      rw [hmonth] at hmonthRun
      cases hmonthRun with
      | noWord =>
        change GrammarError.Interrupts _ ([first] ++ rest) causes _
        exact .append (.front rfl (hplain _ rfl) ⟨_, _, hjanuary⟩)
      | @noName word rest hword =>
        rw [← hword] at hjanuary
        change GrammarError.Interrupts _ ([first, word] ++ rest) causes _
        exact .append (.front rfl (hplain _ rfl) ⟨_, _, hjanuary⟩)
    | outOfMonth => exact ⟨hplain _ rfl, [], _, rfl, ⟨_, List.mem_cons_self, rfl⟩, hpossible⟩

/-! ## Targets -/

theorem nearestRule_follows : nearestRule.Follows front causes
    (Spelled MonthTargetPhrase.symbols MonthTargetPhrase.value) := by
  have hrest : ∀ (direction : Option Direction) front, (do
      expect .nearest
      expect .weekday
      expect .«to»
      return .nearestBusinessDay (← ordinalDayRule .ofMonth) direction :
        Rule MonthTarget).Follows front causes fun taken target => ∃ day : OrdinalPhrase,
          [.keyword .nearest, .keyword .weekday, .keyword .«to», .ordinal day.day] = taken ∧
            .nearestBusinessDay day.day direction = target := by
    intro direction front
    refine .expect (fun _ => hplain _ rfl) fun _ => .expect (fun _ => hplain _ rfl) fun _ =>
      .expect (fun _ => hplain _ rfl) fun _ =>
        .bind (ordinalDayRule_takes _) (ordinalDayRule_follows hplain hnumber _) ?_
    rintro _ _ _ ⟨day, rfl, rfl⟩
    exact .pure ⟨day, rfl, rfl⟩
  apply Follows.peek
  dsimp only
  split
  · refine .skip fun front => (hrest _ front).imp ?_
    rintro _ _ ⟨day, rfl, rfl⟩
    exact ⟨.nearestBusinessDay (some .next) day, rfl, rfl⟩
  · refine .skip fun front => (hrest _ front).imp ?_
    rintro _ _ ⟨day, rfl, rfl⟩
    exact ⟨.nearestBusinessDay (some .previous) day, rfl, rfl⟩
  · refine (hrest _ _).imp ?_
    rintro _ _ ⟨day, rfl, rfl⟩
    exact ⟨.nearestBusinessDay none day, rfl, rfl⟩

theorem monthTargetRule_follows : monthTargetRule.Follows front causes
    (Spelled MonthTargetPhrase.symbols MonthTargetPhrase.value) := by
  have hlist : ∀ front, (do return .days (← commaList monthDaysRule monthDaysRule) :
      Rule MonthTarget).Follows front causes
        (Spelled MonthTargetPhrase.symbols MonthTargetPhrase.value) := by
    intro front
    apply Follows.bind
      (commaList_takes (fun _ => monthDaysRule_takes) fun _ => monthDaysRule_takes)
      (commaList_follows (fun _ => monthDaysRule_takes) (fun _ => monthDaysRule_takes)
        (fun _ => monthDaysRule_follows hplain hnumber)
        fun _ => monthDaysRule_follows hplain hnumber)
    rintro _ _ _ ⟨entries, rfl, rfl⟩
    exact .pure ⟨.days entries, (List.append_nil _).symm, rfl⟩
  apply Follows.peek
  split
  · refine .skip fun front => .peek ?_
    split
    · exact .skip_pure ⟨.lastDay, rfl, rfl⟩
    · exact .skip_pure ⟨.lastBusinessDay, rfl, rfl⟩
    · exact .skip_pure ⟨.positioned .last _, rfl, rfl⟩
    · exact .fail (hplain _ rfl) ⟨.lastDay, rfl, rfl⟩
  · refine .skip fun front => .bind (weekdayRule_takes _) (weekdayRule_follows hplain _) ?_
    rintro _ _ _ ⟨day, rfl, rfl⟩
    exact .pure ⟨.positioned (.ranked _) day, rfl, rfl⟩
  · exact hlist _
  · exact hlist _
  · exact nearestRule_follows hplain hnumber
  · exact nearestRule_follows hplain hnumber
  · exact nearestRule_follows hplain hnumber
  · exact .fail (hplain _ rfl) ⟨.lastDay, rfl, rfl⟩

theorem yearTargetRule_follows : yearTargetRule.Follows front causes fun taken target =>
    Spelled YearTargetPhrase.symbols YearTargetPhrase.value (.keyword .«the» :: taken)
      target := by
  apply Follows.peek
  split
  · refine .skip fun front => .peek ?_
    split
    · refine .skip fun front => .bind ofMonthRule_takes (ofMonthRule_follows hplain) ?_
      rintro _ _ _ ⟨month, rfl, rfl⟩
      exact .pure ⟨.lastBusinessDay month, rfl, rfl⟩
    · refine .skip fun front => .bind ofMonthRule_takes (ofMonthRule_follows hplain) ?_
      rintro _ _ _ ⟨month, rfl, rfl⟩
      exact .pure ⟨.positioned .last _ month, rfl, rfl⟩
    · exact .fail (hplain _ rfl) ⟨.lastBusinessDay .january, rfl, rfl⟩
  · refine .skip fun front => .bind (weekdayRule_takes _) (weekdayRule_follows hplain _) ?_
    rintro _ _ _ ⟨day, rfl, rfl⟩
    apply Follows.bind ofMonthRule_takes (ofMonthRule_follows hplain)
    rintro _ _ _ ⟨month, rfl, rfl⟩
    exact .pure ⟨.positioned (.ranked _) day month, rfl, rfl⟩
  · exact yearDayRule_follows hplain hnumber
  · exact yearDayRule_follows hplain hnumber
  · exact .fail (hplain _ rfl) ⟨.lastBusinessDay .january, rfl, rfl⟩

end OrdinalDays

/-! ## Recurrences -/

section Recurrences

variable {interval : Nat}

/-- Some times to complete a recurrence with. -/
def someTimes : CommaPhrase TimeOfDay := ⟨.midnight, []⟩

section Plain

variable (hplain : ∀ cause : GrammarCause, cause.suggestion = none → causes cause)

include hplain

theorem windowRule_follows (unit : StepUnit) :
    (windowRule interval unit).Follows (some (.unit unit)) causes fun taken recurrence =>
      ∃ start stop, ∃ days : Option FilterPhrase,
        .unit unit :: .keyword .«from» :: .time start :: .keyword .«to» :: .time stop ::
          governedSymbols .«on» (days.map FilterPhrase.symbols) = taken ∧
        .window interval unit start stop (days.map FilterPhrase.value) = recurrence := by
  refine .skip fun _ => .expect (fun _ => hplain _ rfl) fun _ =>
    .bind timeRule_takes (timeRule_follows hplain) ?_
  rintro _ _ _ ⟨start, rfl, rfl⟩
  refine .expect (fun _ => hplain _ rfl) fun _ => .bind timeRule_takes (timeRule_follows hplain) ?_
  rintro _ _ _ ⟨stop, rfl, rfl⟩
  refine .eat (fun _ => .bind dayFilterRule_takes (dayFilterRule_follows hplain) ?_) fun _ =>
    .pure ⟨start, stop, none, rfl, rfl⟩
  rintro _ _ _ ⟨days, rfl, rfl⟩
  exact .pure ⟨start, stop, some days, by simp [governedSymbols], rfl⟩

theorem dailyRule_follows : (dailyRule interval).Follows front causes fun taken recurrence =>
    ∃ times : CommaPhrase TimeOfDay, .keyword .day :: times.timesSymbols = taken ∧
      .daily interval .every times.items = recurrence := by
  refine .expect (fun _ => hplain _ rfl) fun _ =>
    .bind atTimesRule_takes (atTimesRule_follows hplain) ?_
  rintro _ _ _ ⟨times, rfl, rfl⟩
  exact .pure ⟨times, by rw [List.append_nil], rfl⟩

theorem filteredRule_follows (days : DayFilter) : (filteredRule days).Follows front causes
    (Spelled CommaPhrase.timesSymbols fun times => .daily 1 days times.items) := by
  apply Follows.bind atTimesRule_takes (atTimesRule_follows hplain)
  rintro _ _ _ ⟨times, rfl, rfl⟩
  exact .pure ⟨times, (List.append_nil _).symm, rfl⟩

theorem weeklyRule_follows : (weeklyRule interval).Follows front causes fun taken recurrence =>
    ∃ (days : CommaPhrase Weekday) (times : CommaPhrase TimeOfDay),
      .keyword .«on» :: (days.weekdaysSymbols ++ times.timesSymbols) = taken ∧
        .weekly interval days.items times.items = recurrence := by
  refine .expect (fun _ => hplain _ rfl) fun _ =>
    .bind weekdaysRule_takes (weekdaysRule_follows hplain) ?_
  rintro _ _ _ ⟨days, rfl, rfl⟩
  apply Follows.bind atTimesRule_takes (atTimesRule_follows hplain)
  rintro _ _ _ ⟨times, rfl, rfl⟩
  exact .pure ⟨days, times, by rw [List.append_nil], rfl⟩

/-- What stands behind the target of a monthly repetition. -/
theorem monthlyTimes_follows (target : MonthTarget) :
    (do return .monthly interval target (← atTimesRule) : Rule Recurrence).Follows front causes
      (Spelled CommaPhrase.timesSymbols fun times => .monthly interval target times.items) := by
  apply Follows.bind atTimesRule_takes (atTimesRule_follows hplain)
  rintro _ _ _ ⟨times, rfl, rfl⟩
  exact .pure ⟨times, (List.append_nil _).symm, rfl⟩

theorem yearlyTimes_follows (target : YearTarget) :
    (do return .yearly interval target (← atTimesRule) : Rule Recurrence).Follows front causes
      (Spelled CommaPhrase.timesSymbols fun times => .yearly interval target times.items) := by
  apply Follows.bind atTimesRule_takes (atTimesRule_follows hplain)
  rintro _ _ _ ⟨times, rfl, rfl⟩
  exact .pure ⟨times, (List.append_nil _).symm, rfl⟩

/-- An interval of zero is reported where any other could stand. -/
theorem monthIntervalRule_follows :
    monthIntervalRule.Follows front causes (Spelled countSymbols countedInterval) := by
  apply Follows.peek
  split
  · exact .ite (fun _ => .fail (hplain _ rfl) ⟨none, rfl, rfl⟩) fun hpos =>
      .skip_pure ⟨some ⟨_, hpos⟩, rfl, rfl⟩
  · exact .pure ⟨none, rfl, rfl⟩

theorem positionedRule_follows (place : PlacePhrase) :
    (positionedRule place.value).Follows front causes fun taken recurrence =>
      Spelled RecurrencePhrase.symbols RecurrencePhrase.value (place.symbol :: taken)
        recurrence := by
  apply Follows.bind (weekdayRule_takes _) (weekdayRule_follows hplain _)
  rintro _ _ _ ⟨weekday, rfl, rfl⟩
  refine .expect (fun _ => hplain _ rfl) fun _ => .expect (fun _ => hplain _ rfl) fun _ =>
    .bind monthIntervalRule_takes (monthIntervalRule_follows hplain) ?_
  rintro _ _ _ ⟨count, rfl, rfl⟩
  refine .expect (fun _ => hplain _ rfl) fun _ =>
    .bind atTimesRule_takes (atTimesRule_follows hplain) ?_
  rintro _ _ _ ⟨times, rfl, rfl⟩
  exact .pure ⟨.positioned place weekday count times, by simp [RecurrencePhrase.symbols], rfl⟩

end Plain

variable (hplain : ∀ cause : GrammarCause, cause.suggestion = none → causes cause)
  (hnumber : ∀ place value, causes (.plainNumber place value))

include hplain hnumber

theorem monthlyRule_follows : (monthlyRule interval).Follows front causes fun taken recurrence =>
    ∃ (target : MonthTargetPhrase) (times : CommaPhrase TimeOfDay),
      .keyword .«on» :: .keyword .«the» :: (target.symbols ++ times.timesSymbols) = taken ∧
        .monthly interval target.value times.items = recurrence := by
  refine .expect (fun _ => hplain _ rfl) fun _ => .expect (fun _ => hplain _ rfl) fun _ =>
    .bind monthTargetRule_takes (monthTargetRule_follows hplain hnumber) ?_
  rintro _ _ _ ⟨target, rfl, rfl⟩
  apply (monthlyTimes_follows hplain _).imp
  rintro _ _ ⟨times, rfl, rfl⟩
  exact ⟨target, times, rfl, rfl⟩

theorem yearlyRule_follows : (yearlyRule interval).Follows front causes fun taken recurrence =>
    ∃ (target : YearTargetPhrase) (times : CommaPhrase TimeOfDay),
      .keyword .«on» :: (target.symbols ++ times.timesSymbols) = taken ∧
        .yearly interval target.value times.items = recurrence := by
  refine .expect (fun _ => hplain _ rfl) fun _ => .peek ?_
  dsimp only
  split
  · refine .skip fun _ => .bind yearTargetRule_takes (yearTargetRule_follows hplain hnumber) ?_
    rintro front taken _ ⟨target, hsymbols, rfl⟩
    apply (yearlyTimes_follows hplain _).imp
    rintro _ _ ⟨times, rfl, rfl⟩
    exact ⟨target, times, by rw [hsymbols, List.cons_append], rfl⟩
  · refine .skip fun _ => .bind (dayOfMonthRule_takes _ _) (dayOfMonthRule_follows hplain _ _) ?_
    rintro front taken _ ⟨day, hsymbols, rfl, rfl⟩
    apply (yearlyTimes_follows hplain _).imp
    rintro _ _ ⟨times, rfl, rfl⟩
    exact ⟨.date day, times, by rw [YearTargetPhrase.symbols, hsymbols, List.cons_append], rfl⟩
  · have hfail : ∀ front, (Rule.fail .missingYearTarget : Rule Recurrence).Follows front causes
        fun later recurrence => ∃ (target : YearTargetPhrase) (times : CommaPhrase TimeOfDay),
          .keyword .«on» :: (target.symbols ++ times.timesSymbols) = .keyword .«on» :: later ∧
            .yearly interval target.value times.items = recurrence :=
      fun _ => .fail (hplain _ rfl) ⟨.lastBusinessDay .january, someTimes, rfl, rfl⟩
    exact hfail _

/-- The symbols behind `every` and a count. -/
theorem countedRule_follows (count : CountPhrase) :
    (countedRule count.count).Follows front causes fun taken recurrence =>
      Spelled RecurrencePhrase.symbols RecurrencePhrase.value
        (.keyword .every :: .number count.count :: taken) recurrence := by
  apply Follows.peek
  split
  · refine .skip fun _ => (weeklyRule_follows hplain).imp ?_
    rintro _ _ ⟨days, times, rfl, rfl⟩
    exact ⟨.weekly count days times, rfl, rfl⟩
  · apply (windowRule_follows hplain _).imp
    rintro _ _ ⟨start, stop, days, rfl, rfl⟩
    exact ⟨.windowed (some count) _ start stop days, rfl, rfl⟩
  · apply (dailyRule_follows hplain).imp
    rintro _ _ ⟨times, rfl, rfl⟩
    exact ⟨.daily count times, rfl, rfl⟩
  · refine .skip fun _ => (monthlyRule_follows hplain hnumber).imp ?_
    rintro _ _ ⟨target, times, rfl, rfl⟩
    exact ⟨.monthly (some count) target times, rfl, rfl⟩
  · refine .skip fun _ => (yearlyRule_follows hplain hnumber).imp ?_
    rintro _ _ ⟨target, times, rfl, rfl⟩
    exact ⟨.yearly (some count) target times, rfl, rfl⟩
  · exact .fail (hplain _ rfl) ⟨.daily count someTimes, rfl, rfl⟩

/-- The symbols behind `every`. -/
theorem everyRule_follows : everyRule.Follows front causes fun taken recurrence =>
    Spelled RecurrencePhrase.symbols RecurrencePhrase.value (.keyword .every :: taken)
      recurrence := by
  apply Follows.peek
  split
  · exact .fail (hplain _ rfl) ⟨.filtered .every someTimes, rfl, rfl⟩
  · refine .skip fun _ => (yearlyRule_follows hplain hnumber).imp ?_
    rintro _ _ ⟨target, times, rfl, rfl⟩
    exact ⟨.yearly none target times, rfl, rfl⟩
  · apply (dailyRule_follows hplain).imp
    rintro _ _ ⟨times, rfl, rfl⟩
    exact ⟨.filtered .every times, rfl, rfl⟩
  · refine .skip fun _ => (filteredRule_follows hplain _).imp ?_
    rintro _ _ ⟨times, rfl, rfl⟩
    exact ⟨.filtered .business times, rfl, rfl⟩
  · refine .skip fun _ => (filteredRule_follows hplain _).imp ?_
    rintro _ _ ⟨times, rfl, rfl⟩
    exact ⟨.filtered .weekend times, rfl, rfl⟩
  · apply Follows.bind weekdaysRule_takes (weekdaysRule_follows hplain)
    rintro _ _ _ ⟨days, rfl, rfl⟩
    apply (filteredRule_follows hplain _).imp
    rintro _ _ ⟨times, rfl, rfl⟩
    exact ⟨.filtered (.listed days) times, rfl, rfl⟩
  · refine .skip fun _ => (monthlyRule_follows hplain hnumber).imp ?_
    rintro _ _ ⟨target, times, rfl, rfl⟩
    exact ⟨.monthly none target times, rfl, rfl⟩
  · rename_i interval
    exact .ite (fun _ => .fail (hplain _ rfl) ⟨.filtered .every someTimes, rfl, rfl⟩) fun hpos =>
      .skip fun _ => countedRule_follows hplain hnumber ⟨interval, hpos⟩
  · apply (windowRule_follows hplain _).imp
    rintro _ _ ⟨start, stop, days, rfl, rfl⟩
    exact ⟨.windowed none _ start stop days, rfl, rfl⟩
  · exact .fail (hplain _ rfl) ⟨.filtered .every someTimes, rfl, rfl⟩

theorem recurrenceRule_follows : recurrenceRule.Follows front causes
    (Spelled RecurrencePhrase.symbols RecurrencePhrase.value) := by
  apply Follows.peek
  split
  · exact .skip fun _ => everyRule_follows hplain hnumber
  · refine .skip fun _ => .bind (calendarDayRule_takes _) (calendarDayRule_follows hplain _) ?_
    rintro _ _ _ ⟨day, rfl, rfl⟩
    apply Follows.bind atTimesRule_takes (atTimesRule_follows hplain)
    rintro _ _ _ ⟨times, rfl, rfl⟩
    exact .pure ⟨.once day times, by rw [List.append_nil, RecurrencePhrase.symbols], rfl⟩
  · exact .skip fun _ => positionedRule_follows hplain (.ranked _)
  · exact .skip fun _ => positionedRule_follows hplain .last
  · exact .fail (hplain _ rfl) ⟨.filtered .every someTimes, rfl, rfl⟩

end Recurrences

/-! ## Clauses -/

section Clauses

variable {α τ : Type} {symbols : τ → List Symbol} {value : τ → α}

theorem clauseRule_follows (word : Keyword) (absent : α) {body : Rule α}
    (hbody : ∀ front, body.Follows front causes (Spelled symbols value)) :
    (clauseRule word absent body).Follows front causes
      (Spelled (fun phrase : Option τ => governedSymbols word (phrase.map symbols))
        (·.elim absent value)) := by
  refine .eat (fun front => (hbody front).imp ?_) fun _ => .pure ⟨none, rfl, rfl⟩
  rintro _ _ ⟨phrase, rfl, rfl⟩
  exact ⟨some phrase, rfl, rfl⟩

/-- A clause for one value. -/
theorem clauseRule_follows_option (word : Keyword) {body : Rule α}
    (htakes : ∀ front, body.Takes front (Spelled symbols value))
    (hbody : ∀ front, body.Follows front causes (Spelled symbols value)) :
    (clauseRule word none (some <$> body)).Follows front causes
      (Spelled (fun phrase : Option τ => governedSymbols word (phrase.map symbols))
        (Option.map value)) := by
  have hsome : ∀ front, (some <$> body).Follows front causes (Spelled symbols (some ∘ value)) := by
    intro front
    apply Follows.map (htakes front) (hbody front)
    rintro _ _ ⟨phrase, rfl, rfl⟩
    exact ⟨phrase, rfl, rfl⟩
  apply (clauseRule_follows word none hsome).imp
  rintro _ _ ⟨phrase, rfl, rfl⟩
  cases phrase with
  | none => exact ⟨none, rfl, rfl⟩
  | some phrase => exact ⟨some phrase, rfl, rfl⟩

section Plain

variable (hplain : ∀ cause : GrammarCause, cause.suggestion = none → causes cause)

include hplain

theorem anchorRule_follows : anchorRule.Follows front causes
    (Spelled (fun phrase : DatePhrase => [.date phrase.text]) DatePhrase.date) := by
  obtain ⟨date⟩ := exists_datePhrase
  apply Follows.peek
  split
  · exact dateOfTextRule_follows hplain _
  · exact .fail (hplain _ rfl) ⟨date, rfl, rfl⟩

theorem zoneRule_follows :
    zoneRule.Follows front causes (Spelled (fun name => [.zone name]) id) := by
  apply Follows.peek
  split
  · exact .skip_pure ⟨_, rfl, rfl⟩
  · exact .fail (hplain _ rfl) ⟨"UTC", rfl, rfl⟩

/-- What stands behind the recurrence. -/
theorem clauses_follow (recurrence : RecurrencePhrase) : (do
      let skipped ← clauseRule .except [] skippedRule
      let lastDay ← clauseRule .«until» none (some <$> calendarDayRule .lastDay)
      let anchor ← clauseRule .starting none (some <$> anchorRule)
      let season ← clauseRule .during [] (commaList monthRule monthRule)
      let zone ← clauseRule .«in» none (some <$> zoneRule)
      return { recurrence := recurrence.value, zone, skipped, lastDay, anchor, season } :
        Rule Schedule).Follows front causes fun taken schedule =>
      Spelled SchedulePhrase.symbols SchedulePhrase.value (recurrence.symbols ++ taken)
        schedule := by
  apply Follows.bind
    (clauseRule_takes _ _ fun _ => commaList_takes (fun _ => calendarDayRule_takes _)
      fun _ => calendarDayRule_takes _)
    (clauseRule_follows _ _ fun _ => commaList_follows (fun _ => calendarDayRule_takes _)
      (fun _ => calendarDayRule_takes _) (fun _ => calendarDayRule_follows hplain _)
      fun _ => calendarDayRule_follows hplain _)
  rintro _ _ _ ⟨skipped, rfl, rfl⟩
  apply Follows.bind (clauseRule_takes_option _ fun _ => calendarDayRule_takes _)
    (clauseRule_follows_option _ (fun _ => calendarDayRule_takes _)
      fun _ => calendarDayRule_follows hplain _)
  rintro _ _ _ ⟨lastDay, rfl, rfl⟩
  apply Follows.bind (clauseRule_takes_option _ fun _ => anchorRule_takes)
    (clauseRule_follows_option _ (fun _ => anchorRule_takes) fun _ => anchorRule_follows hplain)
  rintro _ _ _ ⟨anchor, rfl, rfl⟩
  apply Follows.bind
    (clauseRule_takes _ _ fun _ => commaList_takes_items (fun _ => monthRule_takes)
      fun _ => monthRule_takes)
    (clauseRule_follows _ _ fun _ => commaList_follows_items (fun _ => monthRule_takes)
      (fun _ => monthRule_takes) (fun _ => monthRule_follows hplain)
      fun _ => monthRule_follows hplain)
  rintro _ _ _ ⟨season, rfl, rfl⟩
  apply Follows.bind (clauseRule_takes_option _ fun _ => zoneRule_takes)
    (clauseRule_follows_option _ (fun _ => zoneRule_takes) fun _ => zoneRule_follows hplain)
  rintro _ _ _ ⟨zone, rfl, rfl⟩
  refine .pure ⟨⟨recurrence, skipped, lastDay, anchor, season, zone⟩, ?_, ?_⟩
  · rw [List.append_nil]
    rfl
  · rw [Option.map_id]
    rfl

end Plain

theorem scheduleRule_follows
    (hplain : ∀ cause : GrammarCause, cause.suggestion = none → causes cause)
    (hnumber : ∀ place value, causes (.plainNumber place value)) :
    scheduleRule.Follows front causes (Spelled SchedulePhrase.symbols SchedulePhrase.value) := by
  apply Follows.bind recurrenceRule_takes (recurrenceRule_follows hplain hnumber)
  rintro _ _ _ ⟨recurrence, rfl, rfl⟩
  exact clauses_follow hplain recurrence

end Clauses

end Rules

/-- An error interrupts the tokens at a place before which they begin a phrase. -/
theorem interrupts_of_scheduleOfTokens {tokens : List Token} {error : GrammarError}
    (herror : scheduleOfTokens tokens = .error error) :
    error.Interrupts tokens (fun _ => True)
      (Spelled SchedulePhrase.symbols SchedulePhrase.value) := by
  have hrule : scheduleRule.Follows (tokens.head?.map Token.symbol) (fun _ => True)
      (Spelled SchedulePhrase.symbols SchedulePhrase.value) :=
    scheduleRule_follows (fun _ _ => trivial) fun _ _ => trivial
  rw [scheduleOfTokens] at herror
  split at herror
  · rename_i hempty
    obtain rfl := List.isEmpty_iff.mp hempty
    obtain rfl := Except.error.inj herror
    exact .front rfl trivial hrule.possible
  · split at herror
    · rename_i found hfound
      obtain rfl := Except.error.inj herror
      exact hrule.interrupts tokens found rfl hfound
    · cases herror
    · rename_i schedule token rest hread
      obtain rfl := Except.error.inj herror
      obtain ⟨taken, htaken, hphrase⟩ := scheduleRule_takes.sound tokens schedule _ rfl hread
      obtain ⟨before, rfl⟩ := hrule.suffix tokens schedule _ rfl hread
      rw [List.map_append] at htaken
      obtain rfl := List.append_cancel_right htaken
      have hstands : GrammarError.StandsAt ⟨.leftover, some token.span⟩ (token :: rest) :=
        ⟨token, List.mem_cons_self, rfl⟩
      refine ⟨trivial, before, token :: rest, rfl, hstands, [], schedule, ?_⟩
      rwa [List.append_nil]

end Cadence
