import Cadence.Proofs.Expression.Phrases
import Cadence.Proofs.Expression.Rules

/-!
# Phrases are read

Every rule of the grammar takes the symbols of a phrase from the front and
returns the value of the phrase, whatever stands behind that cannot go on with
it.
-/

namespace Cadence

open Rule

/-! ## Parts -/

section Parts

variable {words : List Keyword} {after : List Symbol}

theorem timeRule_reads (time : TimeOfDay) : timeRule.Reads (.time time :: after) time after :=
  Reads.peek.bind .skip_pure

theorem weekdayRule_reads (place : WeekdayPlace) (day : Weekday) :
    (weekdayRule place).Reads (.weekday day :: after) day after :=
  Reads.peek.bind .skip_pure

theorem monthRule_reads (month : Month) : monthRule.Reads (.month month :: after) month after :=
  Reads.peek.bind .skip_pure

/-- A list of items is read up to what stands behind it. -/
theorem commaList_reads {α τ : Type} {first item : Rule α} {symbols : τ → List Symbol}
    {value : τ → α} (list : CommaPhrase τ) (hafter : GoesOnWith words after) (hto : .«to» ∉ words)
    (hfirst : ∀ phrase, ReadsEntry first (symbols phrase) (value phrase))
    (hitem : ∀ phrase, ReadsEntry item (symbols phrase) (value phrase)) :
    (commaList first item).Reads (list.symbols symbols ++ after) (list.items.map value) after :=
  .commaList (List.cons_ne_nil _ _) hafter hto hfirst hitem

/-- A list of items that are symbols of their own. -/
theorem commaList_reads_symbols {α : Type} {first item : Rule α} {symbol : α → Symbol}
    (list : CommaPhrase α) (hafter : GoesOnWith words after) (hto : .«to» ∉ words)
    (hfirst : ∀ value rest, first.Reads (symbol value :: rest) value rest)
    (hitem : ∀ value rest, item.Reads (symbol value :: rest) value rest) :
    (commaList first item).Reads (list.symbols (fun value => [symbol value]) ++ after) list.items
      after := by
  have hlist : (commaList first item).Reads (list.symbols (fun value => [symbol value]) ++ after)
      (list.items.map id) after :=
    commaList_reads list hafter hto (fun value rest _ => hfirst value rest)
      fun value rest _ => hitem value rest
  rwa [List.map_id] at hlist

theorem atTimesRule_reads (times : CommaPhrase TimeOfDay) (hafter : GoesOnWith words after)
    (hto : .«to» ∉ words) : atTimesRule.Reads (times.timesSymbols ++ after) times.items after :=
  Reads.expect.bind (commaList_reads_symbols times hafter hto (fun time _ => timeRule_reads time)
    fun time _ => timeRule_reads time)

theorem weekdaysRule_reads (days : CommaPhrase Weekday) (hafter : GoesOnWith words after)
    (hto : .«to» ∉ words) :
    weekdaysRule.Reads (days.weekdaysSymbols ++ after) days.items after :=
  commaList_reads_symbols days hafter hto (fun day _ => weekdayRule_reads _ day)
    fun day _ => weekdayRule_reads _ day

theorem dateOfTextRule_reads (phrase : DatePhrase) {symbol : Symbol} :
    (dateOfTextRule phrase.text).Reads (symbol :: after) phrase.date after := by
  rw [dateOfTextRule]
  rw [phrase.named]
  exact .skip_pure

theorem dayOfMonthRule_reads (phrase : MonthDayPhrase) (place : DayPlace) :
    (dayOfMonthRule phrase.month place).Reads (phrase.spelling.symbol phrase.day :: after)
      phrase.day after := by
  have hday := phrase.inMonth
  have hchecked : ¬ (phrase.day = 0 ∨ phrase.month.maxDays < phrase.day) := by omega
  cases phrase.spelling with
  | plain | ordinal =>
    apply Reads.peek.bind
    dsimp only [List.head?_cons, DaySpelling.symbol]
    rw [if_neg hchecked]
    exact .skip_pure

theorem calendarDayRule_reads (phrase : DayPhrase) (place : DayPlace) :
    (calendarDayRule place).Reads (phrase.symbols ++ after) phrase.value after := by
  cases phrase with
  | fixed date => exact Reads.peek.bind ((dateOfTextRule_reads date).bind .pure)
  | yearly day =>
    exact Reads.peek.bind (Reads.skip.bind ((dayOfMonthRule_reads day place).bind .pure))

theorem ordinalDayRule_reads (phrase : OrdinalPhrase) (place : OrdinalPlace) :
    (ordinalDayRule place).Reads (.ordinal phrase.day :: after) phrase.day after := by
  apply Reads.peek.bind
  dsimp only [List.head?_cons]
  rw [if_pos phrase.inMonth]
  exact .skip_pure

/-- Days of a month are read up to anything but a `to`. -/
theorem monthDaysRule_reads (phrase : MonthDaysPhrase) :
    ReadsEntry monthDaysRule phrase.symbols phrase.value := by
  intro after hto
  cases phrase with
  | single day =>
    refine Reads.here fun span => (ordinalDayRule_reads day _).bind ?_
    exact (Reads.eat_absent hto).bind .pure
  | range start stop ordered =>
    refine Reads.here fun startSpan => (ordinalDayRule_reads start _).bind ?_
    refine Reads.eat_present.bind (Reads.here fun stopSpan => ?_)
    refine (ordinalDayRule_reads stop _).bind ?_
    rw [if_pos ordered]
    exact .pure

theorem dayFilterRule_reads (phrase : FilterPhrase) (hafter : GoesOnWith words after)
    (hto : .«to» ∉ words) :
    dayFilterRule.Reads (phrase.symbols ++ after) phrase.value after := by
  cases phrase with
  | every => exact Reads.peek.bind .skip_pure
  | business => exact Reads.peek.bind .skip_pure
  | weekend => exact Reads.peek.bind .skip_pure
  | listed days => exact Reads.peek.bind ((weekdaysRule_reads days hafter hto).bind .pure)

end Parts

/-! ## Targets -/

section Targets

variable {after : List Symbol}

theorem nearestRule_reads (direction : Option Direction) (day : OrdinalPhrase) :
    nearestRule.Reads ((MonthTargetPhrase.nearestBusinessDay direction day).symbols ++ after)
      (.nearestBusinessDay day.day direction) after := by
  have hrest : ∀ direction : Option Direction,
      (do
        expect .nearest
        expect .weekday
        expect .«to»
        return .nearestBusinessDay (← ordinalDayRule .ofMonth) direction : Rule MonthTarget).Reads
        ([.keyword .nearest, .keyword .weekday, .keyword .«to», .ordinal day.day] ++ after)
        (.nearestBusinessDay day.day direction) after := fun direction =>
    Reads.expect.bind (Reads.expect.bind (Reads.expect.bind
      ((ordinalDayRule_reads day _).bind .pure)))
  rcases direction with _ | (_ | _)
  · exact Reads.peek.bind (hrest none)
  · exact Reads.peek.bind (Reads.skip.bind (hrest (some .next)))
  · exact Reads.peek.bind (Reads.skip.bind (hrest (some .previous)))

theorem monthTargetRule_reads (phrase : MonthTargetPhrase) (hafter : GoesOnWith [.«at»] after) :
    monthTargetRule.Reads (phrase.symbols ++ after) phrase.value after := by
  cases phrase with
  | days entries =>
    have hlist : (commaList monthDaysRule monthDaysRule).Reads
        (entries.symbols MonthDaysPhrase.symbols ++ after)
        (entries.items.map MonthDaysPhrase.value) after :=
      commaList_reads entries hafter (by decide) monthDaysRule_reads monthDaysRule_reads
    obtain ⟨first, following⟩ := entries
    cases first with
    | single day => exact Reads.peek.bind (hlist.bind .pure)
    | range start stop ordered => exact Reads.peek.bind (hlist.bind .pure)
  | lastDay => exact Reads.peek.bind (Reads.skip.bind (Reads.peek.bind .skip_pure))
  | lastBusinessDay => exact Reads.peek.bind (Reads.skip.bind (Reads.peek.bind .skip_pure))
  | nearestBusinessDay direction day =>
    have hnearest : nearestRule.Reads
        ((MonthTargetPhrase.nearestBusinessDay direction day).symbols ++ after)
        (.nearestBusinessDay day.day direction) after := nearestRule_reads direction day
    rcases direction with _ | (_ | _)
    · exact Reads.peek.bind hnearest
    · exact Reads.peek.bind hnearest
    · exact Reads.peek.bind hnearest
  | positioned place weekday =>
    cases place with
    | last => exact Reads.peek.bind (Reads.skip.bind (Reads.peek.bind .skip_pure))
    | ranked rank =>
      exact Reads.peek.bind (Reads.skip.bind ((weekdayRule_reads _ weekday).bind .pure))

theorem ofMonthRule_reads (month : Month) :
    ofMonthRule.Reads (.keyword .«of» :: .month month :: after) month after :=
  Reads.expect.bind (monthRule_reads month)

/-- What stands behind `on` in a yearly repetition, and what stands behind that. -/
theorem yearlyRule_reads (interval : Nat) (phrase : YearTargetPhrase)
    (times : CommaPhrase TimeOfDay) {words : List Keyword} (hafter : GoesOnWith words after)
    (hto : .«to» ∉ words) :
    (yearlyRule interval).Reads
      (.keyword .«on» :: (phrase.symbols ++ (times.timesSymbols ++ after)))
      (.yearly interval phrase.value times.items) after := by
  have hrest : (do return Recurrence.yearly interval phrase.value (← atTimesRule) :
      Rule Recurrence).Reads (times.timesSymbols ++ after)
        (.yearly interval phrase.value times.items) after :=
    (atTimesRule_reads times hafter hto).bind .pure
  apply Reads.expect.bind
  cases phrase with
  | date day =>
    exact Reads.peek.bind (Reads.skip.bind ((dayOfMonthRule_reads day _).bind hrest))
  | positioned place weekday month =>
    refine Reads.peek.bind (Reads.skip.bind (Reads.bind ?_ hrest))
    cases place with
    | last =>
      exact Reads.peek.bind (Reads.skip.bind (Reads.peek.bind (Reads.skip.bind
        ((ofMonthRule_reads month).bind .pure))))
    | ranked rank =>
      exact Reads.peek.bind (Reads.skip.bind ((weekdayRule_reads _ weekday).bind
        ((ofMonthRule_reads month).bind .pure)))
  | dayOfMonth day month inMonth =>
    refine Reads.peek.bind (Reads.skip.bind (Reads.bind ?_ hrest))
    have hday : 1 ≤ day ∧ day ≤ 31 := ⟨inMonth.1, inMonth.2.trans month.maxDays_le⟩
    refine Reads.peek.bind (Reads.here fun span => (ordinalDayRule_reads ⟨day, hday⟩ _).bind ?_)
    apply (ofMonthRule_reads month).bind
    rw [if_pos inMonth.2]
    exact .pure
  | lastBusinessDay month =>
    refine Reads.peek.bind (Reads.skip.bind (Reads.bind ?_ hrest))
    exact Reads.peek.bind (Reads.skip.bind (Reads.peek.bind (Reads.skip.bind
      ((ofMonthRule_reads month).bind .pure))))

end Targets

/-! ## Recurrences -/

/-- The keywords of the clauses, in their order. -/
def clauseWords : List Keyword := [.except, .«until», .starting, .during, .«in»]

section Recurrences

variable (interval : Nat) {after : List Symbol}

theorem windowRule_reads (unit : StepUnit) (start stop : TimeOfDay) (days : Option FilterPhrase)
    (hafter : GoesOnWith clauseWords after) :
    (windowRule interval unit).Reads (.unit unit :: .keyword .«from» :: .time start ::
      .keyword .«to» :: .time stop ::
        (governedSymbols .«on» (days.map FilterPhrase.symbols) ++ after))
      (.window interval unit start stop (days.map FilterPhrase.value)) after := by
  refine Reads.skip.bind (Reads.expect.bind ((timeRule_reads start).bind ?_))
  refine Reads.expect.bind ((timeRule_reads stop).bind ?_)
  cases days with
  | none => exact (Reads.eat_absent (hafter.head?_ne_keyword (by decide))).bind .pure
  | some days =>
    exact Reads.eat_present.bind ((dayFilterRule_reads days hafter (by decide)).bind .pure)

/-- A count behind `every` is the interval of what follows it. -/
theorem everyRule_reads_count (count : CountPhrase) {recurrence : Recurrence}
    {before : List Symbol} (hcounted : (countedRule count.count).Reads before recurrence after) :
    everyRule.Reads (.number count.count :: before) recurrence after := by
  apply Reads.peek.bind
  dsimp only [List.head?_cons]
  rw [if_neg count.pos]
  exact Reads.skip.bind hcounted

theorem monthIntervalRule_reads (count : Option CountPhrase) :
    monthIntervalRule.Reads (countSymbols count ++ .keyword .month :: after)
      (countedInterval count) (.keyword .month :: after) := by
  cases count with
  | none => exact Reads.peek.bind .pure
  | some count =>
    change monthIntervalRule.Reads (.number count.count :: .keyword .month :: after) _ _
    apply Reads.peek.bind
    dsimp only [List.head?_cons]
    rw [if_neg count.pos]
    exact .skip_pure

theorem positionedRule_reads (position : Position) (weekday : Weekday)
    (count : Option CountPhrase) (times : CommaPhrase TimeOfDay)
    (hafter : GoesOnWith clauseWords after) :
    (positionedRule position).Reads (.weekday weekday :: .keyword .«of» :: .keyword .every ::
      (countSymbols count ++ .keyword .month :: (times.timesSymbols ++ after)))
      (.ordinal (countedInterval count) position weekday times.items) after :=
  (weekdayRule_reads _ weekday).bind (Reads.expect.bind (Reads.expect.bind
    ((monthIntervalRule_reads count).bind (Reads.expect.bind
      ((atTimesRule_reads times hafter (by decide)).bind .pure)))))

theorem monthlyRule_reads (target : MonthTargetPhrase) (times : CommaPhrase TimeOfDay)
    (hafter : GoesOnWith clauseWords after) :
    (monthlyRule interval).Reads (.keyword .«on» :: .keyword .«the» :: (target.symbols ++
      (times.timesSymbols ++ after))) (.monthly interval target.value times.items) after := by
  have hat : GoesOnWith [.«at»] (times.timesSymbols ++ after) := .cons (by decide)
  exact Reads.expect.bind (Reads.expect.bind ((monthTargetRule_reads target hat).bind
    ((atTimesRule_reads times hafter (by decide)).bind .pure)))

/-- What stands behind `every` in a repetition over days. -/
theorem everyRule_reads_filtered (days : FilterPhrase) (times : CommaPhrase TimeOfDay)
    (hafter : GoesOnWith clauseWords after) :
    everyRule.Reads (days.symbols ++ (times.timesSymbols ++ after))
      (.daily 1 days.value times.items) after := by
  have htimes := atTimesRule_reads times hafter (by decide)
  cases days with
  | every => exact Reads.peek.bind (Reads.expect.bind (htimes.bind .pure))
  | business => exact Reads.peek.bind (Reads.skip.bind (htimes.bind .pure))
  | weekend => exact Reads.peek.bind (Reads.skip.bind (htimes.bind .pure))
  | listed days =>
    have hat : GoesOnWith [.«at»] (times.timesSymbols ++ after) := .cons (by decide)
    exact Reads.peek.bind ((weekdaysRule_reads days hat (by decide)).bind (htimes.bind .pure))

theorem recurrenceRule_reads (phrase : RecurrencePhrase) (hafter : GoesOnWith clauseWords after) :
    recurrenceRule.Reads (phrase.symbols ++ after) phrase.value after := by
  cases phrase with
  | filtered days times =>
    have hdays := everyRule_reads_filtered days times hafter
    rw [← List.append_assoc] at hdays
    exact Reads.peek.bind (Reads.skip.bind hdays)
  | windowed count unit start stop days =>
    have hwindow := fun interval => windowRule_reads interval unit start stop days hafter
    rw [RecurrencePhrase.symbols, List.cons_append, List.append_assoc]
    cases count with
    | none => exact Reads.peek.bind (Reads.skip.bind (Reads.peek.bind (hwindow _)))
    | some count =>
      refine Reads.peek.bind (Reads.skip.bind (everyRule_reads_count count ?_))
      exact Reads.peek.bind (hwindow _)
  | daily count times =>
    have htimes := atTimesRule_reads times hafter (by decide)
    refine Reads.peek.bind (Reads.skip.bind (everyRule_reads_count count ?_))
    exact Reads.peek.bind (Reads.expect.bind (htimes.bind .pure))
  | weekly count days times =>
    have hat : GoesOnWith [.«at»] (times.timesSymbols ++ after) := .cons (by decide)
    have hdays := weekdaysRule_reads days hat (by decide)
    have htimes := atTimesRule_reads times hafter (by decide)
    rw [← List.append_assoc] at hdays
    refine Reads.peek.bind (Reads.skip.bind (everyRule_reads_count count ?_))
    exact Reads.peek.bind (Reads.skip.bind (Reads.expect.bind (hdays.bind (htimes.bind .pure))))
  | monthly count target times =>
    have hmonthly := fun interval => monthlyRule_reads interval target times hafter
    rw [RecurrencePhrase.symbols, List.cons_append, List.append_assoc, List.cons_append,
      List.cons_append, List.cons_append, List.append_assoc]
    cases count with
    | none =>
      exact Reads.peek.bind (Reads.skip.bind (Reads.peek.bind (Reads.skip.bind (hmonthly _))))
    | some count =>
      refine Reads.peek.bind (Reads.skip.bind (everyRule_reads_count count ?_))
      exact Reads.peek.bind (Reads.skip.bind (hmonthly _))
  | yearly count target times =>
    have hyearly := fun interval => yearlyRule_reads interval target times hafter (by decide)
    rw [RecurrencePhrase.symbols, List.cons_append, List.append_assoc, List.cons_append,
      List.cons_append, List.append_assoc]
    cases count with
    | none =>
      exact Reads.peek.bind (Reads.skip.bind (Reads.peek.bind (Reads.skip.bind (hyearly _))))
    | some count =>
      refine Reads.peek.bind (Reads.skip.bind (everyRule_reads_count count ?_))
      exact Reads.peek.bind (Reads.skip.bind (hyearly _))
  | once day times =>
    have htimes := atTimesRule_reads times hafter (by decide)
    rw [RecurrencePhrase.symbols, List.cons_append, List.append_assoc]
    exact Reads.peek.bind (Reads.skip.bind ((calendarDayRule_reads day _).bind
      (htimes.bind .pure)))
  | positioned place weekday count times =>
    have hrest := fun position => positionedRule_reads position weekday count times hafter
    simp only [RecurrencePhrase.symbols, List.cons_append, List.append_assoc]
    cases place with
    | last => exact Reads.peek.bind (Reads.skip.bind (hrest _))
    | ranked rank => exact Reads.peek.bind (Reads.skip.bind (hrest _))

end Recurrences

/-! ## Clauses -/

section Clauses

variable {words : List Keyword} {after : List Symbol}

/-- Behind a clause stands what may stand there, and before it the clause. -/
theorem GoesOnWith.governed (hafter : GoesOnWith words after) (word : Keyword)
    (body : Option (List Symbol)) :
    GoesOnWith (word :: words) (governedSymbols word body ++ after) := by
  cases body with
  | none =>
    intro symbol hsymbol
    obtain ⟨other, hother, hsame⟩ := hafter symbol hsymbol
    exact ⟨other, List.mem_cons_of_mem _ hother, hsame⟩
  | some symbols => exact .cons List.mem_cons_self

/-- A clause is read if its keyword cannot stand behind it. -/
theorem clauseRule_reads {α τ : Type} {word : Keyword} {body : Rule α}
    {symbols : τ → List Symbol} {value : τ → α} (absent : α) (phrase : Option τ)
    (hafter : GoesOnWith words after) (hword : word ∉ words)
    (hbody : ∀ phrase, body.Reads (symbols phrase ++ after) (value phrase) after) :
    (clauseRule word absent body).Reads (governedSymbols word (phrase.map symbols) ++ after)
      (phrase.elim absent value) after := by
  cases phrase with
  | none => exact (Reads.eat_absent (hafter.head?_ne_keyword hword)).bind .pure
  | some phrase =>
    apply Reads.eat_present.bind
    rw [if_pos rfl]
    exact hbody phrase

/-- A clause for one value. -/
theorem clauseRule_reads_option {α τ : Type} {word : Keyword} {body : Rule α}
    {symbols : τ → List Symbol} {value : τ → α} (phrase : Option τ)
    (hafter : GoesOnWith words after) (hword : word ∉ words)
    (hbody : ∀ phrase, body.Reads (symbols phrase ++ after) (value phrase) after) :
    (clauseRule word none (some <$> body)).Reads
      (governedSymbols word (phrase.map symbols) ++ after) (phrase.map value) after := by
  have hclause := clauseRule_reads none phrase hafter hword
    fun phrase => (hbody phrase).map (f := some)
  cases phrase with
  | none => exact hclause
  | some phrase => exact hclause

theorem anchorRule_reads (phrase : DatePhrase) :
    anchorRule.Reads (.date phrase.text :: after) phrase.date after :=
  Reads.peek.bind (dateOfTextRule_reads phrase)

theorem zoneRule_reads (name : String) : zoneRule.Reads (.zone name :: after) name after :=
  Reads.peek.bind .skip_pure

end Clauses

namespace SchedulePhrase

variable (phrase : SchedulePhrase)

/-! Each clause ends where a later one starts. -/

theorem goesOnWith_zoneClause : GoesOnWith [.«in»] phrase.zoneClause := by
  have hend : GoesOnWith [] [] := nofun
  have hzone := hend.governed .«in» (phrase.zone.map fun name => [.zone name])
  rwa [List.append_nil] at hzone

theorem goesOnWith_seasonClauses : GoesOnWith [.during, .«in»] phrase.seasonClauses :=
  phrase.goesOnWith_zoneClause.governed .during _

theorem goesOnWith_anchorClauses :
    GoesOnWith [.starting, .during, .«in»] phrase.anchorClauses :=
  phrase.goesOnWith_seasonClauses.governed .starting _

theorem goesOnWith_lastDayClauses :
    GoesOnWith [.«until», .starting, .during, .«in»] phrase.lastDayClauses :=
  phrase.goesOnWith_anchorClauses.governed .«until» _

theorem goesOnWith_clauses : GoesOnWith clauseWords phrase.clauses :=
  phrase.goesOnWith_lastDayClauses.governed .except _

end SchedulePhrase

/-- The symbols of a schedule are read as its value. -/
theorem scheduleRule_reads (phrase : SchedulePhrase) :
    scheduleRule.Reads phrase.symbols phrase.value [] := by
  have hday : ∀ day : DayPhrase,
      ReadsEntry (calendarDayRule .skipped) day.symbols day.value := fun day _ _ =>
    calendarDayRule_reads day _
  have hend : GoesOnWith [] [] := nofun
  have hname : (clauseRule .«in» none (some <$> zoneRule)).Reads (phrase.zoneClause ++ [])
      (phrase.zone.map id) [] :=
    clauseRule_reads_option phrase.zone hend List.not_mem_nil fun name => zoneRule_reads name
  rw [List.append_nil, Option.map_id] at hname
  apply (recurrenceRule_reads phrase.recurrence phrase.goesOnWith_clauses).bind
  refine (clauseRule_reads [] phrase.skipped phrase.goesOnWith_lastDayClauses (by decide)
    fun days => commaList_reads days phrase.goesOnWith_lastDayClauses (by decide) hday hday).bind ?_
  refine (clauseRule_reads_option phrase.lastDay phrase.goesOnWith_anchorClauses (by decide)
    fun day => calendarDayRule_reads day _).bind ?_
  refine (clauseRule_reads_option phrase.anchor phrase.goesOnWith_seasonClauses (by decide)
    fun date => anchorRule_reads date).bind ?_
  refine (clauseRule_reads [] phrase.season phrase.goesOnWith_zoneClause (by decide) fun months =>
    commaList_reads_symbols months phrase.goesOnWith_zoneClause (by decide)
      (fun month _ => monthRule_reads month) fun month _ => monthRule_reads month).bind ?_
  exact hname.bind .pure

/-- Tokens with the symbols of a schedule are read as its value, wherever they
stand. -/
theorem scheduleOfTokens_of_phrase (phrase : SchedulePhrase) {tokens : List Token}
    (htokens : tokens.map Token.symbol = phrase.symbols) :
    scheduleOfTokens tokens = .ok phrase.value := by
  obtain ⟨rest, hread, hrest⟩ := (scheduleRule_reads phrase).complete tokens htokens
  obtain rfl := List.map_eq_nil_iff.mp hrest
  cases tokens with
  | nil => exact nomatch hread
  | cons token tokens =>
    have hsome : ¬ (token :: tokens).isEmpty = true := nofun
    rw [scheduleOfTokens, if_neg hsome, hread]

end Cadence
