import Cadence.Proofs.Expression.PhraseReading

/-!
# Phrases are told apart by their symbols

No sequence of symbols has two derivations.  Phrases with the same symbols are
read alike, so they have the same value, and what a value does not tell, which is
the spelling of its parts, is told by the symbols.
-/

namespace Cadence

open Rule

/-- A rule reads one value from given symbols. -/
theorem Rule.Reads.unique {α : Type} {rule : Rule α} {before after others : List Symbol}
    {value other : α} (hvalue : Reads rule before value after)
    (hother : Reads rule before other others) : value = other ∧ after = others := by
  have hsymbols : (before.map fun symbol => (⟨symbol, .empty 0⟩ : Token)).map Token.symbol =
      before := by
    rw [List.map_map]
    exact List.map_id _
  obtain ⟨rest, hread, rfl⟩ := hvalue.complete _ hsymbols
  obtain ⟨last, hagain, rfl⟩ := hother.complete _ hsymbols
  obtain ⟨rfl, rfl⟩ := Prod.mk.inj (Except.ok.inj (hread.symm.trans hagain))
  exact ⟨rfl, rfl⟩

/-! ## Parts whose value tells everything -/

theorem CommaPhrase.items_injective {α : Type} : (@items α).Injective := by
  rintro ⟨first, following⟩ ⟨second, later⟩ hsame
  obtain ⟨rfl, rfl⟩ := List.cons.inj hsame
  rfl

theorem FilterPhrase.value_injective : value.Injective := by
  intro first second hsame
  cases first <;> cases second
  case listed.listed =>
    obtain rfl := CommaPhrase.items_injective (DayFilter.listed.inj hsame)
    rfl
  all_goals first | rfl | cases hsame

theorem MonthDaysPhrase.value_injective : value.Injective := by
  intro first second hsame
  cases first <;> cases second
  case single.single =>
    obtain rfl := OrdinalPhrase.ext (MonthDays.single.inj hsame)
    rfl
  case range.range =>
    obtain ⟨hstart, hstop⟩ := MonthDays.range.inj hsame
    obtain rfl := OrdinalPhrase.ext hstart
    obtain rfl := OrdinalPhrase.ext hstop
    rfl
  all_goals cases hsame

/-! ## Parts told apart together with what stands behind them -/

section Parts

variable {τ : Type} {symbols : τ → List Symbol} {Behind : List Symbol → Prop}
  {words : List Keyword}

/-- The symbols of a phrase and of what stands behind it determine both. -/
structure Unambiguous (symbols : τ → List Symbol) (Behind : List Symbol → Prop) : Prop where
  inj : ∀ {first second rest others}, Behind rest → Behind others →
    symbols first ++ rest = symbols second ++ others → first = second ∧ rest = others

/-- A symbol for each item tells items apart. -/
theorem unambiguous_of_symbol {symbol : τ → Symbol} (hsymbol : symbol.Injective) :
    Unambiguous (fun item => [symbol item]) Behind := by
  refine ⟨fun {first second rest others} _ _ hsame => ?_⟩
  obtain ⟨hhead, htail⟩ := List.cons.inj hsame
  exact ⟨hsymbol hhead, htail⟩

theorem unambiguous_followingEntries (hitem : Unambiguous symbols fun _ => True) :
    Unambiguous (fun items : List τ => followingEntries (items.map symbols))
      (GoesOnWith words) := by
  refine ⟨fun {first second rest others} hrest hothers hsame => ?_⟩
  induction first generalizing second with
  | nil =>
    cases second with
    | nil => exact ⟨rfl, hsame⟩
    | cons item items => exact absurd (congrArg List.head? hsame) hrest.head?_ne_comma
  | cons item items ih =>
    cases second with
    | nil => exact absurd (congrArg List.head? hsame).symm hothers.head?_ne_comma
    | cons other second =>
      simp only [followingEntries, List.map_cons, List.flatMap_cons, List.cons_append,
        List.append_assoc, List.cons.injEq, true_and] at hsame
      obtain ⟨rfl, hbehind⟩ := hitem.inj trivial trivial hsame
      obtain ⟨rfl, rfl⟩ := ih hbehind
      exact ⟨rfl, rfl⟩

theorem unambiguous_commaPhrase (hitem : Unambiguous symbols fun _ => True) :
    Unambiguous (fun list : CommaPhrase τ => list.symbols symbols) (GoesOnWith words) := by
  refine ⟨fun {first second rest others} hrest hothers hsame => ?_⟩
  obtain ⟨first, following⟩ := first
  obtain ⟨second, later⟩ := second
  simp only [CommaPhrase.symbols, CommaPhrase.items, List.map_cons, commaSeparated,
    List.append_assoc] at hsame
  obtain ⟨rfl, hbehind⟩ := hitem.inj trivial trivial hsame
  obtain ⟨rfl, rfl⟩ := (unambiguous_followingEntries hitem).inj hrest hothers hbehind
  exact ⟨rfl, rfl⟩

/-- A keyword that cannot stand behind a clause tells whether the clause is there. -/
theorem unambiguous_governed {word : Keyword} (hphrase : Unambiguous symbols (GoesOnWith words))
    (hword : word ∉ words) :
    Unambiguous (fun phrase : Option τ => governedSymbols word (phrase.map symbols))
      (GoesOnWith words) := by
  refine ⟨fun {first second rest others} hrest hothers hsame => ?_⟩
  cases first with
  | none =>
    cases second with
    | none => exact ⟨rfl, hsame⟩
    | some second => exact absurd (congrArg List.head? hsame) (hrest.head?_ne_keyword hword)
  | some first =>
    cases second with
    | none => exact absurd (congrArg List.head? hsame).symm (hothers.head?_ne_keyword hword)
    | some second =>
      obtain ⟨rfl, rfl⟩ := hphrase.inj hrest hothers (List.cons.inj hsame).2
      exact ⟨rfl, rfl⟩

/-- A symbol that is no number tells whether a count stands before it. -/
theorem countSymbols_cons_inj {first second : Option CountPhrase} {head : Symbol}
    {rest others : List Symbol}
    (hsame : countSymbols first ++ head :: rest = countSymbols second ++ head :: others)
    (hhead : ∀ value, head ≠ .number value) : first = second ∧ rest = others := by
  cases first with
  | none =>
    cases second with
    | none => exact ⟨rfl, (List.cons.inj hsame).2⟩
    | some second => exact absurd (List.cons.inj hsame).1 (hhead _)
  | some first =>
    cases second with
    | none => exact absurd (List.cons.inj hsame).1.symm (hhead _)
    | some second =>
      obtain ⟨hcount, hbehind⟩ := List.cons.inj hsame
      obtain rfl := CountPhrase.ext (Symbol.number.inj hcount)
      exact ⟨rfl, (List.cons.inj hbehind).2⟩

/-- A text names one date. -/
theorem unambiguous_date : Unambiguous (fun phrase : DatePhrase => [.date phrase.text]) Behind := by
  apply unambiguous_of_symbol
  rintro ⟨text, date, hdate⟩ ⟨_, other, hother⟩ hsame
  obtain rfl := Symbol.date.inj hsame
  obtain rfl := Option.some.inj (hdate.symm.trans hother)
  rfl

theorem unambiguous_monthDay : Unambiguous MonthDayPhrase.symbols Behind := by
  refine ⟨fun {first second rest others} _ _ hsame => ?_⟩
  obtain ⟨month, spelling, day, hday⟩ := first
  obtain ⟨other, otherSpelling, otherDay, hother⟩ := second
  obtain ⟨hmonth, hsame⟩ := List.cons.inj hsame
  obtain ⟨hday, rfl⟩ := List.cons.inj hsame
  obtain rfl := Symbol.month.inj hmonth
  cases spelling <;> cases otherSpelling <;> cases hday <;> exact ⟨rfl, rfl⟩

theorem unambiguous_day : Unambiguous DayPhrase.symbols Behind := by
  refine ⟨fun {first second rest others} hrest hothers hsame => ?_⟩
  cases first with
  | yearly day =>
    cases second with
    | yearly other =>
      obtain ⟨rfl, rfl⟩ := unambiguous_monthDay.inj hrest hothers hsame
      exact ⟨rfl, rfl⟩
    | fixed date => cases hsame
  | fixed date =>
    cases second with
    | yearly day => cases hsame
    | fixed other =>
      obtain ⟨rfl, rfl⟩ := unambiguous_date.inj hrest hothers hsame
      exact ⟨rfl, rfl⟩

theorem PlacePhrase.symbol_injective : PlacePhrase.symbol.Injective := by
  intro first second hsame
  cases first <;> cases second <;> cases hsame <;> rfl

theorem unambiguous_yearTarget : Unambiguous YearTargetPhrase.symbols Behind := by
  refine ⟨fun {first second rest others} hrest hothers hsame => ?_⟩
  cases first <;> cases second
  case date.date day other =>
    obtain ⟨rfl, rfl⟩ := unambiguous_monthDay.inj hrest hothers hsame
    exact ⟨rfl, rfl⟩
  case positioned.positioned place weekday month other otherDay otherMonth =>
    simp only [YearTargetPhrase.symbols, List.cons_append, List.nil_append, List.cons.injEq,
      Symbol.weekday.injEq, Symbol.month.injEq, true_and] at hsame
    obtain ⟨hplace, rfl, rfl, rfl⟩ := hsame
    obtain rfl := PlacePhrase.symbol_injective hplace
    exact ⟨rfl, rfl⟩
  case dayOfMonth.dayOfMonth | lastBusinessDay.lastBusinessDay =>
    cases hsame
    exact ⟨rfl, rfl⟩
  all_goals simp [YearTargetPhrase.symbols, MonthDayPhrase.symbols] at hsame

end Parts

/-! ## Recurrences -/

/-- The value of a target tells all but whether a place is a keyword. -/
theorem MonthTargetPhrase.eq_of_symbols {first second : MonthTargetPhrase}
    {rest others : List Symbol} (hvalue : first.value = second.value)
    (hsame : first.symbols ++ rest = second.symbols ++ others) : first = second := by
  cases first <;> cases second
  case days.days entries others =>
    have hentries := List.map_injective_iff.mpr MonthDaysPhrase.value_injective
      (MonthTarget.days.inj hvalue)
    obtain rfl := CommaPhrase.items_injective hentries
    rfl
  case lastDay.lastDay | lastBusinessDay.lastBusinessDay => rfl
  case nearestBusinessDay.nearestBusinessDay direction day other otherDay =>
    obtain ⟨hday, rfl⟩ := MonthTarget.nearestBusinessDay.inj hvalue
    obtain rfl := OrdinalPhrase.ext hday
    rfl
  case positioned.positioned place weekday other otherDay =>
    obtain ⟨_, rfl⟩ := MonthTarget.positioned.inj hvalue
    obtain rfl := PlacePhrase.symbol_injective (List.cons.inj hsame).1
    rfl
  all_goals cases hvalue

/-- Recurrences with the same symbols are read alike, so they have the same
form, but for repetitions over days with and without a count. -/
theorem unambiguous_recurrence :
    Unambiguous RecurrencePhrase.symbols (GoesOnWith clauseWords) := by
  refine ⟨fun {first second rest others} hrest hothers hsame => ?_⟩
  obtain ⟨hvalue, rfl⟩ := (recurrenceRule_reads first hrest).unique
    (hsame ▸ recurrenceRule_reads second hothers)
  refine ⟨?_, rfl⟩
  have hsymbols := List.append_cancel_right hsame
  cases first <;> cases second
  case filtered.filtered days times otherDays otherTimes =>
    obtain ⟨_, hdays, htimes⟩ := Recurrence.daily.inj hvalue
    obtain rfl := FilterPhrase.value_injective hdays
    obtain rfl := CommaPhrase.items_injective htimes
    rfl
  case windowed.windowed count unit start stop days other _ _ _ otherDays =>
    obtain ⟨_, rfl, rfl, rfl, hdays⟩ := Recurrence.window.inj hvalue
    obtain rfl := Option.map_injective FilterPhrase.value_injective hdays
    obtain ⟨rfl, _⟩ := countSymbols_cons_inj (List.cons.inj hsymbols).2 nofun
    rfl
  case daily.daily count times other otherTimes =>
    obtain ⟨hcount, _, htimes⟩ := Recurrence.daily.inj hvalue
    obtain rfl := CountPhrase.ext hcount
    obtain rfl := CommaPhrase.items_injective htimes
    rfl
  case weekly.weekly count days times other otherDays otherTimes =>
    obtain ⟨hcount, hdays, htimes⟩ := Recurrence.weekly.inj hvalue
    obtain rfl := CountPhrase.ext hcount
    obtain rfl := CommaPhrase.items_injective hdays
    obtain rfl := CommaPhrase.items_injective htimes
    rfl
  case monthly.monthly count target times other otherTarget otherTimes =>
    obtain ⟨_, htarget, htimes⟩ := Recurrence.monthly.inj hvalue
    obtain rfl := CommaPhrase.items_injective htimes
    obtain ⟨rfl, hbehind⟩ := countSymbols_cons_inj (List.cons.inj hsymbols).2 nofun
    obtain rfl := MonthTargetPhrase.eq_of_symbols htarget
      (List.cons.inj (List.cons.inj hbehind).2).2
    rfl
  case yearly.yearly count target times other otherTarget otherTimes =>
    obtain ⟨_, _, htimes⟩ := Recurrence.yearly.inj hvalue
    obtain rfl := CommaPhrase.items_injective htimes
    obtain ⟨rfl, hbehind⟩ := countSymbols_cons_inj (List.cons.inj hsymbols).2 nofun
    have htargets : Unambiguous YearTargetPhrase.symbols fun _ => True := unambiguous_yearTarget
    obtain ⟨rfl, _⟩ := htargets.inj trivial trivial
      (List.cons.inj hbehind).2
    rfl
  case once.once day times other otherTimes =>
    obtain ⟨_, htimes⟩ := Recurrence.once.inj hvalue
    obtain rfl := CommaPhrase.items_injective htimes
    have hdays : Unambiguous DayPhrase.symbols fun _ => True := unambiguous_day
    obtain ⟨rfl, _⟩ := hdays.inj trivial trivial (List.cons.inj hsymbols).2
    rfl
  case positioned.positioned place weekday count times other otherDay otherCount otherTimes =>
    obtain ⟨_, _, rfl, htimes⟩ := Recurrence.ordinal.inj hvalue
    obtain rfl := CommaPhrase.items_injective htimes
    obtain ⟨hplace, hbehind⟩ := List.cons.inj hsymbols
    obtain rfl := PlacePhrase.symbol_injective hplace
    simp only [List.cons.injEq, true_and] at hbehind
    obtain ⟨rfl, _⟩ := countSymbols_cons_inj hbehind nofun
    rfl
  case filtered.daily days times count otherTimes =>
    obtain ⟨_, hdays, _⟩ := Recurrence.daily.inj hvalue
    obtain rfl : days = .every := FilterPhrase.value_injective hdays
    cases hsymbols
  case daily.filtered count times days otherTimes =>
    obtain ⟨_, hdays, _⟩ := Recurrence.daily.inj hvalue
    obtain rfl : .every = days := FilterPhrase.value_injective hdays
    cases hsymbols
  all_goals cases hvalue

/-! ## Schedules -/

/-- Each sequence of symbols has at most one derivation. -/
theorem SchedulePhrase.symbols_injective : symbols.Injective := by
  have hmonth : Unambiguous (fun month => [.month month]) fun _ => True :=
    unambiguous_of_symbol fun _ _ => Symbol.month.inj
  have hname : Unambiguous (fun name => [.zone name]) (GoesOnWith []) :=
    unambiguous_of_symbol fun _ _ => Symbol.zone.inj
  have hend : GoesOnWith [] [] := nofun
  intro first second hsame
  obtain ⟨hrecurrence, hsame⟩ :=
    unambiguous_recurrence.inj first.goesOnWith_clauses second.goesOnWith_clauses hsame
  obtain ⟨hskipped, hsame⟩ :=
    (unambiguous_governed (unambiguous_commaPhrase unambiguous_day) (by decide)).inj
      first.goesOnWith_lastDayClauses second.goesOnWith_lastDayClauses hsame
  obtain ⟨hlastDay, hsame⟩ := (unambiguous_governed unambiguous_day (by decide)).inj
    first.goesOnWith_anchorClauses second.goesOnWith_anchorClauses hsame
  obtain ⟨hanchor, hsame⟩ := (unambiguous_governed unambiguous_date (by decide)).inj
    first.goesOnWith_seasonClauses second.goesOnWith_seasonClauses hsame
  obtain ⟨hseason, hsame⟩ :=
    (unambiguous_governed (unambiguous_commaPhrase hmonth) (by decide)).inj
      first.goesOnWith_zoneClause second.goesOnWith_zoneClause hsame
  obtain ⟨hzone, _⟩ := (unambiguous_governed hname List.not_mem_nil).inj hend hend
    (congrArg (· ++ []) hsame)
  cases first
  cases second
  dsimp only at *
  subst hrecurrence hskipped hlastDay hanchor hseason hzone
  rfl

end Cadence
