import Cadence.Expression.Grammar
import Cadence.Proofs.Calendar.DayNumbers
import Cadence.Proofs.Expression.TokenBounds

/-!
# What expressions can say

Every schedule read from an expression is well-formed.  Each rule of the grammar
yields values with the property its part of a schedule asks for, as long as the
tokens it reads stand for well-formed symbols; sequencing rules carries these
properties along.
-/

namespace Cadence

/-- What the reader of tokens promises about a sequence of them. -/
def TokensWellFormed (tokens : List Token) : Prop := ∀ token ∈ tokens, token.symbol.WellFormed

namespace Rule

variable {α β : Type} {P : α → Prop} {Q : β → Prop}

/-- Every value a rule returns has a property. -/
structure Yields (rule : Rule α) (P : α → Prop) : Prop where
  sound : ∀ tokens value rest, TokensWellFormed tokens → rule tokens = .ok (value, rest) →
    P value ∧ TokensWellFormed rest

namespace Yields

theorem pure {value : α} (hvalue : P value) : Yields (pure value) P := by
  refine ⟨fun tokens result rest htokens hresult => ?_⟩
  obtain ⟨rfl, rfl⟩ := Prod.mk.inj (Except.ok.inj hresult)
  exact ⟨hvalue, htokens⟩

theorem bind {rule : Rule α} {continuation : α → Rule β} (hrule : Yields rule P)
    (hcontinuation : ∀ value, P value → Yields (continuation value) Q) :
    Yields (rule >>= continuation) Q := by
  refine ⟨fun tokens result rest htokens hresult => ?_⟩
  rw [bind_apply] at hresult
  split at hresult
  · rename_i value after hafter
    obtain ⟨hvalue, hrest⟩ := hrule.sound tokens value after htokens hafter
    exact (hcontinuation value hvalue).sound after result rest hrest hresult
  · simp at hresult

theorem map {rule : Rule α} {f : α → β} (hrule : Yields rule P)
    (hmap : ∀ value, P value → Q (f value)) : Yields (f <$> rule) Q :=
  hrule.bind fun value hvalue => pure (hmap value hvalue)

theorem imp {rule : Rule α} {P' : α → Prop} (hrule : Yields rule P)
    (himp : ∀ value, P value → P' value) : Yields rule P' :=
  ⟨fun tokens value rest htokens hresult =>
    have ⟨hvalue, hrest⟩ := hrule.sound tokens value rest htokens hresult
    ⟨himp value hvalue, hrest⟩⟩

theorem fail (cause : GrammarCause) : Yields (Rule.fail cause) P :=
  ⟨fun _ _ _ _ hresult => by simp [Rule.fail] at hresult⟩

theorem failAt (cause : GrammarCause) (span : Option Span) : Yields (Rule.failAt cause span) P :=
  ⟨fun _ _ _ _ hresult => by simp [Rule.failAt] at hresult⟩

theorem ite {c : Prop} [Decidable c] {first second : Rule α} (hfirst : c → Yields first P)
    (hsecond : ¬ c → Yields second P) : Yields (if c then first else second) P := by
  split
  · rename_i hc
    exact hfirst hc
  · rename_i hc
    exact hsecond hc

theorem peek : Yields Rule.peek fun found => ∀ symbol ∈ found, symbol.WellFormed := by
  refine ⟨fun tokens result rest htokens hresult => ?_⟩
  obtain ⟨rfl, rfl⟩ := Prod.mk.inj (Except.ok.inj hresult)
  refine ⟨fun symbol hsymbol => ?_, htokens⟩
  obtain ⟨token, htoken, rfl⟩ := Option.map_eq_some_iff.mp hsymbol
  exact htokens token (List.mem_of_head? htoken)

theorem skip : Yields Rule.skip fun _ => True := by
  refine ⟨fun tokens result rest htokens hresult => ?_⟩
  obtain ⟨rfl, rfl⟩ := Prod.mk.inj (Except.ok.inj hresult)
  exact ⟨trivial, fun token htoken => htokens token (List.mem_of_mem_tail htoken)⟩

theorem here : Yields Rule.here fun _ => True := by
  refine ⟨fun tokens result rest htokens hresult => ?_⟩
  obtain ⟨rfl, rfl⟩ := Prod.mk.inj (Except.ok.inj hresult)
  exact ⟨trivial, htokens⟩

theorem eat (symbol : Symbol) : Yields (Rule.eat symbol) fun _ => True :=
  peek.bind fun _ _ => ite (fun _ => skip.bind fun _ _ => pure trivial) fun _ => pure trivial

theorem expect (word : Keyword) : Yields (Rule.expect word) fun _ => True :=
  peek.bind fun _ _ => ite (fun _ => skip) fun _ => fail _

/-- A value returned once the front token is dropped. -/
theorem skip_pure {value : α} (hvalue : P value) :
    Yields (do Rule.skip; Pure.pure value) P :=
  skip.bind fun _ _ => pure hvalue

theorem afterCommas {item : Rule α} (hitem : Yields item P) (rounds : Nat) :
    Yields (Rule.afterCommas item rounds) fun values => ∀ value ∈ values, P value := by
  induction rounds with
  | zero => exact pure (List.forall_mem_nil P)
  | succ rounds ih =>
    refine (eat .comma).bind fun found _ => ite (fun _ => ?_) fun _ => pure (List.forall_mem_nil P)
    exact hitem.bind fun value hvalue => ih.bind fun values hvalues =>
      pure (List.forall_mem_cons.mpr ⟨hvalue, hvalues⟩)

theorem commaList {first item : Rule α} (hfirst : Yields first P) (hitem : Yields item P) :
    Yields (Rule.commaList first item) fun values => values ≠ [] ∧ ∀ value ∈ values, P value := by
  apply hfirst.bind
  intro value hvalue
  refine bind (P := fun values => ∀ value ∈ values, P value) ⟨?_⟩ fun values hvalues =>
    pure ⟨List.cons_ne_nil _ _, List.forall_mem_cons.mpr ⟨hvalue, hvalues⟩⟩
  exact fun tokens => (hitem.afterCommas tokens.length).sound tokens

end Yields

end Rule

open Rule

/-! ## Parts shared by several rules -/

theorem timeRule_yields : timeRule.Yields TimeOfDay.IsOnClock := by
  apply Yields.peek.bind
  intro found hfound
  split
  · exact .skip_pure (hfound _ rfl)
  · exact .fail _

theorem atTimesRule_yields : atTimesRule.Yields TimesWellFormed :=
  (Yields.expect _).bind fun _ _ => timeRule_yields.commaList timeRule_yields

theorem weekdayRule_yields (place : WeekdayPlace) : (weekdayRule place).Yields fun _ => True := by
  apply Yields.peek.bind
  intro found _
  split
  · exact .skip_pure trivial
  · exact .fail _

theorem weekdaysRule_yields : weekdaysRule.Yields (· ≠ []) :=
  ((weekdayRule_yields _).commaList (weekdayRule_yields _)).imp fun _ hdays => hdays.1

theorem monthRule_yields : monthRule.Yields fun _ => True := by
  apply Yields.peek.bind
  intro found _
  split
  · exact .skip_pure trivial
  · exact .fail _

/-- Four digits make a year of four digits. -/
theorem Date.hasFourDigitYear_of_ofText? {text : List Char} {date : Date}
    (hdate : ofText? text = some date) : date.HasFourDigitYear := by
  unfold ofText? at hdate
  split at hdate
  · rename_i y₁ y₂ y₃ y₄ m₁ m₂ d₁ d₂
    obtain ⟨hdigits, hdate⟩ := Option.ite_none_right_eq_some.mp hdate
    have hdigit : ∀ {c : Char}, c.isDigit = true → c.toNat - '0'.toNat ≤ 9 := by
      intro c hc
      have hbounds := Char.isDigit_iff_toNat.mp hc
      have hzero : '0'.toNat = 48 := rfl
      have hnine : '9'.toNat = 57 := rfl
      omega
    simp only [List.all_cons, List.all_nil, Bool.and_true, Bool.and_eq_true] at hdigits
    obtain ⟨h₁, h₂, h₃, h₄, _⟩ := hdigits
    have h₁ := hdigit h₁
    have h₂ := hdigit h₂
    have h₃ := hdigit h₃
    have h₄ := hdigit h₄
    have hyear := (ofYmd?_eq_some_iff.mp hdate).2.1
    simp only [Nat.ofDigitChars_cons, Nat.ofDigitChars_nil] at hyear
    simp only [HasFourDigitYear]
    omega
  · simp at hdate

theorem dateOfTextRule_yields (text : String) :
    (dateOfTextRule text).Yields Date.HasFourDigitYear := by
  rw [dateOfTextRule]
  split
  · rename_i date hdate
    exact .skip_pure (Date.hasFourDigitYear_of_ofText? hdate)
  · exact .fail _

theorem dayOfMonthRule_yields (month : Month) (place : DayPlace) :
    (dayOfMonthRule month place).Yields fun day => 1 ≤ day ∧ day ≤ month.maxDays := by
  apply Yields.peek.bind
  intro found _
  split
  · exact .ite (fun _ => .fail _) fun hday => .skip_pure (by omega)
  · exact .ite (fun _ => .fail _) fun hday => .skip_pure (by omega)
  · exact .fail _

theorem calendarDayRule_yields (place : DayPlace) :
    (calendarDayRule place).Yields CalendarDay.WellFormed := by
  apply Yields.peek.bind
  intro found _
  split
  · exact .fail _
  · exact (dateOfTextRule_yields _).bind fun date hdate => .pure hdate
  · exact Yields.skip.bind fun _ _ =>
      (dayOfMonthRule_yields _ _).bind fun day hday => .pure hday
  · exact .fail _

theorem ordinalDayRule_yields (place : OrdinalPlace) :
    (ordinalDayRule place).Yields fun day => 1 ≤ day ∧ day ≤ 31 := by
  apply Yields.peek.bind
  intro found _
  split
  · exact .ite (fun hday => .skip_pure hday) fun _ => .fail _
  · exact .fail _
  · exact .fail _

theorem monthDaysRule_yields : monthDaysRule.Yields MonthDays.WellFormed := by
  apply Yields.here.bind
  intro startSpan _
  apply (ordinalDayRule_yields _).bind
  intro start hstart
  refine (Yields.eat _).bind fun found _ => .ite (fun _ => ?_) fun _ => .pure hstart
  apply Yields.here.bind
  intro stopSpan _
  apply (ordinalDayRule_yields _).bind
  intro stop hstop
  exact .ite (fun hordered => .pure ⟨hstart.1, hordered, hstop.2⟩) fun _ => .failAt _ _

/-! ## Recurrences -/

theorem dayFilterRule_yields : dayFilterRule.Yields DayFilter.WellFormed := by
  apply Yields.peek.bind
  intro found _
  split
  · exact .skip_pure trivial
  · exact .skip_pure trivial
  · exact .skip_pure trivial
  · exact weekdaysRule_yields.bind fun days hdays => .pure hdays
  · exact .fail _

/-- Where no number is written the interval is one. -/
theorem intervalWellFormed_one : IntervalWellFormed 1 := ⟨by decide, by decide⟩

section Recurrences

variable {interval : Nat}

theorem windowRule_yields (hinterval : IntervalWellFormed interval) (unit : StepUnit) :
    (windowRule interval unit).Yields Recurrence.WellFormed := by
  refine Yields.skip.bind fun _ _ => (Yields.expect _).bind fun _ _ => ?_
  refine timeRule_yields.bind fun start hstart => (Yields.expect _).bind fun _ _ => ?_
  refine timeRule_yields.bind fun stop hstop => (Yields.eat _).bind fun found _ => ?_
  refine .ite (fun _ => ?_) fun _ => .pure ⟨hinterval, hstart, hstop, nofun⟩
  exact dayFilterRule_yields.bind fun filter hfilter =>
    .pure ⟨hinterval, hstart, hstop, fun _ hmem => Option.some.inj hmem ▸ hfilter⟩

theorem dailyRule_yields (hinterval : IntervalWellFormed interval) :
    (dailyRule interval).Yields Recurrence.WellFormed :=
  (Yields.expect _).bind fun _ _ => atTimesRule_yields.bind fun _ htimes =>
    .pure ⟨hinterval, trivial, fun _ => rfl, htimes⟩

theorem filteredRule_yields {days : DayFilter} (hdays : days.WellFormed) :
    (filteredRule days).Yields Recurrence.WellFormed :=
  atTimesRule_yields.bind fun _ htimes =>
    .pure ⟨intervalWellFormed_one, hdays, fun hlt => absurd hlt (by decide), htimes⟩

theorem weeklyRule_yields (hinterval : IntervalWellFormed interval) :
    (weeklyRule interval).Yields Recurrence.WellFormed :=
  (Yields.expect _).bind fun _ _ => weekdaysRule_yields.bind fun _ hdays =>
    atTimesRule_yields.bind fun _ htimes => .pure ⟨hinterval, hdays, htimes⟩

theorem nearestRule_yields : nearestRule.Yields MonthTarget.WellFormed := by
  have hrest : ∀ direction, (do
      expect .nearest
      expect .weekday
      expect .«to»
      return MonthTarget.nearestBusinessDay (← ordinalDayRule .ofMonth) direction :
        Rule MonthTarget).Yields MonthTarget.WellFormed := fun direction =>
    (Yields.expect _).bind fun _ _ => (Yields.expect _).bind fun _ _ =>
      (Yields.expect _).bind fun _ _ =>
        (ordinalDayRule_yields _).bind fun day hday => .pure hday
  apply Yields.peek.bind
  intro found _
  dsimp only
  split
  · exact Yields.skip.bind fun _ _ => hrest _
  · exact Yields.skip.bind fun _ _ => hrest _
  · exact hrest _

theorem monthTargetRule_yields : monthTargetRule.Yields MonthTarget.WellFormed := by
  apply Yields.peek.bind
  intro found _
  split
  · refine Yields.skip.bind fun _ _ => Yields.peek.bind fun found _ => ?_
    split
    · exact .skip_pure trivial
    · exact .skip_pure trivial
    · exact .skip_pure trivial
    · exact .fail _
  · exact Yields.skip.bind fun _ _ => (weekdayRule_yields _).bind fun day _ => .pure trivial
  · exact (monthDaysRule_yields.commaList monthDaysRule_yields).bind fun days hdays => .pure hdays
  · exact (monthDaysRule_yields.commaList monthDaysRule_yields).bind fun days hdays => .pure hdays
  · exact nearestRule_yields
  · exact nearestRule_yields
  · exact nearestRule_yields
  · exact .fail _

theorem monthlyRule_yields (hinterval : IntervalWellFormed interval) :
    (monthlyRule interval).Yields Recurrence.WellFormed :=
  (Yields.expect _).bind fun _ _ => (Yields.expect _).bind fun _ _ =>
    monthTargetRule_yields.bind fun _ htarget =>
      atTimesRule_yields.bind fun _ htimes => .pure ⟨hinterval, htarget, htimes⟩

theorem ofMonthRule_yields : ofMonthRule.Yields fun _ => True :=
  (Yields.expect _).bind fun _ _ => monthRule_yields

theorem yearTargetRule_yields : yearTargetRule.Yields YearTarget.WellFormed := by
  have hordinal : (do
      let span ← here
      let day ← ordinalDayRule .ofYear
      let month ← ofMonthRule
      if day ≤ month.maxDays then return YearTarget.dayOfMonth day month
      else failAt (.dayOutOfMonth day month) span : Rule YearTarget).Yields
        YearTarget.WellFormed :=
    Yields.here.bind fun span _ => (ordinalDayRule_yields _).bind fun day hday =>
      ofMonthRule_yields.bind fun month _ =>
        .ite (fun hle => .pure ⟨hday.1, hle⟩) fun _ => .failAt _ _
  apply Yields.peek.bind
  intro found _
  split
  · refine Yields.skip.bind fun _ _ => Yields.peek.bind fun found _ => ?_
    split
    · exact Yields.skip.bind fun _ _ => ofMonthRule_yields.bind fun month _ => .pure trivial
    · exact Yields.skip.bind fun _ _ => ofMonthRule_yields.bind fun month _ => .pure trivial
    · exact .fail _
  · exact Yields.skip.bind fun _ _ => (weekdayRule_yields _).bind fun day _ =>
      ofMonthRule_yields.bind fun month _ => .pure trivial
  · exact hordinal
  · exact hordinal
  · exact .fail _

theorem yearlyRule_yields (hinterval : IntervalWellFormed interval) :
    (yearlyRule interval).Yields Recurrence.WellFormed := by
  have hrest : ∀ target : YearTarget, target.WellFormed →
      (do return Recurrence.yearly interval target (← atTimesRule) : Rule Recurrence).Yields
        Recurrence.WellFormed := fun target htarget =>
    atTimesRule_yields.bind fun _ htimes => .pure ⟨hinterval, htarget, htimes⟩
  refine (Yields.expect _).bind fun _ _ => Yields.peek.bind fun found _ => ?_
  dsimp only
  split
  · exact Yields.skip.bind fun _ _ => yearTargetRule_yields.bind hrest
  · exact Yields.skip.bind fun _ _ => (dayOfMonthRule_yields _ _).bind fun day hday =>
      hrest (.date _ day) hday
  · exact (Yields.fail _).bind hrest

theorem countedRule_yields (hinterval : IntervalWellFormed interval) :
    (countedRule interval).Yields Recurrence.WellFormed := by
  apply Yields.peek.bind
  intro found _
  split
  · exact Yields.skip.bind fun _ _ => weeklyRule_yields hinterval
  · exact windowRule_yields hinterval _
  · exact dailyRule_yields hinterval
  · exact Yields.skip.bind fun _ _ => monthlyRule_yields hinterval
  · exact Yields.skip.bind fun _ _ => yearlyRule_yields hinterval
  · exact .fail _

theorem everyRule_yields : everyRule.Yields Recurrence.WellFormed := by
  apply Yields.peek.bind
  intro found hfound
  split
  · exact .fail _
  · exact Yields.skip.bind fun _ _ => yearlyRule_yields intervalWellFormed_one
  · exact dailyRule_yields intervalWellFormed_one
  · exact Yields.skip.bind fun _ _ => filteredRule_yields trivial
  · exact Yields.skip.bind fun _ _ => filteredRule_yields trivial
  · exact weekdaysRule_yields.bind fun days hdays => filteredRule_yields hdays
  · exact Yields.skip.bind fun _ _ => monthlyRule_yields intervalWellFormed_one
  · refine .ite (fun _ => .fail _) fun hzero => Yields.skip.bind fun _ _ => ?_
    exact countedRule_yields ⟨Nat.pos_of_ne_zero hzero, hfound _ rfl⟩
  · exact windowRule_yields intervalWellFormed_one _
  · exact .fail _

theorem monthIntervalRule_yields : monthIntervalRule.Yields IntervalWellFormed := by
  apply Yields.peek.bind
  intro found hfound
  split
  · exact .ite (fun _ => .fail _) fun hzero =>
      .skip_pure ⟨Nat.pos_of_ne_zero hzero, hfound _ rfl⟩
  · exact .pure intervalWellFormed_one

theorem positionedRule_yields (position : Position) :
    (positionedRule position).Yields Recurrence.WellFormed :=
  (weekdayRule_yields _).bind fun _ _ => (Yields.expect _).bind fun _ _ =>
    (Yields.expect _).bind fun _ _ => monthIntervalRule_yields.bind fun _ hinterval =>
      (Yields.expect _).bind fun _ _ => atTimesRule_yields.bind fun _ htimes =>
        .pure ⟨hinterval, htimes⟩

theorem recurrenceRule_yields : recurrenceRule.Yields Recurrence.WellFormed := by
  apply Yields.peek.bind
  intro found _
  split
  · exact Yields.skip.bind fun _ _ => everyRule_yields
  · exact Yields.skip.bind fun _ _ => (calendarDayRule_yields _).bind fun _ hday =>
      atTimesRule_yields.bind fun _ htimes => .pure ⟨hday, htimes⟩
  · exact Yields.skip.bind fun _ _ => positionedRule_yields _
  · exact Yields.skip.bind fun _ _ => positionedRule_yields _
  · exact .fail _

end Recurrences

/-! ## Clauses -/

theorem clauseRule_yields {α : Type} {P : α → Prop} (word : Keyword) {absent : α} {body : Rule α}
    (habsent : P absent) (hbody : body.Yields P) : (clauseRule word absent body).Yields P :=
  (Yields.eat _).bind fun _ _ => .ite (fun _ => hbody) fun _ => .pure habsent

/-- A clause that may be missing. -/
theorem optionalClause_yields {α : Type} {P : α → Prop} (word : Keyword) {body : Rule α}
    (hbody : body.Yields P) :
    (clauseRule word none (some <$> body)).Yields fun found => ∀ value ∈ found, P value := by
  exact clauseRule_yields word nofun (hbody.map fun value hvalue _ hmem =>
    Option.some.inj hmem ▸ hvalue)

theorem anchorRule_yields : anchorRule.Yields Date.HasFourDigitYear := by
  apply Yields.peek.bind
  intro found _
  split
  · exact dateOfTextRule_yields _
  · exact .fail _

theorem zoneRule_yields : zoneRule.Yields ZoneNameWellFormed := by
  apply Yields.peek.bind
  intro found hfound
  split
  · exact .skip_pure (hfound _ rfl)
  · exact .fail _

theorem scheduleRule_yields : scheduleRule.Yields Schedule.WellFormed := by
  have hskipped : skippedRule.Yields fun days => ∀ day ∈ days, day.WellFormed :=
    ((calendarDayRule_yields _).commaList (calendarDayRule_yields _)).imp fun _ hdays => hdays.2
  have hseason : (commaList monthRule monthRule).Yields fun _ => True :=
    (monthRule_yields.commaList monthRule_yields).imp fun _ _ => trivial
  apply recurrenceRule_yields.bind
  intro recurrence hrecurrence
  apply (clauseRule_yields _ (List.forall_mem_nil _) hskipped).bind
  intro skipped hskipped
  apply (optionalClause_yields _ (calendarDayRule_yields _)).bind
  intro lastDay hlastDay
  apply (optionalClause_yields _ anchorRule_yields).bind
  intro anchor hanchor
  apply (clauseRule_yields _ trivial hseason).bind
  intro season _
  apply (optionalClause_yields _ zoneRule_yields).bind
  intro zone hzone
  exact .pure ⟨hrecurrence, hskipped, hlastDay, hanchor, hzone⟩

/-- What is read from an expression is well-formed. -/
theorem Schedule.wellFormed_of_ofText {text : String} {schedule : Schedule}
    (hread : Schedule.ofText text = .ok schedule) : schedule.WellFormed := by
  rw [Schedule.ofText] at hread
  split at hread
  · simp at hread
  · rename_i tokens htokens
    split at hread
    · simp at hread
    · rename_i result hresult
      obtain rfl := Except.ok.inj hread
      simp only [scheduleOfTokens] at hresult
      split at hresult
      · simp at hresult
      · split at hresult
        · simp at hresult
        · rename_i parsed hparsed
          obtain rfl := Except.ok.inj hresult
          exact (scheduleRule_yields.sound tokens _ _
            (wellFormed_of_mem_tokenize htokens) hparsed).1
        · simp at hresult

end Cadence
