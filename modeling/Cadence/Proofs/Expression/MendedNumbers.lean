import Cadence.Proofs.Expression.ViablePrefixes

/-!
# Plain numbers made ordinals

Only a plain number in the place of an ordinal day makes a rule suggest something
else, namely the ordinal.  With that ordinal in its place the rule gets past it:
what it reads ends behind the ordinal, and so does the place of an error, unless
the day itself clashes with the calendar: no month has it, a range runs backwards
from it or to it, or the month it is in is too short.

A rule looks at one token to choose its way, so on the mended tokens it does what
it did before up to the number.
-/

namespace Cadence

open Rule

/-- How a day that has become an ordinal clashes with the calendar. -/
inductive Clash (value : Nat) (before : List Token) (ordinal : Token) (later : List Token) :
    GrammarError → Prop
  | everyMonth (houtside : ¬ (1 ≤ value ∧ value ≤ 31)) :
      Clash value before ordinal later ⟨.dayOutOfRange value, some ordinal.span⟩
  | rangeStart {stop : Nat} {final : Token} (hfinal : final ∈ later) (hreversed : stop < value) :
      Clash value before ordinal later
        ⟨.reversedDays value stop, some ⟨ordinal.span.start, final.span.stop⟩⟩
  | rangeStop {start : Nat} {first : Token} (hfirst : first ∈ before) (hreversed : value < start) :
      Clash value before ordinal later
        ⟨.reversedDays start value, some ⟨first.span.start, ordinal.span.stop⟩⟩
  | month {month : Month} (houtside : month.maxDays < value) :
      Clash value before ordinal later ⟨.dayOutOfMonth value month, some ordinal.span⟩

/-- A rule gets past an ordinal with a value, or the value clashes. -/
inductive GetsPast {α : Type} (value : Nat) (before : List Token) (ordinal : Token)
    (later : List Token) : Except GrammarError (α × List Token) → Prop
  | reads {result : α} {rest : List Token} (hrest : rest <:+ later) :
      GetsPast value before ordinal later (.ok (result, rest))
  | fails {error : GrammarError} {behind : List Token} (hbehind : behind <:+ later)
      (hstands : error.StandsAt behind) : GetsPast value before ordinal later (.error error)
  | clashes {error : GrammarError} (hclash : Clash value before ordinal later error) :
      GetsPast value before ordinal later (.error error)

section GetsPast

variable {α β : Type} {value : Nat} {before later rest : List Token} {ordinal : Token}

/-- A rule that starts behind the ordinal is past it. -/
theorem Rule.Follows.getsPast {rule : Rule α} {causes : GrammarCause → Prop}
    {P : List Symbol → α → Prop}
    (hrule : rule.Follows (rest.head?.map Token.symbol) causes P) (hrest : rest <:+ later) :
    GetsPast value before ordinal later (rule rest) := by
  cases hresult : rule rest with
  | ok found =>
    obtain ⟨result, after⟩ := found
    exact .reads ((hrule.suffix rest result after rfl hresult).trans hrest)
  | error error =>
    obtain ⟨_, taken, behind, hsplit, hstands, _⟩ := hrule.interrupts rest error rfl hresult
    exact .fails (List.IsSuffix.trans ⟨taken, hsplit⟩ hrest) hstands

/-- A sequence gets past the ordinal if its first part does. -/
theorem GetsPast.bind {rule : Rule α} {continuation : α → Rule β} {tokens : List Token}
    (hrule : GetsPast value before ordinal later (rule tokens))
    (hnext : ∀ result rest, rule tokens = .ok (result, rest) → rest <:+ later →
      GetsPast value before ordinal later (continuation result rest)) :
    GetsPast value before ordinal later ((rule >>= continuation) tokens) := by
  rw [bind_apply]
  cases hresult : rule tokens with
  | ok found =>
    obtain ⟨result, rest⟩ := found
    rw [hresult] at hrule
    cases hrule with
    | reads hrest => exact hnext result rest hresult hrest
  | error error =>
    rw [hresult] at hrule
    cases hrule with
    | fails hbehind hstands => exact .fails hbehind hstands
    | clashes hclash => exact .clashes hclash

/-- More tokens may stand before. -/
theorem GetsPast.mono {outcome : Except GrammarError (α × List Token)}
    (houtcome : GetsPast value before ordinal later outcome) {more : List Token}
    (hsubset : before ⊆ more) : GetsPast value more ordinal later outcome := by
  cases houtcome with
  | reads hrest => exact .reads hrest
  | fails hbehind hstands => exact .fails hbehind hstands
  | clashes hclash =>
    cases hclash with
    | everyMonth houtside => exact .clashes (.everyMonth houtside)
    | rangeStart hfinal hreversed => exact .clashes (.rangeStart hfinal hreversed)
    | rangeStop hfirst hreversed => exact .clashes (.rangeStop (hsubset hfirst) hreversed)
    | month houtside => exact .clashes (.month houtside)

end GetsPast

namespace Rule

variable {α β : Type}

/-- An error stands at a plain number, and with the ordinal in its place the rule
gets past it. -/
def IsMended (rule : Rule α) (before : List Token) (number : Token) (error : GrammarError) : Prop :=
  ∃ place value, number.symbol = .number value ∧
    error = ⟨.plainNumber place value, some number.span⟩ ∧
    ∀ ordinal later, ordinal.symbol = .ordinal value →
      GetsPast value before ordinal later (rule (before ++ ordinal :: later))

/-- No error of the rule makes a suggestion. -/
def IsPlain (rule : Rule α) : Prop :=
  ∀ front, ∃ P, rule.Follows front (·.suggestion = none) P

/-- Every error of the rule with a suggestion is mended by following it. -/
def Mends (rule : Rule α) : Prop :=
  ∀ tokens error, rule tokens = .error error → error.cause.suggestion ≠ none →
    ∃ before number behind, tokens = before ++ number :: behind ∧ rule.IsMended before number error

/-- On tokens with a given front, such an error stands behind the front. -/
def MendsBehind (rule : Rule α) (front : Option Symbol) : Prop :=
  ∀ tokens error, tokens.head?.map Token.symbol = front → rule tokens = .error error →
    error.cause.suggestion ≠ none →
      ∃ first before number behind, tokens = first :: before ++ number :: behind ∧
        rule.IsMended (first :: before) number error

variable {front : Option Symbol} {rule : Rule α} {P : List Symbol → α → Prop}
  {continuation : α → Rule β}

theorem IsMended.imp {other : Rule β} {before : List Token} {number : Token} {error : GrammarError}
    {taken : List Token} (hmended : rule.IsMended before number error)
    (himp : ∀ value ordinal later, ordinal.symbol = .ordinal value →
      GetsPast value before ordinal later (rule (before ++ ordinal :: later)) →
        GetsPast value taken ordinal later (other (taken ++ ordinal :: later))) :
    other.IsMended taken number error := by
  obtain ⟨place, value, hsymbol, herror, hpast⟩ := hmended
  exact ⟨place, value, hsymbol, herror, fun ordinal later hordinal =>
    himp value ordinal later hordinal (hpast ordinal later hordinal)⟩

theorem Mends.of_mendsBehind (hrule : ∀ front, rule.MendsBehind front) : rule.Mends := by
  intro tokens error herror hsuggests
  obtain ⟨first, before, number, behind, htokens, hmended⟩ :=
    hrule _ tokens error rfl herror hsuggests
  exact ⟨first :: before, number, behind, htokens, hmended⟩

theorem IsPlain.pure {value : α} : (Pure.pure value : Rule α).IsPlain :=
  fun _ => ⟨fun _ _ => True, .pure trivial⟩

theorem Follows.mendsBehind (hrule : rule.Follows front (·.suggestion = none) P) :
    rule.MendsBehind front := fun tokens error hfront herror hsuggests =>
  absurd (hrule.interrupts tokens error hfront herror).cause hsuggests

theorem IsPlain.mendsBehind (hrule : rule.IsPlain) : rule.MendsBehind front :=
  (hrule front).elim fun _ hfollows => hfollows.mendsBehind

theorem IsPlain.mends (hrule : rule.IsPlain) : rule.Mends :=
  .of_mendsBehind fun _ => hrule.mendsBehind

theorem Mends.pure {value : α} : (Pure.pure value : Rule α).Mends := by
  intro tokens error herror
  cases herror

theorem MendsBehind.fail {cause : GrammarCause} (hcause : cause.suggestion = none) :
    (Rule.fail cause : Rule α).MendsBehind front := by
  intro tokens error _ herror hsuggests
  obtain rfl := Except.error.inj herror
  exact absurd hcause hsuggests

/-- No number stands at a front of another kind. -/
theorem Mends.mendsBehind (hrule : rule.Mends) (hfront : ∀ value, front ≠ some (.number value)) :
    rule.MendsBehind front := by
  intro tokens error htokens herror hsuggests
  obtain ⟨before, number, behind, rfl, hmended⟩ := hrule tokens error herror hsuggests
  rcases before with _ | ⟨first, before⟩
  · obtain ⟨_, value, hsymbol, _⟩ := hmended
    have hhead : some number.symbol = front := htokens
    exact absurd (hsymbol ▸ hhead.symm) (hfront value)
  · exact ⟨first, before, number, behind, rfl, hmended⟩

theorem MendsBehind.peek {continuation : Option Symbol → Rule β}
    (hnext : (continuation front).MendsBehind front) :
    (Rule.peek >>= continuation).MendsBehind front := by
  intro tokens error hfront herror hsuggests
  obtain rfl := hfront
  obtain ⟨first, before, number, behind, rfl, hmended⟩ := hnext tokens error rfl herror hsuggests
  exact ⟨first, before, number, behind, rfl, hmended.imp fun _ _ _ _ hpast => hpast⟩

theorem MendsBehind.skip {continuation : Unit → Rule β} (hnext : (continuation ()).Mends) :
    (Rule.skip >>= continuation).MendsBehind front := by
  intro tokens error _ herror hsuggests
  obtain ⟨before, number, behind, hsplit, hmended⟩ := hnext tokens.tail error herror hsuggests
  rcases tokens with _ | ⟨first, rest⟩
  · exact absurd hsplit.symm (List.append_ne_nil_of_right_ne_nil _ (List.cons_ne_nil _ _))
  · rw [List.tail_cons] at hsplit
    refine ⟨first, before, number, behind, by rw [hsplit]; rfl, ?_⟩
    exact hmended.imp fun _ _ _ _ hpast => hpast.mono (List.subset_cons_self _ _)

theorem MendsBehind.expect {word : Keyword} {continuation : Unit → Rule β}
    (hnext : (continuation ()).Mends) : (Rule.expect word >>= continuation).MendsBehind front := by
  rw [expect_bind]
  apply peek
  split
  · exact skip hnext
  · exact fail rfl

/-- What follows a part that is mended makes no suggestion of its own. -/
theorem Mends.bind (hrule : rule.Mends) (htakes : ∀ front, rule.Takes front P)
    (hnext : ∀ taken value, P taken value → (continuation value).IsPlain) :
    (rule >>= continuation).Mends := by
  intro tokens error herror hsuggests
  rw [bind_apply] at herror
  split at herror
  · rename_i value rest hread
    obtain ⟨taken, _, hvalue⟩ := (htakes _).sound tokens value rest rfl hread
    obtain ⟨Q, hfollows⟩ := hnext taken value hvalue (rest.head?.map Token.symbol)
    exact absurd (hfollows.interrupts rest error rfl herror).cause hsuggests
  · rename_i found hfound
    obtain rfl := Except.error.inj herror
    obtain ⟨before, number, behind, rfl, hmended⟩ := hrule tokens found hfound hsuggests
    refine ⟨before, number, behind, rfl, hmended.imp fun value ordinal later _ hpast => ?_⟩
    refine hpast.bind fun result rest hread hrest => ?_
    obtain ⟨taken, _, hresult⟩ := (htakes _).sound _ result rest rfl hread
    obtain ⟨Q, hfollows⟩ := hnext taken result hresult (rest.head?.map Token.symbol)
    exact hfollows.getsPast hrest

/-- A choice that treats numbers and ordinals alike. -/
theorem Mends.peek {continuation : Option Symbol → Rule β} {rule : Rule β} (hrule : rule.Mends)
    (hordinal : ∀ value, continuation (some (.ordinal value)) = rule)
    (hnumber : ∀ value, continuation (some (.number value)) = rule)
    (hothers : ∀ front, (∀ value, front ≠ some (.ordinal value)) →
      (∀ value, front ≠ some (.number value)) → (continuation front).MendsBehind front) :
    (Rule.peek >>= continuation).Mends := by
  intro tokens error herror hsuggests
  by_cases hfront : ∃ value, tokens.head?.map Token.symbol = some (.number value)
  · obtain ⟨value, hfront⟩ := hfront
    have hread : rule tokens = .error error := by
      rw [← herror, ← hnumber value, bind_apply, Rule.peek, hfront]
    obtain ⟨before, number, behind, rfl, hmended⟩ := hrule tokens error hread hsuggests
    refine ⟨before, number, behind, rfl, hmended.imp fun day ordinal later hsymbol hpast => ?_⟩
    rw [bind_apply, Rule.peek]
    rcases before with _ | ⟨first, before⟩
    · rw [List.nil_append] at hpast ⊢
      rwa [← hordinal day, ← hsymbol] at hpast
    · rw [List.cons_append] at hfront hpast ⊢
      rw [← hnumber value, ← hfront] at hpast
      exact hpast
  · have hnotNumber : ∀ value, tokens.head?.map Token.symbol ≠ some (.number value) :=
      not_exists.mp hfront
    have hbehind : (Rule.peek >>= continuation).MendsBehind (tokens.head?.map Token.symbol) := by
      apply MendsBehind.peek
      by_cases hday : ∃ value, tokens.head?.map Token.symbol = some (.ordinal value)
      · obtain ⟨value, hday⟩ := hday
        rw [hday, hordinal value]
        exact hrule.mendsBehind (hday ▸ hnotNumber)
      · exact hothers _ (not_exists.mp hday) hnotNumber
    obtain ⟨first, before, number, behind, htokens, hmended⟩ :=
      hbehind tokens error rfl herror hsuggests
    exact ⟨first :: before, number, behind, htokens, hmended⟩

end Rule

/-! ## Ordinal days -/

section OrdinalDays

variable {value : Nat} {ordinal : Token} {later : List Token}

theorem ordinalDayRule_of_symbol {token : Token} (day : OrdinalPhrase)
    (hsymbol : token.symbol = .ordinal day.day) (place : OrdinalPlace) (rest : List Token) :
    ordinalDayRule place (token :: rest) = .ok (day.day, rest) := by
  simp only [ordinalDayRule, bind_apply, peek, List.head?_cons, Option.map_some, hsymbol,
    if_pos day.inMonth]
  rfl

/-- A suggestion is made at a plain number. -/
theorem exists_number_of_ordinalDayRule {place : OrdinalPlace} {tokens : List Token}
    {error : GrammarError} (herror : ordinalDayRule place tokens = .error error)
    (hsuggests : error.cause.suggestion ≠ none) : ∃ number behind value,
      tokens = number :: behind ∧ number.symbol = .number value ∧
        error = ⟨.plainNumber place value, some number.span⟩ := by
  have hrun := ordinalDayRule_run place tokens
  rw [herror] at hrun
  cases hrun with
  | outOfRange | missing => exact absurd rfl hsuggests
  | @plain number behind value hsymbol => exact ⟨number, behind, value, rfl, hsymbol, rfl⟩

/-- An ordinal is rejected only if no month has its day. -/
theorem clash_of_ordinalDayRule {place : OrdinalPlace} {before : List Token} {error : GrammarError}
    (hordinal : ordinal.symbol = .ordinal value)
    (herror : ordinalDayRule place (ordinal :: later) = .error error) :
    Clash value before ordinal later error := by
  have hrun := ordinalDayRule_run place (ordinal :: later)
  rw [herror] at hrun
  cases hrun with
  | outOfRange hsymbol houtside =>
    obtain rfl := Symbol.ordinal.inj (hordinal.symm.trans hsymbol)
    exact .everyMonth houtside
  | plain hsymbol => cases hordinal.symm.trans hsymbol
  | missing hsymbol => exact absurd (congrArg some hordinal) (hsymbol value)

theorem ordinalDayRule_mends (place : OrdinalPlace) : (ordinalDayRule place).Mends := by
  intro tokens error herror hsuggests
  obtain ⟨number, behind, value, rfl, hsymbol, rfl⟩ :=
    exists_number_of_ordinalDayRule herror hsuggests
  refine ⟨[], number, behind, rfl, place, value, hsymbol, rfl, fun ordinal later hordinal => ?_⟩
  rw [List.nil_append]
  have hrun := ordinalDayRule_run place (ordinal :: later)
  cases hread : ordinalDayRule place (ordinal :: later) with
  | ok found =>
    rw [hread] at hrun
    cases hrun with
    | day => exact .reads List.suffix_rfl
  | error error => exact .clashes (clash_of_ordinalDayRule hordinal hread)

/-- What follows an ordinal day keeps its own place. -/
theorem getsPast_monthDaysRule (hordinal : ordinal.symbol = .ordinal value) :
    GetsPast value [] ordinal later (monthDaysRule (ordinal :: later)) := by
  have hrun := monthDaysRule_run (ordinal :: later)
  generalize monthDaysRule (ordinal :: later) = outcome at hrun
  cases hrun with
  | noStart hfails => exact .clashes (clash_of_ordinalDayRule hordinal hfails)
  | single => exact .reads List.suffix_rfl
  | @noStop _ word rest error start _ _ hstop =>
    have hstopRun := ordinalDayRule_run .rangeEnd rest
    rw [hstop] at hstopRun
    exact .fails (List.suffix_cons _ _) (GrammarError.standsAt_front hstopRun.error_at_front.1)
  | @range _ word final => exact .reads (List.suffix_append [word, final] _)
  | @reversed _ word final rest start stop hfirst _ _ hreversed =>
    obtain rfl : value = start.day := Symbol.ordinal.inj (hordinal.symm.trans hfirst)
    exact .clashes (.rangeStart (by simp) (Nat.lt_of_not_le hreversed))

theorem getsPast_monthDaysRule_stop {first word : Token} (start : OrdinalPhrase)
    (hfirst : first.symbol = .ordinal start.day) (hword : word.symbol = .keyword .«to»)
    (hordinal : ordinal.symbol = .ordinal value) :
    GetsPast value [first, word] ordinal later
      (monthDaysRule (first :: word :: ordinal :: later)) := by
  have hrun := monthDaysRule_run (first :: word :: ordinal :: later)
  generalize monthDaysRule (first :: word :: ordinal :: later) = outcome at hrun
  cases hrun with
  | noStart hfails =>
    rw [ordinalDayRule_of_symbol start hfirst] at hfails
    cases hfails
  | single _ _ hto => exact absurd (congrArg some hword) hto
  | noStop _ _ _ hfails => exact .clashes (clash_of_ordinalDayRule hordinal hfails)
  | range => exact .reads List.suffix_rfl
  | reversed _ stop _ _ hfinal hreversed =>
    obtain rfl : value = stop.day := Symbol.ordinal.inj (hordinal.symm.trans hfinal)
    exact .clashes (.rangeStop List.mem_cons_self (Nat.lt_of_not_le hreversed))

theorem monthDaysRule_mends : monthDaysRule.Mends := by
  intro tokens error herror hsuggests
  have hrun := monthDaysRule_run tokens
  rw [herror] at hrun
  cases hrun with
  | noStart hstart =>
    obtain ⟨number, behind, value, rfl, hsymbol, rfl⟩ :=
      exists_number_of_ordinalDayRule hstart hsuggests
    exact ⟨[], number, behind, rfl, .ofMonth, value, hsymbol, rfl, fun _ _ hordinal =>
      getsPast_monthDaysRule hordinal⟩
  | @noStop first word rest _ start hfirst hword hstop =>
    obtain ⟨number, behind, value, rfl, hsymbol, rfl⟩ :=
      exists_number_of_ordinalDayRule hstop hsuggests
    exact ⟨[first, word], number, behind, rfl, .rangeEnd, value, hsymbol, rfl,
      fun _ _ hordinal => getsPast_monthDaysRule_stop start hfirst hword hordinal⟩
  | reversed => exact absurd rfl hsuggests

theorem monthDaysRule_single {first : Token} {rest : List Token} (day : OrdinalPhrase)
    (hfirst : first.symbol = .ordinal day.day)
    (hto : rest.head?.map Token.symbol ≠ some (.keyword .«to»)) :
    monthDaysRule (first :: rest) = .ok (.single day.day, rest) := by
  have hrun := monthDaysRule_run (first :: rest)
  generalize monthDaysRule (first :: rest) = outcome at hrun ⊢
  cases hrun with
  | noStart hfails =>
    rw [ordinalDayRule_of_symbol day hfirst] at hfails
    cases hfails
  | single _ hsame => rw [Symbol.ordinal.inj (hfirst.symm.trans hsame)]
  | noStop _ _ hword | range _ _ _ hword | reversed _ _ _ hword =>
    exact absurd (congrArg some hword) hto

theorem monthDaysRule_range {first word final : Token} {rest : List Token}
    (start stop : OrdinalPhrase) (hfirst : first.symbol = .ordinal start.day)
    (hword : word.symbol = .keyword .«to») (hfinal : final.symbol = .ordinal stop.day)
    (ordered : start.day ≤ stop.day) :
    monthDaysRule (first :: word :: final :: rest) = .ok (.range start.day stop.day, rest) := by
  have hrun := monthDaysRule_run (first :: word :: final :: rest)
  generalize monthDaysRule (first :: word :: final :: rest) = outcome at hrun ⊢
  cases hrun with
  | noStart hfails =>
    rw [ordinalDayRule_of_symbol start hfirst] at hfails
    cases hfails
  | single _ _ hto => exact absurd (congrArg some hword) hto
  | noStop _ _ _ hfails =>
    rw [ordinalDayRule_of_symbol stop hfinal] at hfails
    cases hfails
  | range _ _ hstart _ hstop =>
    rw [Symbol.ordinal.inj (hfirst.symm.trans hstart), Symbol.ordinal.inj (hfinal.symm.trans hstop)]
  | reversed _ _ hstart _ hstop hreversed =>
    rw [← Symbol.ordinal.inj (hfirst.symm.trans hstart),
      ← Symbol.ordinal.inj (hfinal.symm.trans hstop)] at hreversed
    exact absurd ordered hreversed

theorem monthDaysRule_follows_any (front : Option Symbol) :
    monthDaysRule.Follows front (fun _ => True)
      (Spelled MonthDaysPhrase.symbols MonthDaysPhrase.value) :=
  monthDaysRule_follows (fun _ _ => trivial) fun _ _ => trivial

/-- A day of the month or a range is read alike where the same symbol follows. -/
theorem monthDaysRule_of_head? {taken middle other : List Token} {days : MonthDays}
    (hread : monthDaysRule (taken ++ middle) = .ok (days, middle))
    (hhead : other.head?.map Token.symbol = middle.head?.map Token.symbol) :
    monthDaysRule (taken ++ other) = .ok (days, other) := by
  have hrun := monthDaysRule_run (taken ++ middle)
  rw [hread] at hrun
  generalize htokens : taken ++ middle = tokens at hrun
  cases hrun with
  | @single first _ day hfirst hto =>
    obtain rfl : taken = [first] := List.append_cancel_right htokens
    exact monthDaysRule_single day hfirst (hhead ▸ hto)
  | @range first word final _ start stop hfirst hword hfinal ordered =>
    obtain rfl : taken = [first, word, final] := List.append_cancel_right htokens
    exact monthDaysRule_range start stop hfirst hword hfinal ordered

theorem yearDayRule_mends : yearDayRule.Mends := by
  have hmonth : ∀ front, ofMonthRule.Follows front (·.suggestion = none)
      (Spelled (fun month => [.keyword .«of», .month month]) id) :=
    fun _ => ofMonthRule_follows fun _ hnone => hnone
  intro tokens error herror hsuggests
  have hrun := yearDayRule_run tokens
  rw [herror] at hrun
  cases hrun with
  | noDay hday =>
    obtain ⟨number, behind, value, rfl, hsymbol, rfl⟩ :=
      exists_number_of_ordinalDayRule hday hsuggests
    refine ⟨[], number, behind, rfl, .ofYear, value, hsymbol, rfl, ?_⟩
    intro ordinal later hordinal
    have hrun := yearDayRule_run (ordinal :: later)
    rw [List.nil_append]
    generalize yearDayRule (ordinal :: later) = outcome at hrun ⊢
    cases hrun with
    | noDay hfails => exact .clashes (clash_of_ordinalDayRule hordinal hfails)
    | noMonth _ _ hread =>
      obtain ⟨_, taken, behind, hsplit, hstands, _⟩ := (hmonth _).interrupts later _ rfl hread
      exact .fails ⟨taken, hsplit⟩ hstands
    | day _ _ hread => exact .reads ((hmonth _).suffix later _ _ rfl hread)
    | outOfMonth day hfirst _ houtside =>
      obtain rfl : value = day.day := Symbol.ordinal.inj (hordinal.symm.trans hfirst)
      exact .clashes (.month (Nat.lt_of_not_le houtside))
  | noMonth _ _ hread => exact absurd ((hmonth _).interrupts _ _ rfl hread).cause hsuggests
  | outOfMonth => exact absurd rfl hsuggests

end OrdinalDays

/-! ## Lists of days -/

section Lists

theorem afterCommas_cons {α : Type} (item : Rule α) (rounds : Nat) {comma : Token}
    (hcomma : comma.symbol = .comma) (rest : List Token) :
    afterCommas item (rounds + 1) (comma :: rest) = (item >>= fun value =>
      afterCommas item rounds >>= fun values => Pure.pure (value :: values)) rest := by
  rw [afterCommas, eat_bind_apply]
  exact if_pos (congrArg some hcomma)

/-- What is read behind the ordinal keeps its own place. -/
theorem getsPast_afterCommas {value : Nat} {before later rest : List Token} {ordinal : Token}
    (rounds : Nat) (hrest : rest <:+ later) :
    GetsPast value before ordinal later (afterCommas monthDaysRule rounds rest) := by
  exact (Follows.afterCommas (fun _ => monthDaysRule_takes) monthDaysRule_follows_any
    rounds).getsPast hrest

/-- Further entries of a list of days fail behind a comma, and on mended tokens
any number of rounds that leads up to the ordinal leads past it. -/
theorem afterCommas_monthDaysRule_mends (rounds : Nat) :
    ∀ tokens error, afterCommas monthDaysRule rounds tokens = .error error →
      error.cause.suggestion ≠ none → ∃ comma before number behind,
        tokens = comma :: before ++ number :: behind ∧ ∀ rounds, before.length < rounds →
          (afterCommas monthDaysRule rounds).IsMended (comma :: before) number error := by
  induction rounds with
  | zero =>
    intro tokens error herror
    cases herror
  | succ rounds ih =>
    intro tokens error herror hsuggests
    by_cases hcomma : tokens.head?.map Token.symbol = some .comma
    · obtain ⟨comma, hhead, hsymbol⟩ := Option.map_eq_some_iff.mp hcomma
      obtain ⟨rest, rfl⟩ := List.head?_eq_some_iff.mp hhead
      rw [afterCommas_cons _ _ hsymbol, bind_apply] at herror
      split at herror
      · -- The failure is behind this entry, which is read again on the mended tokens.
        rename_i days middle hread
        rw [bind_apply] at herror
        split at herror
        · cases herror
        · rename_i found hfound
          obtain rfl := Except.error.inj herror
          obtain ⟨next, before, number, behind, rfl, hmended⟩ := ih middle found hfound hsuggests
          obtain ⟨taken, rfl⟩ := (monthDaysRule_follows_any _).suffix _ _ _ rfl hread
          refine ⟨comma, taken ++ next :: before, number, behind, ?_, fun rounds hrounds => ?_⟩
          · exact congrArg (comma :: ·) (List.append_assoc _ _ _).symm
          · obtain ⟨fewer, rfl⟩ := Nat.exists_eq_succ_of_ne_zero (Nat.ne_zero_of_lt hrounds)
            have hfewer : before.length < fewer := by
              rw [List.length_append, List.length_cons] at hrounds
              omega
            refine (hmended fewer hfewer).imp fun value ordinal later _ hpast => ?_
            have hagain : monthDaysRule (taken ++ (next :: before ++ ordinal :: later)) =
                .ok (days, next :: before ++ ordinal :: later) := monthDaysRule_of_head? hread rfl
            rw [List.cons_append, afterCommas_cons _ _ hsymbol, List.append_assoc, bind_apply,
              hagain]
            refine (GetsPast.bind hpast fun _ _ _ hrest => .reads hrest).mono ?_
            exact fun token hmem => List.mem_cons_of_mem _ (List.mem_append_right _ hmem)
      · rename_i found hfound
        obtain rfl := Except.error.inj herror
        obtain ⟨before, number, behind, rfl, hmended⟩ :=
          monthDaysRule_mends rest found hfound hsuggests
        refine ⟨comma, before, number, behind, rfl, fun rounds hrounds => ?_⟩
        obtain ⟨fewer, rfl⟩ := Nat.exists_eq_succ_of_ne_zero (Nat.ne_zero_of_lt hrounds)
        refine hmended.imp fun value ordinal later _ hpast => ?_
        rw [List.cons_append, afterCommas_cons _ _ hsymbol]
        refine (hpast.bind fun _ _ _ hrest => ?_).mono (List.subset_cons_self _ _)
        exact (getsPast_afterCommas fewer hrest).bind fun _ _ _ hrest => .reads hrest
    · rw [afterCommas, eat_bind_apply, if_neg hcomma] at herror
      cases herror

/-- What a list reads behind its first entry, in as many rounds as tokens are left. -/
def followingRule {α : Type} (item : Rule α) (value : α) : Rule (List α) := fun tokens =>
  (afterCommas item tokens.length >>= fun values => Pure.pure (value :: values)) tokens

theorem commaList_eq {α : Type} (first item : Rule α) :
    commaList first item = first >>= followingRule item := rfl

theorem commaList_monthDaysRule_mends : (commaList monthDaysRule monthDaysRule).Mends := by
  intro tokens error herror hsuggests
  rw [commaList_eq, bind_apply] at herror
  split at herror
  · rename_i days middle hread
    rw [followingRule, bind_apply] at herror
    split at herror
    · cases herror
    · rename_i found hfound
      obtain rfl := Except.error.inj herror
      obtain ⟨next, before, number, behind, rfl, hmended⟩ :=
        afterCommas_monthDaysRule_mends _ _ found hfound hsuggests
      obtain ⟨taken, rfl⟩ := (monthDaysRule_follows_any _).suffix _ _ _ rfl hread
      refine ⟨taken ++ next :: before, number, behind, (List.append_assoc _ _ _).symm, ?_⟩
      obtain ⟨place, value, hsymbol, rfl, _⟩ := hmended (before.length + 1) (Nat.lt_succ_self _)
      refine ⟨place, value, hsymbol, rfl, fun ordinal later hordinal => ?_⟩
      have hrounds : before.length < (next :: before ++ ordinal :: later).length := by
        rw [List.length_append, List.length_cons]
        omega
      obtain ⟨_, _, hsame, _, hpast⟩ := hmended _ hrounds
      obtain rfl := Symbol.number.inj (hsymbol.symm.trans hsame)
      have hagain : monthDaysRule (taken ++ (next :: before ++ ordinal :: later)) =
          .ok (days, next :: before ++ ordinal :: later) := monthDaysRule_of_head? hread rfl
      rw [commaList_eq, List.append_assoc, bind_apply, hagain]
      refine (GetsPast.bind (hpast ordinal later hordinal) fun _ _ _ hrest =>
        .reads hrest).mono ?_
      exact fun token hmem => List.mem_append_right _ hmem
  · rename_i found hfound
    obtain rfl := Except.error.inj herror
    obtain ⟨before, number, behind, rfl, hmended⟩ :=
      monthDaysRule_mends tokens found hfound hsuggests
    refine ⟨before, number, behind, rfl, hmended.imp fun value ordinal later _ hpast => ?_⟩
    rw [commaList_eq]
    refine hpast.bind fun _ rest _ hrest => ?_
    exact (getsPast_afterCommas rest.length hrest).bind fun _ _ _ hrest => .reads hrest

end Lists

/-! ## Recurrences -/

section Recurrences

variable {front : Option Symbol} {interval : Nat}

theorem nearestRule_mends : nearestRule.MendsBehind front := by
  have hrest : ∀ (direction : Option Direction) front, (do
      expect .nearest
      expect .weekday
      expect .«to»
      return .nearestBusinessDay (← ordinalDayRule .ofMonth) direction :
        Rule MonthTarget).MendsBehind front := fun direction front =>
    .expect (.of_mendsBehind fun _ => .expect (.of_mendsBehind fun _ => .expect
      ((ordinalDayRule_mends _).bind (fun _ => ordinalDayRule_takes _) fun _ _ _ => .pure)))
  apply MendsBehind.peek
  dsimp only
  split
  · exact .skip (.of_mendsBehind (hrest _))
  · exact .skip (.of_mendsBehind (hrest _))
  · exact hrest _ _

theorem weekdayRule_isPlain (place : WeekdayPlace) : (weekdayRule place).IsPlain :=
  fun _ => ⟨_, weekdayRule_follows (fun _ hnone => hnone) place⟩

theorem monthTargetRule_mends : monthTargetRule.Mends := by
  have hlist : (do return .days (← commaList monthDaysRule monthDaysRule) :
      Rule MonthTarget).Mends :=
    commaList_monthDaysRule_mends.bind
      (fun _ => commaList_takes (fun _ => monthDaysRule_takes) fun _ => monthDaysRule_takes)
      fun _ _ _ => .pure
  refine hlist.peek (fun _ => rfl) (fun _ => rfl) fun front hordinal hnumber => ?_
  split
  · refine .skip (.of_mendsBehind fun front => .peek ?_)
    split
    · exact .skip IsPlain.pure.mends
    · exact .skip IsPlain.pure.mends
    · exact .skip IsPlain.pure.mends
    · exact .fail rfl
  · exact .skip ((weekdayRule_isPlain _).mends.bind (fun _ => weekdayRule_takes _)
      fun _ _ _ => .pure)
  · exact absurd rfl (hordinal _)
  · exact absurd rfl (hnumber _)
  · exact nearestRule_mends
  · exact nearestRule_mends
  · exact nearestRule_mends
  · exact .fail rfl

theorem yearTargetRule_mends : yearTargetRule.Mends := by
  have hmonth : ∀ target : Month → YearTarget,
      (do return target (← ofMonthRule) : Rule YearTarget).IsPlain := by
    intro target front
    exact ⟨fun _ _ => True, .bind ofMonthRule_takes (ofMonthRule_follows fun _ hnone => hnone)
      fun _ _ _ _ => .pure trivial⟩
  refine yearDayRule_mends.peek (fun _ => rfl) (fun _ => rfl) fun front hordinal hnumber => ?_
  split
  · refine .skip (.of_mendsBehind fun front => .peek ?_)
    split
    · exact .skip (hmonth _).mends
    · exact .skip (hmonth _).mends
    · exact .fail rfl
  · exact .skip ((weekdayRule_isPlain _).mends.bind (fun _ => weekdayRule_takes _)
      fun _ _ _ => hmonth _)
  · exact absurd rfl (hordinal _)
  · exact absurd rfl (hnumber _)
  · exact .fail rfl

theorem monthlyRule_mends : (monthlyRule interval).Mends :=
  .of_mendsBehind fun _ => .expect (.of_mendsBehind fun _ => .expect
    (monthTargetRule_mends.bind (fun _ => monthTargetRule_takes) fun _ target _ _ =>
      ⟨_, monthlyTimes_follows (fun _ hnone => hnone) target⟩))

theorem yearlyRule_mends : (yearlyRule interval).Mends := by
  have htimes : ∀ target, (do return .yearly interval target (← atTimesRule) :
      Rule Recurrence).IsPlain :=
    fun target _ => ⟨_, yearlyTimes_follows (fun _ hnone => hnone) target⟩
  refine .of_mendsBehind fun _ => .expect (.of_mendsBehind fun front => .peek ?_)
  dsimp only
  split
  · exact .skip (yearTargetRule_mends.bind (fun _ => yearTargetRule_takes) fun _ _ _ => htimes _)
  · have hday : ∀ month, (dayOfMonthRule month .recurrence).IsPlain :=
      fun month _ => ⟨_, dayOfMonthRule_follows (fun _ hnone => hnone) month _⟩
    exact .skip ((hday _).mends.bind (fun _ => dayOfMonthRule_takes _ _) fun _ _ _ => htimes _)
  · exact MendsBehind.fail rfl

theorem countedRule_mends : (countedRule interval).Mends := by
  refine .of_mendsBehind fun front => .peek ?_
  split
  · exact .skip (IsPlain.mends fun _ => ⟨_, weeklyRule_follows fun _ hnone => hnone⟩)
  · exact (windowRule_follows (fun _ hnone => hnone) _).mendsBehind
  · exact (dailyRule_follows fun _ hnone => hnone).mendsBehind
  · exact .skip monthlyRule_mends
  · exact .skip yearlyRule_mends
  · exact .fail rfl

theorem everyRule_mends : everyRule.Mends := by
  have hfiltered : ∀ days, (filteredRule days).IsPlain :=
    fun days _ => ⟨_, filteredRule_follows (fun _ hnone => hnone) days⟩
  refine .of_mendsBehind fun front => .peek ?_
  split
  · exact .fail rfl
  · exact .skip yearlyRule_mends
  · exact (dailyRule_follows fun _ hnone => hnone).mendsBehind
  · exact .skip (hfiltered _).mends
  · exact .skip (hfiltered _).mends
  · have hdays : (weekdaysRule >>= fun days => filteredRule (.listed days)).IsPlain :=
      fun _ => ⟨fun _ _ => True, .bind weekdaysRule_takes
        (weekdaysRule_follows fun _ hnone => hnone) fun _ _ _ _ =>
          (filteredRule_follows (fun _ hnone => hnone) _).imp fun _ _ _ => trivial⟩
    exact hdays.mendsBehind
  · exact .skip monthlyRule_mends
  · split
    · exact .fail rfl
    · exact .skip countedRule_mends
  · exact (windowRule_follows (fun _ hnone => hnone) _).mendsBehind
  · exact .fail rfl

theorem recurrenceRule_mends : recurrenceRule.Mends := by
  have hpositioned : ∀ place : PlacePhrase, (positionedRule place.value).IsPlain :=
    fun place _ => ⟨_, positionedRule_follows (fun _ hnone => hnone) place⟩
  refine .of_mendsBehind fun front => .peek ?_
  split
  · exact .skip everyRule_mends
  · have hday : (calendarDayRule .recurrence).IsPlain :=
      fun _ => ⟨_, calendarDayRule_follows (fun _ hnone => hnone) _⟩
    refine .skip (hday.mends.bind (fun _ => calendarDayRule_takes _) fun _ day _ _ => ?_)
    exact ⟨fun _ _ => True, .bind atTimesRule_takes (atTimesRule_follows fun _ hnone => hnone)
      fun _ _ _ _ => .pure trivial⟩
  · exact .skip (hpositioned (.ranked _)).mends
  · exact .skip (hpositioned .last).mends
  · exact .fail rfl

theorem scheduleRule_mends : scheduleRule.Mends := by
  apply recurrenceRule_mends.bind fun _ => recurrenceRule_takes
  rintro _ _ ⟨recurrence, rfl, rfl⟩ front
  exact ⟨_, clauses_follow (fun _ hnone => hnone) recurrence⟩

end Recurrences

/-- With an ordinal in the place of the number at which a suggestion is made, a
sequence of tokens is read, or its error stands behind the ordinal, or the day
clashes. -/
theorem exists_mended_of_scheduleOfTokens {tokens : List Token} {error : GrammarError}
    (herror : scheduleOfTokens tokens = .error error) (hsuggests : error.cause.suggestion ≠ none) :
    ∃ before number behind place value, tokens = before ++ number :: behind ∧
      number.symbol = .number value ∧ error = ⟨.plainNumber place value, some number.span⟩ ∧
      ∀ ordinal later, ordinal.symbol = .ordinal value →
        ∀ next, scheduleOfTokens (before ++ ordinal :: later) = .error next →
          (∃ behind, behind <:+ later ∧ next.StandsAt behind) ∨
            Clash value before ordinal later next := by
  rw [scheduleOfTokens] at herror
  split at herror
  · obtain rfl := Except.error.inj herror
    exact absurd rfl hsuggests
  · split at herror
    · rename_i found hfound
      obtain rfl := Except.error.inj herror
      obtain ⟨before, number, behind, rfl, place, value, hsymbol, rfl, hpast⟩ :=
        scheduleRule_mends tokens found hfound hsuggests
      refine ⟨before, number, behind, place, value, rfl, hsymbol, rfl, ?_⟩
      intro ordinal later hordinal next hnext
      have hpast := hpast ordinal later hordinal
      have hsome : ¬ (before ++ ordinal :: later).isEmpty = true := by simp
      rw [scheduleOfTokens, if_neg hsome] at hnext
      generalize scheduleRule (before ++ ordinal :: later) = outcome at hpast hnext
      cases hpast with
      | @reads schedule rest hrest =>
        rcases rest with _ | ⟨token, rest⟩
        · cases hnext
        · obtain rfl := Except.error.inj hnext
          exact .inl ⟨token :: rest, hrest, token, List.mem_cons_self, rfl⟩
      | fails hbehind hstands =>
        obtain rfl := Except.error.inj hnext
        exact .inl ⟨_, hbehind, hstands⟩
      | clashes hclash =>
        obtain rfl := Except.error.inj hnext
        exact .inr hclash
    · cases herror
    · obtain rfl := Except.error.inj herror
      exact absurd rfl hsuggests

end Cadence
