import Cadence.Proofs.Expression.Failures
import Cadence.Proofs.Expression.Phrases

/-!
# What the rules for days do

The rules for an ordinal day, for a day or a range of days, and for a day of a
named month check conditions of the calendar.  A range and a day of a named month
are checked when more tokens have been taken, so their errors stand at a token
that was noted before.  Here is everything that these rules can do, one case for
each way in which they end.
-/

namespace Cadence

open Rule

/-- How reading an ordinal day ends. -/
inductive OrdinalDayRun (place : OrdinalPlace) :
    List Token → Except GrammarError (Nat × List Token) → Prop
  | day {token : Token} {rest : List Token} (day : OrdinalPhrase)
      (hsymbol : token.symbol = .ordinal day.day) :
      OrdinalDayRun place (token :: rest) (.ok (day.day, rest))
  | outOfRange {token : Token} {rest : List Token} {day : Nat}
      (hsymbol : token.symbol = .ordinal day) (hday : ¬ (1 ≤ day ∧ day ≤ 31)) :
      OrdinalDayRun place (token :: rest) (.error ⟨.dayOutOfRange day, some token.span⟩)
  | plain {token : Token} {rest : List Token} {value : Nat}
      (hsymbol : token.symbol = .number value) :
      OrdinalDayRun place (token :: rest) (.error ⟨.plainNumber place value, some token.span⟩)
  | missing {tokens : List Token}
      (hsymbol : ∀ day, tokens.head?.map Token.symbol ≠ some (.ordinal day)) :
      OrdinalDayRun place tokens (.error ⟨.missingOrdinal place, tokens.head?.map Token.span⟩)

theorem ordinalDayRule_run (place : OrdinalPlace) (tokens : List Token) :
    OrdinalDayRun place tokens (ordinalDayRule place tokens) := by
  rcases tokens with _ | ⟨token, rest⟩
  · exact .missing (by simp)
  · simp only [ordinalDayRule, bind_apply, peek, List.head?_cons, Option.map_some]
    cases hsymbol : token.symbol with
    | ordinal day =>
      by_cases hday : 1 ≤ day ∧ day ≤ 31
      · simp only [if_pos hday]
        exact .day ⟨day, hday⟩ hsymbol
      · simp only [if_neg hday]
        exact .outOfRange hsymbol hday
    | number value => exact .plain hsymbol
    | _ => exact .missing (by simp [hsymbol])

/-- An ordinal day is missed at the front, and missed with a suggestion only where
a plain number stands. -/
theorem OrdinalDayRun.error_at_front {place : OrdinalPlace} {tokens : List Token}
    {error : GrammarError} (hrun : OrdinalDayRun place tokens (.error error)) :
    error.span = tokens.head?.map Token.span ∧
      (error.cause.suggestion = none ∨ ∃ value, error.cause = .plainNumber place value) := by
  cases hrun with
  | outOfRange | missing => exact ⟨rfl, .inl rfl⟩
  | plain => exact ⟨rfl, .inr ⟨_, rfl⟩⟩

/-- How reading a day of the month or a range of them ends. -/
inductive MonthDaysRun : List Token → Except GrammarError (MonthDays × List Token) → Prop
  | noStart {tokens : List Token} {error : GrammarError}
      (hstart : ordinalDayRule .ofMonth tokens = .error error) : MonthDaysRun tokens (.error error)
  | single {first : Token} {rest : List Token} (day : OrdinalPhrase)
      (hfirst : first.symbol = .ordinal day.day)
      (hto : rest.head?.map Token.symbol ≠ some (.keyword .«to»)) :
      MonthDaysRun (first :: rest) (.ok (.single day.day, rest))
  | noStop {first word : Token} {rest : List Token} {error : GrammarError} (start : OrdinalPhrase)
      (hfirst : first.symbol = .ordinal start.day) (hto : word.symbol = .keyword .«to»)
      (hstop : ordinalDayRule .rangeEnd rest = .error error) :
      MonthDaysRun (first :: word :: rest) (.error error)
  | range {first word final : Token} {rest : List Token} (start stop : OrdinalPhrase)
      (hfirst : first.symbol = .ordinal start.day) (hto : word.symbol = .keyword .«to»)
      (hfinal : final.symbol = .ordinal stop.day) (ordered : start.day ≤ stop.day) :
      MonthDaysRun (first :: word :: final :: rest) (.ok (.range start.day stop.day, rest))
  | reversed {first word final : Token} {rest : List Token} (start stop : OrdinalPhrase)
      (hfirst : first.symbol = .ordinal start.day) (hto : word.symbol = .keyword .«to»)
      (hfinal : final.symbol = .ordinal stop.day) (hreversed : ¬ start.day ≤ stop.day) :
      MonthDaysRun (first :: word :: final :: rest)
        (.error ⟨.reversedDays start.day stop.day, some ⟨first.span.start, final.span.stop⟩⟩)

theorem monthDaysRule_run (tokens : List Token) : MonthDaysRun tokens (monthDaysRule tokens) := by
  have hrule : monthDaysRule tokens = (ordinalDayRule .ofMonth >>= fun start =>
      eat (.keyword .«to») >>= fun ranged =>
        if ranged then do
          let stopSpan ← here
          let stop ← ordinalDayRule .rangeEnd
          if start ≤ stop then return .range start stop
          else
            failAt (.reversedDays start stop)
              ((tokens.head?.map Token.span).bind fun first =>
                stopSpan.map fun final => ⟨first.start, final.stop⟩)
        else return .single start) tokens := rfl
  have hstart := ordinalDayRule_run .ofMonth tokens
  rw [hrule, bind_apply]
  cases hread : ordinalDayRule .ofMonth tokens with
  | error error => exact .noStart hread
  | ok found =>
    rw [hread] at hstart
    cases hstart with
    | @day first rest start hfirst =>
      simp only [eat_bind_apply]
      by_cases hto : rest.head?.map Token.symbol = some (.keyword .«to»)
      · obtain ⟨word, hhead, hword⟩ := Option.map_eq_some_iff.mp hto
        obtain ⟨rest, rfl⟩ := List.head?_eq_some_iff.mp hhead
        have hstop := ordinalDayRule_run .rangeEnd rest
        simp only [if_pos hto, if_true, List.tail_cons, bind_apply, here]
        cases hend : ordinalDayRule .rangeEnd rest with
        | error error => exact .noStop start hfirst hword hend
        | ok found =>
          rw [hend] at hstop
          cases hstop with
          | @day final rest stop hfinal =>
            by_cases hle : start.day ≤ stop.day
            · simp only [if_pos hle]
              exact .range start stop hfirst hword hfinal hle
            · simp only [if_neg hle]
              exact .reversed start stop hfirst hword hfinal hle
      · simp only [if_neg hto, Bool.false_eq_true, if_false]
        exact .single start hfirst hto

/-- How reading `of` and the name of a month ends. -/
inductive OfMonthRun : List Token → Except GrammarError (Month × List Token) → Prop
  | noWord {tokens : List Token} :
      OfMonthRun tokens (.error ⟨.missingKeyword .«of» (tokens.head?.map Token.symbol),
        tokens.head?.map Token.span⟩)
  | noName {word : Token} {rest : List Token} (hword : word.symbol = .keyword .«of») :
      OfMonthRun (word :: rest) (.error ⟨.missingMonth, rest.head?.map Token.span⟩)
  | month {word name : Token} {rest : List Token} {month : Month}
      (hword : word.symbol = .keyword .«of») (hname : name.symbol = .month month) :
      OfMonthRun (word :: name :: rest) (.ok (month, rest))

theorem ofMonthRule_run (tokens : List Token) : OfMonthRun tokens (ofMonthRule tokens) := by
  rw [ofMonthRule, expect_bind, bind_apply, peek]
  by_cases hof : tokens.head?.map Token.symbol = some (.keyword .«of»)
  · obtain ⟨word, hhead, hword⟩ := Option.map_eq_some_iff.mp hof
    obtain ⟨rest, rfl⟩ := List.head?_eq_some_iff.mp hhead
    simp only [if_pos hof, bind_apply, skip, List.tail_cons]
    rcases rest with _ | ⟨name, rest⟩
    · exact .noName hword
    · simp only [monthRule, bind_apply, peek, List.head?_cons, Option.map_some]
      cases hname : name.symbol with
      | month month => exact .month hword hname
      | _ => exact .noName hword
  · simp only [if_neg hof]
    exact .noWord

/-- The day and the month of a yearly repetition, as far as they follow `the`. -/
def yearDayRule : Rule YearTarget := do
  let span ← here
  let day ← ordinalDayRule .ofYear
  let month ← ofMonthRule
  if day ≤ month.maxDays then return .dayOfMonth day month
  else failAt (.dayOutOfMonth day month) span

/-- How reading an ordinal day of a named month ends. -/
inductive YearDayRun : List Token → Except GrammarError (YearTarget × List Token) → Prop
  | noDay {tokens : List Token} {error : GrammarError}
      (hday : ordinalDayRule .ofYear tokens = .error error) : YearDayRun tokens (.error error)
  | noMonth {first : Token} {rest : List Token} {error : GrammarError} (day : OrdinalPhrase)
      (hfirst : first.symbol = .ordinal day.day) (hmonth : ofMonthRule rest = .error error) :
      YearDayRun (first :: rest) (.error error)
  | day {first : Token} {rest after : List Token} {month : Month} (day : OrdinalPhrase)
      (hfirst : first.symbol = .ordinal day.day) (hmonth : ofMonthRule rest = .ok (month, after))
      (inMonth : day.day ≤ month.maxDays) :
      YearDayRun (first :: rest) (.ok (.dayOfMonth day.day month, after))
  | outOfMonth {first : Token} {rest after : List Token} {month : Month} (day : OrdinalPhrase)
      (hfirst : first.symbol = .ordinal day.day) (hmonth : ofMonthRule rest = .ok (month, after))
      (houtside : ¬ day.day ≤ month.maxDays) :
      YearDayRun (first :: rest) (.error ⟨.dayOutOfMonth day.day month, some first.span⟩)

theorem yearDayRule_run (tokens : List Token) : YearDayRun tokens (yearDayRule tokens) := by
  have hrule : yearDayRule tokens = (ordinalDayRule .ofYear >>= fun day =>
      ofMonthRule >>= fun month =>
        if day ≤ month.maxDays then return .dayOfMonth day month
        else failAt (.dayOutOfMonth day month) (tokens.head?.map Token.span)) tokens := rfl
  have hday := ordinalDayRule_run .ofYear tokens
  rw [hrule, bind_apply]
  cases hread : ordinalDayRule .ofYear tokens with
  | error error => exact .noDay hread
  | ok found =>
    rw [hread] at hday
    cases hday with
    | @day first rest day hfirst =>
      simp only [bind_apply]
      cases hmonth : ofMonthRule rest with
      | error error => exact .noMonth day hfirst hmonth
      | ok found =>
        obtain ⟨month, after⟩ := found
        by_cases hle : day.day ≤ month.maxDays
        · simp only [if_pos hle]
          exact .day day hfirst hmonth hle
        · simp only [if_neg hle]
          exact .outOfMonth day hfirst hmonth hle

end Cadence
