import Cadence.Proofs.Expression.Rules

/-!
# Where rules fail

A rule fails at the first token that nothing it could still read begins with, or
at a token before that on which a condition of the calendar turns.  So what
stands before the place of an error can always be completed.

`Rule.Follows` says this of one rule: its failures interrupt a sequence of tokens
at a place, and the symbols before that place begin symbols that the rule takes.
There is a lemma for every way in which rules are put together, as there is for
`Rule.Takes`.
-/

namespace Cadence

/-- An error stands at a sequence of tokens: from the start of the first up to the
end of one of them, and at no token if there is none. -/
def GrammarError.StandsAt (error : GrammarError) : List Token → Prop
  | [] => error.span = none
  | first :: others =>
    ∃ last ∈ first :: others, error.span = some ⟨first.span.start, last.span.stop⟩

/-- An error with an allowed cause interrupts tokens at a place before which the
symbols can be completed. -/
structure GrammarError.Interrupts {α : Type} (error : GrammarError) (tokens : List Token)
    (causes : GrammarCause → Prop) (P : List Symbol → α → Prop) : Prop where
  cause : causes error.cause
  place : ∃ before behind, before ++ behind = tokens ∧ error.StandsAt behind ∧
    ∃ later value, P (before.map Token.symbol ++ later) value

namespace GrammarError

variable {α : Type} {error : GrammarError} {tokens : List Token} {causes : GrammarCause → Prop}
  {P : List Symbol → α → Prop}

/-- The error of a rule that fails at the front. -/
theorem standsAt_front (hspan : error.span = tokens.head?.map Token.span) :
    error.StandsAt tokens := by
  cases tokens with
  | nil => exact hspan
  | cons token tokens => exact ⟨token, List.mem_cons_self, hspan⟩

namespace Interrupts

theorem front (hspan : error.span = tokens.head?.map Token.span) (hcause : causes error.cause)
    (hpossible : ∃ later value, P later value) : error.Interrupts tokens causes P :=
  ⟨hcause, [], tokens, rfl, standsAt_front hspan, hpossible⟩

/-- Tokens that were taken before stand before the place of the error. -/
theorem append {taken : List Token}
    (herror : error.Interrupts tokens causes fun later value =>
      P (taken.map Token.symbol ++ later) value) :
    error.Interrupts (taken ++ tokens) causes P := by
  obtain ⟨hcause, before, behind, rfl, hstands, later, value, hvalue⟩ := herror
  refine ⟨hcause, taken ++ before, behind, List.append_assoc _ _ _, hstands, later, value, ?_⟩
  rwa [List.map_append, List.append_assoc]

theorem imp {β : Type} {Q : List Symbol → β → Prop} (herror : error.Interrupts tokens causes P)
    (himp : ∀ before later value, P (before ++ later) value →
      ∃ more result, Q (before ++ more) result) : error.Interrupts tokens causes Q := by
  obtain ⟨hcause, before, behind, htokens, hstands, later, value, hvalue⟩ := herror
  exact ⟨hcause, before, behind, htokens, hstands, himp _ later value hvalue⟩

end Interrupts

end GrammarError

namespace Rule

variable {α β : Type}

/-- On tokens with a given front, a rule leaves the end of what it gets, and where
it fails, what stands before the place of its error can be completed to symbols
and a value that it relates. -/
structure Follows (rule : Rule α) (front : Option Symbol) (causes : GrammarCause → Prop)
    (P : List Symbol → α → Prop) : Prop where
  possible : ∃ taken value, P taken value
  suffix : ∀ tokens value rest, tokens.head?.map Token.symbol = front →
    rule tokens = .ok (value, rest) → rest <:+ tokens
  interrupts : ∀ tokens error, tokens.head?.map Token.symbol = front →
    rule tokens = .error error → error.Interrupts tokens causes P

/-- Requiring a keyword looks at the front first. -/
theorem expect_bind (word : Keyword) (continuation : Unit → Rule β) :
    expect word >>= continuation = peek >>= fun found =>
      if found = some (.keyword word) then skip >>= continuation
      else fail (.missingKeyword word found) := by
  funext tokens
  simp only [bind_apply, expect, peek]
  by_cases hfront : tokens.head?.map Token.symbol = some (.keyword word)
  · simp only [if_pos hfront]
    rfl
  · simp only [if_neg hfront]
    rfl

/-- So does taking a symbol that may be missing. -/
theorem eat_bind_apply (symbol : Symbol) (continuation : Bool → Rule β) (tokens : List Token) :
    (eat symbol >>= continuation) tokens =
      if tokens.head?.map Token.symbol = some symbol then continuation true tokens.tail
      else continuation false tokens := by
  simp only [bind_apply, eat, peek]
  by_cases hfront : tokens.head?.map Token.symbol = some symbol
  · simp only [if_pos hfront]
    rfl
  · simp only [if_neg hfront]
    rfl

theorem eat_bind (symbol : Symbol) (continuation : Bool → Rule β) :
    eat symbol >>= continuation = peek >>= fun found =>
      if found = some symbol then skip >>= fun _ => continuation true else continuation false := by
  funext tokens
  refine (eat_bind_apply symbol continuation tokens).trans ?_
  rw [bind_apply, peek]
  by_cases hfront : tokens.head?.map Token.symbol = some symbol
  · simp only [if_pos hfront]
    rfl
  · simp only [if_neg hfront]

namespace Follows

variable {P : List Symbol → α → Prop} {Q : List Symbol → β → Prop} {front : Option Symbol}
  {symbol : Symbol} {causes : GrammarCause → Prop}

theorem pure {value : α} (hvalue : P [] value) : Follows (pure value) front causes P := by
  refine ⟨⟨[], value, hvalue⟩, fun tokens result rest _ hresult => ?_, fun _ _ _ herror => ?_⟩
  · obtain ⟨_, rfl⟩ := Prod.mk.inj (Except.ok.inj hresult)
    exact List.suffix_rfl
  · cases herror

theorem bind {rule : Rule α} {continuation : α → Rule β} (htakes : Takes rule front P)
    (hrule : Follows rule front causes P)
    (hnext : ∀ front taken value, P taken value →
      Follows (continuation value) front causes fun later result => Q (taken ++ later) result) :
    Follows (rule >>= continuation) front causes Q := by
  refine ⟨?_, fun tokens result rest hfront hresult => ?_, fun tokens error hfront herror => ?_⟩
  · obtain ⟨taken, value, hvalue⟩ := hrule.possible
    obtain ⟨later, result, hresult⟩ := (hnext none taken value hvalue).possible
    exact ⟨taken ++ later, result, hresult⟩
  · rw [bind_apply] at hresult
    split at hresult
    · rename_i value middle hmiddle
      obtain ⟨taken, _, hvalue⟩ := htakes.sound tokens value middle hfront hmiddle
      exact ((hnext _ taken value hvalue).suffix middle result rest rfl hresult).trans
        (hrule.suffix tokens value middle hfront hmiddle)
    · cases hresult
  · rw [bind_apply] at herror
    split at herror
    · rename_i value middle hmiddle
      obtain ⟨taken, htaken, hvalue⟩ := htakes.sound tokens value middle hfront hmiddle
      obtain ⟨before, rfl⟩ := hrule.suffix tokens value middle hfront hmiddle
      rw [List.map_append] at htaken
      obtain rfl := List.append_cancel_right htaken
      exact ((hnext _ _ value hvalue).interrupts middle error rfl herror).append
    · rename_i found hfound
      obtain rfl := Except.error.inj herror
      refine (hrule.interrupts tokens found hfront hfound).imp fun before later value hvalue => ?_
      obtain ⟨more, result, hresult⟩ := (hnext none _ value hvalue).possible
      exact ⟨later ++ more, result, by rwa [← List.append_assoc]⟩

theorem imp {rule : Rule α} {P' : List Symbol → α → Prop} (hrule : Follows rule front causes P)
    (himp : ∀ taken value, P taken value → P' taken value) : Follows rule front causes P' := by
  obtain ⟨taken, value, hvalue⟩ := hrule.possible
  refine ⟨⟨taken, value, himp _ _ hvalue⟩, hrule.suffix, fun tokens error hfront herror => ?_⟩
  exact (hrule.interrupts tokens error hfront herror).imp fun before later value hvalue =>
    ⟨later, value, himp _ _ hvalue⟩

theorem map {rule : Rule α} {f : α → β} (htakes : Takes rule front P)
    (hrule : Follows rule front causes P)
    (hmap : ∀ taken value, P taken value → Q taken (f value)) :
    Follows (f <$> rule) front causes Q :=
  bind htakes hrule fun _ taken value hvalue =>
    pure ((List.append_nil taken).symm ▸ hmap taken value hvalue)

/-- A rule that fails at the front leaves everything open that it could have read. -/
theorem fail {cause : GrammarCause} (hcause : causes cause) {taken : List Symbol} {value : α}
    (hvalue : P taken value) : Follows (Rule.fail cause) front causes P := by
  refine ⟨⟨taken, value, hvalue⟩, fun _ _ _ _ hresult => ?_, fun tokens error _ herror => ?_⟩
  · cases hresult
  · obtain rfl := Except.error.inj herror
    exact .front rfl hcause ⟨taken, value, hvalue⟩

theorem ite {c : Prop} [Decidable c] {first second : Rule α}
    (hfirst : c → Follows first front causes P) (hsecond : ¬ c → Follows second front causes P) :
    Follows (if c then first else second) front causes P := by
  split
  · rename_i hc
    exact hfirst hc
  · rename_i hc
    exact hsecond hc

theorem peek {continuation : Option Symbol → Rule β}
    (hnext : Follows (continuation front) front causes Q) :
    Follows (Rule.peek >>= continuation) front causes Q :=
  ⟨hnext.possible,
    fun tokens result rest hfront hresult =>
      hnext.suffix tokens result rest hfront (hfront ▸ hresult),
    fun tokens error hfront herror => hnext.interrupts tokens error hfront (hfront ▸ herror)⟩

theorem skip {continuation : Unit → Rule β}
    (hnext : ∀ front, Follows (continuation ()) front causes fun later result =>
      Q (symbol :: later) result) :
    Follows (Rule.skip >>= continuation) (some symbol) causes Q := by
  have hsplit : ∀ tokens : List Token, tokens.head?.map Token.symbol = some symbol →
      ∃ token others, token.symbol = symbol ∧ tokens = token :: others := by
    intro tokens hfront
    obtain ⟨token, hhead, hsymbol⟩ := Option.map_eq_some_iff.mp hfront
    obtain ⟨others, rfl⟩ := List.head?_eq_some_iff.mp hhead
    exact ⟨token, others, hsymbol, rfl⟩
  refine ⟨?_, fun tokens result rest hfront hresult => ?_, fun tokens error hfront herror => ?_⟩
  · obtain ⟨later, result, hresult⟩ := (hnext none).possible
    exact ⟨symbol :: later, result, hresult⟩
  · obtain ⟨token, others, rfl, rfl⟩ := hsplit tokens hfront
    exact ((hnext _).suffix others result rest rfl hresult).trans (List.suffix_cons _ _)
  · obtain ⟨token, others, rfl, rfl⟩ := hsplit tokens hfront
    have hothers : error.Interrupts others causes fun later result =>
        Q ([token].map Token.symbol ++ later) result := (hnext _).interrupts others error rfl herror
    exact hothers.append

/-- A value returned once the front token is dropped. -/
theorem skip_pure {value : α} (hvalue : P [symbol] value) :
    Follows (do Rule.skip; Pure.pure value) (some symbol) causes P :=
  skip fun _ => pure hvalue

theorem expect {word : Keyword} {continuation : Unit → Rule β}
    (hcause : ∀ found, causes (.missingKeyword word found))
    (hnext : ∀ front, Follows (continuation ()) front causes fun later result =>
      Q (.keyword word :: later) result) :
    Follows (Rule.expect word >>= continuation) front causes Q := by
  obtain ⟨later, result, hresult⟩ := (hnext none).possible
  rw [expect_bind]
  refine peek (.ite (fun hfront => ?_) fun _ => .fail (hcause _) hresult)
  subst hfront
  exact skip hnext

/-- Where a symbol may be missing, both ways go on. -/
theorem eat {continuation : Bool → Rule β}
    (hpresent : ∀ front, Follows (continuation true) front causes fun later result =>
      Q (symbol :: later) result)
    (habsent : ∀ front, Follows (continuation false) front causes Q) :
    Follows (Rule.eat symbol >>= continuation) front causes Q := by
  rw [eat_bind]
  refine peek (.ite (fun hfront => ?_) fun _ => habsent front)
  subst hfront
  exact skip hpresent

end Follows

/-! ## Lists -/

namespace Follows

variable {τ : Type} {first item : Rule α} {symbols : τ → List Symbol} {value : τ → α}
  {causes : GrammarCause → Prop} {front : Option Symbol}

theorem afterCommas (htakes : ∀ front, item.Takes front (Spelled symbols value))
    (hitem : ∀ front, item.Follows front causes (Spelled symbols value)) (rounds : Nat) :
    (Rule.afterCommas item rounds).Follows front causes
      (Spelled (fun phrases => followingEntries (phrases.map symbols)) (List.map value)) := by
  induction rounds generalizing front with
  | zero => exact pure ⟨[], rfl, rfl⟩
  | succ rounds ih =>
    refine eat (fun front => ?_) fun _ => pure ⟨[], rfl, rfl⟩
    apply bind (htakes front) (hitem front)
    rintro front _ _ ⟨phrase, rfl, rfl⟩
    apply bind (Takes.afterCommas htakes rounds) ih
    rintro _ _ _ ⟨phrases, rfl, rfl⟩
    exact pure ⟨phrase :: phrases, by simp [followingEntries], rfl⟩

theorem commaList (hfirstTakes : ∀ front, first.Takes front (Spelled symbols value))
    (htakes : ∀ front, item.Takes front (Spelled symbols value))
    (hfirst : ∀ front, first.Follows front causes (Spelled symbols value))
    (hitem : ∀ front, item.Follows front causes (Spelled symbols value)) :
    (Rule.commaList first item).Follows front causes fun taken values => ∃ phrase phrases,
      commaSeparated ((phrase :: phrases).map symbols) = taken ∧
        (phrase :: phrases).map value = values := by
  apply bind (hfirstTakes front) (hfirst front)
  rintro front _ _ ⟨phrase, rfl, rfl⟩
  have hrounds : ∀ rounds, (Rule.afterCommas item rounds).Follows front causes
      (Spelled (fun phrases => followingEntries (phrases.map symbols)) (List.map value)) :=
    afterCommas htakes hitem
  have hrest : Follows (fun tokens => Rule.afterCommas item tokens.length tokens) front causes
      (Spelled (fun phrases => followingEntries (phrases.map symbols)) (List.map value)) :=
    ⟨(hrounds 0).possible, fun tokens => (hrounds tokens.length).suffix tokens,
      fun tokens => (hrounds tokens.length).interrupts tokens⟩
  have hrestTakes : Takes (fun tokens => Rule.afterCommas item tokens.length tokens) front
      (Spelled (fun phrases => followingEntries (phrases.map symbols)) (List.map value)) :=
    ⟨fun tokens => (Takes.afterCommas htakes tokens.length).sound tokens⟩
  apply bind hrestTakes hrest
  rintro _ _ _ ⟨phrases, rfl, rfl⟩
  refine pure ⟨phrase, phrases, ?_, rfl⟩
  rw [List.append_nil]
  rfl

end Follows

end Rule

end Cadence
