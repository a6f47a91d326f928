import Cadence.Expression.Grammar
import Cadence.Proofs.Expression.WrittenText

/-!
# What rules read

Two statements about a rule of the grammar, each with a lemma for every way in
which rules are put together.  `Rule.Reads` says that the rule takes certain
symbols from the front and returns a certain value.  `Rule.Takes` says that
whatever the rule takes from the front and returns stand in a relation.

A list ends where no comma follows, a range where no `to` follows and a window
where no `on` follows, so `Rule.Reads` names what may stand behind what is read.
-/

namespace Cadence

namespace Rule

variable {α β : Type}

/-- From tokens with the symbols `before` a rule reads a value and leaves tokens
with the symbols `after`. -/
structure Reads (rule : Rule α) (before : List Symbol) (value : α) (after : List Symbol) :
    Prop where
  complete : ∀ tokens, tokens.map Token.symbol = before →
    ∃ rest, rule tokens = .ok (value, rest) ∧ rest.map Token.symbol = after

namespace Reads

variable {value : α} {result : β} {before middle after : List Symbol} {symbol : Symbol}

theorem pure : Reads (pure value) after value after :=
  ⟨fun tokens htokens => ⟨tokens, rfl, htokens⟩⟩

theorem bind {rule : Rule α} {continuation : α → Rule β} (hrule : Reads rule before value middle)
    (hnext : Reads (continuation value) middle result after) :
    Reads (rule >>= continuation) before result after := by
  refine ⟨fun tokens htokens => ?_⟩
  obtain ⟨rest, hfirst, hrest⟩ := hrule.complete tokens htokens
  obtain ⟨last, hsecond, hlast⟩ := hnext.complete rest hrest
  refine ⟨last, ?_, hlast⟩
  rw [bind_apply, hfirst]
  exact hsecond

theorem map {rule : Rule α} {f : α → β} (hrule : Reads rule before value after) :
    Reads (f <$> rule) before (f value) after :=
  hrule.bind pure

theorem peek : Reads Rule.peek before before.head? before := by
  refine ⟨fun tokens htokens => ⟨tokens, ?_, htokens⟩⟩
  rw [Rule.peek, ← htokens, List.head?_map]

theorem skip : Reads Rule.skip (symbol :: after) () after := by
  refine ⟨fun tokens htokens => ⟨tokens.tail, rfl, ?_⟩⟩
  rw [List.map_tail, htokens, List.tail_cons]

/-- A value returned once the front token is dropped. -/
theorem skip_pure : Reads (do Rule.skip; Pure.pure value) (symbol :: after) value after :=
  skip.bind pure

/-- Where a token stands does not matter to what is read. -/
theorem here {continuation : Option Span → Rule β}
    (hnext : ∀ span, Reads (continuation span) before result after) :
    Reads (Rule.here >>= continuation) before result after :=
  ⟨fun tokens htokens => (hnext _).complete tokens htokens⟩

theorem eat_present : Reads (Rule.eat symbol) (symbol :: after) true after := by
  apply peek.bind
  rw [List.head?_cons, if_pos rfl]
  exact skip_pure

theorem eat_absent (habsent : before.head? ≠ some symbol) :
    Reads (Rule.eat symbol) before false before := by
  apply peek.bind
  rw [if_neg habsent]
  exact pure

theorem expect {word : Keyword} : Reads (Rule.expect word) (.keyword word :: after) () after := by
  apply peek.bind
  rw [List.head?_cons, if_pos rfl]
  exact skip

end Reads

/-- Where a rule succeeds, on tokens with a given front, the symbols it takes and
the value it returns are related. -/
structure Takes (rule : Rule α) (front : Option Symbol) (P : List Symbol → α → Prop) :
    Prop where
  sound : ∀ tokens value rest, tokens.head?.map Token.symbol = front →
    rule tokens = .ok (value, rest) →
      ∃ taken, tokens.map Token.symbol = taken ++ rest.map Token.symbol ∧ P taken value

namespace Takes

variable {P : List Symbol → α → Prop} {Q : List Symbol → β → Prop} {front : Option Symbol}
  {symbol : Symbol}

theorem pure {value : α} (hvalue : P [] value) : Takes (pure value) front P := by
  refine ⟨fun tokens result rest _ hresult => ?_⟩
  obtain ⟨rfl, rfl⟩ := Prod.mk.inj (Except.ok.inj hresult)
  exact ⟨[], rfl, hvalue⟩

theorem bind {rule : Rule α} {continuation : α → Rule β} (hrule : Takes rule front P)
    (hnext : ∀ front taken value, P taken value →
      Takes (continuation value) front fun later result => Q (taken ++ later) result) :
    Takes (rule >>= continuation) front Q := by
  refine ⟨fun tokens result rest hfront hresult => ?_⟩
  rw [bind_apply] at hresult
  split at hresult
  · rename_i value middle hmiddle
    obtain ⟨taken, htaken, hvalue⟩ := hrule.sound tokens value middle hfront hmiddle
    obtain ⟨later, hlater, hresult⟩ :=
      (hnext _ taken value hvalue).sound middle result rest rfl hresult
    exact ⟨taken ++ later, by rw [htaken, hlater, List.append_assoc], hresult⟩
  · simp at hresult

theorem imp {rule : Rule α} {P' : List Symbol → α → Prop} (hrule : Takes rule front P)
    (himp : ∀ taken value, P taken value → P' taken value) : Takes rule front P' := by
  refine ⟨fun tokens value rest hfront hresult => ?_⟩
  obtain ⟨taken, htaken, hvalue⟩ := hrule.sound tokens value rest hfront hresult
  exact ⟨taken, htaken, himp taken value hvalue⟩

theorem map {rule : Rule α} {f : α → β} (hrule : Takes rule front P)
    (hmap : ∀ taken value, P taken value → Q taken (f value)) : Takes (f <$> rule) front Q :=
  hrule.bind fun _ taken value hvalue =>
    pure ((List.append_nil taken).symm ▸ hmap taken value hvalue)

theorem fail (cause : GrammarCause) : Takes (Rule.fail cause) front P :=
  ⟨fun _ _ _ _ hresult => by simp [Rule.fail] at hresult⟩

theorem failAt (cause : GrammarCause) (span : Option Span) :
    Takes (Rule.failAt cause span) front P :=
  ⟨fun _ _ _ _ hresult => by simp [Rule.failAt] at hresult⟩

theorem ite {c : Prop} [Decidable c] {first second : Rule α} (hfirst : c → Takes first front P)
    (hsecond : ¬ c → Takes second front P) : Takes (if c then first else second) front P := by
  split
  · rename_i hc
    exact hfirst hc
  · rename_i hc
    exact hsecond hc

/-- Looking at the front takes nothing and finds the front. -/
theorem peek {continuation : Option Symbol → Rule β} (hnext : Takes (continuation front) front Q) :
    Takes (Rule.peek >>= continuation) front Q :=
  ⟨fun tokens result rest hfront hresult =>
    hnext.sound tokens result rest hfront (hfront ▸ hresult)⟩

theorem skip {continuation : Unit → Rule β}
    (hnext : ∀ front,
      Takes (continuation ()) front fun later result => Q (symbol :: later) result) :
    Takes (Rule.skip >>= continuation) (some symbol) Q := by
  refine ⟨fun tokens result rest hfront hresult => ?_⟩
  obtain ⟨token, hhead, rfl⟩ := Option.map_eq_some_iff.mp hfront
  obtain ⟨others, rfl⟩ := List.head?_eq_some_iff.mp hhead
  obtain ⟨later, hlater, hresult⟩ := (hnext _).sound others result rest rfl hresult
  exact ⟨token.symbol :: later, congrArg (token.symbol :: ·) hlater, hresult⟩

/-- A value returned once the front token is dropped. -/
theorem skip_pure {value : α} (hvalue : P [symbol] value) :
    Takes (do Rule.skip; Pure.pure value) (some symbol) P :=
  skip fun _ => pure hvalue

theorem here {continuation : Option Span → Rule β}
    (hnext : ∀ span, Takes (continuation span) front Q) :
    Takes (Rule.here >>= continuation) front Q :=
  ⟨fun tokens result rest hfront hresult => (hnext _).sound tokens result rest hfront hresult⟩

theorem expect {word : Keyword} {continuation : Unit → Rule β}
    (hnext : ∀ front,
      Takes (continuation ()) front fun later result => Q (.keyword word :: later) result) :
    Takes (Rule.expect word >>= continuation) front Q := by
  have hword : Takes (Rule.expect word) front fun taken _ => taken = [.keyword word] := by
    refine peek (.ite (fun hfront => ?_) fun _ => .fail _)
    subst hfront
    exact skip_pure rfl
  refine hword.bind fun front taken _ htaken => ?_
  subst htaken
  exact hnext front

/-- A symbol is taken where it stands at the front. -/
theorem eat {continuation : Bool → Rule β}
    (hpresent : ∀ front,
      Takes (continuation true) front fun later result => Q (symbol :: later) result)
    (habsent : ∀ front, Takes (continuation false) front Q) :
    Takes (Rule.eat symbol >>= continuation) front Q := by
  have hfound : Takes (Rule.eat symbol) front fun taken found =>
      found = true ∧ taken = [symbol] ∨ found = false ∧ taken = [] := by
    refine peek (.ite (fun hfront => ?_) fun _ => pure (.inr ⟨rfl, rfl⟩))
    subst hfront
    exact skip_pure (.inl ⟨rfl, rfl⟩)
  apply hfound.bind
  rintro front _ _ (⟨rfl, rfl⟩ | ⟨rfl, rfl⟩)
  · exact hpresent front
  · exact habsent front

end Takes

end Rule

/-! ## What stands behind a part -/

/-- A sequence that is at its end or goes on with one of some keywords. -/
def GoesOnWith (words : List Keyword) (symbols : List Symbol) : Prop :=
  ∀ symbol ∈ symbols.head?, ∃ word ∈ words, symbol = .keyword word

namespace GoesOnWith

variable {words : List Keyword} {after : List Symbol}

theorem cons {word : Keyword} (hword : word ∈ words) :
    GoesOnWith words (.keyword word :: after) :=
  fun _ hsymbol => ⟨word, hword, (Option.some.inj hsymbol).symm⟩

theorem head?_ne_comma (hafter : GoesOnWith words after) : after.head? ≠ some .comma := by
  intro hcomma
  obtain ⟨word, _, hsame⟩ := hafter .comma hcomma
  exact Symbol.noConfusion hsame

theorem head?_ne_keyword (hafter : GoesOnWith words after) {word : Keyword}
    (hword : word ∉ words) : after.head? ≠ some (.keyword word) := by
  intro hhead
  obtain ⟨other, hother, hsame⟩ := hafter _ hhead
  exact hword (Symbol.keyword.inj hsame ▸ hother)

end GoesOnWith

/-! ## Lists -/

/-- The entries of a list behind the first, each with its comma. -/
def followingEntries (entries : List (List Symbol)) : List Symbol :=
  entries.flatMap fun entry => .comma :: entry

theorem length_le_followingEntries (entries : List (List Symbol)) :
    entries.length ≤ (followingEntries entries).length := by
  induction entries with
  | nil => exact Nat.zero_le _
  | cons entry entries ih =>
    simp only [followingEntries, List.flatMap_cons, List.length_append, List.length_cons] at ih ⊢
    omega

/-- Behind an entry of a list stands a comma or what stands behind the list. -/
theorem head?_followingEntries_ne {word : Keyword} {after : List Symbol}
    (hafter : after.head? ≠ some (.keyword word)) (entries : List (List Symbol)) :
    (followingEntries entries ++ after).head? ≠ some (.keyword word) := by
  cases entries with
  | nil => exact hafter
  | cons entry entries => exact fun hhead => Symbol.noConfusion (Option.some.inj hhead)

namespace Rule

variable {α τ : Type} {first item : Rule α} {symbols : τ → List Symbol} {value : τ → α}

/-- A rule reads an entry of a list wherever no `to` stands behind it. -/
def ReadsEntry (item : Rule α) (symbols : List Symbol) (value : α) : Prop :=
  ∀ rest, rest.head? ≠ some (.keyword .«to») → Reads item (symbols ++ rest) value rest

/-- Symbols are those of a phrase with a given value. -/
def Spelled (symbols : τ → List Symbol) (value : τ → α) (taken : List Symbol) (result : α) :
    Prop :=
  ∃ phrase, symbols phrase = taken ∧ value phrase = result

namespace Reads

variable {words : List Keyword} {after : List Symbol}

theorem afterCommas {phrases : List τ} {rounds : Nat} (hrounds : phrases.length ≤ rounds)
    (hcomma : after.head? ≠ some .comma) (hto : after.head? ≠ some (.keyword .«to»))
    (hitem : ∀ phrase, ReadsEntry item (symbols phrase) (value phrase)) :
    Reads (Rule.afterCommas item rounds) (followingEntries (phrases.map symbols) ++ after)
      (phrases.map value) after := by
  induction phrases generalizing rounds with
  | nil =>
    cases rounds with
    | zero => exact pure
    | succ rounds => exact (eat_absent hcomma).bind pure
  | cons phrase phrases ih =>
    cases rounds with
    | zero => exact absurd hrounds (Nat.not_succ_le_zero _)
    | succ rounds =>
      have hfirst := hitem phrase _ (head?_followingEntries_ne hto (phrases.map symbols))
      have hrest := ih (Nat.le_of_succ_le_succ hrounds)
      rw [List.map_cons, followingEntries, List.flatMap_cons, List.cons_append, List.cons_append,
        List.append_assoc]
      exact eat_present.bind (hfirst.bind (hrest.bind pure))

/-- A list with at least one entry is read up to what stands behind it. -/
theorem commaList {phrases : List τ} (hne : phrases ≠ []) (hafter : GoesOnWith words after)
    (hto : .«to» ∉ words) (hfirst : ∀ phrase, ReadsEntry first (symbols phrase) (value phrase))
    (hitem : ∀ phrase, ReadsEntry item (symbols phrase) (value phrase)) :
    Reads (Rule.commaList first item) (commaSeparated (phrases.map symbols) ++ after)
      (phrases.map value) after := by
  have hto := hafter.head?_ne_keyword hto
  obtain ⟨phrase, phrases, rfl⟩ := List.exists_cons_of_ne_nil hne
  have hhead := hfirst phrase _ (head?_followingEntries_ne hto (phrases.map symbols))
  have hrest : Reads (fun tokens => Rule.afterCommas item tokens.length tokens)
      (followingEntries (phrases.map symbols) ++ after) (phrases.map value) after := by
    refine ⟨fun tokens htokens => ?_⟩
    have hrounds : phrases.length ≤ tokens.length := by
      calc
        phrases.length = (phrases.map symbols).length := (List.length_map symbols).symm
        _ ≤ (followingEntries (phrases.map symbols)).length := length_le_followingEntries _
        _ ≤ (followingEntries (phrases.map symbols) ++ after).length := by
          rw [List.length_append]
          exact Nat.le_add_right _ _
        _ = tokens.length := by rw [← htokens, List.length_map]
    exact (afterCommas hrounds hafter.head?_ne_comma hto hitem).complete tokens htokens
  rw [List.map_cons, commaSeparated, List.append_assoc]
  exact hhead.bind (hrest.bind pure)

end Reads

namespace Takes

variable {front : Option Symbol}

theorem afterCommas (hitem : ∀ front, item.Takes front (Spelled symbols value)) (rounds : Nat) :
    (Rule.afterCommas item rounds).Takes front
      (Spelled (fun phrases => followingEntries (phrases.map symbols)) (List.map value)) := by
  induction rounds generalizing front with
  | zero => exact pure ⟨[], rfl, rfl⟩
  | succ rounds ih =>
    refine eat (fun front => ?_) fun _ => pure ⟨[], rfl, rfl⟩
    apply (hitem front).bind
    rintro front _ _ ⟨phrase, rfl, rfl⟩
    apply ih.bind
    rintro _ _ _ ⟨phrases, rfl, rfl⟩
    exact pure ⟨phrase :: phrases, by simp [followingEntries], rfl⟩

theorem commaList (hfirst : ∀ front, first.Takes front (Spelled symbols value))
    (hitem : ∀ front, item.Takes front (Spelled symbols value)) :
    (Rule.commaList first item).Takes front fun taken values => ∃ phrase phrases,
      commaSeparated ((phrase :: phrases).map symbols) = taken ∧
        (phrase :: phrases).map value = values := by
  apply (hfirst front).bind
  rintro front _ _ ⟨phrase, rfl, rfl⟩
  have hrest : Takes (fun tokens => Rule.afterCommas item tokens.length tokens) front
      (Spelled (fun phrases => followingEntries (phrases.map symbols)) (List.map value)) :=
    ⟨fun tokens => (afterCommas hitem tokens.length).sound tokens⟩
  apply hrest.bind
  rintro _ _ _ ⟨phrases, rfl, rfl⟩
  refine pure ⟨phrase, phrases, ?_, rfl⟩
  rw [List.append_nil]
  rfl

end Takes

end Rule

end Cadence
