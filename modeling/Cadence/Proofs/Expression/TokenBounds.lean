import Cadence.Expression.Tokens
import Cadence.Proofs.Expression.Vocabulary
import Cadence.Schedule.WellFormed

/-!
# What tokens can stand for

Cutting a text into tokens already enforces some of the rules for schedules:
a time lies on the clock, a number is a count and the name of a zone is a word.
-/

namespace Cadence

/-- What the reader of tokens promises about a symbol. -/
def Symbol.WellFormed : Symbol → Prop
  | .number value => value ≤ Numeral.countLimit
  | .time clock => clock.IsOnClock
  | .zone name => ZoneNameWellFormed name
  | _ => True

/-- What is read from digits as a time lies on the clock. -/
theorem isOnClock_of_timeOfDigits? {hour minute : List Char} {time : TimeOfDay}
    (htime : timeOfDigits? hour minute = some time) : time.IsOnClock := by
  obtain ⟨⟨_, hhour, hminute⟩, hsame⟩ := Option.ite_none_right_eq_some.mp htime
  obtain rfl := Option.some.inj hsame
  exact ⟨Nat.lt_succ_of_le hhour, Nat.lt_succ_of_le hminute⟩

namespace Lexeme

/-- What the reader promises about the symbol at the front of a text. -/
def WellFormed (lexeme : Lexeme) : Prop :=
  ∀ symbol, lexeme.symbol = .ok symbol → symbol.WellFormed

theorem wellFormed_readNumber (digits after : List Char) :
    (readNumber digits after).WellFormed := by
  rw [readNumber]
  cases hvalue : Numeral.ofDigits? Numeral.countLimit digits with
  | none => exact nofun
  | some value =>
    have hbound : value ≤ Numeral.countLimit := by
      obtain ⟨hle, hsame⟩ := Option.ite_none_right_eq_some.mp hvalue
      exact Option.some.inj hsame ▸ hle
    intro symbol hsymbol
    dsimp only at hsymbol
    split at hsymbol
    · split at hsymbol
      · exact Except.ok.inj hsymbol ▸ trivial
      · exact Except.ok.inj hsymbol ▸ hbound
    · exact Except.ok.inj hsymbol ▸ hbound

theorem wellFormed_readTime (hourDigits afterColon : List Char) :
    (readTime hourDigits afterColon).WellFormed := by
  rw [readTime]
  intro symbol hsymbol
  dsimp only at hsymbol
  split at hsymbol
  · rename_i time htime
    obtain rfl := Except.ok.inj hsymbol
    exact isOnClock_of_timeOfDigits? htime
  · simp at hsymbol

theorem wellFormed_readNumeric (first : Char) (rest : List Char) :
    (readNumeric first rest).WellFormed := by
  unfold readNumeric
  dsimp only
  split
  · intro symbol hsymbol
    exact Except.ok.inj hsymbol ▸ trivial
  · split
    · split
      · exact wellFormed_readTime _ _
      · exact wellFormed_readNumber _ _
    · exact wellFormed_readNumber _ _

theorem wellFormed_readWord (first : Char) (rest : List Char) :
    (readWord first rest).WellFormed := by
  have hcommon : ∀ entry ∈ commonWords, entry.2.WellFormed := by
    simp [commonWords, Symbol.WellFormed]
  intro symbol hsymbol
  simp only [readWord] at hsymbol
  split at hsymbol
  · rename_i found hfound
    obtain rfl := Except.ok.inj hsymbol
    cases standsFor_of_symbolOfWord? hfound with
    | common hmem => exact hcommon _ hmem
    | weekday | month => trivial
  · simp at hsymbol

theorem wellFormed_readLexeme (first : Char) (rest : List Char) :
    (readLexeme first rest).WellFormed := by
  rw [readLexeme]
  split
  · exact fun symbol hsymbol => Except.ok.inj hsymbol ▸ trivial
  · split
    · exact wellFormed_readNumeric first rest
    · split
      · exact wellFormed_readWord first rest
      · exact nofun

theorem wellFormed_readZoneName {first : Char} (rest : List Char)
    (hfirst : isAsciiBlank first = false) : (readZoneName first rest).WellFormed := by
  intro symbol hsymbol
  obtain rfl := Except.ok.inj hsymbol
  refine ⟨?_, fun c hc => ?_⟩
  · intro hempty
    simp at hempty
  · rw [String.toList_ofList] at hc
    rcases List.mem_cons.mp hc with rfl | hrun
    · exact hfirst
    · simpa only [Bool.not_eq_true'] using List.all_eq_true.mp List.all_takeWhile c hrun

end Lexeme

/-- Every token of a text stands for a well-formed symbol. -/
theorem wellFormed_of_mem_tokensFrom {position : Nat} {zoneNext : Bool} {text : List Char}
    {tokens : List Token} (htokens : tokensFrom position zoneNext text = .ok tokens) :
    ∀ token ∈ tokens, token.symbol.WellFormed := by
  fun_induction tokensFrom position zoneNext text generalizing tokens with
  | case1 | case4 | case5 => simp at htokens
  | case2 =>
    obtain rfl := Except.ok.inj htokens
    exact fun _ hmem => absurd hmem List.not_mem_nil
  | case3 position zoneNext first rest _ ih => exact ih htokens
  | case6 position zoneNext first rest hfirst lexeme stop symbol hsymbol later hlater =>
    rename_i ih
    obtain rfl := Except.ok.inj htokens
    have hwell : lexeme.WellFormed := by
      change (if zoneNext then readZoneName first rest else readLexeme first rest).WellFormed
      split
      · exact Lexeme.wellFormed_readZoneName rest (Bool.eq_false_iff.mpr hfirst)
      · exact Lexeme.wellFormed_readLexeme first rest
    intro token hmem
    rcases List.mem_cons.mp hmem with rfl | hmem
    · exact hwell symbol hsymbol
    · exact ih hlater token hmem

theorem wellFormed_of_mem_tokenize {text : String} {tokens : List Token}
    (htokens : tokenize text = .ok tokens) : ∀ token ∈ tokens, token.symbol.WellFormed :=
  wellFormed_of_mem_tokensFrom htokens

end Cadence
