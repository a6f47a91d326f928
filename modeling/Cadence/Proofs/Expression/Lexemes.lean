import Mathlib
import Cadence.Expression.Tokens
import Cadence.Proofs.Expression.Vocabulary
import Cadence.Proofs.Text.Numerals
import Cadence.Proofs.Text.Separators

/-!
# Lexemes

What stands at the front of a text is read as a symbol just when it is a spelling
of that symbol which ends there.  The spellings are given on their own, by one
form for each kind of symbol, and so is what may stand behind a spelling without
being drawn into it; reading finds exactly these.

A spelling that ends where the text ends is read on its own like it was read in
its text.
-/

namespace Cadence

/-! ## Spellings -/

/-- The ways symbols are spelled, names of zones apart. -/
inductive IsSpelling : List Char → Symbol → Prop
  | comma : IsSpelling [','] .comma
  /-- A word of the vocabulary in any case. -/
  | word {first : Char} {letters : List Char} {symbol : Symbol} (hfirst : first.isAlpha = true)
      (hletters : ∀ c ∈ letters, isWordCharacter c = true)
      (hword : symbolOfWord? (String.ofList ((first :: letters).map Char.toLower)) = some symbol) :
      IsSpelling (first :: letters) symbol
  | date {year : List Char} {value : Nat} {m₁ m₂ d₁ d₂ : Char}
      (hyear : Numeral.Denotes year value) (hlength : year.length = 4)
      (hdigits : [m₁, m₂, d₁, d₂].all Char.isDigit = true) :
      IsSpelling (year ++ ['-', m₁, m₂, '-', d₁, d₂])
        (.date (String.ofList (year ++ ['-', m₁, m₂, '-', d₁, d₂])))
  | time {hour minute : List Char} {value : Nat} {time : TimeOfDay}
      (hhour : Numeral.Denotes hour value) (hlength : hour.length ≤ 2)
      (hminute : ∀ c ∈ minute, c.isDigit = true)
      (htime : timeOfDigits? hour minute = some time) :
      IsSpelling (hour ++ ':' :: minute) (.time time)
  | ordinal {digits : List Char} {value : Nat} {c₁ c₂ : Char}
      (hdigits : Numeral.Denotes digits value) (hlimit : value ≤ Numeral.countLimit)
      (hending : Numeral.isOrdinalEnding c₁ c₂ = true) :
      IsSpelling (digits ++ [c₁, c₂]) (.ordinal value)
  | number {digits : List Char} {value : Nat} (hdigits : Numeral.Denotes digits value)
      (hlimit : value ≤ Numeral.countLimit) : IsSpelling digits (.number value)

/-- Nothing at the front of a text goes on with a spelling of the symbol. -/
def EndsBefore (rest : List Char) : Symbol → Prop
  | .comma | .date _ | .ordinal _ => True
  | .time _ => ∀ c ∈ rest.head?, c.isDigit = false
  | .number _ => (∀ c ∈ rest.head?, c.isDigit = false ∧ c ≠ '-' ∧ c ≠ ':') ∧
      ∀ c₁ c₂ others, rest = c₁ :: c₂ :: others → Numeral.isOrdinalEnding c₁ c₂ = false
  | _ => ∀ c ∈ rest.head?, isWordCharacter c = false

/-- Every spelling ends where the text ends. -/
theorem endsBefore_nil (symbol : Symbol) : EndsBefore [] symbol := by
  cases symbol <;> simp [EndsBefore]

/-! ## Spellings are read -/

/-- Letters and digits neither separate nor list. -/
theorem not_blank_or_comma_of_isAlphanum {c : Char} (hc : c.isAlphanum = true) :
    isAsciiBlank c = false ∧ c ≠ ',' := by
  constructor
  · by_contra hblank
    simp only [isAsciiBlank, Bool.not_eq_false, Bool.or_eq_true, decide_eq_true_eq] at hblank
    rcases hblank with (((rfl | rfl) | rfl) | rfl) | rfl <;> exact absurd hc (by decide)
  · rintro rfl
    exact absurd hc (by decide)

theorem isDigit_eq_false_of_isAlpha {c : Char} (hc : c.isAlpha = true) : c.isDigit = false := by
  simp only [Char.isAlpha, Char.isUpper, Char.isLower, Char.isDigit, Bool.or_eq_true,
    Bool.and_eq_true, decide_eq_true_eq, Bool.and_eq_false_iff, decide_eq_false_iff_not,
    ge_iff_le, UInt32.le_iff_toNat_le] at hc ⊢
  simp at hc ⊢
  omega

/-- An ordinal ending starts with a letter. -/
theorem isAlpha_of_isOrdinalEnding {c₁ c₂ : Char}
    (hending : Numeral.isOrdinalEnding c₁ c₂ = true) : c₁.isAlpha = true := by
  have hletter : c₁.toLower.isAlpha = true := by
    rw [Numeral.isOrdinalEnding] at hending
    split at hending
    all_goals first
      | (rename_i hlower _; rw [hlower]; rfl)
      | cases hending
  unfold Char.toLower at hletter
  split at hletter
  · rename_i hupper
    rw [Char.isAlpha, Char.isUpper, decide_eq_true hupper, Bool.true_or]
  · exact hletter

/-- A word ends where no letter, digit or underscore follows. -/
theorem endsBefore_iff_of_symbolOfWord? {word : String} {symbol : Symbol}
    (hword : symbolOfWord? word = some symbol) (rest : List Char) :
    EndsBefore rest symbol ↔ ∀ c ∈ rest.head?, isWordCharacter c = false := by
  have hcommon : ∀ entry ∈ commonWords,
      EndsBefore rest entry.2 = ∀ c ∈ rest.head?, isWordCharacter c = false := by
    simp [commonWords, EndsBefore]
  cases standsFor_of_symbolOfWord? hword with
  | common hmem => rw [hcommon _ hmem]
  | weekday | month => exact Iff.rfl

/-- Numbers are spelled in figures only. -/
theorem denotes_of_isSpelling {text : List Char} {value : Nat}
    (hspelling : IsSpelling text (.number value)) :
    Numeral.Denotes text value ∧ value ≤ Numeral.countLimit := by
  cases hspelling with
  | @word first letters _ _ _ hword =>
    have hstop := (endsBefore_iff_of_symbolOfWord? hword ['-']).mpr fun c hc =>
      Option.some.inj hc ▸ rfl
    exact absurd rfl (hstop.1 '-' rfl).2.1
  | number hdigits hlimit => exact ⟨hdigits, hlimit⟩

/-- No spelling is the name of a zone. -/
theorem not_isSpelling_zone {text : List Char} {name : String} :
    ¬ IsSpelling text (.zone name) := by
  intro hspelling
  cases hspelling with
  | word _ _ hword =>
    cases standsFor_of_symbolOfWord? hword with
    | common hmem =>
      have hsymbol : Symbol.zone name ∈ commonWords.map Prod.snd := List.mem_map_of_mem hmem
      simp [commonWords] at hsymbol

section Numerals

variable {value : Nat}

theorem not_blank_or_comma_of_denotes {first : Char} {tail : List Char}
    (hdigits : Numeral.Denotes (first :: tail) value) :
    isAsciiBlank first = false ∧ first ≠ ',' := by
  apply not_blank_or_comma_of_isAlphanum
  rw [Char.isAlphanum, hdigits.isDigit first List.mem_cons_self, Bool.or_true]

/-- A digit starts a numeral, which takes all the digits that follow. -/
theorem readLexeme_of_denotes {first : Char} {tail after : List Char}
    (hdigits : Numeral.Denotes (first :: tail) value)
    (hafter : ∀ c ∈ after.head?, c.isDigit = false) :
    readLexeme first (tail ++ after) = readNumeric first (tail ++ after) ∧
      (tail ++ after).takeWhile Char.isDigit = tail ∧
      (tail ++ after).dropWhile Char.isDigit = after := by
  have hfirst := hdigits.isDigit first List.mem_cons_self
  have hcomma := (not_blank_or_comma_of_denotes hdigits).2
  constructor
  · simp only [readLexeme, hcomma, hfirst, if_false, if_true]
  · exact takeWhile_dropWhile_append
      (fun c hc => hdigits.isDigit c (List.mem_cons_of_mem _ hc)) hafter

/-- A numeral that goes on neither as a date nor as a time is a number. -/
theorem readLexeme_eq_readNumber {first : Char} {tail after : List Char}
    (hdigits : Numeral.Denotes (first :: tail) value)
    (hafter : ∀ c ∈ after.head?, c.isDigit = false ∧ c ≠ '-' ∧ c ≠ ':') :
    readLexeme first (tail ++ after) = readNumber (first :: tail) after := by
  obtain ⟨hread, htake, hdrop⟩ := readLexeme_of_denotes hdigits fun c hc => (hafter c hc).1
  have hdate : dateTail? after = none := by
    unfold dateTail?
    split
    · exact absurd rfl (hafter '-' rfl).2.1
    · rfl
  rw [hread, readNumeric, htake, hdrop]
  simp only [hdate, ite_self]
  split
  · exact absurd rfl (hafter ':' rfl).2.2
  · rfl

end Numerals

/-- A spelling that ends before a text is read from the front of both. -/
theorem readLexeme_of_isSpelling {text : List Char} {symbol : Symbol}
    (hspelling : IsSpelling text symbol) : ∃ first body, text = first :: body ∧
      isAsciiBlank first = false ∧ ∀ after, EndsBefore after symbol →
        readLexeme first (body ++ after) = ⟨body.length, .ok symbol⟩ := by
  cases hspelling with
  | comma => exact ⟨',', [], rfl, rfl, fun after _ => rfl⟩
  | @word first letters _ hfirst hletters hword =>
    have halphanum : first.isAlphanum = true := by rw [Char.isAlphanum, hfirst, Bool.true_or]
    obtain ⟨hblank, hcomma⟩ := not_blank_or_comma_of_isAlphanum halphanum
    refine ⟨first, letters, rfl, hblank, fun after hafter => ?_⟩
    have hstop := (endsBefore_iff_of_symbolOfWord? hword after).mp hafter
    have hrun := (takeWhile_dropWhile_append hletters hstop).1
    simp only [readLexeme, hcomma, isDigit_eq_false_of_isAlpha hfirst, hfirst, readWord, hrun,
      hword, if_false, if_true, Bool.false_eq_true]
  | @date year _ m₁ m₂ d₁ d₂ hyear hlength hdigits =>
    obtain ⟨first, tail, rfl⟩ := List.exists_cons_of_ne_nil hyear.ne_nil
    refine ⟨first, tail ++ ['-', m₁, m₂, '-', d₁, d₂], rfl,
      (not_blank_or_comma_of_denotes hyear).1, fun after _ => ?_⟩
    have hhyphen : ∀ c ∈ ('-' :: m₁ :: m₂ :: '-' :: d₁ :: d₂ :: after).head?, c.isDigit = false :=
      fun c hc => Option.some.inj hc ▸ rfl
    have htail : dateTail? ('-' :: m₁ :: m₂ :: '-' :: d₁ :: d₂ :: after) =
        some ['-', m₁, m₂, '-', d₁, d₂] := if_pos hdigits
    obtain ⟨hread, htake, hdrop⟩ := readLexeme_of_denotes hyear hhyphen
    have hnine : tail.length = 3 := Nat.succ.inj hlength
    rw [List.append_assoc]
    change readLexeme first (tail ++ ('-' :: m₁ :: m₂ :: '-' :: d₁ :: d₂ :: after)) = _
    rw [hread, readNumeric, htake, hdrop]
    simp only [hlength, if_true, htail, List.length_append, hnine, List.length_cons,
      List.length_nil]
  | @time hour minute _ time hhour hlength hminute htime =>
    obtain ⟨first, digits, rfl⟩ := List.exists_cons_of_ne_nil hhour.ne_nil
    refine ⟨first, digits ++ ':' :: minute, rfl, (not_blank_or_comma_of_denotes hhour).1, ?_⟩
    intro after hafter
    have hcolon : ∀ c ∈ (':' :: (minute ++ after)).head?, c.isDigit = false :=
      fun c hc => Option.some.inj hc ▸ rfl
    obtain ⟨hread, htake, hdrop⟩ := readLexeme_of_denotes hhour hcolon
    have hminutes := (takeWhile_dropWhile_append hminute hafter).1
    rw [List.append_assoc, List.cons_append, hread, readNumeric, htake, hdrop]
    have hdate : (if (first :: digits).length = 4 then dateTail? (':' :: (minute ++ after))
        else none) = none := ite_self _
    simp only [hdate, if_pos hlength, readTime, hminutes, htime]
    congr 1
    simp only [List.length_append, List.length_cons]
    omega
  | @ordinal digits value c₁ c₂ hdigits hlimit hending =>
    obtain ⟨first, tail, rfl⟩ := List.exists_cons_of_ne_nil hdigits.ne_nil
    refine ⟨first, tail ++ [c₁, c₂], rfl, (not_blank_or_comma_of_denotes hdigits).1, ?_⟩
    intro after _
    have hletter := isAlpha_of_isOrdinalEnding hending
    have hstop : ∀ c ∈ ([c₁, c₂] ++ after).head?, c.isDigit = false ∧ c ≠ '-' ∧ c ≠ ':' := by
      intro c hc
      obtain rfl : c₁ = c := Option.some.inj hc
      refine ⟨isDigit_eq_false_of_isAlpha hletter, ?_, ?_⟩ <;> rintro rfl <;>
        exact absurd hletter (by decide)
    rw [List.append_assoc, readLexeme_eq_readNumber hdigits hstop]
    simp only [readNumber, Numeral.ofDigits?_of_denotes hdigits hlimit, List.cons_append, hending,
      if_true, List.length_append, List.length_cons, List.length_nil]
  | number hdigits hlimit =>
    obtain ⟨first, tail, rfl⟩ := List.exists_cons_of_ne_nil hdigits.ne_nil
    refine ⟨first, tail, rfl, (not_blank_or_comma_of_denotes hdigits).1, ?_⟩
    rintro after ⟨hstop, hnoEnding⟩
    rw [readLexeme_eq_readNumber hdigits hstop]
    simp only [readNumber, Numeral.ofDigits?_of_denotes hdigits hlimit]
    rcases after with _ | ⟨c₁, _ | ⟨c₂, later⟩⟩
    · rfl
    · rfl
    · simp only [hnoEnding c₁ c₂ later rfl, Bool.false_eq_true, if_false, List.length_cons,
        Nat.add_sub_cancel]

/-! ## What is read is a spelling -/

/-- A number stands before what would make it a part of a date or a time. -/
def IsBrokenOff (symbol : Symbol) (after : List Char) : Prop :=
  (∃ value, symbol = .number value) ∧ ∃ c ∈ after.head?, c = '-' ∨ c = ':'

/-- A symbol that a lexeme gives is spelled at the front of a text, up to the
extent of the lexeme.  The spelling ends there, or is a number broken off. -/
def Lexeme.IsSpelledIn (lexeme : Lexeme) (text : List Char) : Prop :=
  ∀ symbol, lexeme.symbol = .ok symbol → ∃ spelling after, text = spelling ++ after ∧
    spelling.length = lexeme.extent + 1 ∧ IsSpelling spelling symbol ∧
    (EndsBefore after symbol ∨ IsBrokenOff symbol after)

/-- A run of characters that pass a test goes up to the first one that fails. -/
theorem exists_run (test : Char → Bool) (text : List Char) : ∃ run after, text = run ++ after ∧
    text.takeWhile test = run ∧ text.dropWhile test = after ∧ (∀ c ∈ run, test c = true) ∧
      ∀ c ∈ after.head?, test c = false := by
  refine ⟨text.takeWhile test, text.dropWhile test, (List.takeWhile_append_dropWhile).symm,
    rfl, rfl, fun c hc => List.all_eq_true.mp List.all_takeWhile c hc, fun c hc => ?_⟩
  have hhead := List.head?_dropWhile_not test text
  rw [Option.mem_def] at hc
  simpa only [hc, Bool.not_eq_true'] using hhead

theorem readWord_isSpelledIn {first : Char} (hfirst : first.isAlpha = true) (rest : List Char) :
    (readWord first rest).IsSpelledIn (first :: rest) := by
  intro symbol hsymbol
  obtain ⟨run, after, htext, htake, _, hrun, hstop⟩ := exists_run isWordCharacter rest
  simp only [readWord, htake] at hsymbol ⊢
  split at hsymbol
  · rename_i found hword
    cases hsymbol
    exact ⟨first :: run, after, by rw [htext, List.cons_append], rfl, .word hfirst hrun hword,
      .inl ((endsBefore_iff_of_symbolOfWord? hword after).mpr hstop)⟩
  · cases hsymbol

section Numerals

variable {digits after : List Char} {value : Nat}

theorem readNumber_isSpelledIn (hdigits : Numeral.Denotes digits value)
    (hstop : ∀ c ∈ after.head?, c.isDigit = false) :
    (readNumber digits after).IsSpelledIn (digits ++ after) := by
  intro symbol hsymbol
  have hlength : digits.length = digits.length - 1 + 1 :=
    (Nat.sub_add_cancel (List.length_pos_iff.mpr hdigits.ne_nil)).symm
  have hnumber : (∀ c₁ c₂ others, after = c₁ :: c₂ :: others →
      Numeral.isOrdinalEnding c₁ c₂ = false) →
        EndsBefore after (.number value) ∨ IsBrokenOff (.number value) after := by
    intro hending
    by_cases hbroken : ∃ c ∈ after.head?, c = '-' ∨ c = ':'
    · exact .inr ⟨⟨value, rfl⟩, hbroken⟩
    · refine .inl ⟨fun c hc => ⟨hstop c hc, ?_⟩, hending⟩
      exact not_or.mp fun hnext => hbroken ⟨c, hc, hnext⟩
  unfold readNumber at hsymbol ⊢
  split at hsymbol
  · cases hsymbol
  · rename_i found hfound
    obtain ⟨hlimit, hvalue⟩ := Option.ite_none_right_eq_some.mp hfound
    obtain rfl : value = found := hdigits.value_eq.symm.trans (Option.some.inj hvalue)
    rw [hdigits.value_eq] at hlimit
    rcases after with _ | ⟨c₁, _ | ⟨c₂, later⟩⟩
    · cases hsymbol
      exact ⟨digits, [], rfl, hlength, .number hdigits hlimit,
        hnumber fun _ _ _ hcons => by cases hcons⟩
    · cases hsymbol
      exact ⟨digits, [c₁], rfl, hlength, .number hdigits hlimit,
        hnumber fun _ _ _ hcons => by cases hcons⟩
    · dsimp only at hsymbol ⊢
      split at hsymbol
      · rename_i hending
        cases hsymbol
        refine ⟨digits ++ [c₁, c₂], later, by rw [List.append_assoc]; rfl, ?_,
          .ordinal hdigits hlimit hending, .inl trivial⟩
        rw [if_pos hending, List.length_append]
        rfl
      · rename_i hending
        cases hsymbol
        refine ⟨digits, c₁ :: c₂ :: later, rfl, ?_, .number hdigits hlimit, ?_⟩
        · rw [if_neg hending, ← hlength]
        · apply hnumber
          rintro _ _ _ ⟨⟩
          exact Bool.eq_false_iff.mpr hending

theorem readTime_isSpelledIn (hdigits : Numeral.Denotes digits value) (hlength : digits.length ≤ 2)
    (afterColon : List Char) :
    (readTime digits afterColon).IsSpelledIn (digits ++ ':' :: afterColon) := by
  intro symbol hsymbol
  obtain ⟨minute, after, htext, htake, _, hminute, hstop⟩ := exists_run Char.isDigit afterColon
  simp only [readTime, htake] at hsymbol ⊢
  split at hsymbol
  · rename_i time htime
    cases hsymbol
    refine ⟨digits ++ ':' :: minute, after, ?_, ?_, .time hdigits hlength hminute htime,
      .inl hstop⟩
    · rw [htext, List.append_assoc, List.cons_append]
    · rw [List.length_append, List.length_cons, Nat.add_assoc]
  · cases hsymbol

/-- The figures of a date behind its year. -/
theorem exists_of_dateTail? {tail : List Char} (htail : dateTail? after = some tail) :
    ∃ m₁ m₂ d₁ d₂ later, after = tail ++ later ∧ tail = ['-', m₁, m₂, '-', d₁, d₂] ∧
      [m₁, m₂, d₁, d₂].all Char.isDigit = true := by
  unfold dateTail? at htail
  split at htail
  · rename_i m₁ m₂ d₁ d₂ later
    obtain ⟨hdigits, htail⟩ := Option.ite_none_right_eq_some.mp htail
    exact ⟨m₁, m₂, d₁, d₂, later, Option.some.inj htail ▸ rfl, (Option.some.inj htail).symm,
      hdigits⟩
  · cases htail

theorem readNumeric_isSpelledIn {first : Char} (hfirst : first.isDigit = true)
    (rest : List Char) : (readNumeric first rest).IsSpelledIn (first :: rest) := by
  obtain ⟨run, after, htext, htake, hdrop, hrun, hstop⟩ := exists_run Char.isDigit rest
  have hdigits : Numeral.Denotes (first :: run) (Nat.ofDigitChars 10 (first :: run) 0) :=
    ⟨List.cons_ne_nil _ _, List.forall_mem_cons.mpr ⟨hfirst, hrun⟩, rfl⟩
  rw [htext, ← List.cons_append, readNumeric, ← htext, htake, hdrop]
  split
  · rename_i tail htail
    obtain ⟨hlength, htail⟩ := Option.ite_none_right_eq_some.mp htail
    obtain ⟨m₁, m₂, d₁, d₂, later, rfl, rfl, hfigures⟩ := exists_of_dateTail? htail
    rintro symbol ⟨⟩
    refine ⟨first :: run ++ ['-', m₁, m₂, '-', d₁, d₂], later, ?_, ?_,
      .date hdigits hlength hfigures, .inl trivial⟩
    · rw [List.append_assoc]
    · rw [List.length_append, hlength]
      rfl
  · split
    · split
      · rename_i hlength
        exact readTime_isSpelledIn hdigits hlength _
      · exact readNumber_isSpelledIn hdigits hstop
    · exact readNumber_isSpelledIn hdigits hstop

end Numerals

theorem readLexeme_isSpelledIn (first : Char) (rest : List Char) :
    (readLexeme first rest).IsSpelledIn (first :: rest) := by
  rw [readLexeme]
  split
  · rename_i hcomma
    rintro symbol ⟨⟩
    exact ⟨[','], rest, by rw [hcomma]; rfl, rfl, .comma, .inl trivial⟩
  · split
    · rename_i hdigit
      exact readNumeric_isSpelledIn hdigit rest
    · split
      · rename_i hletter
        exact readWord_isSpelledIn hletter rest
      · rintro symbol ⟨⟩

/-- What is read at the front of a text is a spelling, as long as its extent. -/
theorem exists_spelling_of_readLexeme {first : Char} {rest : List Char} {symbol : Symbol}
    (hread : (readLexeme first rest).symbol = .ok symbol) :
    ∃ body after, rest = body ++ after ∧ readLexeme first rest = ⟨body.length, .ok symbol⟩ ∧
      IsSpelling (first :: body) symbol ∧
      (EndsBefore after symbol ∨ IsBrokenOff symbol after) := by
  obtain ⟨spelling, after, htext, hlength, hspelling, hafter⟩ :=
    readLexeme_isSpelledIn first rest symbol hread
  obtain ⟨c, body, rfl⟩ := List.exists_cons_of_length_eq_add_one hlength
  obtain ⟨rfl, rfl⟩ := List.cons.inj htext
  refine ⟨body, after, rfl, ?_, hspelling, hafter⟩
  rw [← hread, Nat.succ.inj hlength]

end Cadence
