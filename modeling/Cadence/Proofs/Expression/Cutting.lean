import Cadence.Proofs.Expression.Lexemes
import Cadence.Proofs.Text.Spans

/-!
# Cutting as a run

While a text is cut, a place in it is known by its byte position, by whether the
name of a zone is due and by the characters from there on.  Cutting runs from
place to place: a blank is passed over, a lexeme becomes a token.  A text has
tokens if the run reaches its end, and an error where the run stops before.

What stands behind a place has no part in the run that leads there, apart from
the character or two that a reader has to see to know where a lexeme ends.  So a
run is repeated on a text that goes on in another way, if both texts go on with a
digit or both go on with a letter; only a number right before that letter may
become an ordinal.
-/

namespace Cadence

/-- A place in a text that is cut into tokens. -/
structure Place where
  position : Nat
  zoneNext : Bool
  rest : List Char

/-- What is read at the front of a text, the name of a zone if one is due. -/
def lexemeAt (zoneNext : Bool) (first : Char) (rest : List Char) : Lexeme :=
  if zoneNext then readZoneName first rest else readLexeme first rest

/-- The tokens that are cut on the way from a place to a later one. -/
inductive Cuts : Place → List Token → Place → Prop
  | stop {place : Place} : Cuts place [] place
  | blank {position : Nat} {zoneNext : Bool} {c : Char} {rest : List Char} {tokens : List Token}
      {last : Place} (hblank : isAsciiBlank c = true)
      (hrest : Cuts ⟨position + 1, zoneNext, rest⟩ tokens last) :
      Cuts ⟨position, zoneNext, c :: rest⟩ tokens last
  | token {position : Nat} {zoneNext : Bool} {first : Char} {body after : List Char}
      {symbol : Symbol} {tokens : List Token} {last : Place}
      (hfirst : isAsciiBlank first = false)
      (hread : lexemeAt zoneNext first (body ++ after) = ⟨body.length, .ok symbol⟩)
      (hrest : Cuts ⟨position + byteLength (first :: body), symbol = .keyword .«in», after⟩ tokens
        last) :
      Cuts ⟨position, zoneNext, first :: (body ++ after)⟩
        (⟨symbol, ⟨position, position + byteLength (first :: body)⟩⟩ :: tokens) last

/-- The errors of places at which a run stops. -/
inductive Fails : Place → LexicalError → Prop
  | ended {position : Nat} : Fails ⟨position, true, []⟩ ⟨.missingZone, .empty position⟩
  | lexeme {position : Nat} {zoneNext : Bool} {first : Char} {rest : List Char}
      {cause : LexicalCause} (hfirst : isAsciiBlank first = false)
      (hread : (lexemeAt zoneNext first rest).symbol = .error cause) :
      Fails ⟨position, zoneNext, first :: rest⟩ ⟨cause, ⟨position,
        position + byteLength (first :: rest.take (lexemeAt zoneNext first rest).extent)⟩⟩

/-! ## Steps -/

section Steps

variable {position : Nat} {zoneNext : Bool} {first : Char} {body after rest : List Char}
  {symbol : Symbol}

theorem tokensFrom_blank (hblank : isAsciiBlank first = true) :
    tokensFrom position zoneNext (first :: rest) = tokensFrom (position + 1) zoneNext rest := by
  rw [tokensFrom, if_pos hblank]

theorem tokensFrom_token (hfirst : isAsciiBlank first = false)
    (hread : lexemeAt zoneNext first (body ++ after) = ⟨body.length, .ok symbol⟩) :
    tokensFrom position zoneNext (first :: (body ++ after)) =
      (tokensFrom (position + byteLength (first :: body)) (symbol = .keyword .«in») after).map
        (⟨symbol, ⟨position, position + byteLength (first :: body)⟩⟩ :: ·) := by
  have hstep := hread
  rw [lexemeAt] at hstep
  rw [tokensFrom, if_neg (Bool.eq_false_iff.mp hfirst)]
  simp only [hstep, List.take_left', List.drop_left']
  cases tokensFrom (position + byteLength (first :: body)) (symbol = .keyword .«in») after <;> rfl

theorem tokensFrom_error {cause : LexicalCause} (hfirst : isAsciiBlank first = false)
    (hread : (lexemeAt zoneNext first rest).symbol = .error cause) :
    tokensFrom position zoneNext (first :: rest) = .error ⟨cause, ⟨position,
      position + byteLength (first :: rest.take (lexemeAt zoneNext first rest).extent)⟩⟩ := by
  have hstep := hread
  rw [lexemeAt] at hstep
  rw [tokensFrom, if_neg (Bool.eq_false_iff.mp hfirst)]
  simp only [hstep]
  rfl

/-- The name of a zone goes up to the next blank. -/
theorem lexemeAt_zone (hbody : ∀ c ∈ body, isAsciiBlank c = false)
    (hafter : ∀ c ∈ after.head?, isAsciiBlank c = true) : lexemeAt true first (body ++ after) =
      ⟨body.length, .ok (.zone (String.ofList (first :: body)))⟩ := by
  have hrun : (body ++ after).takeWhile (!isAsciiBlank ·) = body := by
    refine (takeWhile_dropWhile_append (fun c hc => ?_) fun c hc => ?_).1
    · rw [hbody c hc]
      rfl
    · rw [hafter c hc]
      rfl
  simp only [lexemeAt, readZoneName, hrun, if_true]

theorem exists_zoneName (rest : List Char) : ∃ body after, rest = body ++ after ∧
    (∀ c ∈ body, isAsciiBlank c = false) ∧ ∀ c ∈ after.head?, isAsciiBlank c = true := by
  obtain ⟨run, after, htext, _, _, hrun, hstop⟩ := exists_run (!isAsciiBlank ·) rest
  refine ⟨run, after, htext, ?_, ?_⟩
  · simpa only [Bool.not_eq_true'] using hrun
  · simpa only [Bool.not_eq_false'] using hstop

theorem zone_of_lexemeAt
    (hread : lexemeAt true first (body ++ after) = ⟨body.length, .ok symbol⟩) :
    symbol = .zone (String.ofList (first :: body)) ∧ (∀ c ∈ body, isAsciiBlank c = false) ∧
      ∀ c ∈ after.head?, isAsciiBlank c = true := by
  obtain ⟨name, later, htext, hname, hlater⟩ := exists_zoneName (body ++ after)
  rw [htext, lexemeAt_zone hname hlater, Lexeme.mk.injEq, Except.ok.injEq] at hread
  obtain ⟨rfl, rfl⟩ := List.append_inj htext hread.1.symm
  exact ⟨hread.2.symm, hname, hlater⟩

/-- Where no name of a zone is due, what is read is a spelling. -/
theorem isSpelling_of_lexemeAt
    (hread : lexemeAt false first (body ++ after) = ⟨body.length, .ok symbol⟩) :
    IsSpelling (first :: body) symbol ∧ (EndsBefore after symbol ∨ IsBrokenOff symbol after) := by
  have hsymbol : (readLexeme first (body ++ after)).symbol = .ok symbol :=
    congrArg Lexeme.symbol hread
  obtain ⟨spelled, later, htext, hlexeme, hspelling, hafter⟩ :=
    exists_spelling_of_readLexeme hsymbol
  have hlength : body.length = spelled.length :=
    congrArg Lexeme.extent (hread.symm.trans hlexeme)
  obtain ⟨rfl, rfl⟩ := List.append_inj htext hlength
  exact ⟨hspelling, hafter⟩

/-- A symbol that ends before a text is read there from the front. -/
theorem lexemeAt_of_isSpelling (hspelling : IsSpelling (first :: body) symbol)
    (hafter : EndsBefore after symbol) : isAsciiBlank first = false ∧
      lexemeAt false first (body ++ after) = ⟨body.length, .ok symbol⟩ := by
  obtain ⟨c, spelled, hcons, hblank, hread⟩ := readLexeme_of_isSpelling hspelling
  obtain ⟨rfl, rfl⟩ := List.cons.inj hcons
  exact ⟨hblank, hread after hafter⟩

/-- A lexeme that gives a symbol is as long as its extent says. -/
theorem exists_body_of_lexemeAt (hread : (lexemeAt zoneNext first rest).symbol = .ok symbol) :
    ∃ body after, rest = body ++ after ∧
      lexemeAt zoneNext first (body ++ after) = ⟨body.length, .ok symbol⟩ := by
  cases zoneNext with
  | true =>
    obtain ⟨body, after, rfl, hbody, hafter⟩ := exists_zoneName rest
    have hzone : lexemeAt true first (body ++ after) =
        ⟨body.length, .ok (.zone (String.ofList (first :: body)))⟩ := lexemeAt_zone hbody hafter
    rw [hzone] at hread
    exact ⟨body, after, rfl, hzone.trans (congrArg (Lexeme.mk body.length) hread)⟩
  | false =>
    obtain ⟨body, after, rfl, hspelled, _⟩ := exists_spelling_of_readLexeme hread
    exact ⟨body, after, rfl, hspelled⟩

end Steps

/-! ## Runs -/

section Runs

variable {place last : Place} {tokens : List Token}

/-- The tokens of a text are those of a run followed by those from its last place. -/
theorem Cuts.tokensFrom_eq (hcuts : Cuts place tokens last) :
    tokensFrom place.position place.zoneNext place.rest =
      (tokensFrom last.position last.zoneNext last.rest).map (tokens ++ ·) := by
  induction hcuts with
  | @stop place =>
    cases tokensFrom place.position place.zoneNext place.rest <;> rfl
  | blank hblank hrest ih => rw [tokensFrom_blank hblank, ih]
  | @token _ _ _ _ _ _ _ last hfirst hread hrest ih =>
    rw [tokensFrom_token hfirst hread, ih]
    cases tokensFrom last.position last.zoneNext last.rest <;> rfl

theorem Cuts.trans {later : List Token} {final : Place} (hcuts : Cuts place tokens last)
    (hlater : Cuts last later final) : Cuts place (tokens ++ later) final := by
  induction hcuts with
  | stop => exact hlater
  | blank hblank _ ih => exact .blank hblank (ih hlater)
  | token hfirst hread _ ih => exact .token hfirst hread (ih hlater)

/-- A run counts the bytes of the characters it passes. -/
theorem Cuts.exists_passed (hcuts : Cuts place tokens last) : ∃ passed,
    place.rest = passed ++ last.rest ∧ last.position = place.position + byteLength passed := by
  induction hcuts with
  | stop => exact ⟨[], rfl, rfl⟩
  | @blank position zoneNext c _ _ _ hblank hrest ih =>
    obtain ⟨passed, htext, hposition⟩ := ih
    refine ⟨c :: passed, congrArg (c :: ·) htext, ?_⟩
    rw [hposition, byteLength, utf8Size_of_isAsciiBlank hblank, Nat.add_assoc]
  | @token _ _ first body _ _ _ _ hfirst hread hrest ih =>
    obtain ⟨passed, htext, hposition⟩ := ih
    dsimp only at htext hposition ⊢
    refine ⟨first :: body ++ passed, ?_, ?_⟩
    · rw [htext, ← List.append_assoc]
      rfl
    · rw [hposition, byteLength_append, Nat.add_assoc]

theorem Cuts.position_le (hcuts : Cuts place tokens last) : place.position ≤ last.position := by
  obtain ⟨passed, _, hposition⟩ := hcuts.exists_passed
  omega

/-- A run stops nowhere but at the end of a text or at a place that fails. -/
theorem exists_cuts (position : Nat) (zoneNext : Bool) (text : List Char) :
    ∃ tokens last, Cuts ⟨position, zoneNext, text⟩ tokens last ∧
      (last.rest = [] ∧ last.zoneNext = false ∨ ∃ error, Fails last error) := by
  induction hsize : text.length using Nat.strong_induction_on
    generalizing position zoneNext text with
  | _ size ih =>
    subst hsize
    rcases text with _ | ⟨first, rest⟩
    · cases zoneNext with
      | false => exact ⟨[], _, .stop, .inl ⟨rfl, rfl⟩⟩
      | true => exact ⟨[], _, .stop, .inr ⟨_, .ended⟩⟩
    · cases hfirst : isAsciiBlank first with
      | true =>
        obtain ⟨tokens, last, hcuts, hlast⟩ :=
          ih rest.length (Nat.lt_succ_self _) (position + 1) zoneNext rest rfl
        exact ⟨tokens, last, .blank hfirst hcuts, hlast⟩
      | false =>
        cases hread : (lexemeAt zoneNext first rest).symbol with
        | error cause => exact ⟨[], _, .stop, .inr ⟨_, .lexeme hfirst hread⟩⟩
        | ok symbol =>
          obtain ⟨body, after, rfl, hlexeme⟩ := exists_body_of_lexemeAt hread
          have hshorter : after.length < (first :: (body ++ after)).length := by
            rw [List.length_cons, List.length_append]
            omega
          obtain ⟨tokens, last, hcuts, hlast⟩ := ih after.length hshorter
            (position + byteLength (first :: body)) (symbol = .keyword .«in») after rfl
          exact ⟨_, last, .token hfirst hlexeme hcuts, hlast⟩

theorem Fails.tokensFrom_eq {error : LexicalError} (hfails : Fails place error) :
    tokensFrom place.position place.zoneNext place.rest = .error error := by
  cases hfails with
  | ended => rw [tokensFrom]; rfl
  | lexeme hfirst hread => exact tokensFrom_error hfirst hread

theorem Fails.start_eq {error : LexicalError} (hfails : Fails place error) :
    error.span.start = place.position := by
  cases hfails <;> rfl

/-- A text with tokens is cut up to its end. -/
theorem exists_cuts_of_ok {position : Nat} {zoneNext : Bool} {text : List Char}
    (htokens : tokensFrom position zoneNext text = .ok tokens) :
    ∃ final, Cuts ⟨position, zoneNext, text⟩ tokens ⟨final, false, []⟩ := by
  obtain ⟨cut, ⟨final, zone, rest⟩, hcuts, ⟨rfl, rfl⟩ | ⟨error, hfails⟩⟩ :=
    exists_cuts position zoneNext text
  · have hall := hcuts.tokensFrom_eq
    rw [htokens, tokensFrom] at hall
    obtain rfl : tokens = cut := (Except.ok.inj hall).trans (List.append_nil cut)
    exact ⟨final, hcuts⟩
  · have hall := hcuts.tokensFrom_eq
    rw [htokens, hfails.tokensFrom_eq] at hall
    cases hall

/-- A text without tokens is cut up to a place that fails. -/
theorem exists_cuts_of_error {position : Nat} {zoneNext : Bool} {text : List Char}
    {error : LexicalError} (herror : tokensFrom position zoneNext text = .error error) :
    ∃ tokens last, Cuts ⟨position, zoneNext, text⟩ tokens last ∧ Fails last error := by
  obtain ⟨cut, ⟨final, zone, rest⟩, hcuts, ⟨rfl, rfl⟩ | ⟨found, hfails⟩⟩ :=
    exists_cuts position zoneNext text
  · have hall := hcuts.tokensFrom_eq
    rw [herror, tokensFrom] at hall
    cases hall
  · have hall := hcuts.tokensFrom_eq
    rw [herror, hfails.tokensFrom_eq] at hall
    obtain rfl : error = found := Except.error.inj hall
    exact ⟨cut, _, hcuts, hfails⟩

/-- The tokens of a run begin those of its text. -/
theorem Cuts.prefix_of_ok {first : Place} {all : List Token} (hcuts : Cuts first tokens place)
    (htokens : tokensFrom first.position first.zoneNext first.rest = .ok all) : tokens <+: all := by
  rw [hcuts.tokensFrom_eq] at htokens
  cases hrest : tokensFrom place.position place.zoneNext place.rest with
  | ok later =>
    rw [hrest] at htokens
    exact ⟨later, Except.ok.inj htokens⟩
  | error found =>
    rw [hrest] at htokens
    cases htokens

/-- An error lies behind every place that a run reaches. -/
theorem Cuts.position_le_start {first : Place} {error : LexicalError}
    (hcuts : Cuts first tokens place)
    (herror : tokensFrom first.position first.zoneNext first.rest = .error error) :
    place.position ≤ error.span.start := by
  rw [hcuts.tokensFrom_eq] at herror
  cases hrest : tokensFrom place.position place.zoneNext place.rest with
  | ok tokens =>
    rw [hrest] at herror
    cases herror
  | error found =>
    rw [hrest] at herror
    obtain rfl : found = error := Except.error.inj herror
    obtain ⟨_, last, hrun, hfails⟩ := exists_cuts_of_error hrest
    rw [hfails.start_eq]
    exact hrun.position_le

/-- A run that gives a token reaches its place and goes on behind it. -/
theorem Cuts.exists_place {before behind : List Token} {token : Token}
    (hcuts : Cuts place (before ++ token :: behind) last) : ∃ zoneNext first body after,
      Cuts place before ⟨token.span.start, zoneNext, first :: (body ++ after)⟩ ∧
        isAsciiBlank first = false ∧
        lexemeAt zoneNext first (body ++ after) = ⟨body.length, .ok token.symbol⟩ ∧
        token.span.stop = token.span.start + byteLength (first :: body) ∧
        Cuts ⟨token.span.stop, token.symbol = .keyword .«in», after⟩ behind last := by
  generalize hall : before ++ token :: behind = tokens at hcuts
  induction hcuts generalizing before with
  | stop => exact absurd hall (List.append_ne_nil_of_right_ne_nil _ (List.cons_ne_nil _ _))
  | blank hblank hrest ih =>
    obtain ⟨zoneNext, first, body, after, hbefore, hothers⟩ := ih hall
    exact ⟨zoneNext, first, body, after, .blank hblank hbefore, hothers⟩
  | @token _ zoneNext first body after _ _ _ hfirst hread hrest ih =>
    rcases before with _ | ⟨front, before⟩
    · obtain ⟨rfl, rfl⟩ := List.cons.inj hall
      exact ⟨zoneNext, first, body, after, .stop, hfirst, hread, rfl, hrest⟩
    · obtain ⟨rfl, hlater⟩ := List.cons.inj hall
      obtain ⟨zoneNext, first, body, after, hbefore, hothers⟩ := ih hlater
      exact ⟨zoneNext, first, body, after, .token hfirst hread hbefore, hothers⟩

end Runs

/-! ## Repeated runs -/

section Repeated

variable {place last : Place} {tokens : List Token} {text other : List Char} {symbol : Symbol}

/-- Both texts go on with a digit, or both with a letter. -/
def GoOnAlike (text other : List Char) : Prop :=
  ∃ c d, text.head? = some c ∧ other.head? = some d ∧
    (c.isDigit = true ∧ d.isDigit = true ∨ c.isAlpha = true ∧ d.isAlpha = true)

/-- A word does not end before a letter or a digit. -/
theorem GoOnAlike.isWordCharacter (halike : GoOnAlike text other) :
    ∃ c, text.head? = some c ∧ isAsciiBlank c = false ∧ isWordCharacter c = true := by
  obtain ⟨c, d, hc, _, hkind⟩ := halike
  have halphanum : c.isAlphanum = true := by
    rw [Char.isAlphanum, Bool.or_eq_true]
    rcases hkind with ⟨hdigit, _⟩ | ⟨hletter, _⟩
    · exact .inr hdigit
    · exact .inl hletter
  refine ⟨c, hc, (not_blank_or_comma_of_isAlphanum halphanum).1, ?_⟩
  rw [Cadence.isWordCharacter, halphanum, Bool.true_or]

/-- Words, and all symbols but numbers, end depending on the next character. -/
theorem EndsBefore.of_head? (hends : EndsBefore text symbol)
    (hnumber : ∀ value, symbol ≠ .number value) (hhead : text.head? = other.head?) :
    EndsBefore other symbol := by
  cases symbol with
  | number value => exact absurd rfl (hnumber value)
  | comma | date | ordinal => trivial
  | _ => simpa only [EndsBefore, hhead] using hends

/-- A letter on its own is a word, so no word goes on behind it. -/
theorem not_isWordCharacter_of_cuts {position : Nat} {c : Char} (hletter : c.isAlpha = true)
    (hcuts : Cuts ⟨position, false, c :: text⟩ tokens last) (htext : last.rest = text) :
    ∀ d ∈ text.head?, isWordCharacter d = false := by
  have halphanum : c.isAlphanum = true := by rw [Char.isAlphanum, hletter, Bool.true_or]
  obtain ⟨hblank, hcomma⟩ := not_blank_or_comma_of_isAlphanum halphanum
  cases hcuts with
  | stop => exact absurd htext (List.cons_ne_self c text)
  | blank hfirst => exact absurd hfirst (Bool.eq_false_iff.mp hblank)
  | @token _ _ _ body after _ _ _ hfirst hread hrest =>
    obtain ⟨passed, hafter, _⟩ := hrest.exists_passed
    have hlength : after.length = passed.length + (body.length + after.length) := by
      rw [← List.length_append, ← List.length_append, ← htext, ← hafter]
    obtain rfl : body = [] := List.length_eq_zero_iff.mp (by omega)
    simp only [lexemeAt, readLexeme, hcomma, isDigit_eq_false_of_isAlpha hletter, hletter,
      readWord, if_false, if_true, Bool.false_eq_true, List.nil_append, Lexeme.mk.injEq] at hread
    obtain ⟨run, later, hlater, hrun, _, _, hstop⟩ := exists_run isWordCharacter after
    rw [hrun] at hread
    obtain rfl : run = [] := List.length_eq_zero_iff.mp hread.1
    rw [List.nil_append, hlater]
    exact hstop

/-- What a symbol ends before may be replaced by what goes on alike, unless it is
a number that the replacement makes an ordinal. -/
theorem EndsBefore.goOn {position : Nat} {later : List Char}
    (hends : EndsBefore (later ++ text) symbol) (halike : GoOnAlike text other)
    (hcuts : Cuts ⟨position, symbol = .keyword .«in», later ++ text⟩ tokens last)
    (hlast : last.rest = text) :
    EndsBefore (later ++ other) symbol ∨ later = [] ∧ ∃ value c₁ c₂ others,
      symbol = .number value ∧ other = c₁ :: c₂ :: others ∧
        Numeral.isOrdinalEnding c₁ c₂ = true := by
  obtain ⟨w, hw, _, hword⟩ := halike.isWordCharacter
  obtain ⟨c, d, hc, hd, hkind⟩ := halike
  by_cases hnumber : ∃ value, symbol = .number value
  · obtain ⟨value, rfl⟩ := hnumber
    rcases later with _ | ⟨e, later⟩
    · by_cases hending : ∃ c₁ c₂ others, other = c₁ :: c₂ :: others ∧
          Numeral.isOrdinalEnding c₁ c₂ = true
      · obtain ⟨c₁, c₂, others, hother, hending⟩ := hending
        exact .inr ⟨rfl, value, c₁, c₂, others, rfl, hother, hending⟩
      · refine .inl ⟨fun e he => ?_, fun c₁ c₂ others hother => ?_⟩
        · obtain rfl : d = e := Option.some.inj (hd.symm.trans he)
          have hdigit := (hends.1 c hc).1
          have hletter : d.isAlpha = true := by
            rcases hkind with ⟨hdigit', _⟩ | ⟨_, hletter⟩
            · exact absurd hdigit' (Bool.eq_false_iff.mp hdigit)
            · exact hletter
          refine ⟨isDigit_eq_false_of_isAlpha hletter, ?_, ?_⟩ <;> rintro rfl <;>
            exact absurd hletter (by decide)
        · exact Bool.eq_false_iff.mpr fun hordinal => hending ⟨c₁, c₂, others, hother, hordinal⟩
    · refine .inl ⟨hends.1, fun c₁ c₂ others hother => ?_⟩
      rcases later with _ | ⟨e₂, later⟩
      · obtain ⟨rfl, _⟩ := List.cons.inj hother
        refine Bool.eq_false_iff.mpr fun hordinal => ?_
        have hstop := not_isWordCharacter_of_cuts (isAlpha_of_isOrdinalEnding hordinal) hcuts hlast
        exact Bool.eq_false_iff.mp (hstop w hw) hword
      · obtain ⟨rfl, rfl, _⟩ : e = c₁ ∧ e₂ = c₂ ∧ later ++ other = others := by
          simpa only [List.cons_append, List.cons.injEq] using hother
        exact hends.2 e e₂ (later ++ text) rfl
  · have hnumber : ∀ value, symbol ≠ .number value := not_exists.mp hnumber
    refine .inl ?_
    rcases later with _ | ⟨e, later⟩
    · cases symbol with
      | number value => exact absurd rfl (hnumber value)
      | comma | date | ordinal => trivial
      | time clock =>
        intro e he
        obtain rfl : d = e := Option.some.inj (hd.symm.trans he)
        rcases hkind with ⟨hdigit, _⟩ | ⟨_, hletter⟩
        · exact absurd hdigit (Bool.eq_false_iff.mp (hends c hc))
        · exact isDigit_eq_false_of_isAlpha hletter
      | _ => exact absurd hword (Bool.eq_false_iff.mp (hends w hw))
    · exact hends.of_head? hnumber rfl

/-- No run goes on behind a number that is broken off. -/
theorem not_isBrokenOff_of_cuts {position : Nat} {after : List Char}
    (hcuts : Cuts ⟨position, symbol = .keyword .«in», after⟩ tokens last)
    (halike : GoOnAlike last.rest other) : ¬ IsBrokenOff symbol after := by
  rintro ⟨⟨value, rfl⟩, c, hc, hsign⟩
  cases hcuts with
  | stop =>
    obtain ⟨w, hw, _, hword⟩ := halike.isWordCharacter
    obtain rfl : w = c := Option.some.inj (hw.symm.trans hc)
    rcases hsign with rfl | rfl <;> cases hword
  | blank hblank =>
    obtain rfl := Option.some.inj hc
    rcases hsign with rfl | rfl <;> cases hblank
  | token _ hread =>
    obtain rfl := Option.some.inj hc
    rcases hsign with rfl | rfl <;> cases congrArg Lexeme.symbol hread

/-- From a place a run leads with the given tokens to where another text begins
in place of what stood at `last`, or it takes letters of that text and leads
beyond. -/
def Repeats (place : Place) (tokens : List Token) (last : Place) (other : List Char) : Prop :=
  Cuts place tokens ⟨last.position, last.zoneNext, other⟩ ∨
    (∃ c ∈ other.head?, c.isAlpha = true) ∧ ∃ cut beyond,
      Cuts place cut beyond ∧ last.position < beyond.position

theorem Repeats.token {position : Nat} {zoneNext : Bool} {first : Char} {body after : List Char}
    (hfirst : isAsciiBlank first = false)
    (hread : lexemeAt zoneNext first (body ++ after) = ⟨body.length, .ok symbol⟩)
    (hrest : Repeats ⟨position + byteLength (first :: body), symbol = .keyword .«in», after⟩ tokens
      last other) : Repeats ⟨position, zoneNext, first :: (body ++ after)⟩
        (⟨symbol, ⟨position, position + byteLength (first :: body)⟩⟩ :: tokens) last other := by
  rcases hrest with hsame | ⟨hletter, cut, beyond, hcut, hbeyond⟩
  · exact .inl (.token hfirst hread hsame)
  · exact .inr ⟨hletter, _, beyond, .token hfirst hread hcut, hbeyond⟩

/-- A number with an ordinal ending behind it is an ordinal, two letters longer. -/
theorem exists_cuts_ordinal {position value : Nat} {first c₁ c₂ : Char} {body others : List Char}
    (hnumber : IsSpelling (first :: body) (.number value))
    (hending : Numeral.isOrdinalEnding c₁ c₂ = true) : ∃ cut beyond,
      Cuts ⟨position, false, first :: (body ++ c₁ :: c₂ :: others)⟩ cut beyond ∧
        position + byteLength (first :: body) < beyond.position := by
  obtain ⟨hdigits, hlimit⟩ := denotes_of_isSpelling hnumber
  have hordinal : IsSpelling (first :: (body ++ [c₁, c₂])) (.ordinal value) :=
    .ordinal hdigits hlimit hending
  have hends : EndsBefore others (.ordinal value) := trivial
  obtain ⟨hfirst, hread⟩ := lexemeAt_of_isSpelling hordinal hends
  have hsplit : body ++ c₁ :: c₂ :: others = body ++ [c₁, c₂] ++ others := by
    rw [List.append_assoc]
    rfl
  rw [hsplit]
  refine ⟨_, _, .token hfirst hread .stop, ?_⟩
  have hletters := byteLength_cons_pos c₁ [c₂]
  rw [← List.cons_append, byteLength_append]
  exact Nat.add_lt_add_left (Nat.lt_add_of_pos_right hletters) position

/-- A run is repeated where the text goes on alike. -/
theorem Cuts.repeats (hcuts : Cuts place tokens last) {before : List Char}
    (hbefore : place.rest = before ++ last.rest) (halike : GoOnAlike last.rest other) :
    Repeats ⟨place.position, place.zoneNext, before ++ other⟩ tokens last other := by
  obtain ⟨w, hw, hblank, _⟩ := halike.isWordCharacter
  induction hcuts generalizing before with
  | stop =>
    obtain rfl : before = [] := List.self_eq_append_left.mp hbefore
    exact .inl .stop
  | @blank position zoneNext c rest tokens last hc hrest ih =>
    rcases before with _ | ⟨b, before⟩
    · obtain rfl : c = w := Option.some.inj ((congrArg List.head? hbefore).trans hw)
      rw [hc] at hblank
      cases hblank
    · obtain ⟨rfl, hbehind⟩ := List.cons.inj hbefore
      rcases ih hbehind halike hw with hsame | ⟨hletter, cut, beyond, hcut, hbeyond⟩
      · exact .inl (.blank hc hsame)
      · exact .inr ⟨hletter, cut, beyond, .blank hc hcut, hbeyond⟩
  | @token position zoneNext first body after symbol tokens last hfirst hread hrest ih =>
    obtain ⟨later, hafter, hposition⟩ := hrest.exists_passed
    dsimp only at hafter hposition hbefore
    subst hafter
    obtain rfl : before = first :: (body ++ later) := by
      apply (List.append_left_inj last.rest).mp
      rw [← hbefore, List.cons_append, List.append_assoc]
    dsimp only
    rw [List.cons_append, List.append_assoc]
    cases zoneNext with
    | true =>
      obtain ⟨rfl, hname, hend⟩ := zone_of_lexemeAt hread
      rcases later with _ | ⟨b, later⟩
      · rw [hend w hw] at hblank
        cases hblank
      · exact .token hfirst (lexemeAt_zone hname hend) (ih rfl halike hw)
    | false =>
      obtain ⟨hspelling, hends⟩ := isSpelling_of_lexemeAt hread
      have hends := hends.resolve_right (not_isBrokenOff_of_cuts hrest halike)
      rcases hends.goOn halike hrest rfl with
        hends | ⟨rfl, value, c₁, c₂, others, rfl, rfl, hending⟩
      · exact .token hfirst (lexemeAt_of_isSpelling hspelling hends).2 (ih rfl halike hw)
      · obtain ⟨cut, beyond, hcut, hbeyond⟩ := exists_cuts_ordinal hspelling hending
        refine .inr ⟨⟨c₁, rfl, isAlpha_of_isOrdinalEnding hending⟩, cut, beyond, hcut, ?_⟩
        rw [hposition]
        exact hbeyond

end Repeated

end Cadence
