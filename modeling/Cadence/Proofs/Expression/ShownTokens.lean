import Mathlib
import Cadence.Proofs.Expression.Cutting
import Cadence.Proofs.Expression.TokenBounds
import Cadence.Proofs.Expression.WrittenText

/-!
# Shown tokens are cut again

Every symbol is shown with one of its spellings: a word of the vocabulary in full or
in short, a time in four figures, an ordinal with the ending that belongs to it.  The
symbols of a text, shown one behind the other with a blank in between, therefore make
a text with the same symbols.  The name of a zone stays behind the word `in`, where it
is read as a name again.
-/

namespace Cadence

/-! ## Shown symbols -/

/-- A word is shown as a word that stands for the same. -/
theorem symbolOfWord?_text {word : String} {symbol : Symbol}
    (hword : symbolOfWord? word = some symbol) : symbolOfWord? symbol.text = some symbol := by
  have hcommon : ∀ entry ∈ commonWords, symbolOfWord? entry.2.text = some entry.2 := by
    decide +kernel
  cases standsFor_of_symbolOfWord? hword with
  | common hmem => exact hcommon _ hmem
  | @weekday day => exact day.symbolOfWord?_name
  | @month month => exact month.symbolOfWord?_name

/-- However a symbol is spelled, it is shown with a spelling of its own. -/
theorem isSpelling_text {spelling : List Char} {symbol : Symbol}
    (hspelling : IsSpelling spelling symbol) : IsSpelling symbol.text.toList symbol := by
  cases hspelling with
  | comma => exact .comma
  | word _ _ hword => exact isSpelling_of_symbolOfWord? (symbolOfWord?_text hword)
  | date hyear hlength hdigits =>
    rw [Symbol.text, String.toList_ofList]
    exact .date hyear hlength hdigits
  | time _ _ _ htime => exact isSpelling_timeText (isOnClock_of_timeOfDigits? htime)
  | ordinal _ hlimit _ => exact isSpelling_ordinalText hlimit
  | @number _ value _ hlimit => exact .number (Numeral.denotes_repr value) hlimit

/-! ## Shown sequences -/

section Shown

variable {zoneNext : Bool} {first : Char} {body after rest : List Char} {symbol : Symbol}
  {symbols : List Symbol}

/-- A symbol that has been read somewhere is read again where it is shown, up to the next
blank. -/
theorem CutInto.shown (hfirst : isAsciiBlank first = false)
    (hread : lexemeAt zoneNext first (body ++ after) = ⟨body.length, .ok symbol⟩)
    (hblank : ∀ c ∈ rest.head?, c = ' ') (hrest : CutInto (symbol = .keyword .«in») rest symbols) :
    CutInto zoneNext (symbol.text.toList ++ rest) (symbol :: symbols) := by
  cases zoneNext with
  | true =>
    obtain ⟨rfl, hname, _⟩ := zone_of_lexemeAt hread
    have hend : ∀ c ∈ rest.head?, isAsciiBlank c = true := fun c hc => hblank c hc ▸ rfl
    rw [Symbol.text, String.toList_ofList]
    exact .lexeme body hfirst (lexemeAt_zone hname hend) hrest
  | false =>
    have hspelling := isSpelling_text (isSpelling_of_lexemeAt hread).1
    obtain ⟨c, tail, htext, hc, hlexeme⟩ := spells_of_isSpelling hspelling
    rw [htext]
    exact .lexeme tail hc (hlexeme rest fun d hd => .inl (hblank d hd)) hrest

/-- The tokens of a run, shown with a blank between neighbours, are cut into the symbols
of that run. -/
theorem Cuts.cutInto_shown {place last : Place} {tokens : List Token}
    (hcuts : Cuts place tokens last) (hlast : last.zoneNext = false) :
    CutInto place.zoneNext (joined " " (tokens.map fun token => token.symbol.text)).toList
      (tokens.map Token.symbol) := by
  induction hcuts with
  | stop =>
    rw [hlast]
    exact .nil
  | blank _ _ ih => exact ih hlast
  | @token _ zoneNext _ _ _ symbol tokens _ hfirst hread _ ih =>
    have hrest := ih hlast
    cases tokens with
    | nil =>
      have hshown := CutInto.shown hfirst hread (by rintro _ ⟨⟩) hrest
      rwa [List.map_nil, joined, String.toList_empty, List.append_nil] at hshown
    | cons next tokens =>
      have hshown := CutInto.shown hfirst hread (by rintro _ ⟨⟩; rfl) (hrest.blank rfl)
      rwa [List.map_cons, List.map_cons, toList_joined_cons_cons]

end Shown

/-- The symbols of a text, shown with single blanks in between, are cut into the same
symbols. -/
theorem tokenize_joined_shown {text : String} {tokens : List Token}
    (htokens : tokenize text = .ok tokens) : ∃ again,
      tokenize (joined " " (tokens.map fun token => token.symbol.text)) = .ok again ∧
        again.map Token.symbol = tokens.map Token.symbol := by
  obtain ⟨final, hcuts⟩ := exists_cuts_of_ok htokens
  exact hcuts.cutInto_shown rfl 0

/-- Short words, an hour of one figure, an ending that does not belong to its number, and
the name of a zone that is made of the word `in` and a comma. -/
theorem tokenize_joined_shown_short_words : ∃ tokens again,
    tokenize "2thMON,feb\tat 9:05 30HRS in in,IN weeks" = .ok tokens ∧
      joined " " (tokens.map fun token => token.symbol.text) =
        "2nd monday , feb at 09:05 30 hours in in,IN weeks" ∧
      tokenize (joined " " (tokens.map fun token => token.symbol.text)) = .ok again ∧
      again.map Token.symbol = tokens.map Token.symbol := by
  have htokens : tokenize "2thMON,feb\tat 9:05 30HRS in in,IN weeks" =
      .ok [⟨.ordinal 2, ⟨0, 3⟩⟩, ⟨.weekday .monday, ⟨3, 6⟩⟩, ⟨.comma, ⟨6, 7⟩⟩,
        ⟨.month .february, ⟨7, 10⟩⟩, ⟨.keyword .«at», ⟨11, 13⟩⟩, ⟨.time ⟨9, 5⟩, ⟨14, 18⟩⟩,
        ⟨.number 30, ⟨19, 21⟩⟩, ⟨.unit .hours, ⟨21, 24⟩⟩, ⟨.keyword .«in», ⟨25, 27⟩⟩,
        ⟨.zone "in,IN", ⟨28, 33⟩⟩, ⟨.keyword .week, ⟨34, 39⟩⟩] := by cbv
  obtain ⟨again, hagain, hsymbols⟩ := tokenize_joined_shown htokens
  exact ⟨_, again, htokens, by cbv, hagain, hsymbols⟩

end Cadence
