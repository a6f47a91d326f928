import Mathlib
import Cadence.Proofs.Expression.ClosestWords
import Cadence.Proofs.Expression.ErrorPlaces
import Cadence.Proofs.Expression.MendedNumbers
import Cadence.Proofs.Expression.Spelling

/-!
# Following a suggestion

An error may suggest what to write in the place it stands at.  A lexical error
suggests the closest word of the vocabulary, an error of the grammar the ordinal
for a plain number.  With the suggestion in its place the text is cut and read as
before up to that place, and then behind it, so that only something later in the
text can be wrong.

The one exception is a day that clashes with the calendar.  It is found only when
the day is an ordinal, and it is reported at the day or at the range it is in.
-/

namespace Cadence

/-- What to write instead of what stands at the place of an error. -/
def ExpressionError.suggestion : ExpressionError → Option String
  | .lexical cause _ => cause.suggestion
  | .grammatical cause _ => cause.suggestion

/-- A text with something else under a span, if the span falls between characters. -/
def Span.replace? (span : Span) (text fix : String) : Option String := do
  let column ← charsBefore? span.start text.toList
  let behind ← charsBefore? span.stop text.toList
  return String.ofList (text.toList.take column) ++ fix ++
    String.ofList (text.toList.drop behind)

/-- After a lexical error a text is cut further, and after an error of the grammar
it is read further. -/
def Advances : ExpressionError → String → Prop
  | .lexical _ span, mended =>
    ∀ next, tokenize mended = .error next → span.start < next.span.start
  | .grammatical _ span, mended =>
    ∀ next, Schedule.ofText mended = .error next → span.start < next.span.start

theorem Span.replace?_eq {text : String} {before body after : List Char} (fix : String)
    (htext : text.toList = before ++ (body ++ after)) :
    Span.replace? ⟨byteLength before, byteLength before + byteLength body⟩ text fix =
      some (String.ofList (before ++ (fix.toList ++ after))) := by
  have hcolumn : charsBefore? (byteLength before) text.toList = some before.length := by
    rw [htext, charsBefore?_byteLength]
  have hbehind : charsBefore? (byteLength before + byteLength body) text.toList =
      some (before ++ body).length := by
    rw [htext, ← List.append_assoc, ← byteLength_append, charsBefore?_byteLength]
  have htake : text.toList.take before.length = before := htext ▸ List.take_left
  have hdrop : text.toList.drop (before ++ body).length = after := by
    rw [htext, ← List.append_assoc, List.drop_left]
  simp only [replace?, hcolumn, hbehind, Option.bind_eq_bind, Option.bind_some, htake, hdrop]
  rw [String.ofList_append, String.ofList_append, String.ofList_toList, String.append_assoc]
  rfl

/-! ## Words for words -/

/-- Every word of the vocabulary starts with a letter and spells a symbol. -/
theorem exists_isSpelling_of_mem_vocabularyWords {word : String} (hmem : word ∈ vocabularyWords) :
    ∃ first letters symbol, word.toList = first :: letters ∧ first.isAlpha = true ∧
      IsSpelling (first :: letters) symbol ∧ symbolOfWord? word = some symbol := by
  obtain ⟨hne, hletters⟩ := letters_of_mem_vocabularyWords word hmem
  obtain ⟨first, letters, htext⟩ := List.exists_cons_of_ne_nil hne
  have hfirst : first.isAlpha = true := (hletters first (htext ▸ List.mem_cons_self)).1
  obtain ⟨symbol, hsymbol⟩ := Option.isSome_iff_exists.mp (mem_vocabularyWords_iff.mp hmem).2
  exact ⟨first, letters, symbol, htext, hfirst, htext ▸ isSpelling_of_symbolOfWord? hsymbol,
    hsymbol⟩

/-- Numbers that cannot be read are not mended. -/
theorem suggestion_of_readNumeric {first : Char} {rest : List Char} {cause : LexicalCause}
    (hread : (readNumeric first rest).symbol = .error cause) : cause.suggestion = none := by
  have hnumber : ∀ digits after, (readNumber digits after).symbol = .error cause →
      cause.suggestion = none := by
    intro digits after hnumber
    rw [readNumber] at hnumber
    split at hnumber
    · obtain rfl := Except.error.inj hnumber
      rfl
    · split at hnumber
      · split at hnumber <;> cases hnumber
      · cases hnumber
  rw [readNumeric] at hread
  split at hread
  · cases hread
  · split at hread
    · split at hread
      · rw [readTime] at hread
        dsimp only at hread
        split at hread
        · cases hread
        · obtain rfl := Except.error.inj hread
          rfl
      · exact hnumber _ _ hread
    · exact hnumber _ _ hread

/-- A suggestion is made for a word that is not in the vocabulary. -/
theorem exists_word_of_suggestion {zoneNext : Bool} {first : Char} {rest : List Char}
    {cause : LexicalCause} {fix : String}
    (hread : (lexemeAt zoneNext first rest).symbol = .error cause)
    (hfix : cause.suggestion = some fix) : zoneNext = false ∧ first.isAlpha = true ∧
      fix ∈ vocabularyWords ∧ ∃ run after, rest = run ++ after ∧
        rest.take (lexemeAt zoneNext first rest).extent = run ∧
        ∀ c ∈ after.head?, isWordCharacter c = false := by
  cases zoneNext with
  | true => cases hread
  | false =>
    rw [lexemeAt, if_neg Bool.false_ne_true] at hread ⊢
    by_cases hletter : first.isAlpha = true
    · have halphanum : first.isAlphanum = true := by rw [Char.isAlphanum, hletter, Bool.true_or]
      have hcomma := (not_blank_or_comma_of_isAlphanum halphanum).2
      have hword : readLexeme first rest = readWord first rest := by
        simp only [readLexeme, hcomma, isDigit_eq_false_of_isAlpha hletter, hletter, if_false,
          if_true, Bool.false_eq_true]
      obtain ⟨run, after, htext, htake, _, _, hstop⟩ := exists_run isWordCharacter rest
      rw [hword] at hread ⊢
      simp only [readWord, htake] at hread ⊢
      split at hread
      · cases hread
      · obtain rfl := Except.error.inj hread
        refine ⟨trivial, hletter, mem_of_closestWord? hfix, run, after, htext, ?_, hstop⟩
        rw [htext, List.take_left]
    · rw [readLexeme] at hread
      split at hread
      · cases hread
      · split at hread
        · rw [suggestion_of_readNumeric hread] at hfix
          cases hfix
        · obtain rfl := Except.error.inj hread
          cases hfix

/-! ## Cutting the mended text -/

/-- A repeated run goes on with a spelling, so an error lies behind its front. -/
theorem Repeats.start_lt {place last : Place} {tokens : List Token} {first : Char}
    {body after : List Char} {symbol : Symbol} {error : LexicalError}
    (hrepeats : Repeats place tokens last (first :: body ++ after)) (hzone : last.zoneNext = false)
    (hspelling : IsSpelling (first :: body) symbol) (hends : EndsBefore after symbol)
    (herror : tokensFrom place.position place.zoneNext place.rest = .error error) :
    last.position < error.span.start := by
  rcases hrepeats with hsame | ⟨_, cut, beyond, hcut, hbeyond⟩
  · obtain ⟨hfirst, hread⟩ := lexemeAt_of_isSpelling hspelling hends
    rw [hzone, List.cons_append] at hsame
    have hbehind := (hsame.trans (.token hfirst hread .stop)).position_le_start herror
    have hbytes := byteLength_cons_pos first body
    dsimp only at hbehind
    omega
  · exact Nat.lt_of_lt_of_le hbeyond (hcut.position_le_start herror)

/-- With the closest word in the place of a word, a text is cut further. -/
theorem exists_mended_of_lexical {text fix : String} {error : LexicalError}
    (herror : tokenize text = .error error) (hfix : error.cause.suggestion = some fix) :
    ∃ mended, error.span.replace? text fix = some mended ∧
      ∀ next, tokenize mended = .error next → error.span.start < next.span.start := by
  obtain ⟨tokens, last, hcuts, hfails⟩ := exists_cuts_of_error herror
  cases hfails with
  | ended => cases hfix
  | @lexeme position zoneNext first rest cause hfirst hread =>
    obtain ⟨rfl, hletter, hmem, run, after, rfl, htake, hstop⟩ :=
      exists_word_of_suggestion hread hfix
    obtain ⟨initial, letters, symbol, hword, hinitial, hspelling, hsymbol⟩ :=
      exists_isSpelling_of_mem_vocabularyWords hmem
    obtain ⟨before, htext, hposition⟩ := hcuts.exists_passed
    dsimp only at htext hposition
    obtain rfl : position = byteLength before := hposition.trans (Nat.zero_add _)
    refine ⟨_, by rw [htake]; exact Span.replace?_eq fix htext, fun next hnext => ?_⟩
    have halike : GoOnAlike (first :: (run ++ after)) (initial :: letters ++ after) :=
      ⟨first, initial, rfl, rfl, .inr ⟨hletter, hinitial⟩⟩
    have hrepeats := hcuts.repeats htext halike
    have hends := (endsBefore_iff_of_symbolOfWord? hsymbol after).mpr hstop
    rw [tokenize, String.toList_ofList, hword] at hnext
    exact hrepeats.start_lt rfl hspelling hends hnext

/-! ## Ordinals for numbers -/

/-- The errors of a text in which a day that has become an ordinal clashes with the
calendar. -/
inductive ClashesAt (value : Nat) (day : Span) : ExpressionError → Prop
  /-- No month has the day. -/
  | everyMonth (houtside : ¬ (1 ≤ value ∧ value ≤ 31)) :
      ClashesAt value day (.grammatical (.dayOutOfRange value) day)
  /-- The day starts a range that runs backwards. -/
  | rangeStart {stop final : Nat} (hreversed : stop < value) (hfinal : day.stop < final) :
      ClashesAt value day (.grammatical (.reversedDays value stop) ⟨day.start, final⟩)
  /-- The day ends a range that runs backwards. -/
  | rangeStop {start first : Nat} (hreversed : value < start) (hfirst : first < day.start) :
      ClashesAt value day (.grammatical (.reversedDays start value) ⟨first, day.stop⟩)
  /-- The month that is named does not have the day. -/
  | month {month : Month} (houtside : month.maxDays < value) :
      ClashesAt value day (.grammatical (.dayOutOfMonth value month) day)

section Ordinals

variable {value : Nat} {before later : List Token} {ordinal : Token}

theorem InOrder.clashesAt (horder : InOrder (before ++ ordinal :: later)) {error : GrammarError}
    (hclash : Clash value before ordinal later error) (fallback : Span) :
    ClashesAt value ordinal.span (.grammatical error.cause (error.span.getD fallback)) := by
  obtain ⟨_, hbehind, hbefore⟩ := List.pairwise_append.mp horder.ordered
  cases hclash with
  | everyMonth houtside => exact .everyMonth houtside
  | @rangeStart stop final hfinal hreversed =>
    refine .rangeStart hreversed ?_
    have hstart := (List.pairwise_cons.mp hbehind).1 final hfinal
    exact hstart.trans_lt (horder.nonempty final (by simp [hfinal]))
  | @rangeStop start first hfirst hreversed =>
    refine .rangeStop hreversed ?_
    have hstop := hbefore first hfirst ordinal List.mem_cons_self
    exact (horder.nonempty first (by simp [hfirst])).trans_le hstop
  | month houtside => exact .month houtside

/-- An error behind the ordinal starts behind it. -/
theorem InOrder.start_lt_of_standsAt (horder : InOrder (before ++ ordinal :: later))
    {error : GrammarError} {behind : List Token} (hbehind : behind <:+ later)
    (hstands : error.StandsAt behind) : ordinal.span.start <
      (error.span.getD (.empty (endOfTokens (before ++ ordinal :: later)))).start := by
  have hordinal : ordinal ∈ before ++ ordinal :: later := by simp
  have hnonempty := horder.nonempty ordinal hordinal
  cases behind with
  | nil =>
    rw [show error.span = none from hstands]
    exact hnonempty.trans_le (horder.stop_le_endOfTokens hordinal)
  | cons first others =>
    obtain ⟨last, _, hspan⟩ := hstands
    have hordered := (List.pairwise_append.mp horder.ordered).2.1
    have hfirst := (List.pairwise_cons.mp hordered).1 first (hbehind.subset List.mem_cons_self)
    rw [hspan]
    exact hnonempty.trans_le hfirst

end Ordinals

/-- An ordinal is spelled with a figure at its front. -/
theorem exists_isSpelling_ordinal {value : Nat} (hvalue : value ≤ Numeral.countLimit) :
    ∃ first body, (Numeral.ordinalText value).toList = first :: body ∧ first.isDigit = true ∧
      IsSpelling (first :: body) (.ordinal value) := by
  have hspelling := isSpelling_ordinalText hvalue
  have hdigits := Numeral.denotes_repr value
  obtain ⟨first, figures, hfigures⟩ := List.exists_cons_of_ne_nil hdigits.ne_nil
  have htext : (Numeral.ordinalText value).toList =
      first :: (figures ++ (Numeral.ordinalEnding value).toList) := by
    rw [Numeral.ordinalText, String.toList_append, hfigures, List.cons_append]
  exact ⟨first, _, htext, hdigits.isDigit first (hfigures ▸ List.mem_cons_self),
    htext ▸ hspelling⟩

/-- With the ordinal in the place of a number a text is cut as before, up to the
ordinal and behind it. -/
theorem exists_mended_ordinal {text : String} {before behind : List Token} {number : Token}
    {value : Nat} (htokens : tokenize text = .ok (before ++ number :: behind))
    (hnumber : number.symbol = .number value) : ∃ mended,
      number.span.replace? text (Numeral.ordinalText value) = some mended ∧
      (∀ next, tokenize mended = .error next → number.span.start < next.span.start) ∧
      ∀ tokens, tokenize mended = .ok tokens → ∃ ordinal later,
        tokens = before ++ ordinal :: later ∧ ordinal.symbol = .ordinal value ∧
          ordinal.span = ⟨number.span.start,
            number.span.start + (Numeral.ordinalText value).utf8ByteSize⟩ := by
  obtain ⟨_, hall⟩ := exists_cuts_of_ok htokens
  obtain ⟨zoneNext, first, body, after, hcuts, _, hlexeme, hstop, _⟩ := hall.exists_place
  rw [hnumber] at hlexeme
  cases zoneNext with
  | true => cases (zone_of_lexemeAt hlexeme).1
  | false =>
    obtain ⟨hdigits, hlimit⟩ := denotes_of_isSpelling (isSpelling_of_lexemeAt hlexeme).1
    obtain ⟨initial, figures, hfigures, hinitial, hspelling⟩ := exists_isSpelling_ordinal hlimit
    obtain ⟨front, htext, hposition⟩ := hcuts.exists_passed
    have hstart : number.span.start = byteLength front := hposition.trans (Nat.zero_add _)
    have hspan : number.span =
        ⟨byteLength front, byteLength front + byteLength (first :: body)⟩ := by
      rw [← hstart, ← hstop]
    have halike : GoOnAlike (first :: (body ++ after)) (initial :: figures ++ after) :=
      ⟨first, initial, rfl, rfl, .inl ⟨hdigits.isDigit first List.mem_cons_self, hinitial⟩⟩
    have hrepeats := hcuts.repeats htext halike
    have hends : EndsBefore after (.ordinal value) := trivial
    refine ⟨_, hspan ▸ Span.replace?_eq _ htext, fun next hnext => ?_, fun tokens hcut => ?_⟩
    · rw [tokenize, String.toList_ofList, hfigures] at hnext
      exact hrepeats.start_lt rfl hspelling hends hnext
    · rw [tokenize, String.toList_ofList, hfigures] at hcut
      rcases hrepeats with hsame | ⟨⟨c, hc, hletter⟩, _⟩
      · obtain ⟨hfirst, hread⟩ := lexemeAt_of_isSpelling hspelling hends
        obtain ⟨later, rfl⟩ := (hsame.trans (.token hfirst hread .stop)).prefix_of_ok hcut
        refine ⟨_, later, List.append_assoc _ _ _, rfl, ?_⟩
        rw [← byteLength_toList, hfigures]
      · obtain rfl := Option.some.inj hc
        rw [isDigit_eq_false_of_isAlpha hletter] at hinitial
        cases hinitial

/-- With the ordinal in the place of a plain number, a text is read further, or the
day clashes with the calendar. -/
theorem exists_mended_of_grammatical {text fix : String} {cause : GrammarCause} {span : Span}
    (herror : Schedule.ofText text = .error (.grammatical cause span))
    (hfix : cause.suggestion = some fix) : ∃ mended place value,
      span.replace? text fix = some mended ∧ cause = .plainNumber place value ∧
        ∀ next, Schedule.ofText mended = .error next → span.start < next.span.start ∨
          ClashesAt value ⟨span.start, span.start + fix.utf8ByteSize⟩ next := by
  obtain ⟨tokens, htokens⟩ := exists_tokens_of_grammatical herror
  obtain ⟨error, hread, rfl, rfl⟩ := exists_error_of_grammatical htokens herror
  have hsuggests : error.cause.suggestion ≠ none := by simp [hfix]
  obtain ⟨before, number, behind, place, value, rfl, hnumber, rfl, hpast⟩ :=
    exists_mended_of_scheduleOfTokens hread hsuggests
  obtain rfl : Numeral.ordinalText value = fix := Option.some.inj hfix
  obtain ⟨mended, hmended, hbehind, hagain⟩ := exists_mended_ordinal htokens hnumber
  refine ⟨mended, place, value, hmended, rfl, fun next hnext => ?_⟩
  rw [Option.getD_some]
  cases htokens : tokenize mended with
  | error found =>
    rw [Schedule.ofText, htokens] at hnext
    obtain rfl := Except.error.inj hnext
    exact .inl (hbehind found htokens)
  | ok tokens =>
    obtain ⟨ordinal, later, rfl, hordinal, hspan⟩ := hagain tokens htokens
    have horder := inOrder_of_tokenize htokens
    cases next with
    | lexical => cases htokens.symm.trans (tokenize_of_lexical hnext)
    | grammatical cause span =>
      obtain ⟨found, hfound, rfl, rfl⟩ := exists_error_of_grammatical htokens hnext
      rw [← hspan, show number.span.start = ordinal.span.start by rw [hspan]]
      rcases hpast ordinal later hordinal found hfound with ⟨rest, hrest, hstands⟩ | hclash
      · exact .inl (horder.start_lt_of_standsAt hrest hstands)
      · exact .inr (horder.clashesAt hclash _)

/-! ## Following a suggestion -/

/-- What comes of following a suggestion: the text goes further, or it shows that the
day for which an ordinal was suggested clashes with the calendar. -/
inductive Outcome (error : ExpressionError) (mended : String) : Prop
  | advances (hfurther : Advances error mended)
  | clashes {place : OrdinalPlace} {value : Nat} {span : Span} {next : ExpressionError}
      (hnumber : error = .grammatical (.plainNumber place value) span)
      (hnext : Schedule.ofText mended = .error next)
      (hclash : ClashesAt value
        ⟨span.start, span.start + (Numeral.ordinalText value).utf8ByteSize⟩ next)

/-- A suggestion can be followed where its error stands, and it has one of two outcomes. -/
theorem exists_outcome_of_suggestion {text fix : String} {error : ExpressionError}
    (herror : Schedule.ofText text = .error error) (hfix : error.suggestion = some fix) :
    ∃ mended, error.span.replace? text fix = some mended ∧ Outcome error mended := by
  cases error with
  | lexical cause span =>
    obtain ⟨mended, hmended, hfurther⟩ :=
      exists_mended_of_lexical (tokenize_of_lexical herror) hfix
    exact ⟨mended, hmended, .advances hfurther⟩
  | grammatical cause span =>
    obtain ⟨mended, place, value, hmended, rfl, hfurther⟩ :=
      exists_mended_of_grammatical herror hfix
    refine ⟨mended, hmended, ?_⟩
    by_cases hadvances : Advances (.grammatical (.plainNumber place value) span) mended
    · exact .advances hadvances
    · simp only [Advances, not_forall] at hadvances
      obtain ⟨next, hnext, hstays⟩ := hadvances
      obtain rfl : Numeral.ordinalText value = fix := Option.some.inj hfix
      exact .clashes rfl hnext ((hfurther next hnext).resolve_left hstays)

/-- A word that gives letters to the number before it once it is mended, and a day
before another one that no month has. -/
theorem exists_outcome_joined_word_and_listed_day :
    (Schedule.ofText "every month on the 5tge at 09:00" =
        .error (.lexical (.unknownWord "tge") ⟨20, 23⟩) ∧
      (ExpressionError.lexical (.unknownWord "tge") ⟨20, 23⟩).suggestion = some "the" ∧
      ∃ mended, Span.replace? ⟨20, 23⟩ "every month on the 5tge at 09:00" "the" = some mended ∧
        Outcome (.lexical (.unknownWord "tge") ⟨20, 23⟩) mended) ∧
    (Schedule.ofText "every month on the 31, 40th at 09:00" =
        .error (.grammatical (.plainNumber .ofMonth 31) ⟨19, 21⟩) ∧
      (ExpressionError.grammatical (.plainNumber .ofMonth 31) ⟨19, 21⟩).suggestion =
        some "31st" ∧
      ∃ mended, Span.replace? ⟨19, 21⟩ "every month on the 31, 40th at 09:00" "31st" =
          some mended ∧
        Outcome (.grammatical (.plainNumber .ofMonth 31) ⟨19, 21⟩) mended) := by
  have hword : Schedule.ofText "every month on the 5tge at 09:00" =
      .error (.lexical (.unknownWord "tge") ⟨20, 23⟩) := by cbv
  have hclosest : (ExpressionError.lexical (.unknownWord "tge") ⟨20, 23⟩).suggestion =
      some "the" := by decide +kernel
  have hday : Schedule.ofText "every month on the 31, 40th at 09:00" =
      .error (.grammatical (.plainNumber .ofMonth 31) ⟨19, 21⟩) := by cbv
  have hordinal : (ExpressionError.grammatical (.plainNumber .ofMonth 31) ⟨19, 21⟩).suggestion =
      some "31st" := by cbv
  exact ⟨⟨hword, hclosest, exists_outcome_of_suggestion hword hclosest⟩,
    hday, hordinal, exists_outcome_of_suggestion hday hordinal⟩

/-- A range that runs backwards is found when its first day is an ordinal, and it is
reported where the number was. -/
theorem not_advances_reversed_range : ¬ ∀ text fix mended error,
    Schedule.ofText text = .error error → error.suggestion = some fix →
      error.span.replace? text fix = some mended → Advances error mended := by
  intro hclaim
  have herror : Schedule.ofText "every month on the 20 to 5th at 09:00" =
      .error (.grammatical (.plainNumber .ofMonth 20) ⟨19, 21⟩) := by cbv
  have hmended : Span.replace? ⟨19, 21⟩ "every month on the 20 to 5th at 09:00" "20th" =
      some "every month on the 20th to 5th at 09:00" := by cbv
  have hnext : Schedule.ofText "every month on the 20th to 5th at 09:00" =
      .error (.grammatical (.reversedDays 20 5) ⟨19, 30⟩) := by cbv
  have hlater : 19 < 19 := hclaim _ "20th" _ _ herror (by cbv) hmended _ hnext
  omega

end Cadence
