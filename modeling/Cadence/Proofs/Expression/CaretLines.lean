import Mathlib
import Cadence.Proofs.Expression.ErrorPlaces
import Cadence.Proofs.Expression.Suggestions

/-!
# Carets under the lines of a text

A report prints the text concerned and below it one line with carets.  The column of the
carets is counted from the start of the text, whereas they stand under its last line.
For a text of one line they mark the place of the error.  Line breaks separate tokens as
blanks do, and in a text of several lines the carets mark what the last line holds at
that column, if it is long enough to hold anything there.
-/

namespace Cadence

/-- The characters of a line that stand above carets. -/
def aboveCarets (line carets : List Char) : List Char :=
  ((line.zip carets).filter (·.2 = '^')).map Prod.fst

/-- What the carets of a report mark: they stand in its last line, what they mark stands
in the line above. -/
def Report.underlined (report : Report) : List Char :=
  match (splitAll '\n' report.text.toList).reverse with
  | carets :: line :: _ => aboveCarets line carets
  | _ => []

/-! ## Carets -/

/-- A row of carets marks as many characters from its column on. -/
theorem aboveCarets_eq (column width : Nat) (line : List Char) {rest : List Char}
    (hrest : '^' ∉ rest) :
    aboveCarets line (List.replicate column ' ' ++ (List.replicate width '^' ++ rest)) =
      (line.drop column).take width := by
  have hnothing : ∀ line : List Char, aboveCarets line rest = [] := by
    intro line
    rw [aboveCarets, List.map_eq_nil_iff, List.filter_eq_nil_iff]
    rintro ⟨c, mark⟩ hmem hmark
    exact hrest (of_decide_eq_true hmark ▸ (List.of_mem_zip hmem).2)
  have hcarets : ∀ (width : Nat) (line : List Char),
      aboveCarets line (List.replicate width '^' ++ rest) = line.take width := by
    intro width
    induction width with
    | zero => exact hnothing
    | succ width ih =>
      rintro (_ | ⟨c, line⟩)
      · rfl
      · rw [List.replicate_succ, List.cons_append, List.take_succ_cons, ← ih]
        rfl
  induction column generalizing line with
  | zero => exact hcarets width line
  | succ column ih =>
    cases line with
    | nil => rw [List.drop_nil, List.take_nil]; rfl
    | cons c line =>
      rw [List.drop_succ_cons, ← ih]
      rfl

theorem isAlphanum_of_closestWord? {word fix : String} (hfix : closestWord? word = some fix) :
    ∀ c ∈ fix.toList, c.isAlphanum = true := by
  intro c hc
  have hletter := ((letters_of_mem_vocabularyWords fix (mem_of_closestWord? hfix)).2 c hc).1
  rw [Char.isAlphanum, hletter, Bool.true_or]

theorem isAlphanum_of_ordinalText (value : Nat) :
    ∀ c ∈ (Numeral.ordinalText value).toList, c.isAlphanum = true := by
  have hending : (Numeral.ordinalEnding value).toList.all Char.isAlphanum = true := by
    rw [Numeral.ordinalEnding]
    split
    · rfl
    · split <;> rfl
  intro c hmem
  rw [Numeral.ordinalText, String.toList_append, List.mem_append] at hmem
  rcases hmem with hfigure | hletter
  · rw [Char.isAlphanum, (Numeral.denotes_repr value).isDigit c hfigure, Bool.or_true]
  · exact List.all_eq_true.mp hending c hletter

/-- A report on an error shows the text, and below it carets and perhaps a word or a number
to write instead. -/
theorem exists_excerpt (text : String) (error : ExpressionError) :
    ∃ (message : String) (excerpt : Excerpt),
      excerpt.span = error.span ∧ excerpt.input = text ∧
      (∀ fix ∈ excerpt.suggestion, ∀ c ∈ fix.toList, c.isAlphanum = true) ∧
      (Report.ofExpressionError text error).text.toList =
        ("error: ".toList ++ message.toList) ++
          '\n' :: (' ' :: ' ' :: text.toList ++ '\n' :: excerpt.caretLine.toList) := by
  have hlines : ∀ (message : String) (excerpt : Excerpt),
      ("error: " ++ message ++ "\n  " ++ text ++ "\n" ++ excerpt.caretLine).toList =
        ("error: ".toList ++ message.toList) ++
          '\n' :: (' ' :: ' ' :: text.toList ++ '\n' :: excerpt.caretLine.toList) := by
    intro message excerpt
    have hbreak : "\n".toList = ['\n'] := rfl
    have hindent : "\n  ".toList = ['\n', ' ', ' '] := rfl
    simp only [String.toList_append, hbreak, hindent, List.append_assoc, List.cons_append,
      List.nil_append]
  cases error with
  | lexical cause span =>
    refine ⟨cause.message, ⟨span, text, cause.suggestion⟩, rfl, rfl, fun fix hfix => ?_, hlines _ _⟩
    cases cause with
    | unknownWord word => exact isAlphanum_of_closestWord? hfix
    | _ => cases hfix
  | grammatical cause span =>
    refine ⟨cause.message, ⟨span, text, cause.suggestion⟩, rfl, rfl, fun fix hfix => ?_, hlines _ _⟩
    cases cause with
    | plainNumber place value =>
      obtain rfl : Numeral.ordinalText value = fix := Option.some.inj hfix
      exact isAlphanum_of_ordinalText value
    | _ => cases hfix

/-- The line of carets is blank up to the column of the span, and nothing behind the carets
is one. -/
theorem exists_caretLine (excerpt : Excerpt)
    (hfix : ∀ fix ∈ excerpt.suggestion, ∀ c ∈ fix.toList, c.isAlphanum = true) :
    ∃ rest, excerpt.caretLine.toList =
        List.replicate (excerpt.column + 2) ' ' ++
          (List.replicate (max excerpt.width 1) '^' ++ rest) ∧
      '^' ∉ rest ∧ '\n' ∉ excerpt.caretLine.toList := by
  suffices hrest : ∃ rest, excerpt.caretLine.toList =
      List.replicate (excerpt.column + 2) ' ' ++
        (List.replicate (max excerpt.width 1) '^' ++ rest) ∧ '^' ∉ rest ∧ '\n' ∉ rest by
    obtain ⟨rest, hline, hmark, hbreak⟩ := hrest
    refine ⟨rest, hline, hmark, ?_⟩
    rw [hline, List.mem_append, List.mem_append, List.mem_replicate, List.mem_replicate]
    rintro (⟨_, ⟨⟩⟩ | ⟨_, ⟨⟩⟩ | hmem)
    exact hbreak hmem
  rw [Excerpt.caretLine, String.toList_append, String.toList_append, String.toList_ofList,
    String.toList_ofList, List.append_assoc]
  refine ⟨_, rfl, ?_⟩
  split
  · rename_i fix hsuggestion
    have hletters := hfix fix hsuggestion
    have hmark : '^' ∉ fix.toList := fun hmem => Bool.false_ne_true (hletters _ hmem)
    have hbreak : '\n' ∉ fix.toList := fun hmem => Bool.false_ne_true (hletters _ hmem)
    simp only [String.toList_append, List.mem_append, hmark, hbreak, or_false]
    decide
  · exact ⟨List.not_mem_nil, List.not_mem_nil⟩

/-- The carets mark what the last line of the text, as it is shown, holds at the column of
the span. -/
theorem underlined_eq {text : String} {error : ExpressionError}
    {before body after line : List Char} {earlier : List (List Char)}
    (htext : text.toList = before ++ body ++ after)
    (hstart : error.span.start = byteLength before)
    (hstop : error.span.stop = byteLength before + byteLength body) (hbody : body ≠ [])
    (hlines : splitAll '\n' (' ' :: ' ' :: text.toList) = earlier ++ [line]) :
    (Report.ofExpressionError text error).underlined =
      (line.drop (before.length + 2)).take body.length := by
  obtain ⟨message, excerpt, hspan, rfl, hfix, hreport⟩ := exists_excerpt text error
  obtain ⟨rest, hcarets, hmark, hbreak⟩ := exists_caretLine excerpt hfix
  obtain ⟨hcolumn, hwidth⟩ := Span.Marks.column_width htext (hspan ▸ hstart) (hspan ▸ hstop)
  have hmax : max body.length 1 = body.length := max_eq_left (List.length_pos_iff.mpr hbody)
  rw [Report.underlined, hreport, splitAll_append_separator, splitAll_append_separator, hlines,
    splitAll_eq_singleton hbreak, ← List.append_assoc, ← List.append_assoc, List.reverse_concat,
    List.reverse_concat]
  dsimp only
  rw [hcarets, aboveCarets_eq _ _ _ hmark, hcolumn, hwidth, hmax]

/-- The span of an error marks a part of the text. -/
theorem exists_marks_of_ofText {text : String} {error : ExpressionError}
    (herror : Schedule.ofText text = .error error) :
    ∃ body, error.span.Marks text.toList body := by
  cases error with
  | lexical cause span => exact exists_marks_of_error (tokenize_of_lexical herror)
  | grammatical cause span =>
    obtain ⟨tokens, htokens⟩ := exists_tokens_of_grammatical herror
    obtain ⟨found, hread, _, rfl⟩ := exists_error_of_grammatical htokens herror
    have hplace := (inOrder_of_tokenize htokens).isTokenPlace (interrupts_of_scheduleOfTokens hread)
    exact hplace.exists_marks htokens

/-- The last of several lines holds a part of the text two characters behind a column, where
the carets of the column stand. -/
def IsRepeatedInLastLine (text body : List Char) (column : Nat) : Prop :=
  ∃ front indent rest, text = front ++ '\n' :: (indent ++ body ++ rest) ∧
    '\n' ∉ indent ++ body ++ rest ∧ indent.length = column + 2

/-- The carets of a report mark the place of the error if the text is one line, and
otherwise only if its last line happens to hold the same characters at that column. -/
theorem underlined_eq_iff {text : String} {error : ExpressionError}
    (herror : Schedule.ofText text = .error error) (hspan : error.span.start < error.span.stop) :
    ∃ before body after, text.toList = before ++ body ++ after ∧
      error.span.start = byteLength before ∧
      error.span.stop = byteLength before + byteLength body ∧
      ((Report.ofExpressionError text error).underlined = body ↔
        '\n' ∉ text.toList ∨ IsRepeatedInLastLine text.toList body before.length) := by
  obtain ⟨body, before, after, htext, hstart, hstop⟩ := exists_marks_of_ofText herror
  have hbody : body ≠ [] := by
    rintro rfl
    rw [hstart, hstop] at hspan
    exact lt_irrefl _ hspan
  have hunderlined {earlier : List (List Char)} {line : List Char}
      (hlines : splitAll '\n' (' ' :: ' ' :: text.toList) = earlier ++ [line]) :=
    underlined_eq htext hstart hstop hbody hlines
  refine ⟨before, body, after, htext, hstart, hstop, ?_⟩
  by_cases hbreak : '\n' ∈ text.toList
  · have hlast {front last} (hlines : text.toList = front ++ '\n' :: last) (hfree : '\n' ∉ last) :
        splitAll '\n' (' ' :: ' ' :: text.toList) =
          splitAll '\n' (' ' :: ' ' :: front) ++ [last] := by
      rw [hlines, ← List.cons_append, ← List.cons_append, splitAll_append_separator,
        splitAll_eq_singleton hfree]
    rw [or_iff_right (not_not_intro hbreak)]
    constructor
    · intro hsame
      obtain ⟨front, last, hlines, hfree⟩ := exists_last_part hbreak
      rw [hunderlined (hlast hlines hfree)] at hsame
      obtain ⟨rest, hrest⟩ : body <+: last.drop (before.length + 2) :=
        hsame ▸ List.take_prefix _ _
      have hsplit : last.take (before.length + 2) ++ body ++ rest = last := by
        rw [List.append_assoc, hrest, List.take_append_drop]
      have hlong : before.length + 2 ≤ last.length := by
        by_contra hshort
        rw [List.drop_eq_nil_of_le (not_le.mp hshort).le] at hrest
        exact hbody (List.append_eq_nil_iff.mp hrest).1
      exact ⟨front, _, rest, by rw [hsplit, hlines], hsplit.symm ▸ hfree,
        List.length_take_of_le hlong⟩
    · rintro ⟨front, indent, rest, hlines, hfree, hlength⟩
      rw [hunderlined (hlast hlines hfree), ← hlength, List.append_assoc, List.drop_left,
        List.take_left]
  · have hone : splitAll '\n' (' ' :: ' ' :: text.toList) = [] ++ [' ' :: ' ' :: text.toList] :=
      splitAll_eq_singleton (by simpa using hbreak)
    rw [iff_true_right (Or.inl hbreak), hunderlined hone, htext, List.drop_succ_cons,
      List.drop_succ_cons, List.append_assoc, List.drop_left, List.take_left]

/-- An error in the second of two lines. -/
theorem underlined_eq_iff_on_second_line :
    Schedule.ofText "every\nmondy at 09:00" =
        .error (.lexical (.unknownWord "mondy") ⟨6, 11⟩) ∧
      ∃ before body after, "every\nmondy at 09:00".toList = before ++ body ++ after ∧
        6 = byteLength before ∧ 11 = byteLength before + byteLength body ∧
        ((Report.ofExpressionError "every\nmondy at 09:00"
              (.lexical (.unknownWord "mondy") ⟨6, 11⟩)).underlined = body ↔
          '\n' ∉ "every\nmondy at 09:00".toList ∨
            IsRepeatedInLastLine "every\nmondy at 09:00".toList body before.length) := by
  have herror : Schedule.ofText "every\nmondy at 09:00" =
      .error (.lexical (.unknownWord "mondy") ⟨6, 11⟩) := by cbv
  exact ⟨herror, underlined_eq_iff herror (by decide)⟩

/-- Carets under a part of the time instead of the word before it. -/
theorem underlined_ne_in_second_line :
    Schedule.ofText "every\nmondy at 09:00" =
        .error (.lexical (.unknownWord "mondy") ⟨6, 11⟩) ∧
      Span.Marks ⟨6, 11⟩ "every\nmondy at 09:00".toList "mondy".toList ∧
      (Report.ofExpressionError "every\nmondy at 09:00"
        (.lexical (.unknownWord "mondy") ⟨6, 11⟩)).underlined ≠ "mondy".toList := by
  have hunderlined : (Report.ofExpressionError "every\nmondy at 09:00"
      (.lexical (.unknownWord "mondy") ⟨6, 11⟩)).underlined = " 09:0".toList := by
    decide +kernel
  refine ⟨by cbv, ⟨"every\n".toList, " at 09:00".toList, by cbv, by cbv, by cbv⟩, ?_⟩
  rw [hunderlined]
  decide

end Cadence
