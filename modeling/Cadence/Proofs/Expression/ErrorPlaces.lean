import Mathlib
import Cadence.Proofs.Expression.Tiling
import Cadence.Proofs.Expression.ViablePrefixes
import Cadence.Report

/-!
# Where errors stand

The span of an error lies in its text and between its characters, so a report
counts characters and not bytes.  An error of the grammar stands at tokens, or
right behind the last one, and what ends before it is the beginning of tokens
that are read as a schedule.
-/

namespace Cadence

/-- The place of an error. -/
def ExpressionError.span : ExpressionError → Span
  | .lexical _ span => span
  | .grammatical _ span => span

/-! ## Spans of tokens -/

section Spans

variable {span other : Span} {text body later : List Char}

theorem byteLength_mono {first second : List Char} (hbegins : first <+: second) :
    byteLength first ≤ byteLength second := by
  obtain ⟨rest, rfl⟩ := hbegins
  rw [byteLength_append]
  exact Nat.le_add_right _ _

/-- From the start of one marked part to the end of another. -/
theorem Span.Marks.through (hspan : span.Marks text body) (hother : other.Marks text later)
    (hle : span.start ≤ other.stop) : ∃ between, Marks ⟨span.start, other.stop⟩ text between := by
  obtain ⟨before, after, htext, hstart, _⟩ := hspan
  obtain ⟨before', after', htext', _, hstop⟩ := hother
  rw [← byteLength_append] at hstop
  have hfront : before <+: text := ⟨body ++ after, by rw [htext, List.append_assoc]⟩
  have hback : before' ++ later <+: text := ⟨after', htext'.symm⟩
  rcases List.prefix_or_prefix_of_prefix hfront hback with ⟨between, hbetween⟩ | hbegins
  · refine ⟨between, before, after', ?_, hstart, ?_⟩
    · rw [hbetween, htext']
    · rw [hstop, ← hbetween, byteLength_append]
  · -- Both ends are at the same byte, so nothing lies between them.
    have hbytes := byteLength_mono hbegins
    have hsame : byteLength before = byteLength (before' ++ later) := by omega
    exact ⟨[], before, body ++ after, by rw [htext, List.append_nil, List.append_assoc], hstart,
      by rw [hstop, ← hsame]; rfl⟩

/-- The empty span behind a marked part. -/
theorem Span.Marks.behind (hspan : span.Marks text body) :
    (Span.empty span.stop).Marks text [] := by
  obtain ⟨before, after, htext, _, hstop⟩ := hspan
  refine ⟨before ++ body, after, by rw [htext, List.append_nil], ?_, ?_⟩
  · rw [Span.empty, hstop, byteLength_append]
  · rw [Span.empty, hstop, byteLength_append]
    rfl

end Spans

/-- How the spans of the tokens of a text lie. -/
structure InOrder (tokens : List Token) : Prop where
  nonempty : ∀ token ∈ tokens, token.span.start < token.span.stop
  ordered : tokens.Pairwise fun first second => first.span.stop ≤ second.span.start

theorem inOrder_of_tokenize {text : String} {tokens : List Token}
    (htokens : tokenize text = .ok tokens) : InOrder tokens := by
  obtain ⟨final, hcuts⟩ := exists_cuts_of_ok htokens
  refine ⟨fun token hmem => ?_, hcuts.ordered⟩
  obtain ⟨before, _, first, body, _, _, hspan, _⟩ := hcuts.exists_lexeme hmem
  rw [hspan]
  exact Nat.lt_add_of_pos_right (byteLength_cons_pos first body)

theorem exists_marks_of_tokenize {text : String} {tokens : List Token}
    (htokens : tokenize text = .ok tokens) {token : Token} (hmem : token ∈ tokens) :
    ∃ body, token.span.Marks text.toList body := by
  obtain ⟨final, hcuts⟩ := exists_cuts_of_ok htokens
  obtain ⟨before, _, first, body, after, htext, hspan, _⟩ := hcuts.exists_lexeme hmem
  exact ⟨first :: body, before, after, htext, by rw [hspan], by rw [hspan]⟩

namespace InOrder

variable {before behind tokens : List Token}

theorem stop_le_endOfTokens (horder : InOrder tokens) {token : Token} (hmem : token ∈ tokens) :
    token.span.stop ≤ endOfTokens tokens := by
  obtain ⟨others, last, rfl⟩ := tokens.eq_nil_or_concat'.resolve_left (List.ne_nil_of_mem hmem)
  rw [endOfTokens, List.getLast?_concat]
  rcases List.mem_append.mp hmem with hothers | hlast
  · have hstart := (List.pairwise_append.mp horder.ordered).2.2 token hothers last
      List.mem_cons_self
    exact hstart.trans (horder.nonempty last (by simp)).le
  · exact (congrArg (·.span.stop) (List.mem_singleton.mp hlast)).le

/-- Nothing behind a cut starts before the token right behind it. -/
theorem start_le_start (horder : InOrder (before ++ behind)) {first token : Token}
    {others : List Token} (hbehind : behind = first :: others) (hmem : token ∈ behind) :
    first.span.start ≤ token.span.start := by
  subst hbehind
  rcases List.mem_cons.mp hmem with rfl | hothers
  · exact le_rfl
  · have hordered := (List.pairwise_append.mp horder.ordered).2.1
    have hstop := (List.pairwise_cons.mp hordered).1 token hothers
    exact (horder.nonempty first (by simp)).le.trans hstop

/-- What ends before the place of an error is what stands before it. -/
theorem filter_eq (horder : InOrder (before ++ behind)) {error : GrammarError}
    (hstands : error.StandsAt behind) {span : Span}
    (hspan : span = error.span.getD (.empty (endOfTokens (before ++ behind)))) :
    (before ++ behind).filter (fun token => token.span.stop ≤ span.start) = before := by
  cases behind with
  | nil =>
    have hstart : span.start = endOfTokens (before ++ []) := by
      rw [hspan, show error.span = none from hstands]
      rfl
    rw [List.append_nil] at horder hstart ⊢
    refine List.filter_eq_self.mpr fun token hmem => ?_
    rw [hstart, decide_eq_true_eq]
    exact horder.stop_le_endOfTokens hmem
  | cons first others =>
    obtain ⟨last, _, herror⟩ := hstands
    have hstart : span.start = first.span.start := by rw [hspan, herror]; rfl
    have hbefore : before.filter (fun token => token.span.stop ≤ span.start) = before := by
      refine List.filter_eq_self.mpr fun token hmem => ?_
      rw [hstart, decide_eq_true_eq]
      exact (List.pairwise_append.mp horder.ordered).2.2 token hmem first List.mem_cons_self
    have hbehind : (first :: others).filter (fun token => token.span.stop ≤ span.start) = [] := by
      refine List.filter_eq_nil_iff.mpr fun token hmem => ?_
      have hle := horder.start_le_start rfl hmem
      have hlt := horder.nonempty token (List.mem_append_right _ hmem)
      rw [hstart, decide_eq_true_eq]
      omega
    rw [List.filter_append, hbefore, hbehind, List.append_nil]

end InOrder

/-- A lexical error comes from cutting the text. -/
theorem tokenize_of_lexical {text : String} {cause : LexicalCause} {span : Span}
    (herror : Schedule.ofText text = .error (.lexical cause span)) :
    tokenize text = .error ⟨cause, span⟩ := by
  rw [Schedule.ofText] at herror
  split at herror
  · rename_i found hfound
    obtain ⟨rfl, rfl⟩ := ExpressionError.lexical.inj (Except.error.inj herror)
    exact hfound
  · split at herror <;> cases herror

theorem exists_tokens_of_grammatical {text : String} {cause : GrammarCause} {span : Span}
    (herror : Schedule.ofText text = .error (.grammatical cause span)) :
    ∃ tokens, tokenize text = .ok tokens := by
  rw [Schedule.ofText] at herror
  split at herror
  · cases herror
  · exact ⟨_, ‹_›⟩

/-- An error of the grammar comes from reading the tokens of the text. -/
theorem exists_error_of_grammatical {text : String} {tokens : List Token} {cause : GrammarCause}
    {span : Span} (htokens : tokenize text = .ok tokens)
    (herror : Schedule.ofText text = .error (.grammatical cause span)) :
    ∃ error, scheduleOfTokens tokens = .error error ∧ cause = error.cause ∧
      span = error.span.getD (.empty (endOfTokens tokens)) := by
  rw [Schedule.ofText, htokens] at herror
  dsimp only at herror
  split at herror
  · rename_i error hread
    obtain ⟨hcause, hspan⟩ := ExpressionError.grammatical.inj (Except.error.inj herror)
    exact ⟨error, hread, hcause.symm, hspan.symm⟩
  · cases herror

/-! ## What ends before an error -/

/-- The tokens that end before an error of the grammar, or where it starts, begin
tokens that are read as a schedule. -/
theorem exists_completion {text : String} {tokens : List Token} {cause : GrammarCause}
    {span : Span} (htokens : tokenize text = .ok tokens)
    (herror : Schedule.ofText text = .error (.grammatical cause span)) :
    ∃ accepted schedule,
      tokens.filter (fun token => token.span.stop ≤ span.start) <+: accepted ∧
        scheduleOfTokens accepted = .ok schedule := by
  obtain ⟨error, hread, _, hspan⟩ := exists_error_of_grammatical htokens herror
  obtain ⟨_, before, behind, rfl, hstands, later, schedule, phrase, hsymbols, _⟩ :=
    interrupts_of_scheduleOfTokens hread
  have horder := inOrder_of_tokenize htokens
  refine ⟨before ++ later.map fun symbol => ⟨symbol, .empty 0⟩, phrase.value, ?_, ?_⟩
  · rw [horder.filter_eq hstands hspan]
    exact List.prefix_append _ _
  · apply scheduleOfTokens_of_phrase phrase
    rw [List.map_append, List.map_map, hsymbols]
    exact congrArg _ (List.map_id later)

/-- A range whose days are in the wrong order stands behind a list that can go on. -/
theorem exists_completion_before_range :
    ∃ tokens span, tokenize "every month on the 1st,20th to 5th at 9:00 in Zürich" = .ok tokens ∧
      Schedule.ofText "every month on the 1st,20th to 5th at 9:00 in Zürich" =
        .error (.grammatical (.reversedDays 20 5) span) ∧
      ∃ accepted schedule,
        tokens.filter (fun token => token.span.stop ≤ span.start) <+: accepted ∧
          scheduleOfTokens accepted = .ok schedule := by
  have htokens : tokenize "every month on the 1st,20th to 5th at 9:00 in Zürich" =
      .ok [⟨.keyword .every, ⟨0, 5⟩⟩, ⟨.keyword .month, ⟨6, 11⟩⟩, ⟨.keyword .«on», ⟨12, 14⟩⟩,
        ⟨.keyword .«the», ⟨15, 18⟩⟩, ⟨.ordinal 1, ⟨19, 22⟩⟩, ⟨.comma, ⟨22, 23⟩⟩,
        ⟨.ordinal 20, ⟨23, 27⟩⟩, ⟨.keyword .«to», ⟨28, 30⟩⟩, ⟨.ordinal 5, ⟨31, 34⟩⟩,
        ⟨.keyword .«at», ⟨35, 37⟩⟩, ⟨.time ⟨9, 0⟩, ⟨38, 42⟩⟩, ⟨.keyword .«in», ⟨43, 45⟩⟩,
        ⟨.zone "Zürich", ⟨46, 53⟩⟩] := by cbv
  have herror : Schedule.ofText "every month on the 1st,20th to 5th at 9:00 in Zürich" =
      .error (.grammatical (.reversedDays 20 5) ⟨23, 34⟩) := by cbv
  exact ⟨_, _, htokens, herror, exists_completion htokens herror⟩

/-! ## Places of errors -/

/-- The spans of an expression at which an error of the grammar may stand. -/
inductive IsTokenPlace (tokens : List Token) : Span → Prop
  | noTokens (hnone : tokens = []) : IsTokenPlace tokens (.empty 0)
  /-- Right behind the last token. -/
  | behind {last : Token} (hlast : tokens.getLast? = some last) :
      IsTokenPlace tokens (.empty last.span.stop)
  /-- From the start of a token to the end of a token, which may be the same. -/
  | through {first last : Token} (hfirst : first ∈ tokens) (hlast : last ∈ tokens)
      (hle : first.span.start ≤ last.span.start) :
      IsTokenPlace tokens ⟨first.span.start, last.span.stop⟩

/-- Where an error stands in its text, and how it is shown there. -/
structure IsPlaced (text : String) (error : ExpressionError) : Prop where
  bounds : error.span.start ≤ error.span.stop ∧ error.span.stop ≤ text.utf8ByteSize
  /-- The span falls between characters, and a report counts those before it and
  those under it. -/
  counted : ∃ message excerpt before body after,
    (Report.ofExpressionError text error = .lexical message excerpt ∨
      Report.ofExpressionError text error = .grammatical message excerpt) ∧
    text.toList = before ++ body ++ after ∧ byteLength before = error.span.start ∧
    byteLength (before ++ body) = error.span.stop ∧
    charsBefore? error.span.start text.toList = some before.length ∧
    charsBefore? error.span.stop text.toList = some (before ++ body).length ∧
    excerpt.column = before.length ∧ excerpt.width = body.length
  tokens : ∀ cause span, error = .grammatical cause span →
    ∃ tokens, tokenize text = .ok tokens ∧ IsTokenPlace tokens span

/-- The report on an error whose span marks a part of the text. -/
theorem counted_of_marks {text : String} {error : ExpressionError} {body : List Char}
    (hmarks : error.span.Marks text.toList body) : ∃ message excerpt before body after,
      (Report.ofExpressionError text error = .lexical message excerpt ∨
        Report.ofExpressionError text error = .grammatical message excerpt) ∧
      text.toList = before ++ body ++ after ∧ byteLength before = error.span.start ∧
      byteLength (before ++ body) = error.span.stop ∧
      charsBefore? error.span.start text.toList = some before.length ∧
      charsBefore? error.span.stop text.toList = some (before ++ body).length ∧
      excerpt.column = before.length ∧ excerpt.width = body.length := by
  obtain ⟨before, after, htext, hstart, hstop⟩ := hmarks
  rw [← byteLength_append] at hstop
  have hcolumn : charsBefore? error.span.start text.toList = some before.length := by
    rw [hstart, htext, List.append_assoc, charsBefore?_byteLength]
  have hthrough : charsBefore? error.span.stop text.toList = some (before ++ body).length := by
    rw [hstop, htext, charsBefore?_byteLength]
  obtain ⟨message, excerpt, hreport, hexcerpt⟩ : ∃ message excerpt,
      (Report.ofExpressionError text error = .lexical message excerpt ∨
        Report.ofExpressionError text error = .grammatical message excerpt) ∧
      excerpt.input = text ∧ excerpt.span = error.span := by
    cases error with
    | lexical => exact ⟨_, _, .inl rfl, rfl, rfl⟩
    | grammatical => exact ⟨_, _, .inr rfl, rfl, rfl⟩
  obtain ⟨hinput, hspan⟩ := hexcerpt
  have hshown : excerpt.column = before.length ∧ excerpt.width = body.length := by
    apply Span.Marks.column_width
    · rw [hinput]
      exact htext
    · rw [hspan, hstart]
    · rw [hspan, hstop, byteLength_append]
  exact ⟨message, excerpt, before, body, after, hreport, htext, hstart.symm, hstop.symm, hcolumn,
    hthrough, hshown⟩

/-- The text that could not be cut further lies between characters. -/
theorem exists_marks_of_error {text : String} {error : LexicalError}
    (herror : tokenize text = .error error) : ∃ body, error.span.Marks text.toList body := by
  obtain ⟨tokens, ⟨position, zoneNext, rest⟩, hcuts, hfails⟩ := exists_cuts_of_error herror
  obtain ⟨before, htext, hposition⟩ := hcuts.exists_passed
  dsimp only at htext hposition
  rw [Nat.zero_add] at hposition
  cases hfails with
  | ended =>
    exact ⟨[], before, [], by simp only [htext, List.append_nil], hposition, hposition⟩
  | @lexeme _ _ first rest cause _ _ =>
    have hsplit := List.take_append_drop (lexemeAt zoneNext first rest).extent rest
    refine ⟨first :: rest.take (lexemeAt zoneNext first rest).extent, before,
      rest.drop (lexemeAt zoneNext first rest).extent, ?_, hposition, ?_⟩
    · rw [htext, List.append_assoc, List.cons_append, hsplit]
    · rw [hposition]

theorem InOrder.isTokenPlace {tokens : List Token} (horder : InOrder tokens)
    {error : GrammarError} {causes : GrammarCause → Prop} {P : List Symbol → Schedule → Prop}
    (herror : error.Interrupts tokens causes P) :
    IsTokenPlace tokens (error.span.getD (.empty (endOfTokens tokens))) := by
  obtain ⟨_, before, behind, rfl, hstands, _⟩ := herror
  cases behind with
  | nil =>
    rw [show error.span = none from hstands, Option.getD_none, List.append_nil]
    rcases before.eq_nil_or_concat' with rfl | ⟨others, last, rfl⟩
    · exact .noTokens rfl
    · have hlast : (others ++ [last]).getLast? = some last := List.getLast?_concat
      rw [endOfTokens, hlast]
      exact .behind hlast
  | cons first others =>
    obtain ⟨last, hlast, hspan⟩ := hstands
    rw [hspan, Option.getD_some]
    exact .through (List.mem_append_right _ List.mem_cons_self) (List.mem_append_right _ hlast)
      (horder.start_le_start rfl hlast)

/-- A place at tokens lies between characters. -/
theorem IsTokenPlace.exists_marks {text : String} {tokens : List Token} {span : Span}
    (htokens : tokenize text = .ok tokens) (hplace : IsTokenPlace tokens span) :
    ∃ body, span.Marks text.toList body := by
  cases hplace with
  | noTokens => exact ⟨[], [], text.toList, rfl, rfl, rfl⟩
  | behind hlast =>
    obtain ⟨body, hbody⟩ := exists_marks_of_tokenize htokens (List.mem_of_getLast? hlast)
    exact ⟨[], hbody.behind⟩
  | @through first last hfirst hlast hle =>
    obtain ⟨body, hbody⟩ := exists_marks_of_tokenize htokens hfirst
    obtain ⟨later, hlater⟩ := exists_marks_of_tokenize htokens hlast
    have hnonempty := (inOrder_of_tokenize htokens).nonempty last hlast
    exact hbody.through hlater (hle.trans hnonempty.le)

/-- If a text is no expression, the error is placed in it by characters, and by
its tokens if it has any. -/
theorem isPlaced_of_ofText {text : String} {error : ExpressionError}
    (herror : Schedule.ofText text = .error error) : IsPlaced text error := by
  have hplaces : ∀ cause span, error = .grammatical cause span →
      ∃ tokens, tokenize text = .ok tokens ∧ IsTokenPlace tokens span := by
    rintro cause span rfl
    obtain ⟨tokens, htokens⟩ := exists_tokens_of_grammatical herror
    obtain ⟨found, hread, _, rfl⟩ := exists_error_of_grammatical htokens herror
    exact ⟨tokens, htokens,
      (inOrder_of_tokenize htokens).isTokenPlace (interrupts_of_scheduleOfTokens hread)⟩
  obtain ⟨body, hmarks⟩ : ∃ body, error.span.Marks text.toList body := by
    cases error with
    | lexical cause span => exact exists_marks_of_error (tokenize_of_lexical herror)
    | grammatical cause span =>
      obtain ⟨tokens, htokens, hplace⟩ := hplaces cause span rfl
      exact hplace.exists_marks htokens
  refine ⟨⟨hmarks.start_le_stop, ?_⟩, counted_of_marks hmarks, hplaces⟩
  rw [← byteLength_toList]
  exact hmarks.stop_le_byteLength

/-- Characters of two and three bytes before the place of an error and under it. -/
theorem isPlaced_wide_characters :
    Schedule.ofText "every day at 9:00 in Zürich/東京 on" =
        .error (.grammatical .leftover ⟨36, 38⟩) ∧
      IsPlaced "every day at 9:00 in Zürich/東京 on" (.grammatical .leftover ⟨36, 38⟩) := by
  have herror : Schedule.ofText "every day at 9:00 in Zürich/東京 on" =
      .error (.grammatical .leftover ⟨36, 38⟩) := by cbv
  exact ⟨herror, isPlaced_of_ofText herror⟩

end Cadence
