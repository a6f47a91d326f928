import Mathlib
import Cadence.Proofs.Expression.Cutting

/-!
# Tokens tile their text

The spans of the tokens of a text lie in it in order and between its characters,
and nothing is left between them but blanks.  What stands under a span is the
token there, whatever stands around it; the word `in` and the name of the zone
behind it are the only tokens that depend on each other.
-/

namespace Cadence

/-- Whether a byte lies in a span. -/
def Span.Covers (span : Span) (byte : Nat) : Prop := span.start ≤ byte ∧ byte < span.stop

/-- How the tokens of a text lie in it. -/
structure Tiles (text : String) (tokens : List Token) : Prop where
  /-- No span is empty or leaves the text. -/
  bounds : ∀ token ∈ tokens,
    token.span.start < token.span.stop ∧ token.span.stop ≤ text.utf8ByteSize
  /-- No span starts or ends inside a character. -/
  marks : ∀ token ∈ tokens, ∃ body, token.span.Marks text.toList body
  ordered : tokens.Pairwise fun first second => first.span.stop ≤ second.span.start
  /-- A byte under no span is a blank. -/
  blank : ∀ byte < text.utf8ByteSize, (∀ token ∈ tokens, ¬ token.span.Covers byte) →
    ∃ before c after, text.toList = before ++ c :: after ∧ byteLength before = byte ∧
      isAsciiBlank c = true
  /-- Wherever the tokens are cut in two, the name of a zone stands behind the cut
  just when `in` stands before it. -/
  zones : ∀ before behind, tokens = before ++ behind →
    ((∃ name, behind.head?.map Token.symbol = some (.zone name)) ↔
      before.getLast?.map Token.symbol = some (.keyword .«in»))
  /-- All other tokens are the only token of what stands under their span. -/
  alone : ∀ token ∈ tokens, ∀ body, token.span.Marks text.toList body →
    token.symbol ≠ .keyword .«in» → (∀ name, token.symbol ≠ .zone name) →
      tokenize (String.ofList body) = .ok [⟨token.symbol, ⟨0, byteLength body⟩⟩]

/-- A spelling has one token. -/
theorem tokenize_of_isSpelling {text : List Char} {symbol : Symbol}
    (hspelling : IsSpelling text symbol) (hin : symbol ≠ .keyword .«in») :
    tokenize (String.ofList text) = .ok [⟨symbol, ⟨0, byteLength text⟩⟩] := by
  obtain ⟨first, body, rfl, _, _⟩ := readLexeme_of_isSpelling hspelling
  obtain ⟨hfirst, hread⟩ := lexemeAt_of_isSpelling hspelling (endsBefore_nil symbol)
  have htoken : tokensFrom 0 false (first :: (body ++ [])) = _ := tokensFrom_token hfirst hread
  rw [tokenize, String.toList_ofList, ← List.append_nil body, htoken, List.append_nil,
    decide_eq_false hin, tokensFrom, Nat.zero_add]
  rfl

section Runs

variable {place last : Place} {tokens : List Token}

/-- Every token of a text stands behind what a run passes, over a lexeme. -/
theorem Cuts.exists_lexeme {text : List Char} {token : Token}
    (hcuts : Cuts ⟨0, false, text⟩ tokens last) (hmem : token ∈ tokens) :
    ∃ before zoneNext first body after, text = before ++ (first :: body) ++ after ∧
      token.span = ⟨byteLength before, byteLength before + byteLength (first :: body)⟩ ∧
      lexemeAt zoneNext first (body ++ after) = ⟨body.length, .ok token.symbol⟩ := by
  obtain ⟨front, behind, rfl⟩ := List.append_of_mem hmem
  obtain ⟨zoneNext, first, body, after, hbefore, _, hread, hstop, _⟩ := hcuts.exists_place
  obtain ⟨before, htext, hstart⟩ := hbefore.exists_passed
  dsimp only at htext hstart
  rw [Nat.zero_add] at hstart
  refine ⟨before, zoneNext, first, body, after, ?_, ?_, hread⟩
  · rw [htext, List.append_assoc, List.cons_append]
  · rw [← hstart, ← hstop]

/-- Tokens stand where a run starts or behind. -/
theorem Cuts.position_le_of_mem (hcuts : Cuts place tokens last) {token : Token}
    (hmem : token ∈ tokens) : place.position ≤ token.span.start := by
  obtain ⟨front, behind, rfl⟩ := List.append_of_mem hmem
  obtain ⟨_, _, _, _, hbefore, _⟩ := hcuts.exists_place
  exact hbefore.position_le

theorem Cuts.ordered (hcuts : Cuts place tokens last) :
    tokens.Pairwise fun first second => first.span.stop ≤ second.span.start := by
  induction hcuts with
  | stop => exact .nil
  | blank _ _ ih => exact ih
  | token _ _ hrest ih => exact .cons (fun _ hmem => hrest.position_le_of_mem hmem) ih

/-- A run passes over nothing but tokens and blanks. -/
theorem Cuts.blank_of_not_covered (hcuts : Cuts place tokens last) {byte : Nat}
    (hfrom : place.position ≤ byte) (hto : byte < last.position)
    (hfree : ∀ token ∈ tokens, ¬ token.span.Covers byte) :
    ∃ before c after, place.rest = before ++ c :: after ∧
      place.position + byteLength before = byte ∧ isAsciiBlank c = true := by
  induction hcuts with
  | stop => omega
  | @blank position _ c rest _ _ hblank _ ih =>
    dsimp only at hfrom ih ⊢
    by_cases hhere : position = byte
    · exact ⟨[], c, rest, rfl, hhere, hblank⟩
    · obtain ⟨before, found, after, htext, hbyte, hfound⟩ := ih (by omega) hto hfree
      refine ⟨c :: before, found, after, congrArg (c :: ·) htext, ?_, hfound⟩
      rw [byteLength, utf8Size_of_isAsciiBlank hblank, ← Nat.add_assoc]
      exact hbyte
  | @token position _ first body _ _ _ _ _ _ _ ih =>
    obtain ⟨hhere, hlater⟩ := List.forall_mem_cons.mp hfree
    dsimp only at hfrom ih ⊢
    have hbehind : position + byteLength (first :: body) ≤ byte :=
      Nat.not_lt.mp fun hinside => hhere ⟨hfrom, hinside⟩
    obtain ⟨before, c, after, rfl, hbyte, hblank⟩ := ih hbehind hto hlater
    refine ⟨first :: body ++ before, c, after, ?_, ?_, hblank⟩
    · rw [← List.append_assoc]
      rfl
    · rw [byteLength_append, ← Nat.add_assoc]
      exact hbyte

/-- The name of a zone is due behind `in`. -/
theorem Cuts.zoneNext_eq (hcuts : Cuts place tokens last) :
    last.zoneNext = tokens.getLast?.elim place.zoneNext
      fun token => decide (token.symbol = .keyword .«in») := by
  induction hcuts with
  | stop => rfl
  | blank _ _ ih => exact ih
  | @token _ _ _ _ _ _ tokens _ _ _ _ ih =>
    rw [ih]
    cases tokens with
    | nil => rfl
    | cons token tokens =>
      rw [List.getLast?_cons_cons, List.getLast?_eq_some_getLast (List.cons_ne_nil token tokens)]
      rfl

theorem Cuts.zoneNext_iff {position : Nat} {text : List Char}
    (hcuts : Cuts ⟨position, false, text⟩ tokens last) :
    last.zoneNext = true ↔ tokens.getLast?.map Token.symbol = some (.keyword .«in») := by
  rw [hcuts.zoneNext_eq]
  cases tokens.getLast? <;> simp

/-- The name of a zone is read where it is due and nowhere else. -/
theorem isZone_iff_of_lexemeAt {zoneNext : Bool} {first : Char} {body after : List Char}
    {symbol : Symbol}
    (hread : lexemeAt zoneNext first (body ++ after) = ⟨body.length, .ok symbol⟩) :
    (∃ name, symbol = .zone name) ↔ zoneNext = true := by
  cases zoneNext with
  | true => exact ⟨fun _ => rfl, fun _ => ⟨_, (zone_of_lexemeAt hread).1⟩⟩
  | false =>
    refine ⟨?_, fun hfalse => absurd hfalse Bool.false_ne_true⟩
    rintro ⟨name, rfl⟩
    exact absurd (isSpelling_of_lexemeAt hread).1 not_isSpelling_zone

theorem Cuts.zones {position final : Nat} {text : List Char} {before behind : List Token}
    (hcuts : Cuts ⟨position, false, text⟩ (before ++ behind) ⟨final, false, []⟩) :
    (∃ name, behind.head?.map Token.symbol = some (.zone name)) ↔
      before.getLast?.map Token.symbol = some (.keyword .«in») := by
  cases behind with
  | nil =>
    rw [List.append_nil] at hcuts
    rw [← hcuts.zoneNext_iff]
    simp
  | cons token behind =>
    obtain ⟨zoneNext, first, body, after, hbefore, _, hread, _⟩ := hcuts.exists_place
    rw [← hbefore.zoneNext_iff, ← isZone_iff_of_lexemeAt hread]
    simp

end Runs

/-- If a text can be cut into tokens, the tokens tile it. -/
theorem tiles_of_tokenize {text : String} {tokens : List Token}
    (htokens : tokenize text = .ok tokens) : Tiles text tokens := by
  obtain ⟨final, hcuts⟩ := exists_cuts_of_ok htokens
  obtain ⟨passed, htext, hfinal⟩ := hcuts.exists_passed
  dsimp only at htext hfinal
  rw [List.append_nil] at htext
  have hsize : text.utf8ByteSize = final := by
    rw [← byteLength_toList, htext, hfinal, Nat.zero_add]
  have hlexeme : ∀ token ∈ tokens, ∃ zoneNext first body after,
      token.span.Marks text.toList (first :: body) ∧
        lexemeAt zoneNext first (body ++ after) = ⟨body.length, .ok token.symbol⟩ := by
    intro token hmem
    obtain ⟨before, zoneNext, first, body, after, htext, hspan, hread⟩ := hcuts.exists_lexeme hmem
    exact ⟨zoneNext, first, body, after, ⟨before, after, htext, by rw [hspan], by rw [hspan]⟩,
      hread⟩
  refine ⟨fun token hmem => ?_, fun token hmem => ?_, hcuts.ordered, fun byte hbyte hfree => ?_,
    ?_, fun token hmem body hbody hin hzone => ?_⟩
  · obtain ⟨_, first, body, _, hmarks, _⟩ := hlexeme token hmem
    rw [← byteLength_toList]
    refine ⟨?_, hmarks.stop_le_byteLength⟩
    obtain ⟨before, after, _, hstart, hstop⟩ := hmarks
    have hpos := byteLength_cons_pos first body
    omega
  · obtain ⟨_, first, body, _, hmarks, _⟩ := hlexeme token hmem
    exact ⟨first :: body, hmarks⟩
  · obtain ⟨before, c, after, htext, hbefore, hblank⟩ :=
      hcuts.blank_of_not_covered (Nat.zero_le byte) (hsize ▸ hbyte) hfree
    exact ⟨before, c, after, htext, (Nat.zero_add _).symm.trans hbefore, hblank⟩
  · rintro before behind rfl
    exact hcuts.zones
  · obtain ⟨zoneNext, first, spelled, after, hmarks, hread⟩ := hlexeme token hmem
    obtain rfl := hmarks.unique hbody
    cases zoneNext with
    | true => exact absurd (zone_of_lexemeAt hread).1 (hzone _)
    | false => exact tokenize_of_isSpelling (isSpelling_of_lexemeAt hread).1 hin

/-- A text with tokens that touch, with two kinds of blanks and with characters of
two bytes in the name of its zone. -/
theorem tiles_touching_tokens : ∃ tokens,
    tokenize "on 2ndMAY,9:05\tIN Ünter/ß 3" = .ok tokens ∧ tokens.length = 8 ∧
      Tiles "on 2ndMAY,9:05\tIN Ünter/ß 3" tokens := by
  have htokens : tokenize "on 2ndMAY,9:05\tIN Ünter/ß 3" =
      .ok [⟨.keyword .«on», ⟨0, 2⟩⟩, ⟨.ordinal 2, ⟨3, 6⟩⟩, ⟨.month .may, ⟨6, 9⟩⟩,
        ⟨.comma, ⟨9, 10⟩⟩, ⟨.time ⟨9, 5⟩, ⟨10, 14⟩⟩, ⟨.keyword .«in», ⟨15, 17⟩⟩,
        ⟨.zone "Ünter/ß", ⟨18, 27⟩⟩, ⟨.number 3, ⟨28, 29⟩⟩] := by cbv
  exact ⟨_, htokens, rfl, tiles_of_tokenize htokens⟩

end Cadence
