import Mathlib
import Cadence.Proofs.Expression.Cutting
import Cadence.Proofs.Expression.Derivations
import Cadence.Proofs.Expression.WrittenText

/-!
# Case and blanks

Outside the names of zones the case of letters counts for nothing.  Every reader tells
letters apart only after lowering them, so two texts that differ in case are cut in the
same places, into the same symbols, or fail in the same way at the same place.

Blanks only separate.  No reader looks beyond the next blank, so a run stops at every
blank and gives the same symbols whichever blanks stand there; only their number shows
in the spans.
-/

namespace Cadence

/-! ## Letters -/

/-- What is the same for all letters ignores case. -/
theorem congr_toLower {α : Type} {f : Char → α} {value : α}
    (hletter : ∀ c, c.isAlpha = true → f c = value) (c : Char) : f c.toLower = f c := by
  by_cases hupper : c.isUpper = true
  · have hc : c.isAlpha = true := by rw [Char.isAlpha, hupper, Bool.true_or]
    rw [hletter c hc, hletter _ ((Char.isAlpha_toLower_eq_isAlpha c).trans hc)]
  · rw [Char.toLower_eq_of_not_isUpper hupper]

theorem isDigit_toLower (c : Char) : c.toLower.isDigit = c.isDigit :=
  congr_toLower (fun _ hc => isDigit_eq_false_of_isAlpha hc) c

theorem isWordCharacter_toLower (c : Char) : isWordCharacter c.toLower = isWordCharacter c :=
  congr_toLower (fun c hc => by rw [isWordCharacter, Char.isAlphanum, hc, Bool.true_or,
    Bool.true_or]) c

theorem isAsciiBlank_toLower (c : Char) : isAsciiBlank c.toLower = isAsciiBlank c :=
  congr_toLower (fun c hc => (not_blank_or_comma_of_isAlphanum
    (by rw [Char.isAlphanum, hc, Bool.true_or])).1) c

theorem utf8Size_toLower (c : Char) : c.toLower.utf8Size = c.utf8Size := by
  have hletter : ∀ c : Char, c.isAlpha = true → c.utf8Size = 1 := by
    intro c hc
    rw [Char.utf8Size_eq_one_iff]
    simp only [Char.isAlpha, Char.isUpper, Char.isLower, Bool.or_eq_true, decide_eq_true_eq,
      ge_iff_le, UInt32.le_iff_toNat_le] at hc ⊢
    simp at hc ⊢
    omega
  exact congr_toLower hletter c

/-- Nothing but a character itself is lowered to one that is no letter. -/
theorem toLower_eq_iff {c d : Char} (hd : d.isAlpha = false) : c.toLower = d ↔ c = d := by
  have hsame (hc : c.isAlpha = false) : c.toLower = c := by
    rw [Char.isAlpha, Bool.or_eq_false_iff] at hc
    exact Char.toLower_eq_of_not_isUpper (Bool.eq_false_iff.mp hc.1)
  constructor
  · rintro rfl
    rw [Char.isAlpha_toLower_eq_isAlpha] at hd
    exact (hsame hd).symm
  · rintro rfl
    exact hsame hd

theorem isAlpha_eq_false_of_isDigit {c : Char} (hc : c.isDigit = true) : c.isAlpha = false := by
  by_contra hletter
  rw [isDigit_eq_false_of_isAlpha (Bool.not_eq_false _ ▸ hletter)] at hc
  cases hc

/-- A run without letters is a run of the text in lower case as well. -/
theorem prefix_map_toLower_iff {run text : List Char} (hrun : ∀ c ∈ run, c.isAlpha = false) :
    run <+: text.map Char.toLower ↔ run <+: text := by
  induction run generalizing text with
  | nil => exact ⟨fun _ => List.nil_prefix, fun _ => List.nil_prefix⟩
  | cons c run ih =>
    obtain ⟨hc, hrun⟩ := List.forall_mem_cons.mp hrun
    cases text with
    | nil => exact Iff.rfl
    | cons d text =>
      rw [List.map_cons, List.cons_prefix_cons, List.cons_prefix_cons, ih hrun, eq_comm,
        toLower_eq_iff hc, eq_comm]

theorem byteLength_map_toLower (text : List Char) :
    byteLength (text.map Char.toLower) = byteLength text := by
  induction text with
  | nil => rfl
  | cons c text ih => rw [List.map_cons, byteLength, byteLength, utf8Size_toLower, ih]

/-! ## Readers ignore case -/

/-- The figures of a date behind its year. -/
theorem dateTail?_eq_some_iff {after tail : List Char} : dateTail? after = some tail ↔
    (∃ m₁ m₂ d₁ d₂, tail = ['-', m₁, m₂, '-', d₁, d₂] ∧
      [m₁, m₂, d₁, d₂].all Char.isDigit = true) ∧ tail <+: after := by
  constructor
  · intro htail
    obtain ⟨m₁, m₂, d₁, d₂, later, rfl, hfigures, hdigits⟩ := exists_of_dateTail? htail
    exact ⟨⟨m₁, m₂, d₁, d₂, hfigures, hdigits⟩, List.prefix_append _ _⟩
  · rintro ⟨⟨m₁, m₂, d₁, d₂, rfl, hdigits⟩, later, rfl⟩
    exact if_pos hdigits

/-- The figures of a date are neither letters nor blanks. -/
theorem plain_of_dateTail {tail : List Char} {m₁ m₂ d₁ d₂ : Char}
    (htail : tail = ['-', m₁, m₂, '-', d₁, d₂])
    (hdigits : [m₁, m₂, d₁, d₂].all Char.isDigit = true) :
    ∀ c ∈ tail, c.isAlpha = false ∧ isAsciiBlank c = false := by
  have hfigure : ∀ c, c.isDigit = true → c.isAlpha = false ∧ isAsciiBlank c = false := by
    intro c hc
    exact ⟨isAlpha_eq_false_of_isDigit hc, (not_blank_or_comma_of_isAlphanum
      (by rw [Char.isAlphanum, hc, Bool.or_true])).1⟩
  have hhyphen : '-'.isAlpha = false ∧ isAsciiBlank '-' = false := by decide
  simp only [List.all_cons, List.all_nil, Bool.and_true, Bool.and_eq_true] at hdigits
  obtain ⟨hm₁, hm₂, hd₁, hd₂⟩ := hdigits
  subst htail
  simp only [List.forall_mem_cons, hhyphen, hfigure _ hm₁, hfigure _ hm₂, hfigure _ hd₁,
    hfigure _ hd₂, true_and, and_self]
  exact List.forall_mem_nil _

theorem dateTail?_toLower (after : List Char) :
    dateTail? (after.map Char.toLower) = dateTail? after := by
  refine Option.ext fun tail => ?_
  rw [dateTail?_eq_some_iff, dateTail?_eq_some_iff, and_congr_right_iff]
  rintro ⟨m₁, m₂, d₁, d₂, htail, hdigits⟩
  exact prefix_map_toLower_iff fun c hc => (plain_of_dateTail htail hdigits c hc).1

theorem takeWhile_toLower {test : Char → Bool} (htest : ∀ c, test c.toLower = test c)
    (text : List Char) :
    (text.map Char.toLower).takeWhile test = (text.takeWhile test).map Char.toLower := by
  rw [List.takeWhile_map, show test ∘ Char.toLower = test from funext htest]

/-- Digits have no case. -/
theorem takeWhile_isDigit_toLower (text : List Char) :
    (text.map Char.toLower).takeWhile Char.isDigit = text.takeWhile Char.isDigit := by
  rw [takeWhile_toLower isDigit_toLower]
  refine (List.map_congr_left fun c hc => ?_).trans (List.map_id _)
  have hdigit := List.all_eq_true.mp List.all_takeWhile c hc
  exact (toLower_eq_iff (isAlpha_eq_false_of_isDigit hdigit)).mpr rfl

theorem dropWhile_isDigit_toLower (text : List Char) :
    (text.map Char.toLower).dropWhile Char.isDigit =
      (text.dropWhile Char.isDigit).map Char.toLower := by
  rw [List.dropWhile_map, show Char.isDigit ∘ Char.toLower = _ from funext isDigit_toLower]

theorem readWord_toLower (first : Char) (rest : List Char) :
    readWord first.toLower (rest.map Char.toLower) = readWord first rest := by
  simp only [readWord, takeWhile_toLower isWordCharacter_toLower, List.length_map,
    List.map_cons, List.map_map, Function.comp_def, Char.toLower_toLower_eq_toLower]

theorem isOrdinalEnding_toLower (c₁ c₂ : Char) :
    Numeral.isOrdinalEnding c₁.toLower c₂.toLower = Numeral.isOrdinalEnding c₁ c₂ := by
  rw [Numeral.isOrdinalEnding, Char.toLower_toLower_eq_toLower, Char.toLower_toLower_eq_toLower]
  rfl

theorem readNumber_toLower (digits after : List Char) :
    readNumber digits (after.map Char.toLower) = readNumber digits after := by
  rcases after with _ | ⟨c₁, _ | ⟨c₂, later⟩⟩
  · rfl
  · rfl
  · simp only [readNumber, List.map_cons, isOrdinalEnding_toLower]

theorem readTime_toLower (digits afterColon : List Char) :
    readTime digits (afterColon.map Char.toLower) = readTime digits afterColon := by
  simp only [readTime, takeWhile_isDigit_toLower]

/-- A numeral that is no date is a time if it is short and a colon stands behind it. -/
theorem readNumeric_eq (first : Char) (rest : List Char) : readNumeric first rest =
    let digits := first :: rest.takeWhile Char.isDigit
    let after := rest.dropWhile Char.isDigit
    match (if digits.length = 4 then dateTail? after else none) with
    | some tail => ⟨9, .ok (.date (String.ofList (digits ++ tail)))⟩
    | none =>
      if after.head? = some ':' ∧ digits.length ≤ 2 then readTime digits after.tail
      else readNumber digits after := by
  rw [readNumeric]
  dsimp only
  generalize first :: rest.takeWhile Char.isDigit = digits
  generalize rest.dropWhile Char.isDigit = after
  cases (if digits.length = 4 then dateTail? after else none) with
  | some tail => rfl
  | none =>
    cases after with
    | nil => rw [if_neg fun hboth => Option.some_ne_none _ hboth.1.symm]
    | cons c later =>
      by_cases hcolon : c = ':'
      · subst hcolon
        simp only [List.head?_cons, List.tail_cons, true_and]
      · rw [if_neg fun hboth => hcolon (Option.some.inj hboth.1)]
        dsimp only
        split
        · rename_i hafter
          exact absurd (List.cons.inj hafter).1 hcolon
        · rfl

theorem readNumeric_toLower (first : Char) (rest : List Char) :
    readNumeric first (rest.map Char.toLower) = readNumeric first rest := by
  rw [readNumeric_eq, readNumeric_eq]
  have hcolon : ∀ after : List Char,
      (after.map Char.toLower).head? = some ':' ↔ after.head? = some ':' := by
    intro after
    cases after with
    | nil => exact Iff.rfl
    | cons c after =>
      have hsame : c.toLower = ':' ↔ c = ':' := toLower_eq_iff rfl
      rw [List.map_cons, List.head?_cons, List.head?_cons, Option.some.injEq, hsame,
        Option.some.injEq]
  simp only [takeWhile_isDigit_toLower, dropWhile_isDigit_toLower, dateTail?_toLower,
    readNumber_toLower, hcolon, ← List.map_tail, readTime_toLower]

theorem readLexeme_toLower (first : Char) (rest : List Char) :
    readLexeme first.toLower (rest.map Char.toLower) = readLexeme first rest := by
  have hcomma : first.toLower = ',' ↔ first = ',' := toLower_eq_iff rfl
  simp only [readLexeme, hcomma, isDigit_toLower, Char.isAlpha_toLower_eq_isAlpha, readWord_toLower]
  split
  · rfl
  · split
    · rename_i hdigit
      rw [(toLower_eq_iff (isAlpha_eq_false_of_isDigit hdigit)).mpr rfl, readNumeric_toLower]
    · split
      · rfl
      · rename_i hletter
        rw [(toLower_eq_iff (Bool.eq_false_iff.mpr hletter)).mpr rfl]

/-! ## Readers stop at blanks -/

theorem fails_of_isAsciiBlank {c : Char} (hblank : isAsciiBlank c = true) :
    isWordCharacter c = false ∧ c.isDigit = false ∧ c.isAlpha = false ∧ c ≠ ':' := by
  simp only [isAsciiBlank, Bool.or_eq_true, decide_eq_true_eq] at hblank
  rcases hblank with (((rfl | rfl) | rfl) | rfl) | rfl <;> decide

/-- An ordinal ending ends with a letter. -/
theorem isOrdinalEnding_of_isAlpha_eq_false {c₁ c₂ : Char} (hletter : c₂.isAlpha = false) :
    Numeral.isOrdinalEnding c₁ c₂ = false := by
  rw [← Char.isAlpha_toLower_eq_isAlpha] at hletter
  rw [Numeral.isOrdinalEnding]
  split
  all_goals first
    | (rename_i hlower; rw [hlower] at hletter; cases hletter)
    | rfl

section Blanks

variable {word after : List Char} (hafter : ∀ c ∈ after.head?, isAsciiBlank c = true)
include hafter

section Runs

variable {test : Char → Bool} (htest : ∀ c, isAsciiBlank c = true → test c = false)
include htest

/-- A run of characters that blanks do not belong to ends at a blank. -/
theorem takeWhile_dropWhile_before_blank (word : List Char) :
    (word ++ after).takeWhile test = word.takeWhile test ∧
      (word ++ after).dropWhile test = word.dropWhile test ++ after := by
  obtain ⟨run, rest, rfl, htake, hdrop, hrun, hrest⟩ := exists_run test word
  have hstop : ∀ c ∈ (rest ++ after).head?, test c = false := by
    cases rest with
    | nil => exact fun c hc => htest c (hafter c hc)
    | cons d rest => exact hrest
  obtain ⟨htake', hdrop'⟩ := takeWhile_dropWhile_append hrun hstop
  rw [htake, hdrop, List.append_assoc]
  exact ⟨htake', hdrop'⟩

end Runs

/-- What holds no blank and begins a text lies before its first blank. -/
theorem prefix_before_blank_iff {run : List Char} (hrun : ∀ c ∈ run, isAsciiBlank c = false) :
    run <+: word ++ after ↔ run <+: word := by
  refine ⟨fun hbegins => ?_, fun hbegins => hbegins.trans (List.prefix_append _ _)⟩
  rcases List.prefix_or_prefix_of_prefix hbegins (List.prefix_append word after) with
    hword | ⟨more, rfl⟩
  · exact hword
  · rw [List.prefix_append_right_inj] at hbegins
    cases more with
    | nil => rw [List.append_nil]
    | cons c more =>
      obtain ⟨later, rfl⟩ := hbegins
      have hblank := hrun c (List.mem_append_right _ List.mem_cons_self)
      rw [hafter c rfl] at hblank
      cases hblank

theorem dateTail?_before_blank (word : List Char) : dateTail? (word ++ after) = dateTail? word := by
  refine Option.ext fun tail => ?_
  rw [dateTail?_eq_some_iff, dateTail?_eq_some_iff, and_congr_right_iff]
  rintro ⟨m₁, m₂, d₁, d₂, htail, hdigits⟩
  exact prefix_before_blank_iff hafter fun c hc => (plain_of_dateTail htail hdigits c hc).2

theorem readWord_before_blank (first : Char) (word : List Char) :
    readWord first (word ++ after) = readWord first word := by
  have hrun := (takeWhile_dropWhile_before_blank hafter
    (fun _ hblank => (fails_of_isAsciiBlank hblank).1) word).1
  simp only [readWord, hrun]

theorem readNumber_before_blank (digits word : List Char) :
    readNumber digits (word ++ after) = readNumber digits word := by
  have hending : ∀ c₁ c₂, isAsciiBlank c₂ = true → Numeral.isOrdinalEnding c₁ c₂ = false :=
    fun _ _ hblank => isOrdinalEnding_of_isAlpha_eq_false (fails_of_isAsciiBlank hblank).2.2.1
  rcases word with _ | ⟨c₁, _ | ⟨c₂, word⟩⟩
  · rcases after with _ | ⟨d₁, _ | ⟨d₂, after⟩⟩
    · rfl
    · rfl
    · have hnone : Numeral.isOrdinalEnding d₁ d₂ = false := Bool.eq_false_iff.mpr fun hordinal => by
        have hletter := isAlpha_of_isOrdinalEnding hordinal
        rw [(fails_of_isAsciiBlank (hafter d₁ rfl)).2.2.1] at hletter
        cases hletter
      simp only [readNumber, List.nil_append, hnone, Bool.false_eq_true, if_false]
  · cases after with
    | nil => rfl
    | cons d after =>
      simp only [readNumber, List.cons_append, List.nil_append, hending c₁ d (hafter d rfl),
        Bool.false_eq_true, if_false]
  · rfl

theorem readTime_before_blank (digits word : List Char) :
    readTime digits (word ++ after) = readTime digits word := by
  have hrun := (takeWhile_dropWhile_before_blank hafter
    (fun _ hblank => (fails_of_isAsciiBlank hblank).2.1) word).1
  simp only [readTime, hrun]

theorem readNumeric_before_blank (first : Char) (word : List Char) :
    readNumeric first (word ++ after) = readNumeric first word := by
  obtain ⟨htake, hdrop⟩ := takeWhile_dropWhile_before_blank hafter
    (fun _ hblank => (fails_of_isAsciiBlank hblank).2.1) word
  rw [readNumeric_eq, readNumeric_eq, htake, hdrop]
  dsimp only
  rw [dateTail?_before_blank hafter, readNumber_before_blank hafter]
  split
  · rfl
  · cases word.dropWhile Char.isDigit with
    | nil =>
      have hcolon : after.head? ≠ some ':' := fun hhead =>
        (fails_of_isAsciiBlank (hafter ':' hhead)).2.2.2 rfl
      rw [List.nil_append, if_neg fun hboth => hcolon hboth.1,
        if_neg fun hboth => Option.some_ne_none _ hboth.1.symm]
    | cons c later =>
      rw [List.cons_append, List.head?_cons, List.head?_cons, List.tail_cons, List.tail_cons,
        readTime_before_blank hafter]

theorem lexemeAt_before_blank (zoneNext : Bool) (first : Char) (word : List Char) :
    lexemeAt zoneNext first (word ++ after) = lexemeAt zoneNext first word := by
  cases zoneNext with
  | true =>
    have hrun : (word ++ after).takeWhile (!isAsciiBlank ·) = word.takeWhile (!isAsciiBlank ·) :=
      (takeWhile_dropWhile_before_blank hafter (fun _ hblank => by rw [hblank]; rfl) word).1
    simp only [lexemeAt, readZoneName, hrun, if_true]
  | false =>
    simp only [lexemeAt, readLexeme, Bool.false_eq_true, if_false,
      readNumeric_before_blank hafter, readWord_before_blank hafter]

end Blanks

/-! ## Runs in another case -/

/-- A text that differs from another one in the case of letters only, and not where the
name of a zone stands. -/
structure IsRecasing (text other : List Char) : Prop where
  letters : other.map Char.toLower = text.map Char.toLower
  zones : ∀ tokens last, Cuts ⟨0, false, text⟩ tokens last → ∀ token ∈ tokens,
    (∃ name, token.symbol = .zone name) → ∀ body, token.span.Marks text body →
      token.span.Marks other body

/-- In a text with tokens the names of zones are among these. -/
theorem isRecasing_of_tokenize {text other : String} {tokens : List Token}
    (htokens : tokenize text = .ok tokens)
    (hletters : other.toList.map Char.toLower = text.toList.map Char.toLower)
    (hzones : ∀ token ∈ tokens, (∃ name, token.symbol = .zone name) →
      ∃ body, token.span.Marks text.toList body ∧ token.span.Marks other.toList body) :
    IsRecasing text.toList other.toList := by
  refine ⟨hletters, fun front last hcuts token hmem hzone body hbody => ?_⟩
  have hall := (hcuts.prefix_of_ok htokens).subset hmem
  obtain ⟨name, htext, hother⟩ := hzones token hall hzone
  rwa [hbody.unique htext]

section Recased

variable {place last : Place} {tokens : List Token} {text other : List Char}

theorem isAsciiBlank_congr {c d : Char} (hletter : d.toLower = c.toLower) :
    isAsciiBlank d = isAsciiBlank c := by
  rw [← isAsciiBlank_toLower, hletter, isAsciiBlank_toLower]

theorem byteLength_congr {body body' : List Char}
    (hletters : body'.map Char.toLower = body.map Char.toLower) :
    byteLength body' = byteLength body := by
  rw [← byteLength_map_toLower, hletters, byteLength_map_toLower]

/-- Texts that differ in case only go on with a blank or not alike. -/
theorem isBlank_head_congr {rest behind : List Char}
    (hletters : behind.map Char.toLower = rest.map Char.toLower) :
    (∀ c ∈ behind.head?, isAsciiBlank c = true) ↔ ∀ c ∈ rest.head?, isAsciiBlank c = true := by
  rcases behind with _ | ⟨d, behind⟩ <;> rcases rest with _ | ⟨c, rest⟩
  · exact Iff.rfl
  · cases hletters
  · cases hletters
  · simp only [List.head?_cons, Option.mem_def, Option.some.injEq, forall_eq',
      isAsciiBlank_congr (List.cons.inj hletters).1]

theorem lexemeAt_congr {c d : Char} {rest behind : List Char} (hfirst : d.toLower = c.toLower)
    (hrest : behind.map Char.toLower = rest.map Char.toLower) :
    lexemeAt false d behind = lexemeAt false c rest := by
  change readLexeme d behind = readLexeme c rest
  rw [← readLexeme_toLower d, hfirst, hrest, readLexeme_toLower]

/-- A place in a text and the rest of another text that differs from the first in case only,
from the same byte on. -/
structure RunsAlong (text other : List Char) (place : Place) (behind : List Char) : Prop where
  letters : behind.map Char.toLower = place.rest.map Char.toLower
  passed : ∃ front before, text = front ++ place.rest ∧ other = before ++ behind ∧
    before.map Char.toLower = front.map Char.toLower ∧ place.position = byteLength front

theorem RunsAlong.step {position : Nat} {zoneNext zoneNext' : Bool}
    {body body' rest rest' : List Char}
    (halong : RunsAlong text other ⟨position, zoneNext, body ++ rest⟩ (body' ++ rest'))
    (hbody : body'.map Char.toLower = body.map Char.toLower) :
    RunsAlong text other ⟨position + byteLength body, zoneNext', rest⟩ rest' := by
  obtain ⟨hletters, front, before, htext, hother, hbefore, hposition⟩ := halong
  rw [List.map_append, List.map_append, hbody] at hletters
  refine ⟨List.append_cancel_left hletters, front ++ body, before ++ body', ?_, ?_, ?_, ?_⟩
  · rw [htext, List.append_assoc]
  · rw [hother, List.append_assoc]
  · rw [List.map_append, List.map_append, hbefore, hbody]
  · rw [byteLength_append, ← hposition]

/-- A part of the text from the place on that is marked in the other text as well stands at
the front of its rest. -/
theorem RunsAlong.exists_rest {position : Nat} {zoneNext : Bool} {body rest behind : List Char}
    (halong : RunsAlong text other ⟨position, zoneNext, body ++ rest⟩ behind)
    (hmarks : Span.Marks ⟨position, position + byteLength body⟩ text body →
      Span.Marks ⟨position, position + byteLength body⟩ other body) :
    ∃ rest', behind = body ++ rest' ∧ rest'.map Char.toLower = rest.map Char.toLower := by
  obtain ⟨hletters, front, before, htext, hother, hbefore, hposition⟩ := halong
  dsimp only at hletters htext hposition
  obtain ⟨before', rest', hother', hstart, _⟩ := hmarks
    ⟨front, rest, by rw [htext, List.append_assoc], hposition, by rw [hposition]⟩
  have hbytes : byteLength before = byteLength before' :=
    (byteLength_congr hbefore).trans (hposition.symm.trans hstart)
  rw [hother, List.append_assoc] at hother'
  obtain ⟨rfl, rfl⟩ := eq_of_append_of_byteLength_eq hother' hbytes
  rw [List.map_append, List.map_append] at hletters
  exact ⟨rest', rfl, List.append_cancel_left hletters⟩

/-- A run through a text is a run through any text that differs in case only, as long as
the names of zones on the way are the same. -/
theorem Cuts.recased (hcuts : Cuts place tokens last) {behind : List Char}
    (halong : RunsAlong text other place behind)
    (hzones : ∀ token ∈ tokens, (∃ name, token.symbol = .zone name) →
      ∀ body, token.span.Marks text body → token.span.Marks other body) :
    ∃ rest, Cuts ⟨place.position, place.zoneNext, behind⟩ tokens
        ⟨last.position, last.zoneNext, rest⟩ ∧
      rest.map Char.toLower = last.rest.map Char.toLower := by
  induction hcuts generalizing behind with
  | stop => exact ⟨behind, .stop, halong.letters⟩
  | @blank position zoneNext c rest tokens last hblank hrest ih =>
    obtain ⟨d, later, rfl, hd, _⟩ := List.map_eq_cons_iff.mp halong.letters
    have hsize : byteLength [c] = 1 := utf8Size_of_isAsciiBlank hblank
    have halong : RunsAlong text other ⟨position, zoneNext, [c] ++ rest⟩ ([d] ++ later) := halong
    have hstep : RunsAlong text other ⟨position + 1, zoneNext, rest⟩ later :=
      hsize ▸ halong.step (congrArg (· :: []) hd)
    obtain ⟨rest', hcuts, hsame⟩ := ih hstep hzones
    exact ⟨rest', .blank ((isAsciiBlank_congr hd).trans hblank) hcuts, hsame⟩
  | @token position zoneNext first body after symbol tokens last hfirst hread hrest ih =>
    obtain ⟨hname, hnames⟩ := List.forall_mem_cons.mp hzones
    rw [← List.cons_append] at halong
    cases zoneNext with
    | true =>
      obtain ⟨rfl, hbody, hend⟩ := zone_of_lexemeAt hread
      obtain ⟨later, rfl, hlater⟩ := halong.exists_rest (hname ⟨_, rfl⟩ _)
      obtain ⟨rest', hcuts, hsame⟩ := ih (halong.step rfl) hnames
      have hend' := (isBlank_head_congr hlater).mpr hend
      exact ⟨rest', .token hfirst (lexemeAt_zone hbody hend') hcuts, hsame⟩
    | false =>
      obtain ⟨read, later, rfl, hletters, hlater⟩ := List.map_eq_append_iff.mp
        (halong.letters.trans (List.map_append ..))
      obtain ⟨d, body', rfl, hd, hbody⟩ := List.map_eq_cons_iff.mp hletters
      obtain ⟨rest', hcuts, hsame⟩ := ih (halong.step hletters) hnames
      have hlength : body'.length = body.length := by
        rw [← List.length_map Char.toLower, hbody, List.length_map]
      have hread' : lexemeAt false d (body' ++ later) = ⟨body'.length, .ok symbol⟩ := by
        rw [hlength, ← hread]
        exact lexemeAt_congr hd (by rw [List.map_append, List.map_append, hbody, hlater])
      have htoken := Cuts.token ((isAsciiBlank_congr hd).trans hfirst) hread'
        (byteLength_congr hletters ▸ hcuts)
      rw [byteLength_congr hletters] at htoken
      exact ⟨rest', htoken, hsame⟩

/-- Where a run fails, it fails in any other case. -/
theorem Fails.recased {error : LexicalError} (hfails : Fails place error) {behind : List Char}
    (hletters : behind.map Char.toLower = place.rest.map Char.toLower) :
    Fails ⟨place.position, place.zoneNext, behind⟩ error := by
  cases hfails with
  | ended =>
    obtain rfl := List.map_eq_nil_iff.mp hletters
    exact .ended
  | @lexeme position zoneNext first rest cause hfirst hread =>
    obtain ⟨d, later, rfl, hd, hlater⟩ := List.map_eq_cons_iff.mp hletters
    cases zoneNext with
    | true => cases hread
    | false =>
      have hsame : lexemeAt false d later = lexemeAt false first rest := lexemeAt_congr hd hlater
      have hextent : (d :: later.take (lexemeAt false d later).extent).map Char.toLower =
          (first :: rest.take (lexemeAt false first rest).extent).map Char.toLower := by
        rw [hsame, List.map_cons, List.map_cons, hd, List.map_take, List.map_take, hlater]
      have hfails : Fails ⟨position, false, d :: later⟩ _ :=
        .lexeme ((isAsciiBlank_congr hd).trans hfirst) (hsame ▸ hread)
      rwa [byteLength_congr hextent] at hfails

theorem tokenize_recased {text other : String} (hrecasing : IsRecasing text.toList other.toList) :
    tokenize other = tokenize text := by
  obtain ⟨tokens, last, hcuts, hlast⟩ := exists_cuts 0 false text.toList
  have halong : RunsAlong text.toList other.toList ⟨0, false, text.toList⟩ other.toList :=
    ⟨hrecasing.letters, [], [], rfl, rfl, rfl, rfl⟩
  obtain ⟨rest, hcuts', hletters⟩ := hcuts.recased halong (hrecasing.zones tokens last hcuts)
  have hbehind : tokensFrom last.position last.zoneNext rest =
      tokensFrom last.position last.zoneNext last.rest := by
    rcases hlast with ⟨hend, _⟩ | ⟨error, hfails⟩
    · rw [hend] at hletters ⊢
      rw [List.map_eq_nil_iff.mp hletters]
    · exact (hfails.recased hletters).tokensFrom_eq.trans hfails.tokensFrom_eq.symm
  exact hcuts'.tokensFrom_eq.trans (hbehind ▸ hcuts.tokensFrom_eq.symm)

end Recased

/-! ## Runs past other blanks -/

/-- A text in which a run of blanks is replaced by another. -/
def IsRespacing (text other : List Char) : Prop :=
  ∃ before blanks blanks' after, text = before ++ blanks ++ after ∧
    other = before ++ blanks' ++ after ∧ blanks ≠ [] ∧ blanks' ≠ [] ∧
    (∀ c ∈ blanks, isAsciiBlank c = true) ∧ ∀ c ∈ blanks', isAsciiBlank c = true

section Respaced

variable {place last : Place} {tokens : List Token}

/-- A run stops at every blank, and up to there it is the same whatever blank stands there
and whatever stands behind. -/
theorem Cuts.exists_stop {before rest : List Char} {c : Char} (hcuts : Cuts place tokens last)
    (hlast : last.rest = []) (hplace : place.rest = before ++ c :: rest)
    (hblank : isAsciiBlank c = true) : ∃ front behind position zoneNext,
      tokens = front ++ behind ∧ Cuts ⟨position, zoneNext, c :: rest⟩ behind last ∧
        ∀ d other, isAsciiBlank d = true →
          Cuts ⟨place.position, place.zoneNext, before ++ d :: other⟩ front
            ⟨position, zoneNext, d :: other⟩ := by
  induction hcuts generalizing before with
  | stop =>
    rw [hlast] at hplace
    exact absurd hplace.symm (List.append_ne_nil_of_right_ne_nil _ (List.cons_ne_nil _ _))
  | @blank position zoneNext b text tokens last hb hrest ih =>
    rcases before with _ | ⟨_, before⟩
    · obtain ⟨rfl, rfl⟩ := List.cons.inj hplace
      exact ⟨[], tokens, position, zoneNext, rfl, .blank hb hrest, fun _ _ _ => .stop⟩
    · obtain ⟨rfl, htext⟩ := List.cons.inj hplace
      obtain ⟨front, behind, stop, due, hsplit, hbehind, hfront⟩ := ih hlast htext
      exact ⟨front, behind, stop, due, hsplit, hbehind,
        fun d other hd => .blank hb (hfront d other hd)⟩
  | @token position zoneNext first body after symbol tokens last hfirst hread hrest ih =>
    rcases before with _ | ⟨_, before⟩
    · obtain ⟨rfl, _⟩ := List.cons.inj hplace
      rw [hblank] at hfirst
      cases hfirst
    · obtain ⟨rfl, htext⟩ := List.cons.inj hplace
      replace htext : body ++ after = before ++ c :: rest := htext
      -- The lexeme ends before the blank, since it is read without looking further.
      have hword : ∀ d other, isAsciiBlank d = true →
          lexemeAt zoneNext first (before ++ d :: other) = lexemeAt zoneNext first before :=
        fun d other hd => lexemeAt_before_blank (by rintro _ ⟨⟩; exact hd) _ _ _
      have hlexeme : lexemeAt zoneNext first before = ⟨body.length, .ok symbol⟩ := by
        rw [← hword c rest hblank, ← htext, hread]
      obtain ⟨body', later, rfl, hread'⟩ :=
        exists_body_of_lexemeAt (congrArg Lexeme.symbol hlexeme)
      have hlength : body'.length = body.length :=
        congrArg Lexeme.extent (hread'.symm.trans hlexeme)
      rw [List.append_assoc] at htext
      obtain ⟨rfl, rfl⟩ := List.append_inj htext hlength.symm
      obtain ⟨front, behind, stop, due, rfl, hbehind, hfront⟩ := ih hlast rfl
      refine ⟨_ :: front, behind, stop, due, rfl, hbehind, fun d other hd => ?_⟩
      have hread : lexemeAt zoneNext first (body ++ (later ++ d :: other)) =
          ⟨body.length, .ok symbol⟩ := by
        rw [← List.append_assoc, hword d other hd, hlexeme]
      have htoken := Cuts.token hfirst hread (hfront d other hd)
      rwa [← List.append_assoc] at htoken

/-- What a run cuts from a text does not depend on where the text begins. -/
theorem Cuts.cutInto (hcuts : Cuts place tokens last) (hlast : last.rest = [])
    (hzone : last.zoneNext = false) :
    CutInto place.zoneNext place.rest (tokens.map Token.symbol) := by
  induction hcuts with
  | stop =>
    rw [hlast, hzone]
    exact .nil
  | blank hblank _ ih => exact (ih hlast hzone).blank hblank
  | token hfirst hread _ ih => exact .lexeme _ hfirst hread (ih hlast hzone)

theorem CutInto.blanks {zoneNext : Bool} {text blanks : List Char} {symbols : List Symbol}
    (htext : CutInto zoneNext text symbols) (hblanks : ∀ c ∈ blanks, isAsciiBlank c = true) :
    CutInto zoneNext (blanks ++ text) symbols := by
  induction blanks with
  | nil => exact htext
  | cons c blanks ih =>
    obtain ⟨hc, hrest⟩ := List.forall_mem_cons.mp hblanks
    exact (ih hrest).blank hc

/-- A run passes over blanks. -/
theorem Cuts.exists_behind_blanks {position : Nat} {zoneNext : Bool} {blanks rest : List Char}
    (hcuts : Cuts ⟨position, zoneNext, blanks ++ rest⟩ tokens last) (hlast : last.rest = [])
    (hblanks : ∀ c ∈ blanks, isAsciiBlank c = true) :
    ∃ start, Cuts ⟨start, zoneNext, rest⟩ tokens last := by
  induction blanks generalizing position with
  | nil => exact ⟨position, hcuts⟩
  | cons c blanks ih =>
    obtain ⟨hc, hrest⟩ := List.forall_mem_cons.mp hblanks
    rw [List.cons_append] at hcuts
    generalize htext : blanks ++ rest = text at hcuts
    cases hcuts with
    | stop => cases hlast
    | blank _ hcuts => exact ih (htext ▸ hcuts) hrest
    | token hfirst _ _ =>
      rw [hc] at hfirst
      cases hfirst

theorem tokenize_respaced {text other : String}
    (hrespacing : IsRespacing text.toList other.toList) {tokens : List Token}
    (htokens : tokenize text = .ok tokens) :
    ∃ again, tokenize other = .ok again ∧ again.map Token.symbol = tokens.map Token.symbol := by
  obtain ⟨before, blanks, blanks', after, htext, hother, hne, hne', hblanks, hblanks'⟩ := hrespacing
  obtain ⟨c, blanks, rfl⟩ := List.exists_cons_of_ne_nil hne
  obtain ⟨d, blanks', rfl⟩ := List.exists_cons_of_ne_nil hne'
  obtain ⟨hc, hmore⟩ := List.forall_mem_cons.mp hblanks
  obtain ⟨hd, -⟩ := List.forall_mem_cons.mp hblanks'
  rw [List.append_assoc, List.cons_append] at htext hother
  obtain ⟨final, hcuts⟩ := exists_cuts_of_ok htokens
  obtain ⟨front, behind, position, zoneNext, rfl, hbehind, hfront⟩ :=
    hcuts.exists_stop rfl htext hc
  obtain ⟨start, hafter⟩ := Cuts.exists_behind_blanks
    (show Cuts ⟨position, zoneNext, (c :: blanks) ++ after⟩ behind _ from hbehind) rfl hblanks
  obtain ⟨later, hlater, hsymbols⟩ := (hafter.cutInto rfl rfl).blanks hblanks' position
  refine ⟨front ++ later, ?_, ?_⟩
  · have hall := (hfront d (blanks' ++ after) hd).tokensFrom_eq
    dsimp only at hall hlater
    rw [List.cons_append] at hlater
    rw [tokenize, hother, hall, hlater]
    rfl
  · rw [List.map_append, List.map_append, hsymbols]

end Respaced

/-! ## Schedules -/

/-- Tokens that stand for the same are read as the same schedule. -/
theorem scheduleOfTokens_of_map_symbol_eq {tokens again : List Token} {schedule : Schedule}
    (hsymbols : again.map Token.symbol = tokens.map Token.symbol)
    (hread : scheduleOfTokens tokens = .ok schedule) : scheduleOfTokens again = .ok schedule := by
  obtain ⟨phrase, hphrase, rfl⟩ := exists_phrase_of_scheduleOfTokens hread
  exact scheduleOfTokens_of_phrase phrase (hsymbols.trans hphrase.symm)

theorem ofText_eq_ok_iff {text : String} {tokens : List Token} {schedule : Schedule}
    (htokens : tokenize text = .ok tokens) :
    Schedule.ofText text = .ok schedule ↔ scheduleOfTokens tokens = .ok schedule := by
  rw [Schedule.ofText, htokens]
  dsimp only
  cases scheduleOfTokens tokens <;> simp

/-- A text in another case, the names of zones apart, has the same tokens or fails in the
same way.  A text with other blanks in place of a run of blanks has the same symbols, if
the text has any, and is the same schedule. -/
theorem tokenize_recased_and_respaced {text other : String} :
    (IsRecasing text.toList other.toList → tokenize other = tokenize text) ∧
      (IsRespacing text.toList other.toList → ∀ tokens, tokenize text = .ok tokens →
        ∃ again, tokenize other = .ok again ∧
          again.map Token.symbol = tokens.map Token.symbol ∧
          ∀ schedule,
            Schedule.ofText other = .ok schedule ↔ Schedule.ofText text = .ok schedule) := by
  refine ⟨tokenize_recased, fun hrespacing tokens htokens => ?_⟩
  obtain ⟨again, hagain, hsymbols⟩ := tokenize_respaced hrespacing htokens
  refine ⟨again, hagain, hsymbols, fun schedule => ?_⟩
  rw [ofText_eq_ok_iff hagain, ofText_eq_ok_iff htokens]
  exact ⟨scheduleOfTokens_of_map_symbol_eq hsymbols.symm,
    scheduleOfTokens_of_map_symbol_eq hsymbols⟩

/-- Letters in another case before the name of a zone, and a blank replaced by a line break
and a tab. -/
theorem tokenize_recased_and_respaced_before_zone :
    tokenize "EVERY day AT 9:05 IN Ünter/X" = tokenize "every Day at 9:05 in Ünter/X" ∧
      ∃ tokens again, tokenize "every Day at 9:05 in Ünter/X" = .ok tokens ∧
        tokenize "every Day\r\n\tat 9:05 in Ünter/X" = .ok again ∧
        again.map Token.symbol = tokens.map Token.symbol ∧
        ∀ schedule, Schedule.ofText "every Day\r\n\tat 9:05 in Ünter/X" = .ok schedule ↔
          Schedule.ofText "every Day at 9:05 in Ünter/X" = .ok schedule := by
  have htokens : tokenize "every Day at 9:05 in Ünter/X" =
      .ok [⟨.keyword .every, ⟨0, 5⟩⟩, ⟨.keyword .day, ⟨6, 9⟩⟩, ⟨.keyword .«at», ⟨10, 12⟩⟩,
        ⟨.time ⟨9, 5⟩, ⟨13, 17⟩⟩, ⟨.keyword .«in», ⟨18, 20⟩⟩, ⟨.zone "Ünter/X", ⟨21, 29⟩⟩] := by
    cbv
  have hrecasing : IsRecasing "every Day at 9:05 in Ünter/X".toList
      "EVERY day AT 9:05 IN Ünter/X".toList := by
    refine isRecasing_of_tokenize htokens (by cbv) ?_
    simp only [List.forall_mem_cons, reduceCtorEq, exists_false, false_imp_iff, true_and]
    refine ⟨fun _ => ⟨"Ünter/X".toList, ?_, ?_⟩, List.forall_mem_nil _⟩
    · exact ⟨"every Day at 9:05 in ".toList, [], by cbv, by cbv, by cbv⟩
    · exact ⟨"EVERY day AT 9:05 IN ".toList, [], by cbv, by cbv, by cbv⟩
  have hrespacing : IsRespacing "every Day at 9:05 in Ünter/X".toList
      "every Day\r\n\tat 9:05 in Ünter/X".toList :=
    ⟨"every Day".toList, [' '], ['\r', '\n', '\t'], "at 9:05 in Ünter/X".toList, by cbv, by cbv,
      List.cons_ne_nil _ _, List.cons_ne_nil _ _, by simp [isAsciiBlank], by simp [isAsciiBlank]⟩
  obtain ⟨again, hagain⟩ := tokenize_recased_and_respaced.2 hrespacing _ htokens
  exact ⟨tokenize_recased_and_respaced.1 hrecasing, _, again, htokens, hagain⟩

end Cadence
