import Mathlib.Data.List.Basic
import Cadence.Text.Blank
import Cadence.Text.Split

/-!
# Joined texts are taken apart again

Texts that hold no separator come back from what they are joined to: a list
from the separators between its entries, the words of a line from the blanks
between them.
-/

namespace Cadence

section Separator

variable {separator : Char} {text rest : List Char}

theorem splitFirst?_eq_none (hfree : separator ∉ text) : splitFirst? separator text = none := by
  induction text with
  | nil => rfl
  | cons c text ih =>
    have hc : c ≠ separator := fun heq => hfree (heq ▸ List.mem_cons_self)
    rw [splitFirst?, if_neg hc, ih fun hmem => hfree (List.mem_cons_of_mem _ hmem)]
    rfl

theorem splitFirst?_append_cons (hfree : separator ∉ text) :
    splitFirst? separator (text ++ separator :: rest) = some (text, rest) := by
  induction text with
  | nil => rw [List.nil_append, splitFirst?, if_pos rfl]
  | cons c text ih =>
    have hc : c ≠ separator := fun heq => hfree (heq ▸ List.mem_cons_self)
    rw [List.cons_append, splitFirst?, if_neg hc,
      ih fun hmem => hfree (List.mem_cons_of_mem _ hmem)]
    rfl

/-- A text is split into what stands before its first separator and the rest. -/
theorem eq_append_of_splitFirst? {before after : List Char}
    (hsplit : splitFirst? separator text = some (before, after)) :
    text = before ++ separator :: after ∧ separator ∉ before := by
  induction text generalizing before with
  | nil => cases hsplit
  | cons c text ih =>
    rw [splitFirst?] at hsplit
    split at hsplit
    · rename_i hc
      cases hsplit
      exact ⟨by rw [hc, List.nil_append], List.not_mem_nil⟩
    · rename_i hc
      obtain ⟨⟨first, rest⟩, hrest, hpair⟩ := Option.map_eq_some_iff.mp hsplit
      cases hpair
      obtain ⟨rfl, hfree⟩ := ih hrest
      exact ⟨rfl, List.not_mem_cons_of_ne_of_not_mem (Ne.symm hc) hfree⟩

theorem dropFinal?_eq_some_iff {before : List Char} :
    dropFinal? separator text = some before ↔ text = before ++ [separator] := by
  constructor
  · intro hdrop
    rw [dropFinal?] at hdrop
    split at hdrop
    · rename_i c rest hreverse
      obtain ⟨rfl, hrest⟩ := Option.ite_none_right_eq_some.mp hdrop
      rw [← Option.some.inj hrest, ← List.reverse_cons, ← hreverse, List.reverse_reverse]
    · cases hdrop
  · rintro rfl
    rw [dropFinal?, List.reverse_concat]
    exact (if_pos rfl).trans (congrArg some (List.reverse_reverse before))

theorem splitAll_ne_nil (separator : Char) (text : List Char) : splitAll separator text ≠ [] := by
  induction text with
  | nil => exact List.cons_ne_nil _ _
  | cons c text ih =>
    rw [splitAll]
    split
    · exact List.cons_ne_nil _ _
    · split <;> exact List.cons_ne_nil _ _

/-- What a text holds is separators and what its parts hold. -/
theorem exists_part_of_mem {c : Char} (hmem : c ∈ text) (hc : c ≠ separator) :
    ∃ part ∈ splitAll separator text, c ∈ part := by
  induction text with
  | nil => cases hmem
  | cons first text ih =>
    rw [splitAll]
    split
    · rename_i hseparator
      have hmem := (List.mem_cons.mp hmem).resolve_left fun hfirst => hc (hfirst.trans hseparator)
      obtain ⟨part, hpart, hmem⟩ := ih hmem
      exact ⟨part, List.mem_cons_of_mem _ hpart, hmem⟩
    · rcases List.mem_cons.mp hmem with rfl | hmem
      · split <;> exact ⟨_, List.mem_cons_self, List.mem_cons_self⟩
      · obtain ⟨part, hpart, hmem⟩ := ih hmem
        split
        · rename_i head tail hsplit
          rw [hsplit] at hpart
          rcases List.mem_cons.mp hpart with rfl | hpart
          · exact ⟨_, List.mem_cons_self, List.mem_cons_of_mem _ hmem⟩
          · exact ⟨part, List.mem_cons_of_mem _ hpart, hmem⟩
        · rename_i hsplit
          exact absurd hsplit (splitAll_ne_nil separator text)

theorem splitAll_eq_singleton (hfree : separator ∉ text) : splitAll separator text = [text] := by
  induction text with
  | nil => rfl
  | cons c text ih =>
    have hc : c ≠ separator := fun heq => hfree (heq ▸ List.mem_cons_self)
    rw [splitAll, if_neg hc, ih fun hmem => hfree (List.mem_cons_of_mem _ hmem)]

/-- A separator is where the parts of a text are taken apart. -/
theorem splitAll_append_separator (front rest : List Char) :
    splitAll separator (front ++ separator :: rest) =
      splitAll separator front ++ splitAll separator rest := by
  induction front with
  | nil => exact if_pos rfl
  | cons c front ih =>
    rw [List.cons_append, splitAll, splitAll, ih]
    split
    · rfl
    · cases hparts : splitAll separator front with
      | nil => exact absurd hparts (splitAll_ne_nil separator front)
      | cons part parts => rfl

theorem splitAll_append_cons (hfree : separator ∉ text) :
    splitAll separator (text ++ separator :: rest) = text :: splitAll separator rest := by
  rw [splitAll_append_separator, splitAll_eq_singleton hfree, List.singleton_append]

/-- What stands behind the last separator. -/
theorem exists_last_part (hmem : separator ∈ text) :
    ∃ front last, text = front ++ separator :: last ∧ separator ∉ last := by
  obtain ⟨before, after, hsplit, hfree⟩ := List.eq_append_cons_of_mem (List.mem_reverse.mpr hmem)
  refine ⟨after.reverse, before.reverse, ?_, fun hlast => hfree (List.mem_reverse.mp hlast)⟩
  rw [← List.reverse_reverse text, hsplit, List.reverse_append, List.reverse_cons,
    List.append_assoc, List.singleton_append]

end Separator

theorem toList_joined_cons_cons (separator : String) (first second : String)
    (rest : List String) :
    (joined separator (first :: second :: rest)).toList =
      first.toList ++ (separator.toList ++ (joined separator (second :: rest)).toList) := by
  rw [joined, String.toList_append, String.toList_append, List.append_assoc]
  exact nofun

/-- A joined text holds nothing but the texts and the separator. -/
theorem of_mem_joined {separator : String} {texts : List String} {c : Char}
    (hc : c ∈ (joined separator texts).toList) :
    c ∈ separator.toList ∨ ∃ text ∈ texts, c ∈ text.toList := by
  induction texts with
  | nil => exact nomatch hc
  | cons text texts ih =>
    cases texts with
    | nil => exact .inr ⟨text, List.mem_cons_self, hc⟩
    | cons next texts =>
      rw [toList_joined_cons_cons, List.mem_append, List.mem_append] at hc
      rcases hc with htext | hseparator | hrest
      · exact .inr ⟨text, List.mem_cons_self, htext⟩
      · exact .inl hseparator
      · exact (ih hrest).imp_right fun ⟨other, hmem, hother⟩ =>
          ⟨other, List.mem_cons_of_mem _ hmem, hother⟩

/-- Texts without separators are what stands between the separators of a list. -/
theorem splitAll_joined {separator : String} {c : Char} (hseparator : separator.toList = [c])
    {texts : List String} (hne : texts ≠ []) (hfree : ∀ text ∈ texts, c ∉ text.toList) :
    splitAll c (joined separator texts).toList = texts.map String.toList := by
  induction texts with
  | nil => exact absurd rfl hne
  | cons text texts ih =>
    obtain ⟨htext, htexts⟩ := List.forall_mem_cons.mp hfree
    cases texts with
    | nil => exact splitAll_eq_singleton htext
    | cons next texts =>
      rw [toList_joined_cons_cons, hseparator, List.singleton_append, splitAll_append_cons htext,
        ih (List.cons_ne_nil _ _) htexts]
      rfl

/-- A run of characters that pass a test ends where the first one fails it. -/
theorem takeWhile_dropWhile_append {test : Char → Bool} {run rest : List Char}
    (hrun : ∀ c ∈ run, test c = true) (hstop : ∀ c ∈ rest.head?, test c = false) :
    (run ++ rest).takeWhile test = run ∧ (run ++ rest).dropWhile test = rest := by
  rw [List.takeWhile_append_of_pos hrun, List.dropWhile_append_of_pos hrun]
  cases rest with
  | nil => exact ⟨List.append_nil run, rfl⟩
  | cons c rest =>
    have hfails : ¬ test c = true := Bool.eq_false_iff.mp (hstop c rfl)
    rw [List.takeWhile_cons_of_neg hfails, List.dropWhile_cons_of_neg hfails]
    exact ⟨List.append_nil run, rfl⟩

/-- A run of characters, at least one, without white space. -/
structure IsWord (text : List Char) : Prop where
  ne_nil : text ≠ []
  notBlank : ∀ c ∈ text, isWhiteSpace c = false

namespace IsWord

variable {text rest : List Char}

/-- A word ends where a blank follows. -/
theorem words_append (hword : IsWord text) (hrest : ∀ c ∈ rest.head?, isWhiteSpace c = true) :
    words (text ++ rest) = text :: words rest := by
  cases text with
  | nil => exact absurd rfl hword.ne_nil
  | cons c text =>
    obtain ⟨hc, htext⟩ := List.forall_mem_cons.mp hword.notBlank
    have hkeep : ∀ c ∈ text, (!isWhiteSpace c) = true := fun c hmem => by rw [htext c hmem]; rfl
    obtain ⟨htake, hdrop⟩ := takeWhile_dropWhile_append hkeep fun c hc => by rw [hrest c hc]; rfl
    rw [List.cons_append, words, if_neg (Bool.eq_false_iff.mp hc), htake, hdrop]

theorem words_eq_singleton (hword : IsWord text) : words text = [text] := by
  have halone : words (text ++ []) = text :: words [] := hword.words_append (by rintro c ⟨⟩)
  rwa [List.append_nil, words] at halone

end IsWord

/-- The words of a line are the ones it is joined from. -/
theorem words_joined {texts : List String} (hwords : ∀ text ∈ texts, IsWord text.toList) :
    words (joined " " texts).toList = texts.map String.toList := by
  induction texts with
  | nil => rw [joined, String.toList_empty, words]; rfl
  | cons text texts ih =>
    obtain ⟨htext, htexts⟩ := List.forall_mem_cons.mp hwords
    cases texts with
    | nil => exact htext.words_eq_singleton
    | cons next texts =>
      have hblank : " ".toList = [' '] := rfl
      have hspace : isWhiteSpace ' ' = true := by decide
      rw [toList_joined_cons_cons, hblank, List.singleton_append,
        htext.words_append (by rintro c hc; obtain rfl := Option.some.inj hc; exact hspace),
        words, if_pos hspace, ih htexts]
      rfl

/-- Blanks at the end belong to no word. -/
theorem words_append_blanks {text blanks : List Char}
    (hblanks : ∀ c ∈ blanks, isWhiteSpace c = true) : words (text ++ blanks) = words text := by
  induction text using words.induct with
  | case1 =>
    induction blanks with
    | nil => rfl
    | cons c blanks ih =>
      obtain ⟨hc, hrest⟩ := List.forall_mem_cons.mp hblanks
      calc words ([] ++ c :: blanks)
        _ = words blanks := by rw [List.nil_append, words, if_pos hc]
        _ = words [] := ih hrest
  | case2 c rest hc ih => rw [List.cons_append, words, if_pos hc, ih, words, if_pos hc]
  | case3 c rest hc ih =>
    have hword : IsWord (c :: rest.takeWhile (!isWhiteSpace ·)) := by
      refine ⟨List.cons_ne_nil _ _, List.forall_mem_cons.mpr ⟨Bool.eq_false_iff.mpr hc, ?_⟩⟩
      intro c hmem
      simpa only [Bool.not_eq_true'] using List.all_eq_true.mp List.all_takeWhile c hmem
    have hstop : ∀ c ∈ (rest.dropWhile (!isWhiteSpace ·) ++ blanks).head?,
        isWhiteSpace c = true := by
      intro c hhead
      have hfails := List.head?_dropWhile_not (!isWhiteSpace ·) rest
      cases hrest : rest.dropWhile (!isWhiteSpace ·) with
      | nil =>
        rw [hrest] at hhead
        exact hblanks c (List.mem_of_head? hhead)
      | cons first others =>
        rw [hrest] at hhead hfails
        obtain rfl := Option.some.inj hhead
        simpa only [List.head?_cons, Bool.not_eq_false'] using hfails
    have hsplit : c :: rest ++ blanks = (c :: rest.takeWhile (!isWhiteSpace ·)) ++
        (rest.dropWhile (!isWhiteSpace ·) ++ blanks) := by
      simp only [List.cons_append, ← List.append_assoc, List.takeWhile_append_dropWhile]
    rw [hsplit, hword.words_append hstop, ih, words, if_neg hc]

/-- Trimming a text leaves its words. -/
theorem words_trimmed (text : List Char) : words (trimmed text) = words text := by
  have hfront : ∀ text : List Char, words (text.dropWhile isWhiteSpace) = words text := by
    intro text
    induction text with
    | nil => rfl
    | cons c text ih =>
      rw [List.dropWhile_cons]
      split
      · rename_i hc
        rw [ih, words, if_pos hc]
      · rfl
  have hback : ∀ text : List Char,
      words (text.reverse.dropWhile isWhiteSpace).reverse = words text := by
    intro text
    have hblanks : ∀ c ∈ (text.reverse.takeWhile isWhiteSpace).reverse,
        isWhiteSpace c = true := fun c hmem =>
      List.all_eq_true.mp List.all_takeWhile c (List.mem_reverse.mp hmem)
    rw [← words_append_blanks hblanks, ← List.reverse_append, List.takeWhile_append_dropWhile,
      List.reverse_reverse]
  rw [trimmed, hback, hfront]

/-- Nothing is trimmed from a text that neither starts nor ends with a blank. -/
theorem trimmed_eq_self {text : List Char}
    (hhead : ∀ c ∈ text.head?, isWhiteSpace c = false)
    (hlast : ∀ c ∈ text.getLast?, isWhiteSpace c = false) : trimmed text = text := by
  have hkept : ∀ {text : List Char}, (∀ c ∈ text.head?, isWhiteSpace c = false) →
      text.dropWhile isWhiteSpace = text := by
    intro text hhead
    cases text with
    | nil => rfl
    | cons c text => rw [List.dropWhile_cons, hhead c rfl]; rfl
  rw [trimmed, hkept hhead, hkept (by rwa [List.head?_reverse]), List.reverse_reverse]

/-- A joined text starts as the first text does. -/
theorem head?_joined {separator text : String} (texts : List String) (hne : text.toList ≠ []) :
    (joined separator (text :: texts)).toList.head? = text.toList.head? := by
  cases texts with
  | nil => rfl
  | cons next texts => rw [toList_joined_cons_cons, List.head?_append_of_ne_nil _ hne]

theorem joined_ne_nil {separator text : String} (texts : List String) (hne : text.toList ≠ []) :
    (joined separator (text :: texts)).toList ≠ [] := by
  rw [ne_eq, ← List.head?_eq_none_iff, head?_joined texts hne, List.head?_eq_none_iff]
  exact hne

/-- A line of words neither starts nor ends with a blank. -/
theorem trimmed_joined {texts : List String} (hwords : ∀ text ∈ texts, IsWord text.toList) :
    trimmed (joined " " texts).toList = (joined " " texts).toList := by
  apply trimmed_eq_self
  · intro c hc
    cases texts with
    | nil => exact nomatch hc
    | cons text texts =>
      have htext := hwords text List.mem_cons_self
      rw [head?_joined texts htext.ne_nil] at hc
      exact htext.notBlank c (List.mem_of_head? hc)
  · intro c hc
    induction texts with
    | nil => exact nomatch hc
    | cons text texts ih =>
      obtain ⟨htext, htexts⟩ := List.forall_mem_cons.mp hwords
      cases texts with
      | nil => exact htext.notBlank c (List.mem_of_getLast? hc)
      | cons next texts =>
        have hne := (htexts next List.mem_cons_self).ne_nil
        rw [toList_joined_cons_cons, ← List.append_assoc,
          List.getLast?_append_of_ne_nil _ (joined_ne_nil texts hne)] at hc
        exact ih htexts hc

end Cadence
