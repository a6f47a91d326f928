import Mathlib
import Cadence.Expression.Vocabulary

/-!
# The words that are read

A word is read as one of the common words, in lower case, or by the name of a weekday or
a month, in any case.  In lower case every word that is read is read as the same symbol,
and these words are the ones that are offered for slips: the list that they are offered
from and the reader, which do not refer to each other, have the same words.
-/

namespace Cadence

/-- A word without an ASCII capital letter. -/
def IsLowerCase (word : String) : Prop := ∀ c ∈ word.toList, c.isUpper = false

/-- The ways words stand for symbols. -/
inductive StandsFor (word : String) : Symbol → Prop
  | common {symbol : Symbol} (hmem : (word, symbol) ∈ commonWords) : StandsFor word symbol
  | weekday {day : Weekday} (hname : word.toLower = day.name ∨ word.toLower = day.shortName) :
      StandsFor word (.weekday day)
  | month {month : Month} (hname : word.toLower = month.name ∨ word.toLower = month.fullName) :
      StandsFor word (.month month)

section Words

variable {word : String} {symbol : Symbol}

theorem standsFor_of_symbolOfWord?
    (hword : symbolOfWord? word = some symbol) : StandsFor word symbol := by
  rw [symbolOfWord?] at hword
  split at hword
  · rename_i found hfound
    obtain ⟨before, later, hentries, _⟩ := List.lookup_eq_some_iff.mp hfound
    obtain rfl := Option.some.inj hword
    exact .common (hentries ▸ List.mem_append_right before List.mem_cons_self)
  · split at hword
    · rename_i day hday
      obtain rfl := Option.some.inj hword
      exact .weekday (Weekday.toLower_of_ofName? hday)
    · obtain ⟨month, hmonth, rfl⟩ := Option.map_eq_some_iff.mp hword
      exact .month (Month.toLower_of_ofName? hmonth)

/-! ## Lower case -/

theorem toLower_of_isLowerCase (hlower : IsLowerCase word) : word.toLower = word := by
  apply String.toList_injective
  rw [String.toLower, String.toList_map]
  exact (List.map_congr_left fun c hc =>
    Char.toLower_eq_of_not_isUpper (Bool.eq_false_iff.mp (hlower c hc))).trans (List.map_id _)

/-- The words that are offered are made of small letters. -/
theorem letters_of_mem_vocabularyWords : ∀ word ∈ vocabularyWords, word.toList ≠ [] ∧
    ∀ c ∈ word.toList, c.isAlpha = true ∧ c.isUpper = false := by
  -- The letters are tested as Booleans, since deciding over all characters would enumerate them.
  have htest : ∀ word ∈ vocabularyWords, word.toList ≠ [] ∧ word.toList.all
      (fun c => c.isAlpha && !c.isUpper) = true := by
    decide
  intro word hmem
  obtain ⟨hne, hletters⟩ := htest word hmem
  refine ⟨hne, fun c hc => ?_⟩
  simpa only [Bool.and_eq_true, Bool.not_eq_true'] using List.all_eq_true.mp hletters c hc

theorem isLowerCase_of_mem_vocabularyWords (hmem : word ∈ vocabularyWords) :
    IsLowerCase word := fun c hc => ((letters_of_mem_vocabularyWords word hmem).2 c hc).2

/-! ## The same words -/

theorem mem_vocabularyWords_of_mem_commonWords :
    ∀ entry ∈ commonWords, entry.1 ∈ vocabularyWords := by
  decide

theorem Weekday.name_mem_vocabularyWords (day : Weekday) :
    day.name ∈ vocabularyWords ∧ day.shortName ∈ vocabularyWords := by
  cases day <;> decide

theorem Month.name_mem_vocabularyWords (month : Month) :
    month.name ∈ vocabularyWords ∧ month.fullName ∈ vocabularyWords := by
  cases month <;> decide

/-- A word that is read is offered in lower case. -/
theorem StandsFor.toLower_mem_vocabularyWords
    (hword : StandsFor word symbol) : word.toLower ∈ vocabularyWords := by
  cases hword with
  | common hmem =>
    have hlisted := mem_vocabularyWords_of_mem_commonWords _ hmem
    rwa [toLower_of_isLowerCase (isLowerCase_of_mem_vocabularyWords hlisted)]
  | @weekday day hname =>
    obtain ⟨hfull, hshort⟩ := day.name_mem_vocabularyWords
    rcases hname with hname | hname <;> rwa [hname]
  | @month month hname =>
    obtain ⟨hshort, hfull⟩ := month.name_mem_vocabularyWords
    rcases hname with hname | hname <;> rwa [hname]

/-- A word that is read is made of letters. -/
theorem StandsFor.letters (hword : StandsFor word symbol) :
    word.toList ≠ [] ∧ ∀ c ∈ word.toList, c.isAlpha = true := by
  obtain ⟨hne, hletters⟩ := letters_of_mem_vocabularyWords _ hword.toLower_mem_vocabularyWords
  rw [String.toLower, String.toList_map] at hne hletters
  refine ⟨fun hnil => hne (by rw [hnil, List.map_nil]), fun c hc => ?_⟩
  have hletter := (hletters c.toLower (List.mem_map_of_mem hc)).1
  rwa [Char.isAlpha_toLower_eq_isAlpha] at hletter

theorem symbolOfWord?_of_mem_commonWords :
    ∀ entry ∈ commonWords, symbolOfWord? entry.1 = some entry.2 := by
  decide

theorem Weekday.symbolOfWord?_name (day : Weekday) :
    symbolOfWord? day.name = some (.weekday day) := by
  cases day <;> cbv

theorem Weekday.symbolOfWord?_shortName (day : Weekday) :
    symbolOfWord? day.shortName = some (.weekday day) := by
  cases day <;> cbv

theorem Month.symbolOfWord?_name (month : Month) :
    symbolOfWord? month.name = some (.month month) := by
  cases month <;> cbv

theorem Month.symbolOfWord?_fullName (month : Month) :
    symbolOfWord? month.fullName = some (.month month) := by
  cases month <;> cbv

/-- In lower case a word is read as the same symbol. -/
theorem StandsFor.symbolOfWord?_toLower
    (hword : StandsFor word symbol) : symbolOfWord? word.toLower = some symbol := by
  cases hword with
  | common hmem =>
    have hlisted := mem_vocabularyWords_of_mem_commonWords _ hmem
    rw [toLower_of_isLowerCase (isLowerCase_of_mem_vocabularyWords hlisted)]
    exact symbolOfWord?_of_mem_commonWords _ hmem
  | @weekday day hname =>
    rcases hname with hfull | hshort
    · rw [hfull, day.symbolOfWord?_name]
    · rw [hshort, day.symbolOfWord?_shortName]
  | @month month hname =>
    rcases hname with hshort | hfull
    · rw [hshort, month.symbolOfWord?_name]
    · rw [hfull, month.symbolOfWord?_fullName]

theorem symbolOfWord?_isSome_of_mem_vocabularyWords :
    ∀ word ∈ vocabularyWords, (symbolOfWord? word).isSome = true := by
  decide +kernel

/-- The words that are offered are those in lower case that are read. -/
theorem mem_vocabularyWords_iff :
    word ∈ vocabularyWords ↔ IsLowerCase word ∧ (symbolOfWord? word).isSome = true := by
  constructor
  · exact fun hmem => ⟨isLowerCase_of_mem_vocabularyWords hmem,
      symbolOfWord?_isSome_of_mem_vocabularyWords word hmem⟩
  · rintro ⟨hlower, hread⟩
    obtain ⟨symbol, hword⟩ := Option.isSome_iff_exists.mp hread
    have hoffered := (standsFor_of_symbolOfWord? hword).toLower_mem_vocabularyWords
    rwa [toLower_of_isLowerCase hlower] at hoffered

end Words

end Cadence
