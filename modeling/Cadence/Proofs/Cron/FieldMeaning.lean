import Mathlib.Data.List.Forall2
import Cadence.Cron.Reading
import Cadence.Proofs.Outcomes
import Cadence.Proofs.Text.Numerals
import Cadence.Proofs.Text.Separators

/-!
# What a field lists

A field means a set of numbers, told here without reading it: a list means what
one of its entries means, an entry is a value, a range or a step through a
range.  The reader expands a field to a list of numbers, and these are exactly
the numbers the field means.

Words hold neither separators nor asterisks, so a field that is put together
from words is taken apart again in one way only.
-/

namespace Cadence

/-! ## Words hold no separators -/

section Words

variable {word : List Char} {c : Char}

theorem mem_map_toLower (hmem : c ∈ word) : c.toLower ∈ (String.ofList word).toLower.toList := by
  change c.toLower ∈ ((String.ofList word).map Char.toLower).toList
  rw [String.toList_map, String.toList_ofList]
  exact List.mem_map_of_mem hmem

/-- The letters of a weekday's name are those of its full name. -/
theorem Weekday.mem_name_of_ofName? {day : Weekday}
    (hname : Weekday.ofName? (String.ofList word) = some day) (hmem : c ∈ word) :
    c.toLower ∈ day.name.toList := by
  have hshort : day.shortName.toList ⊆ day.name.toList := by cases day <;> decide
  have hletter := mem_map_toLower hmem
  rcases Weekday.toLower_of_ofName? hname with hfull | hsame
  · rwa [hfull] at hletter
  · rw [hsame] at hletter
    exact hshort hletter

/-- The letters of a month's name are those of its full name. -/
theorem Month.mem_fullName_of_ofName? {month : Month}
    (hname : Month.ofName? (String.ofList word) = some month) (hmem : c ∈ word) :
    c.toLower ∈ month.fullName.toList := by
  have hshort : month.name.toList ⊆ month.fullName.toList := by cases month <;> decide
  have hletter := mem_map_toLower hmem
  rcases Month.toLower_of_ofName? hname with hsame | hfull
  · rw [hsame] at hletter
    exact hshort hletter
  · rwa [hfull] at hletter

end Words

namespace Cron

/-! ## Meaning -/

/-- The values a field ranges over and what its words stand for. -/
structure FieldSense where
  least : Nat
  greatest : Nat
  number? : List Char → Option Nat

namespace FieldSense

/-- A field whose words are numerals. -/
def plain (least greatest : Nat) : FieldSense :=
  ⟨least, greatest, Numeral.read? Numeral.countLimit⟩

def minute : FieldSense := plain 0 59
def hour : FieldSense := plain 0 23
def dayOfMonth : FieldSense := plain 1 31

/-- A month is a name or a numeral. -/
def month : FieldSense where
  least := 1
  greatest := 12
  number? word := match Month.ofName? (String.ofList word) with
    | some month => some month.number
    | none => Numeral.read? Numeral.countLimit word

/-- A weekday is a numeral or a name.  Sunday is 0 and also 7. -/
def weekday : FieldSense where
  least := 0
  greatest := 6
  number? word := match Numeral.read? Numeral.countLimit word with
    | some number => some number
    | none => (Weekday.ofName? (String.ofList word)).map Weekday.cronNumber

end FieldSense

/-- What stands before a step: from where it starts up to where it goes on. -/
inductive SpansFrom (sense : FieldSense) : List Char → (first final : Nat) → Prop
  | everything : SpansFrom sense ['*'] sense.least sense.greatest
  | range {start stop : List Char} {first final : Nat} (hstart : sense.number? start = some first)
      (hstop : sense.number? stop = some final) :
    SpansFrom sense (start ++ '-' :: stop) first final
  | onward {start : List Char} {first : Nat} (hstart : sense.number? start = some first) :
    SpansFrom sense start first sense.greatest

/-- What one entry of a field lists. -/
inductive EntryLists (sense : FieldSense) : List Char → (number : Nat) → Prop
  | value {word : List Char} {number : Nat} (hword : sense.number? word = some number) :
    EntryLists sense word number
  | range {start stop : List Char} {first final number : Nat}
      (hstart : sense.number? start = some first) (hstop : sense.number? stop = some final)
      (hlow : first ≤ number) (hhigh : number ≤ final) :
    EntryLists sense (start ++ '-' :: stop) number
  | step {bounds step : List Char} {first final interval number : Nat}
      (hbounds : SpansFrom sense bounds first final)
      (hstep : Numeral.read? Numeral.countLimit step = some interval)
      (hlow : first ≤ number) (hhigh : number ≤ final) (hdvd : interval ∣ number - first) :
    EntryLists sense (bounds ++ '/' :: step) number

/-- What a field lists: an asterisk everything, a list what its entries do. -/
def FieldLists (sense : FieldSense) (field : List Char) (number : Nat) : Prop :=
  field = ['*'] ∨ ∃ entry ∈ splitAll ',' field, EntryLists sense entry number

namespace FieldSense

/-- No word of a field holds a character. -/
def WordsLack (sense : FieldSense) (c : Char) : Prop :=
  ∀ word number, sense.number? word = some number → c ∉ word

theorem wordsLack_plain {least greatest : Nat} {c : Char} (hdigit : c.isDigit = false)
    (hplus : c ≠ '+') : (plain least greatest).WordsLack c :=
  fun _ _ hword => Numeral.not_mem_of_read? hword hdigit hplus

theorem wordsLack_month {c : Char} (hdigit : c.isDigit = false) (hplus : c ≠ '+')
    (hname : ∀ named ∈ Month.all, c.toLower ∉ named.fullName.toList) : month.WordsLack c := by
  intro word number hword hmem
  simp only [month] at hword
  split at hword
  · rename_i named hnamed
    exact hname named (by cases named <;> decide) (Month.mem_fullName_of_ofName? hnamed hmem)
  · exact Numeral.not_mem_of_read? hword hdigit hplus hmem

theorem wordsLack_weekday {c : Char} (hdigit : c.isDigit = false) (hplus : c ≠ '+')
    (hname : ∀ day ∈ Weekday.all, c.toLower ∉ day.name.toList) : weekday.WordsLack c := by
  intro word number hword hmem
  simp only [weekday] at hword
  split at hword
  · rename_i hread
    exact Numeral.not_mem_of_read? hread hdigit hplus hmem
  · obtain ⟨day, hday, _⟩ := Option.map_eq_some_iff.mp hword
    exact hname day (by cases day <;> decide) (Weekday.mem_name_of_ofName? hday hmem)

/-- No word of a field holds a character that fields are built with. -/
def IsBuiltFromWords (sense : FieldSense) : Prop := ∀ c ∈ ['*', '-', '/', ','], sense.WordsLack c

theorem isBuiltFromWords_plain (least greatest : Nat) :
    (plain least greatest).IsBuiltFromWords := by
  simp only [IsBuiltFromWords, List.forall_mem_cons]
  exact ⟨wordsLack_plain rfl (by decide), wordsLack_plain rfl (by decide),
    wordsLack_plain rfl (by decide), wordsLack_plain rfl (by decide), List.forall_mem_nil _⟩

theorem isBuiltFromWords_month : month.IsBuiltFromWords := by
  simp only [IsBuiltFromWords, List.forall_mem_cons]
  exact ⟨wordsLack_month rfl (by decide) (by decide), wordsLack_month rfl (by decide) (by decide),
    wordsLack_month rfl (by decide) (by decide), wordsLack_month rfl (by decide) (by decide),
    List.forall_mem_nil _⟩

theorem isBuiltFromWords_weekday : weekday.IsBuiltFromWords := by
  simp only [IsBuiltFromWords, List.forall_mem_cons]
  exact ⟨wordsLack_weekday rfl (by decide) (by decide),
    wordsLack_weekday rfl (by decide) (by decide), wordsLack_weekday rfl (by decide) (by decide),
    wordsLack_weekday rfl (by decide) (by decide), List.forall_mem_nil _⟩

end FieldSense

section NotMem

variable {sense : FieldSense} {text : List Char} {c : Char} {first final number : Nat}

/-- What stands before a step holds nothing but words, asterisks and hyphens. -/
theorem SpansFrom.not_mem (hspans : SpansFrom sense text first final) (hwords : sense.WordsLack c)
    (hbuilt : c ∉ ['*', '-']) : c ∉ text := by
  simp only [List.mem_cons, List.not_mem_nil, or_false, not_or] at hbuilt
  obtain ⟨hstar, hhyphen⟩ := hbuilt
  cases hspans with
  | everything => exact List.not_mem_cons_of_ne_of_not_mem hstar List.not_mem_nil
  | range hstart hstop =>
    rw [List.mem_append, List.mem_cons]
    rintro (hmem | rfl | hmem)
    · exact hwords _ _ hstart hmem
    · exact hhyphen rfl
    · exact hwords _ _ hstop hmem
  | onward hstart => exact hwords _ _ hstart

/-- An entry holds nothing but words, steps, asterisks, hyphens and slashes. -/
theorem EntryLists.not_mem (hlists : EntryLists sense text number) (hwords : sense.WordsLack c)
    (hbuilt : c ∉ ['*', '-', '/', '+']) (hdigit : c.isDigit = false) : c ∉ text := by
  simp only [List.mem_cons, List.not_mem_nil, or_false, not_or] at hbuilt
  obtain ⟨hstar, hhyphen, hslash, hplus⟩ := hbuilt
  cases hlists with
  | value hword => exact hwords _ _ hword
  | range hstart hstop =>
    exact SpansFrom.not_mem (.range hstart hstop) hwords (by simp [hstar, hhyphen])
  | step hbounds hstep =>
    rw [List.mem_append, List.mem_cons]
    rintro (hmem | rfl | hmem)
    · exact hbounds.not_mem hwords (by simp [hstar, hhyphen]) hmem
    · exact hslash rfl
    · exact Numeral.not_mem_of_read? hstep hdigit hplus hmem

/-- A field that lists a number and holds no comma is built from words. -/
theorem FieldLists.not_mem (hlists : FieldLists sense text number) (hcomma : ',' ∉ text)
    (hwords : sense.WordsLack c) (hbuilt : c ∉ ['*', '-', '/', '+']) (hdigit : c.isDigit = false) :
    c ∉ text := by
  rcases hlists with rfl | ⟨entry, hentry, hlists⟩
  · simp only [List.mem_cons, List.not_mem_nil, or_false, not_or] at hbuilt
    exact List.not_mem_cons_of_ne_of_not_mem hbuilt.1 List.not_mem_nil
  · rw [splitAll_eq_singleton hcomma] at hentry
    obtain rfl := List.mem_singleton.mp hentry
    exact hlists.not_mem hwords hbuilt hdigit

end NotMem

/-! ## What readers find -/

section Reading

variable {kind : FieldKind} {sense : FieldSense}
  {readOne : List Char → Except ReadError Nat}

theorem readStep_eq_ok {text : List Char} {step : Nat} (hread : readStep text = .ok step) :
    Numeral.read? Numeral.countLimit text = some step ∧ 0 < step := by
  rw [readStep] at hread
  split at hread
  · cases hread
  · cases hread
  · rename_i found hpos hfound
    obtain rfl := Except.ok.inj hread
    exact ⟨hfound, Nat.pos_of_ne_zero hpos⟩

theorem divisor_eq_ok_iff {step found : Nat} :
    divisor step = .ok found ↔ 0 < step ∧ step = found := by
  rw [divisor]
  split
  · rename_i hzero
    simp only [reduceCtorEq, hzero, Nat.lt_irrefl, false_and]
  · rename_i hnonzero
    simp only [Except.ok.injEq, Nat.pos_of_ne_zero hnonzero, true_and]

/-- A step that has been read divides. -/
theorem divisor_of_readStep {text : List Char} {step : Nat} (hread : readStep text = .ok step) :
    divisor step = .ok step :=
  divisor_eq_ok_iff.mpr ⟨(readStep_eq_ok hread).2, rfl⟩

theorem readRange_eq_ok_iff {start stop : List Char} {first final : Nat} :
    readRange readOne start stop = .ok (first, final) ↔
      readOne start = .ok first ∧ readOne stop = .ok final ∧ first ≤ final := by
  simp only [readRange, ordered, bind_eq_ok_iff]
  constructor
  · rintro ⟨found, hfirst, other, hfinal, hordered⟩
    split at hordered
    · rename_i hle
      cases hordered
      exact ⟨hfirst, hfinal, hle⟩
    · cases hordered
  · rintro ⟨hfirst, hfinal, hle⟩
    exact ⟨first, hfirst, final, hfinal, if_pos hle⟩

/-- What stands before a step is an asterisk, a range or a value. -/
theorem readBounds_eq_ok {text : List Char} {first final : Nat}
    (hread : readBounds kind readOne text = .ok (first, final)) :
    text = ['*'] ∧ first = kind.least ∧ final = kind.greatest ∨
      (∃ start stop, text = start ++ '-' :: stop ∧
        readRange readOne start stop = .ok (first, final)) ∨
      readOne text = .ok first ∧ final = kind.greatest := by
  rw [readBounds] at hread
  split at hread
  · rename_i hall
    cases hread
    exact .inl ⟨hall, rfl, rfl⟩
  · split at hread
    · rename_i start stop hsplit
      exact .inr (.inl ⟨start, stop, (eq_append_of_splitFirst? hsplit).1, hread⟩)
    · obtain ⟨found, hfound, hpair⟩ := bind_eq_ok_iff.mp hread
      cases hpair
      exact .inr (.inr ⟨hfound, rfl⟩)

/-- The shapes of an entry, with what each is read as. -/
inductive EntryReads (kind : FieldKind) (readOne : List Char → Except ReadError Nat) :
    List Char → List Nat → Prop
  | value {word : List Char} {number : Nat} (hword : readOne word = .ok number) :
    EntryReads kind readOne word [number]
  | range {start stop : List Char} {first final : Nat}
      (hrange : readRange readOne start stop = .ok (first, final)) :
    EntryReads kind readOne (start ++ '-' :: stop) (stepped first final 1)
  | step {bounds step : List Char} {first final interval : Nat}
      (hbounds : readBounds kind readOne bounds = .ok (first, final))
      (hstep : readStep step = .ok interval) :
    EntryReads kind readOne (bounds ++ '/' :: step) (stepped first final interval)

theorem entryReads_of_readEntry {entry : List Char} {numbers : List Nat}
    (hread : readEntry kind readOne entry = .ok numbers) :
    EntryReads kind readOne entry numbers := by
  rw [readEntry] at hread
  split at hread
  · rename_i bounds step hsplit
    obtain ⟨interval, hinterval, hread⟩ := bind_eq_ok_iff.mp hread
    obtain ⟨⟨first, final⟩, hbounds, hread⟩ := bind_eq_ok_iff.mp hread
    obtain ⟨_, hdivisor, hnumbers⟩ := bind_eq_ok_iff.mp hread
    obtain ⟨_, rfl⟩ := divisor_eq_ok_iff.mp hdivisor
    obtain rfl := Except.ok.inj hnumbers
    rw [(eq_append_of_splitFirst? hsplit).1]
    exact .step hbounds hinterval
  · split at hread
    · rename_i start stop hsplit
      obtain ⟨⟨first, final⟩, hrange, hnumbers⟩ := bind_eq_ok_iff.mp hread
      obtain rfl := Except.ok.inj hnumbers
      rw [(eq_append_of_splitFirst? hsplit).1]
      exact .range hrange
    · split at hread
      · cases hread
      · obtain ⟨found, hfound, hnumbers⟩ := bind_eq_ok_iff.mp hread
        obtain rfl := Except.ok.inj hnumbers
        exact .value hfound

theorem mem_stepped_iff {start stop step number : Nat} (hstep : 0 < step) :
    number ∈ stepped start stop step ↔ start ≤ number ∧ number ≤ stop ∧ step ∣ number - start := by
  rw [stepped]
  split
  · simp only [List.not_mem_nil, false_iff]
    omega
  · simp only [List.mem_range', Nat.lt_succ_iff, Nat.le_div_iff_mul_le hstep]
    constructor
    · rintro ⟨count, hcount, rfl⟩
      rw [Nat.mul_comm] at hcount
      exact ⟨by omega, by omega, count, by omega⟩
    · rintro ⟨hlow, hhigh, count, hcount⟩
      exact ⟨count, by rw [Nat.mul_comm]; omega, by omega⟩

/-- A reader of single values finds what the words of a field stand for. -/
structure Reads (readOne : List Char → Except ReadError Nat) (kind : FieldKind)
    (sense : FieldSense) : Prop where
  least : kind.least = sense.least
  greatest : kind.greatest = sense.greatest
  value : ∀ {word number}, readOne word = .ok number → sense.number? word = some number
  words : sense.IsBuiltFromWords

namespace Reads

variable (hreads : Reads readOne kind sense)
include hreads

theorem not_mem {word : List Char} {number : Nat} (hword : sense.number? word = some number)
    {c : Char} (hc : c ∈ ['*', '-', '/', ',']) : c ∉ word :=
  hreads.words c hc word number hword

/-- The reader and the meaning of a word agree. -/
theorem eq_of_number? {word : List Char} {number found : Nat} (hread : readOne word = .ok found)
    (hword : sense.number? word = some number) : found = number :=
  Option.some.inj ((hreads.value hread).symm.trans hword)

/-- What stands before a step is read as what it means. -/
theorem spansFrom_iff {text : List Char} {first final first' final' : Nat}
    (hread : readBounds kind readOne text = .ok (first, final)) :
    SpansFrom sense text first' final' ↔ first' = first ∧ final' = final := by
  constructor
  · intro hspans
    cases hspans with
    | everything =>
      rw [readBounds, if_pos rfl] at hread
      cases hread
      exact ⟨hreads.least.symm, hreads.greatest.symm⟩
    | @range start stop _ _ hstart hstop =>
      have hnot : ¬ start ++ '-' :: stop = ['*'] := fun hall => by
        have hmem : '-' ∈ ['*'] := hall ▸ List.mem_append_right _ List.mem_cons_self
        exact absurd hmem (by decide)
      rw [readBounds, if_neg hnot, splitFirst?_append_cons (hreads.not_mem hstart (by decide))]
        at hread
      obtain ⟨hfirst, hfinal, _⟩ := readRange_eq_ok_iff.mp hread
      exact ⟨(hreads.eq_of_number? hfirst hstart).symm, (hreads.eq_of_number? hfinal hstop).symm⟩
    | onward hstart =>
      have hnot : ¬ text = ['*'] := fun hall =>
        hreads.not_mem hstart (c := '*') (by decide) (hall ▸ List.mem_cons_self)
      rw [readBounds, if_neg hnot, splitFirst?_eq_none (hreads.not_mem hstart (by decide))] at hread
      obtain ⟨found, hfound, hpair⟩ := bind_eq_ok_iff.mp hread
      cases hpair
      exact ⟨(hreads.eq_of_number? hfound hstart).symm, hreads.greatest.symm⟩
  · rintro ⟨rfl, rfl⟩
    rcases readBounds_eq_ok hread with ⟨rfl, rfl, rfl⟩ | ⟨start, stop, rfl, hrange⟩ | ⟨hfirst, rfl⟩
    · rw [hreads.least, hreads.greatest]
      exact .everything
    · obtain ⟨hfirst, hfinal, _⟩ := readRange_eq_ok_iff.mp hrange
      exact .range (hreads.value hfirst) (hreads.value hfinal)
    · rw [hreads.greatest]
      exact .onward (hreads.value hfirst)

/-- An entry is read as the numbers it lists. -/
theorem mem_readEntry_iff {entry : List Char} {numbers : List Nat} {number : Nat}
    (hread : readEntry kind readOne entry = .ok numbers) :
    number ∈ numbers ↔ EntryLists sense entry number := by
  constructor
  · intro hmem
    cases entryReads_of_readEntry hread with
    | value hword =>
      obtain rfl := List.mem_singleton.mp hmem
      exact .value (hreads.value hword)
    | range hrange =>
      obtain ⟨hfirst, hfinal, _⟩ := readRange_eq_ok_iff.mp hrange
      obtain ⟨hlow, hhigh, _⟩ := (mem_stepped_iff Nat.one_pos).mp hmem
      exact .range (hreads.value hfirst) (hreads.value hfinal) hlow hhigh
    | step hbounds hstep =>
      obtain ⟨hstep, hpos⟩ := readStep_eq_ok hstep
      obtain ⟨hlow, hhigh, hdvd⟩ := (mem_stepped_iff hpos).mp hmem
      exact .step ((hreads.spansFrom_iff hbounds).mpr ⟨rfl, rfl⟩) hstep hlow hhigh hdvd
  · intro hlists
    cases hlists with
    | value hword =>
      rw [readEntry, splitFirst?_eq_none (hreads.not_mem hword (by decide)),
        splitFirst?_eq_none (hreads.not_mem hword (by decide))] at hread
      dsimp only at hread
      split at hread
      · cases hread
      · obtain ⟨found, hfound, hnumbers⟩ := bind_eq_ok_iff.mp hread
        obtain rfl := Except.ok.inj hnumbers
        exact List.mem_singleton.mpr (hreads.eq_of_number? hfound hword).symm
    | @range start stop first final _ hstart hstop hlow hhigh =>
      have hslash : '/' ∉ start ++ '-' :: stop :=
        SpansFrom.not_mem (.range hstart hstop) (hreads.words '/' (by decide)) (by decide)
      rw [readEntry, splitFirst?_eq_none hslash,
        splitFirst?_append_cons (hreads.not_mem hstart (by decide))] at hread
      obtain ⟨⟨first', final'⟩, hrange, hnumbers⟩ := bind_eq_ok_iff.mp hread
      obtain ⟨hfirst, hfinal, _⟩ := readRange_eq_ok_iff.mp hrange
      obtain rfl := Except.ok.inj hnumbers
      obtain rfl := hreads.eq_of_number? hfirst hstart
      obtain rfl := hreads.eq_of_number? hfinal hstop
      exact (mem_stepped_iff Nat.one_pos).mpr ⟨hlow, hhigh, Nat.one_dvd _⟩
    | @step bounds step first final interval _ hbounds hstep hlow hhigh hdvd =>
      have hslash : '/' ∉ bounds := hbounds.not_mem (hreads.words '/' (by decide)) (by decide)
      rw [readEntry, splitFirst?_append_cons hslash] at hread
      obtain ⟨interval', hinterval, hread⟩ := bind_eq_ok_iff.mp hread
      obtain ⟨⟨first', final'⟩, hspans, hread⟩ := bind_eq_ok_iff.mp hread
      obtain ⟨_, hdivisor, hnumbers⟩ := bind_eq_ok_iff.mp hread
      obtain ⟨hstep', hpos⟩ := readStep_eq_ok hinterval
      obtain ⟨_, rfl⟩ := divisor_eq_ok_iff.mp hdivisor
      obtain rfl := Except.ok.inj hnumbers
      obtain ⟨rfl, rfl⟩ := (hreads.spansFrom_iff hspans).mp hbounds
      obtain rfl := Option.some.inj (hstep'.symm.trans hstep)
      exact (mem_stepped_iff hpos).mpr ⟨hlow, hhigh, hdvd⟩

/-- A list is read as the numbers its entries list. -/
theorem mem_readList_iff {field : List Char} {numbers : List Nat} {number : Nat}
    (hread : readList kind readOne field = .ok numbers) :
    number ∈ numbers ↔ ∃ entry ∈ splitAll ',' field, EntryLists sense entry number := by
  obtain ⟨entries, hentries, hnumbers⟩ := bind_eq_ok_iff.mp hread
  obtain rfl := Except.ok.inj hnumbers
  rw [List.mem_flatten]
  constructor
  · rintro ⟨found, hfound, hmem⟩
    obtain ⟨entry, hentry, hread⟩ := exists_item_of_mapM hentries hfound
    exact ⟨entry, hentry, (hreads.mem_readEntry_iff hread).mp hmem⟩
  · rintro ⟨entry, hentry, hlists⟩
    obtain ⟨found, hfound, hread⟩ := exists_result_of_mapM hentries hentry
    exact ⟨found, hfound, (hreads.mem_readEntry_iff hread).mpr hlists⟩

/-- What is read as an entry holds nothing but words, steps, asterisks, hyphens
and slashes. -/
theorem not_mem_of_readEntry {entry : List Char} {numbers : List Nat}
    (hread : readEntry kind readOne entry = .ok numbers) {c : Char} (hwords : sense.WordsLack c)
    (hbuilt : c ∉ ['*', '-', '/', '+']) (hdigit : c.isDigit = false) : c ∉ entry := by
  have hbounds : c ∉ ['*', '-'] := fun hmem => hbuilt (List.mem_append_left ['/', '+'] hmem)
  cases entryReads_of_readEntry hread with
  | value hword => exact hwords _ _ (hreads.value hword)
  | range hrange =>
    obtain ⟨hfirst, hfinal, _⟩ := readRange_eq_ok_iff.mp hrange
    exact SpansFrom.not_mem (.range (hreads.value hfirst) (hreads.value hfinal)) hwords hbounds
  | step hspans hstep =>
    simp only [List.mem_cons, List.not_mem_nil, or_false, not_or] at hbuilt
    obtain ⟨_, _, hslash, hplus⟩ := hbuilt
    rw [List.mem_append, List.mem_cons]
    rintro (hmem | rfl | hmem)
    · exact ((hreads.spansFrom_iff hspans).mpr ⟨rfl, rfl⟩).not_mem hwords hbounds hmem
    · exact hslash rfl
    · exact Numeral.not_mem_of_read? (readStep_eq_ok hstep).1 hdigit hplus hmem

theorem not_mem_of_readList {field : List Char} {numbers : List Nat}
    (hread : readList kind readOne field = .ok numbers) {c : Char} (hwords : sense.WordsLack c)
    (hbuilt : c ∉ ['*', '-', '/', '+']) (hdigit : c.isDigit = false) (hcomma : c ≠ ',') :
    c ∉ field := by
  obtain ⟨entries, hentries, _⟩ := bind_eq_ok_iff.mp hread
  intro hmem
  obtain ⟨entry, hentry, hmem⟩ := exists_part_of_mem hmem hcomma
  obtain ⟨_, _, hread⟩ := exists_result_of_mapM hentries hentry
  exact hreads.not_mem_of_readEntry hread hwords hbuilt hdigit hmem

/-- A field of one entry lists what it is read as. -/
theorem fieldLists_iff_of_readEntry {field : List Char} {numbers : List Nat} {number : Nat}
    (hread : readEntry kind readOne field = .ok numbers) (hcomma : ',' ∉ field)
    (hstar : field ≠ ['*']) : FieldLists sense field number ↔ number ∈ numbers := by
  rw [FieldLists, or_iff_right hstar, splitAll_eq_singleton hcomma, hreads.mem_readEntry_iff hread]
  simp only [List.mem_singleton, exists_eq_left]

/-- A field of one word lists the number it stands for. -/
theorem fieldLists_word_iff {field : List Char} {found number : Nat}
    (hread : readOne field = .ok found) : FieldLists sense field number ↔ number = found := by
  have hlacks : ∀ c ∈ ['*', '-', '/', ','], c ∉ field := fun c hc =>
    hreads.not_mem (hreads.value hread) hc
  have hstar : field ≠ ['*'] := fun hall =>
    hlacks '*' (by decide) (hall ▸ List.mem_cons_self)
  rw [FieldLists, or_iff_right hstar, splitAll_eq_singleton (hlacks ',' (by decide))]
  simp only [List.mem_singleton, exists_eq_left]
  constructor
  · intro hlists
    cases hlists with
    | value hword => exact (hreads.eq_of_number? hread hword).symm
    | range => exact absurd (List.mem_append_right _ List.mem_cons_self) (hlacks '-' (by decide))
    | step => exact absurd (List.mem_append_right _ List.mem_cons_self) (hlacks '/' (by decide))
  · rintro rfl
    exact .value (hreads.value hread)

end Reads

end Reading

end Cron

end Cadence
