import Cadence.Proofs.Calendar.DayNumbers
import Cadence.Proofs.Expression.Lexemes

/-!
# How symbols are written

Every symbol but the comma and the name of a zone is written with a spelling of
its own, in words of the vocabulary or in figures, and what is written is read back
as that symbol, provided that the text ends behind it or goes on with a blank or a
comma.
-/

namespace Cadence

/-- A text that ends here or goes on with a blank or a comma, so that nothing
written before it is continued. -/
def AtBoundary (rest : List Char) : Prop := ∀ c ∈ rest.head?, c = ' ' ∨ c = ','

/-- Every spelling ends at a boundary. -/
theorem AtBoundary.endsBefore {rest : List Char} (hrest : AtBoundary rest) (symbol : Symbol) :
    EndsBefore rest symbol := by
  have hfails : ∀ c ∈ rest.head?, isWordCharacter c = false ∧ c.isDigit = false ∧ c ≠ '-' ∧
      c ≠ ':' ∧ c.isAlpha = false := by
    intro c hc
    rcases hrest c hc with rfl | rfl <;> decide
  cases symbol with
  | comma | date | ordinal => trivial
  | time => exact fun c hc => (hfails c hc).2.1
  | number =>
    refine ⟨fun c hc => ?_, ?_⟩
    · obtain ⟨_, hdigit, hhyphen, hcolon, _⟩ := hfails c hc
      exact ⟨hdigit, hhyphen, hcolon⟩
    · rintro c₁ c₂ others rfl
      refine Bool.eq_false_iff.mpr fun hending => ?_
      have hletter := (hfails c₁ rfl).2.2.2.2
      rw [isAlpha_of_isOrdinalEnding hending] at hletter
      cases hletter
  | _ => exact fun c hc => (hfails c hc).1

/-- Before a boundary a text is read as one symbol. -/
def Spells (text : String) (symbol : Symbol) : Prop :=
  ∃ first tail, text.toList = first :: tail ∧ isAsciiBlank first = false ∧
    ∀ rest, AtBoundary rest → readLexeme first (tail ++ rest) = ⟨tail.length, .ok symbol⟩

theorem spells_of_isSpelling {text : String} {symbol : Symbol}
    (hspelling : IsSpelling text.toList symbol) : Spells text symbol := by
  obtain ⟨first, tail, htext, hblank, hread⟩ := readLexeme_of_isSpelling hspelling
  exact ⟨first, tail, htext, hblank, fun rest hrest => hread rest (hrest.endsBefore symbol)⟩

/-! ## Words -/

/-- Every word of the vocabulary is a spelling of what it stands for. -/
theorem isSpelling_of_symbolOfWord? {word : String} {symbol : Symbol}
    (hword : symbolOfWord? word = some symbol) : IsSpelling word.toList symbol := by
  have hstands := standsFor_of_symbolOfWord? hword
  obtain ⟨hne, hletters⟩ := hstands.letters
  obtain ⟨first, tail, htext⟩ := List.exists_cons_of_ne_nil hne
  have hlower : String.ofList ((first :: tail).map Char.toLower) = word.toLower := by
    rw [← htext, String.toLower, ← String.toList_map, String.ofList_toList]
  rw [htext] at hletters ⊢
  refine .word (hletters first List.mem_cons_self) (fun c hc => ?_) ?_
  · have hletter := hletters c (List.mem_cons_of_mem _ hc)
    rw [isWordCharacter, Char.isAlphanum, hletter, Bool.true_or, Bool.true_or]
  · rw [hlower, hstands.symbolOfWord?_toLower]

/-- Every word of the vocabulary is read as what it stands for. -/
theorem spells_of_symbolOfWord? {word : String} {symbol : Symbol}
    (hword : symbolOfWord? word = some symbol) : Spells word symbol :=
  spells_of_isSpelling (isSpelling_of_symbolOfWord? hword)

/-! ## Numbers -/

section Numerals

variable {value : Nat}

/-- A count is read as a number. -/
theorem spells_number (hvalue : value ≤ Numeral.countLimit) :
    Spells (Nat.repr value) (.number value) :=
  spells_of_isSpelling (.number (Numeral.denotes_repr value) hvalue)

theorem ordinalEnding_spec (value : Nat) : ∃ c₁ c₂ : Char,
    (Numeral.ordinalEnding value).toList = [c₁, c₂] ∧ Numeral.isOrdinalEnding c₁ c₂ = true := by
  rw [Numeral.ordinalEnding]
  split
  · exact ⟨'t', 'h', rfl, rfl⟩
  · split
    · exact ⟨'s', 't', rfl, rfl⟩
    · exact ⟨'n', 'd', rfl, rfl⟩
    · exact ⟨'r', 'd', rfl, rfl⟩
    · exact ⟨'t', 'h', rfl, rfl⟩

/-- A count with its English ending is a spelling of an ordinal. -/
theorem isSpelling_ordinalText (hvalue : value ≤ Numeral.countLimit) :
    IsSpelling (Numeral.ordinalText value).toList (.ordinal value) := by
  obtain ⟨c₁, c₂, hending, hordinal⟩ := ordinalEnding_spec value
  rw [Numeral.ordinalText, String.toList_append, hending]
  exact .ordinal (Numeral.denotes_repr value) hvalue hordinal

/-- A count with its English ending is read as an ordinal. -/
theorem spells_ordinal (hvalue : value ≤ Numeral.countLimit) :
    Spells (Numeral.ordinalText value) (.ordinal value) :=
  spells_of_isSpelling (isSpelling_ordinalText hvalue)

end Numerals

/-! ## Times and dates -/

/-- The figures of a time on the clock are a spelling of it. -/
theorem isSpelling_timeText {time : TimeOfDay} (htime : time.IsOnClock) :
    IsSpelling time.text.toList (.time time) := by
  obtain ⟨hhour, hminute⟩ := htime
  have hhours := Numeral.denotes_padded 2 time.hour
  have hminutes := Numeral.denotes_padded 2 time.minute
  have hhourLength : (Numeral.padded 2 time.hour).toList.length = 2 :=
    Numeral.length_padded (by decide) (by omega)
  have hminuteLength : (Numeral.padded 2 time.minute).toList.length = 2 :=
    Numeral.length_padded (by decide) (by omega)
  have hclock : timeOfDigits? (Numeral.padded 2 time.hour).toList
      (Numeral.padded 2 time.minute).toList = some time := by
    simp only [timeOfDigits?, hhours.value_eq, hminutes.value_eq]
    exact if_pos ⟨hminuteLength, by omega, by omega⟩
  rw [TimeOfDay.text, String.toList_append, String.toList_append, List.append_assoc]
  exact .time hhours hhourLength.le hminutes.isDigit hclock

/-- A time on the clock is read back from its figures. -/
theorem spells_time {time : TimeOfDay} (htime : time.IsOnClock) :
    Spells time.text (.time time) :=
  spells_of_isSpelling (isSpelling_timeText htime)

/-- The figures of a date and what they stand for. -/
theorem Date.exists_text {date : Date} (hyear : date.HasFourDigitYear) :
    ∃ y₁ y₂ y₃ y₄ m₁ m₂ d₁ d₂ : Char,
      date.text.toList = [y₁, y₂, y₃, y₄, '-', m₁, m₂, '-', d₁, d₂] ∧
        Numeral.Denotes [y₁, y₂, y₃, y₄] date.year.toNat ∧
        Numeral.Denotes [m₁, m₂] date.month ∧ Numeral.Denotes [d₁, d₂] date.day := by
  obtain ⟨hyearLow, hyearHigh⟩ := hyear
  have hmonth := date.month_bounds
  have hday := date.day_bounds
  have hlength := (daysInMonth_bounds date.year date.month).2
  obtain ⟨y₁, y₂, y₃, y₄, hyearText⟩ :=
    Numeral.exists_padded_four (show date.year.toNat < 10000 by omega)
  obtain ⟨m₁, m₂, hmonthText⟩ := Numeral.exists_padded_two (show date.month < 100 by omega)
  obtain ⟨d₁, d₂, hdayText⟩ := Numeral.exists_padded_two (show date.day < 100 by omega)
  refine ⟨y₁, y₂, y₃, y₄, m₁, m₂, d₁, d₂, ?_, ?_, ?_, ?_⟩
  · simp only [text, yearText, hyearLow, hyearHigh, and_self, if_true, String.toList_append,
      hyearText, hmonthText, hdayText]
    rfl
  · exact hyearText ▸ Numeral.denotes_padded 4 date.year.toNat
  · exact hmonthText ▸ Numeral.denotes_padded 2 date.month
  · exact hdayText ▸ Numeral.denotes_padded 2 date.day

/-- A date is read back from its text. -/
theorem Date.ofText?_text {date : Date} (hyear : date.HasFourDigitYear) :
    ofText? date.text.toList = some date := by
  obtain ⟨y₁, y₂, y₃, y₄, m₁, m₂, d₁, d₂, htext, hyears, hmonths, hdays⟩ := exists_text hyear
  have hdigits : [y₁, y₂, y₃, y₄, m₁, m₂, d₁, d₂].all Char.isDigit = true := by
    have hall : ∀ c ∈ [y₁, y₂, y₃, y₄] ++ ([m₁, m₂] ++ [d₁, d₂]), c.isDigit = true :=
      List.forall_mem_append.mpr
        ⟨hyears.isDigit, List.forall_mem_append.mpr ⟨hmonths.isDigit, hdays.isDigit⟩⟩
    exact List.all_eq_true.mpr hall
  have hback : (date.year.toNat : Int) = date.year := Int.toNat_of_nonneg hyear.1
  rw [htext]
  simp only [ofText?, hdigits, if_true, hyears.value_eq, hmonths.value_eq, hdays.value_eq, hback]
  exact ofYmd?_eq_some_iff.mpr ⟨hyear.isSupported, rfl, rfl, rfl⟩

/-- A date is read as a token with its text. -/
theorem spells_date {date : Date} (hyear : date.HasFourDigitYear) :
    Spells date.text (.date date.text) := by
  obtain ⟨y₁, y₂, y₃, y₄, m₁, m₂, d₁, d₂, htext, hyears, hmonths, hdays⟩ :=
    Date.exists_text hyear
  have hdigits : [m₁, m₂, d₁, d₂].all Char.isDigit = true := by
    have hall : ∀ c ∈ [m₁, m₂] ++ [d₁, d₂], c.isDigit = true :=
      List.forall_mem_append.mpr ⟨hmonths.isDigit, hdays.isDigit⟩
    exact List.all_eq_true.mpr hall
  have hspelling := IsSpelling.date hyears rfl hdigits
  have hfigures : date.text.toList = [y₁, y₂, y₃, y₄] ++ ['-', m₁, m₂, '-', d₁, d₂] := htext
  rw [← hfigures, String.ofList_toList] at hspelling
  exact spells_of_isSpelling hspelling

end Cadence
