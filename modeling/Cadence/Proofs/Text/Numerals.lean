import Mathlib.Algebra.Ring.Nat
import Mathlib.Data.List.Basic
import Cadence.Text.Numeral

/-!
# Written numerals

A value is written as a run of digits, with or without leading zeros, and the
run stands for exactly that value.  A value below a power of ten fills exactly
as many figures as it is padded to.
-/

namespace Cadence.Numeral

/-- A run of digits, at least one, that stands for a value. -/
structure Denotes (digits : List Char) (value : Nat) : Prop where
  ne_nil : digits ≠ []
  isDigit : ∀ c ∈ digits, c.isDigit = true
  value_eq : Nat.ofDigitChars 10 digits 0 = value

theorem denotes_toDigits (value : Nat) : Denotes (Nat.toDigits 10 value) value where
  ne_nil := Nat.toDigits_ne_nil
  isDigit := fun _ hc => Nat.isDigit_of_mem_toDigits (by decide) (by decide) hc
  value_eq := Nat.ofDigitChars_ten_toDigits

theorem denotes_repr (value : Nat) : Denotes (Nat.repr value).toList value := by
  rw [Nat.toList_repr]
  exact denotes_toDigits value

theorem toList_padded (width value : Nat) :
    (padded width value).toList =
      List.replicate (width - (Nat.toDigits 10 value).length) '0' ++ Nat.toDigits 10 value := by
  rw [padded, String.toList_ofList]

theorem denotes_padded (width value : Nat) : Denotes (padded width value).toList value := by
  have hdigits := denotes_toDigits value
  rw [toList_padded]
  refine ⟨?_, ?_, ?_⟩
  · exact List.append_ne_nil_of_right_ne_nil _ hdigits.ne_nil
  · intro c hc
    rcases List.mem_append.mp hc with hzero | hdigit
    · obtain rfl := List.eq_of_mem_replicate hzero
      rfl
    · exact hdigits.isDigit c hdigit
  · calc
      Nat.ofDigitChars 10 (List.replicate _ '0' ++ Nat.toDigits 10 value) 0
        = Nat.ofDigitChars 10 (Nat.toDigits 10 value)
            (Nat.ofDigitChars 10 (List.replicate _ '0') 0) := Nat.ofDigitChars_append 0
      _ = Nat.ofDigitChars 10 (Nat.toDigits 10 value) 0 := by
        rw [Nat.ofDigitChars_replicate_zero, Nat.mul_zero]
      _ = value := hdigits.value_eq

theorem length_padded {width value : Nat} (hwidth : 0 < width) (hvalue : value < 10 ^ width) :
    (padded width value).toList.length = width := by
  have hlength := (Nat.length_toDigits_le_iff (by decide) hwidth).mpr hvalue
  rw [toList_padded, List.length_append, List.length_replicate]
  omega

/-- The value of a numeral is found if it is within the limit. -/
theorem ofDigits?_of_denotes {limit : Nat} {digits : List Char} {value : Nat}
    (hdigits : Denotes digits value) (hvalue : value ≤ limit) :
    ofDigits? limit digits = some value := by
  simp only [ofDigits?, hdigits.value_eq, hvalue, if_true]

/-- A numeral without a sign is read as its value. -/
theorem read?_of_denotes {limit : Nat} {digits : List Char} {value : Nat}
    (hdigits : Denotes digits value) (hvalue : value ≤ limit) :
    read? limit digits = some value := by
  have hall : digits.all Char.isDigit = true := List.all_eq_true.mpr hdigits.isDigit
  have hsome : digits.isEmpty = false := by
    simpa only [List.isEmpty_eq_false_iff] using hdigits.ne_nil
  unfold read?
  split
  · exact absurd (hdigits.isDigit '+' List.mem_cons_self) (by decide)
  · simp only [hall, hsome, Bool.not_false, Bool.and_self, if_true]
    exact ofDigits?_of_denotes hdigits hvalue

/-- A numeral holds nothing but digits. -/
theorem Denotes.not_mem {digits : List Char} {value : Nat} (hdigits : Denotes digits value)
    {c : Char} (hc : c.isDigit = false) : c ∉ digits :=
  fun hmem => Bool.eq_false_iff.mp hc (hdigits.isDigit c hmem)

/-- A text that is read as a count is made of digits, behind at most one plus
sign. -/
theorem exists_digits_of_read? {limit value : Nat} {text : List Char}
    (hread : read? limit text = some value) :
    ∃ digits, (text = '+' :: digits ∨ text = digits) ∧ (∀ c ∈ digits, c.isDigit = true) ∧
      ofDigits? limit digits = some value := by
  have hdigits : ∀ {digits : List Char},
      (if !digits.isEmpty && digits.all Char.isDigit then ofDigits? limit digits else none) =
        some value → (∀ c ∈ digits, c.isDigit = true) ∧ ofDigits? limit digits = some value := by
    intro digits hread
    obtain ⟨hall, hvalue⟩ := Option.ite_none_right_eq_some.mp hread
    exact ⟨List.all_eq_true.mp (Bool.and_eq_true_iff.mp hall).2, hvalue⟩
  unfold read? at hread
  split at hread
  · exact ⟨_, .inl rfl, hdigits hread⟩
  · exact ⟨_, .inr rfl, hdigits hread⟩

theorem not_mem_of_read? {limit value : Nat} {text : List Char} {c : Char}
    (hread : read? limit text = some value) (hdigit : c.isDigit = false) (hplus : c ≠ '+') :
    c ∉ text := by
  obtain ⟨digits, htext, hall, _⟩ := exists_digits_of_read? hread
  have hfree : c ∉ digits := fun hmem => Bool.eq_false_iff.mp hdigit (hall c hmem)
  rcases htext with rfl | rfl
  · exact List.not_mem_cons_of_ne_of_not_mem hplus hfree
  · exact hfree

theorem le_of_read? {limit value : Nat} {text : List Char}
    (hread : read? limit text = some value) : value ≤ limit := by
  obtain ⟨digits, _, _, hvalue⟩ := exists_digits_of_read? hread
  obtain ⟨hle, hsame⟩ := Option.ite_none_right_eq_some.mp hvalue
  exact Option.some.inj hsame ▸ hle

/-- A value below one hundred is padded to two digits. -/
theorem exists_padded_two {value : Nat} (hvalue : value < 100) :
    ∃ tens units : Char, (padded 2 value).toList = [tens, units] :=
  List.length_eq_two.mp (length_padded (by decide) hvalue)

/-- A value below ten thousand is padded to four digits. -/
theorem exists_padded_four {value : Nat} (hvalue : value < 10000) :
    ∃ thousands hundreds tens units : Char,
      (padded 4 value).toList = [thousands, hundreds, tens, units] :=
  List.length_eq_four.mp (length_padded (by decide) hvalue)

end Cadence.Numeral
