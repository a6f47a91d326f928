import Mathlib
import Cadence.Clock.Timestamp
import Cadence.Proofs.Expression.Spelling
import Cadence.Proofs.Text.Spans

/-!
# Written timestamps

A timestamp of a whole second, with an offset of whole minutes and a year of four
figures, is read back from its text as it was written.
-/

namespace Cadence

namespace Timestamp

variable {stamp : Timestamp} {digits rest : List Char} {count value : Nat}

/-! ## Parts -/

theorem readDigits_append (hdigits : ∀ c ∈ digits, c.isDigit = true)
    (hlength : digits.length = count) : readDigits count value (digits ++ rest) =
      .ok (Nat.ofDigitChars 10 digits value, rest) := by
  induction digits generalizing count value with
  | nil =>
    subst hlength
    rfl
  | cons c digits ih =>
    obtain ⟨hc, hdigits⟩ := List.forall_mem_cons.mp hdigits
    subst hlength
    rw [List.length_cons, List.cons_append, readDigits, if_pos hc, ih hdigits rfl,
      Nat.ofDigitChars_cons, Nat.mul_comm]

/-- A value is read from as many figures as it is padded to. -/
theorem readDigits_padded (hcount : 0 < count) (hvalue : value < 10 ^ count) (rest : List Char) :
    readDigits count 0 ((Numeral.padded count value).toList ++ rest) = .ok (value, rest) := by
  have hdenotes := Numeral.denotes_padded count value
  rw [readDigits_append hdenotes.isDigit (Numeral.length_padded hcount hvalue), hdenotes.value_eq]

theorem readOffsetPair_padded (hvalue : value < 100) (rest : List Char) :
    readOffsetPair ((Numeral.padded 2 value).toList ++ rest) = .ok (value, rest) := by
  have hlength : (Numeral.padded 2 value).toList.length = 2 :=
    Numeral.length_padded (by decide) hvalue
  have hbytes := length_le_byteLength ((Numeral.padded 2 value).toList ++ rest)
  rw [List.length_append] at hbytes
  rw [readOffsetPair, if_neg (by omega), readDigits_padded (by decide) hvalue]

/-- The characters of an offset. -/
theorem toList_offsetText (offset : Int) : (offsetText offset).toList =
    (if offset < 0 then '-' else '+') :: ((Numeral.padded 2 (offset.natAbs / 60 / 60)).toList ++
      ':' :: ((Numeral.padded 2 (offset.natAbs / 60 % 60)).toList ++ [])) := by
  have hcolon : ":".toList = [':'] := rfl
  simp only [offsetText, String.toList_append, hcolon, List.append_assoc, List.append_nil]
  split <;> rfl

/-- Hours and minutes are read behind a sign. -/
theorem readOffset_padded {sign : Char} {hours minutes : Nat} (hsign : sign = '+' ∨ sign = '-')
    (hhours : hours < 100) (hminutes : minutes < 60) :
    readOffset (sign :: ((Numeral.padded 2 hours).toList ++
        ':' :: ((Numeral.padded 2 minutes).toList ++ []))) =
      .ok (if sign = '+' then hours * 3600 + minutes * 60
        else -(hours * 3600 + minutes * 60), []) := by
  have hfirst := readOffsetPair_padded hhours
  have hsecond := readOffsetPair_padded (show minutes < 100 by omega)
  have hcolon (rest : List Char) : readMark [':'] (':' :: rest) = .ok rest := rfl
  rw [readOffset, if_neg (by rcases hsign with rfl | rfl <;> decide),
    if_pos (hsign.imp_right .inl)]
  simp only [hfirst, hsecond, hcolon, bind, Except.bind, List.isEmpty_cons, Bool.false_eq_true,
    if_false, Nat.not_le.mpr hminutes]

/-- An offset of whole minutes, shorter than a day, is read back. -/
theorem readOffset_offsetText {offset : Int} (hwhole : offset % 60 = 0)
    (hshort : -86400 < offset ∧ offset < 86400) :
    readOffset (offsetText offset).toList = .ok (offset, []) := by
  have hhours : offset.natAbs / 60 / 60 < 100 := by omega
  have hminutes : offset.natAbs / 60 % 60 < 60 := Nat.mod_lt _ (by decide)
  have hseconds : offset.natAbs / 60 / 60 * 3600 + offset.natAbs / 60 % 60 * 60 =
      offset.natAbs := by omega
  rw [toList_offsetText]
  generalize offset.natAbs / 60 / 60 = hours at *
  generalize offset.natAbs / 60 % 60 = minutes at *
  split
  · rw [readOffset_padded (.inr rfl) hhours hminutes, if_neg (by decide),
      show -((hours : Int) * 3600 + minutes * 60) = offset by omega]
  · rw [readOffset_padded (.inl rfl) hhours hminutes, if_pos rfl,
      show (hours : Int) * 3600 + minutes * 60 = offset by omega]

/-! ## Round trip -/

/-- The characters of a timestamp of a whole second in a year of four figures. -/
theorem toList_text (hnano : stamp.instant.nano = 0)
    (hyear : (dateOfSecond stamp.localSecond).HasFourDigitYear) :
    stamp.text.toList =
      (Numeral.padded 4 (dateOfSecond stamp.localSecond).year.toNat).toList ++
        '-' :: ((Numeral.padded 2 (dateOfSecond stamp.localSecond).month).toList ++
        '-' :: ((Numeral.padded 2 (dateOfSecond stamp.localSecond).day).toList ++
        'T' :: ((Numeral.padded 2 (clockOfSecond stamp.localSecond / 3600)).toList ++
        ':' :: ((Numeral.padded 2 (clockOfSecond stamp.localSecond / 60 % 60)).toList ++
        ':' :: ((Numeral.padded 2 (clockOfSecond stamp.localSecond % 60)).toList ++
        (offsetText stamp.offset).toList))))) := by
  have hhyphen : "-".toList = ['-'] := rfl
  have hletter : "T".toList = ['T'] := rfl
  have hcolon : ":".toList = [':'] := rfl
  have hpoint : fractionText 0 = "" := rfl
  simp only [text, Date.text, Date.yearText, hyear.1, hyear.2, and_self, if_true, hnano,
    Nat.zero_div, Nat.zero_mod, Nat.add_zero, hpoint, String.toList_append, String.toList_empty,
    hhyphen, hletter, hcolon, List.append_assoc, List.cons_append, List.nil_append]

/-- A timestamp is read from its figures. -/
theorem read_of_figures {text : String} {year month day hour minute second : Nat} {date : Date}
    {offset : Int} {mark : Char}
    (htext : text.toList = (Numeral.padded 4 year).toList ++
      '-' :: ((Numeral.padded 2 month).toList ++ '-' :: ((Numeral.padded 2 day).toList ++
      'T' :: ((Numeral.padded 2 hour).toList ++ ':' :: ((Numeral.padded 2 minute).toList ++
      ':' :: ((Numeral.padded 2 second).toList ++ mark :: rest))))))
    (hmark : mark ≠ '.') (hoffset : readOffset (mark :: rest) = .ok (offset, []))
    (hyear : year < 10000) (hdate : Date.ofYmd? year month day = some date)
    (hhour : hour < 24) (hminute : minute < 60) (hsecond : second < 60)
    (hshort : -86400 < offset ∧ offset < 86400) :
    read text =
      .ok ⟨.ofSecond (secondOf date (hour * 3600 + minute * 60 + second) - offset), offset⟩ := by
  obtain ⟨_, _, _, hlastMonth, _, hlastDay⟩ := (Option.ite_none_right_eq_some.mp hdate).1
  have hmonthDays := (daysInMonth_bounds year month).2
  have hmonth : month < 10 ^ 2 := by omega
  have hday : day < 10 ^ 2 := by omega
  have hlong : 19 ≤ text.toList.length := by
    have hpair {value : Nat} (hvalue : value < 10 ^ 2) :
        (Numeral.padded 2 value).toList.length = 2 := Numeral.length_padded (by decide) hvalue
    have hfour : (Numeral.padded 4 year).toList.length = 4 :=
      Numeral.length_padded (by decide) hyear
    simp only [htext, List.length_append, List.length_cons, hfour, hpair hmonth, hpair hday,
      hpair (show hour < 10 ^ 2 by omega), hpair (show minute < 10 ^ 2 by omega),
      hpair (show second < 10 ^ 2 by omega)]
    omega
  have hbytes : ¬ byteLength text.toList < 19 :=
    Nat.not_lt.mpr (hlong.trans (length_le_byteLength text.toList))
  have hhyphen (rest : List Char) : readMark ['-'] ('-' :: rest) = .ok rest := rfl
  have hletter (rest : List Char) : readMark ['T', 't', ' '] ('T' :: rest) = .ok rest := rfl
  have hcolon (rest : List Char) : readMark [':'] (':' :: rest) = .ok rest := rfl
  rw [read]
  simp only [if_neg hbytes]
  rw [htext]
  simp only [readDigits_padded (show 0 < 4 by decide) (show year < 10 ^ 4 from hyear),
    readDigits_padded (show 0 < 2 by decide) hmonth, readDigits_padded (show 0 < 2 by decide) hday,
    readDigits_padded (show 0 < 2 by decide) (show hour < 10 ^ 2 by omega),
    readDigits_padded (show 0 < 2 by decide) (show minute < 10 ^ 2 by omega),
    readDigits_padded (show 0 < 2 by decide) (show second < 10 ^ 2 by omega),
    hhyphen, hletter, hcolon, hdate, bind, Except.bind]
  split
  · rename_i hpoint
    exact absurd (List.cons.inj hpoint).1 hmark
  · have hclock : ¬ (24 ≤ hour ∨ 60 ≤ minute ∨ 60 < second) := by omega
    have hleap : ¬ second = 60 := by omega
    have hfits : ¬ 86400 ≤ offset.natAbs := by omega
    simp only [if_neg hclock, hoffset, List.isEmpty_nil, Bool.not_true, Bool.false_eq_true,
      if_false, if_neg hfits, if_neg hleap]
    rfl

/-- A timestamp of a whole second is read back from its text if its year has four figures
and its offset is whole minutes, less than a day of them. -/
theorem read_text (hnano : stamp.instant.nano = 0)
    (hyear : (dateOfSecond stamp.localSecond).HasFourDigitYear)
    (hwhole : stamp.offset % 60 = 0) (hshort : -86400 < stamp.offset ∧ stamp.offset < 86400) :
    read stamp.text = .ok stamp := by
  have hoffset := readOffset_offsetText hwhole hshort
  have hclock : clockOfSecond stamp.localSecond < 86400 := by
    simp only [clockOfSecond, daySeconds]
    omega
  have hdate : Date.ofYmd? (dateOfSecond stamp.localSecond).year.toNat
      (dateOfSecond stamp.localSecond).month (dateOfSecond stamp.localSecond).day =
        some (dateOfSecond stamp.localSecond) := by
    rw [Int.toNat_of_nonneg hyear.1]
    exact Date.ofYmd?_eq_some_iff.mpr ⟨hyear.isSupported, rfl, rfl, rfl⟩
  have htext := toList_text hnano hyear
  rw [toList_offsetText] at htext hoffset
  rw [read_of_figures htext (by split <;> decide) hoffset (by have := hyear.2; omega) hdate
    (by omega) (by omega) (by omega) hshort]
  have hsecond : clockOfSecond stamp.localSecond / 3600 * 3600 +
      clockOfSecond stamp.localSecond / 60 % 60 * 60 + clockOfSecond stamp.localSecond % 60 =
        clockOfSecond stamp.localSecond := by omega
  rw [hsecond, secondOf_date_clock]
  obtain ⟨⟨second, nano⟩, offset⟩ := stamp
  obtain rfl : nano = 0 := hnano
  rw [localSecond, Int.add_sub_cancel]
  rfl

/-! ## Characters -/

/-- A text of figures and of the marks that stand between those of a timestamp. -/
def IsFigures (text : String) : Prop :=
  ∀ c ∈ text.toList, c.isDigit = true ∨ c ∈ ['+', '-', ':', 'T', '.']

theorem isFigures_append_iff {first second : String} :
    IsFigures (first ++ second) ↔ IsFigures first ∧ IsFigures second := by
  rw [IsFigures, String.toList_append, List.forall_mem_append]
  rfl

theorem isFigures_padded (width value : Nat) : IsFigures (Numeral.padded width value) :=
  fun c hc => .inl ((Numeral.denotes_padded width value).isDigit c hc)

theorem isFigures_mark (mark : Char) (hmark : mark ∈ ['+', '-', ':', 'T', '.']) :
    IsFigures (String.ofList [mark]) := by
  intro c hc
  rw [String.toList_ofList, List.mem_singleton] at hc
  exact .inr (hc ▸ hmark)

theorem isFigures_yearText (year : Int) : IsFigures (Date.yearText year) := by
  rw [Date.yearText]
  split
  · exact isFigures_padded 4 year.toNat
  · refine isFigures_append_iff.mpr ⟨?_, isFigures_padded 4 year.natAbs⟩
    split
    · exact isFigures_mark '-' (by decide)
    · exact isFigures_mark '+' (by decide)

theorem isFigures_fractionText (nano : Nat) : IsFigures (fractionText nano) := by
  have hpoint : IsFigures "." := isFigures_mark '.' (by decide)
  rw [fractionText]
  split_ifs
  · rintro _ ⟨⟩
  all_goals exact isFigures_append_iff.mpr ⟨hpoint, isFigures_padded _ _⟩

/-- A written timestamp holds nothing but figures and marks. -/
theorem isFigures_text (stamp : Timestamp) : IsFigures stamp.text := by
  have hhyphen : IsFigures "-" := isFigures_mark '-' (by decide)
  have hplus : IsFigures "+" := isFigures_mark '+' (by decide)
  have hletter : IsFigures "T" := isFigures_mark 'T' (by decide)
  have hcolon : IsFigures ":" := isFigures_mark ':' (by decide)
  have hsign : IsFigures (if stamp.offset < 0 then "-" else "+") := by
    split
    · exact hhyphen
    · exact hplus
  simp only [text, Date.text, offsetText, isFigures_append_iff, isFigures_padded,
    isFigures_yearText, isFigures_fractionText, hhyphen, hletter, hcolon, hsign, and_self]

/-- A year of four figures is written without a sign. -/
theorem exists_first (stamp : Timestamp) : ∃ first rest, stamp.text.toList = first :: rest ∧
    (first.isDigit = true ↔ (dateOfSecond stamp.localSecond).HasFourDigitYear) := by
  obtain ⟨first, figures, hyear, hfirst⟩ : ∃ first figures,
      (Date.yearText (dateOfSecond stamp.localSecond).year).toList = first :: figures ∧
      (first.isDigit = true ↔ (dateOfSecond stamp.localSecond).HasFourDigitYear) := by
    rw [Date.yearText]
    split
    · rename_i hyear
      have hfigures := Numeral.denotes_padded 4 (dateOfSecond stamp.localSecond).year.toNat
      obtain ⟨first, figures, htext⟩ := List.exists_cons_of_ne_nil hfigures.ne_nil
      exact ⟨first, figures, htext,
        iff_of_true (hfigures.isDigit first (htext ▸ List.mem_cons_self)) hyear⟩
    · rename_i hyear
      rw [String.toList_append]
      split
      · exact ⟨'-', _, rfl, iff_of_false (by decide) hyear⟩
      · exact ⟨'+', _, rfl, iff_of_false (by decide) hyear⟩
  refine ⟨first, ?_⟩
  simp only [text, Date.text, String.toList_append, List.append_assoc, hyear, List.cons_append]
  exact ⟨_, rfl, hfirst⟩

/-- A written timestamp tells whether its year has four figures. -/
theorem hasFourDigitYear_of_text_eq {other : Timestamp} (htext : stamp.text = other.text)
    (hyear : (dateOfSecond other.localSecond).HasFourDigitYear) :
    (dateOfSecond stamp.localSecond).HasFourDigitYear := by
  obtain ⟨first, rest, hstamp, hfirst⟩ := stamp.exists_first
  obtain ⟨first', rest', hother, hfirst'⟩ := other.exists_first
  rw [htext, hother] at hstamp
  obtain ⟨rfl, _⟩ := List.cons.inj hstamp
  exact hfirst.mp (hfirst'.mpr hyear)

end Timestamp

end Cadence
