import Cadence.Cron.Reading
import Cadence.Cron.Writing
import Cadence.Proofs.Calendar.MonthTargets
import Cadence.Proofs.Calendar.Weeks
import Cadence.Proofs.Outcomes
import Cadence.Proofs.Text.Numerals
import Cadence.Proofs.Text.Separators
import Cadence.Schedule.WellFormed

/-!
# Reading the fields that are written

Written fields hold digits, asterisks, slashes, hyphens and commas only.  So a
written line is cut into its five fields, none of them has a syntax of its own
(`#`, `L`, `W` or `?`), and a slash alone decides how they are read.
-/

namespace Cadence.Cron

/-! ## Values -/

section Values

variable {value : Nat}

/-- A value a field ranges over is read back. -/
theorem FieldKind.value_repr {kind : FieldKind} (hlow : kind.least ≤ value)
    (hhigh : value ≤ kind.greatest) (hlimit : value ≤ Numeral.countLimit) :
    kind.value (Nat.repr value).toList = .ok value := by
  rw [FieldKind.value, Numeral.read?_of_denotes (Numeral.denotes_repr value) hlimit]
  exact if_pos ⟨hlow, hhigh⟩

/-- A step of at least 1 is read back. -/
theorem readStep_repr (hpos : 1 ≤ value) (hlimit : value ≤ Numeral.countLimit) :
    readStep (Nat.repr value).toList = .ok value := by
  rw [readStep, Numeral.read?_of_denotes (Numeral.denotes_repr value) hlimit]
  obtain ⟨previous, rfl⟩ := Nat.exists_eq_add_of_le' hpos
  rfl

/-- The number of a weekday is read back. -/
theorem readWeekdayNumber_repr (hvalue : value ≤ 7) :
    readWeekdayNumber (Nat.repr value).toList = .ok value := by
  have hlimit : value ≤ Numeral.countLimit := Nat.le_trans hvalue (by decide)
  rw [readWeekdayNumber, Numeral.read?_of_denotes (Numeral.denotes_repr value) hlimit]
  exact if_pos hvalue

/-- A numeral is an entry of one value, whatever reads it. -/
theorem readEntry_repr (kind : FieldKind) {readOne : List Char → Except ReadError Nat}
    (hread : readOne (Nat.repr value).toList = .ok value) :
    readEntry kind readOne (Nat.repr value).toList = .ok [value] := by
  have hdigits := Numeral.denotes_repr value
  have hsome : (Nat.repr value).toList.isEmpty = false := by
    simpa only [List.isEmpty_eq_false_iff] using hdigits.ne_nil
  rw [readEntry, splitFirst?_eq_none (hdigits.not_mem rfl),
    splitFirst?_eq_none (hdigits.not_mem rfl)]
  simp only [hsome, Bool.false_eq_true, if_false, hread]
  rfl

end Values

/-! ## Lines -/

/-- The characters of written fields. -/
def isFieldChar (c : Char) : Bool :=
  c.isDigit || c = '*' || c = '/' || c = '-' || c = ','

/-- A text that can stand as a written field. -/
structure IsFieldText (text : String) : Prop where
  ne_nil : text.toList ≠ []
  isFieldChar : ∀ c ∈ text.toList, isFieldChar c = true

namespace IsFieldText

theorem of_all {text : String} (hne : text.toList ≠ [])
    (hall : text.toList.all Cron.isFieldChar = true) : IsFieldText text :=
  ⟨hne, List.all_eq_true.mp hall⟩

theorem repr (value : Nat) : IsFieldText (Nat.repr value) where
  ne_nil := (Numeral.denotes_repr value).ne_nil
  isFieldChar := fun c hc => by
    simp only [Cron.isFieldChar, (Numeral.denotes_repr value).isDigit c hc, Bool.true_or]

theorem append {text other : String} (htext : IsFieldText text) (hother : IsFieldText other) :
    IsFieldText (text ++ other) where
  ne_nil := by
    rw [String.toList_append]
    exact List.append_ne_nil_of_left_ne_nil htext.ne_nil _
  isFieldChar := fun c hc => by
    rw [String.toList_append] at hc
    exact (List.mem_append.mp hc).elim (htext.isFieldChar c) (hother.isFieldChar c)

theorem everything : IsFieldText "*" := of_all (by decide) rfl

theorem joined {texts : List String} (hne : texts ≠ [])
    (htexts : ∀ text ∈ texts, IsFieldText text) : IsFieldText (joined "," texts) where
  ne_nil := by
    obtain ⟨text, rest, rfl⟩ := List.exists_cons_of_ne_nil hne
    exact joined_ne_nil rest (htexts text List.mem_cons_self).ne_nil
  isFieldChar := fun c hc => by
    rcases of_mem_joined hc with hcomma | ⟨text, htext, hmem⟩
    · obtain rfl := List.mem_singleton.mp hcomma
      decide
    · exact (htexts text htext).isFieldChar c hmem

variable {text : String}

theorem not_mem (htext : IsFieldText text) {c : Char} (hc : Cron.isFieldChar c = false) :
    c ∉ text.toList :=
  fun hmem => Bool.eq_false_iff.mp hc (htext.isFieldChar c hmem)

theorem isWord (htext : IsFieldText text) : IsWord text.toList := by
  refine ⟨htext.ne_nil, fun c hc => ?_⟩
  have hplain := htext.isFieldChar c hc
  simp only [Cron.isFieldChar, Bool.or_eq_true, decide_eq_true_eq] at hplain
  rcases hplain with (((hdigit | rfl) | rfl) | rfl) | rfl
  · simp only [Char.isDigit, Bool.and_eq_true, decide_eq_true_eq, UInt32.le_iff_toNat_le] at hdigit
    have hlow : 48 ≤ c.toNat := hdigit.1
    have hhigh : c.toNat ≤ 57 := hdigit.2
    have houtside : ∀ n ∈ whiteSpace, n < 48 ∨ 57 < n := by decide
    simp only [isWhiteSpace, List.contains_eq_mem, decide_eq_false_iff_not]
    intro hblank
    have := houtside _ hblank
    omega
  all_goals decide

/-- A written field is not a lone question mark. -/
theorem dayField_eq (htext : IsFieldText text) : dayField text.toList = text.toList :=
  if_neg fun hlone => htext.not_mem (c := '?') (by decide) (by rw [hlone]; exact List.mem_cons_self)

/-- No written field ends with a letter. -/
theorem dropFinal?_eq_none (htext : IsFieldText text) {final : Char}
    (hfinal : Cron.isFieldChar final = false) : dropFinal? final text.toList = none := by
  rw [dropFinal?]
  split
  · rename_i c before hreverse
    refine if_neg fun hc => htext.not_mem hfinal (List.mem_reverse.mp ?_)
    rw [hreverse, hc]
    exact List.mem_cons_self
  · rfl

end IsFieldText

section Line

variable {minute hour dayOfMonth weekday : String}

/-- A written line without a month is read by its other four fields. -/
theorem ofCron_line (hminute : IsFieldText minute) (hhour : IsFieldText hour)
    (hday : IsFieldText dayOfMonth) (hweekday : IsFieldText weekday) :
    Schedule.ofCron (line minute hour dayOfMonth "*" weekday) =
      (Fields.recurrence ⟨minute.toList, hour.toList, dayOfMonth.toList, weekday.toList,
        .exact⟩).map Schedule.ofRecurrence := by
  have hfields : ∀ text ∈ [minute, hour, dayOfMonth, "*", weekday], IsFieldText text := by
    simp only [List.forall_mem_cons]
    exact ⟨hminute, hhour, hday, .everything, hweekday, List.forall_mem_nil _⟩
  have hwords : ∀ text ∈ [minute, hour, dayOfMonth, "*", weekday], IsWord text.toList :=
    fun text htext => (hfields text htext).isWord
  have hshortcut : ¬ (line minute hour dayOfMonth "*" weekday).toList.head? = some '@' := by
    rw [line, head?_joined _ hminute.ne_nil]
    exact fun hhead => hminute.not_mem (by decide) (List.mem_of_head? hhead)
  have hseason : readSeason "*".toList = .ok [] := rfl
  rw [Schedule.ofCron, read, line, trimmed_joined hwords, ← line, if_neg hshortcut, line,
    words_joined hwords]
  simp only [List.map_cons, List.map_nil, hday.dayField_eq, hweekday.dayField_eq, hseason]
  cases Fields.recurrence _ <;> rfl

/-- Written fields are read by their slashes alone. -/
theorem recurrence_of_isFieldText (hday : IsFieldText dayOfMonth) (hweekday : IsFieldText weekday)
    {fields : Fields} (hdayField : fields.dayOfMonth = dayOfMonth.toList)
    (hweekdayField : fields.weekday = weekday.toList) :
    fields.recurrence = match splitFirst? '/' fields.minute with
      | some (range, step) => fields.minuteSteps range step
      | none => match splitFirst? '/' fields.hour with
        | some (range, step) =>
          if fields.minute = ['0'] ∨ fields.minute = ['0', '0'] then fields.hourSteps range step
          else fields.atOneTime
        | none => fields.atOneTime := by
  have hpositioned : fields.positioned? = .ok none := by
    rw [Fields.positioned?, hweekdayField, splitFirst?_eq_none (hweekday.not_mem (by decide)),
      hweekday.dropFinal?_eq_none (by decide)]
  have hlast : ¬ dayOfMonth.toList = ['L'] := fun heq =>
    hday.not_mem (c := 'L') (by decide) (heq ▸ List.mem_cons_self)
  have hlastBusiness : ¬ dayOfMonth.toList = ['L', 'W'] := fun heq =>
    hday.not_mem (c := 'L') (by decide) (heq ▸ List.mem_cons_self)
  have hspecial : fields.specialDay? = .ok none := by
    rw [Fields.specialDay?, hdayField, if_neg hlast, if_neg hlastBusiness,
      hday.dropFinal?_eq_none (by decide)]
    rfl
  rw [Fields.recurrence, hpositioned]
  show (do match ← fields.specialDay? with | _ => _) = _
  rw [hspecial]
  rfl

end Line

/-! ## Lists -/

theorem flatten_map_singleton {α : Type} (items : List α) :
    (items.map fun item => [item]).flatten = items := by
  rw [← List.flatMap_def]
  exact List.flatMap_singleton' items

/-! ### Weekdays -/

section Weekdays

variable {days others : List Weekday}

theorem sortedWeekdays_congr (hsame : ∀ day, day ∈ days ↔ day ∈ others) :
    sortedWeekdays days = sortedWeekdays others := by
  refine List.filter_congr fun day _ => ?_
  rw [Bool.eq_iff_iff, List.contains_iff_mem, List.contains_iff_mem, hsame]

theorem listedWeekdayField_congr (hsame : ∀ day, day ∈ days ↔ day ∈ others) :
    listedWeekdayField days = listedWeekdayField others := by
  have hnumbers : ∀ number, number ∈ days.map Weekday.cronNumber ↔
      number ∈ others.map Weekday.cronNumber := by
    simp only [List.mem_map, hsame, implies_true]
  simp only [listedWeekdayField, eraseReps_mergeSort_congr hnumbers]

/-- The field of a listed filter depends on the days alone, not on their order. -/
theorem weekdayField_listed_congr (hsame : ∀ day, day ∈ days ↔ day ∈ others) :
    weekdayField (.listed days) = weekdayField (.listed others) := by
  simp only [weekdayField, DayFilter.ofDays, sortedWeekdays_congr hsame,
    listedWeekdayField_congr hsame]
  split_ifs <;> rfl

/-- A filter is written alike whether or not its days are given a name. -/
theorem weekdayField_ofDays (days : List Weekday) :
    weekdayField (.ofDays days) = weekdayField (.listed days) := by
  by_cases hbusiness : sortedWeekdays days = Weekday.business
  · simp only [weekdayField, DayFilter.ofDays, hbusiness, if_true]
  · by_cases hweekend : sortedWeekdays days = [.saturday, .sunday]
    · simp only [weekdayField, DayFilter.ofDays, hweekend]
      rfl
    · simp only [DayFilter.ofDays, hweekend, hbusiness, if_false]

/-- A written list of weekdays is read as a list of the same weekdays. -/
theorem readDayFilter_listedWeekdayField (hne : days ≠ []) :
    ∃ others, (∀ day, day ∈ others ↔ day ∈ days) ∧
      readDayFilter (listedWeekdayField days).toList = .ok (.ofDays others) := by
  obtain ⟨numbers, hnumbers, hmem⟩ : ∃ numbers,
      ((days.map Weekday.cronNumber).mergeSort (· ≤ ·)).eraseReps = numbers ∧
        ∀ number, number ∈ numbers ↔ ∃ day ∈ days, day.cronNumber = number :=
    ⟨_, rfl, fun number => by rw [mem_eraseReps, List.mem_mergeSort, List.mem_map]⟩
  have hsome : numbers ≠ [] := by
    obtain ⟨day, hday⟩ := List.exists_mem_of_ne_nil days hne
    exact List.ne_nil_of_mem ((hmem _).mpr ⟨day, hday, rfl⟩)
  have hcut : splitAll ',' (listedWeekdayField days).toList =
      numbers.map fun number => (Nat.repr number).toList := by
    rw [listedWeekdayField, hnumbers, splitAll_joined rfl (by simpa using hsome), List.map_map]
    · rfl
    · intro text htext
      obtain ⟨number, _, rfl⟩ := List.mem_map.mp htext
      exact (Numeral.denotes_repr number).not_mem rfl
  have hrestricted : ¬ (listedWeekdayField days).toList = ['*'] := by
    intro hall
    have hmem : '*' ∈ (listedWeekdayField days).toList := hall ▸ List.mem_cons_self
    rcases of_mem_joined hmem with hcomma | ⟨text, htext, hmem⟩
    · exact absurd hcomma (by decide)
    · obtain ⟨number, _, rfl⟩ := List.mem_map.mp htext
      exact (Numeral.denotes_repr number).not_mem rfl hmem
  have hread : ∀ number ∈ numbers, readEntry .weekday readWeekdayNumber
      (Nat.repr number).toList = .ok [number] := by
    intro number hnumber
    obtain ⟨day, _, rfl⟩ := (hmem number).mp hnumber
    exact readEntry_repr .weekday (readWeekdayNumber_repr (by cases day <;> decide))
  refine ⟨(numbers.filterMap Weekday.ofCronNumber?).eraseDups, fun day => ?_, ?_⟩
  · rw [List.mem_eraseDups, List.mem_filterMap]
    constructor
    · rintro ⟨number, hnumber, hday⟩
      obtain ⟨listed, hlisted, rfl⟩ := (hmem number).mp hnumber
      rw [Weekday.ofCronNumber?_cronNumber] at hday
      exact Option.some.inj hday ▸ hlisted
    · intro hday
      exact ⟨day.cronNumber, (hmem _).mpr ⟨day, hday, rfl⟩, day.ofCronNumber?_cronNumber⟩
  · rw [readDayFilter, if_neg hrestricted, readList, hcut, mapM_map_eq_ok hread]
    show Except.ok (DayFilter.ofDays (((numbers.map fun number => [number]).flatten.filterMap
      Weekday.ofCronNumber?).eraseDups)) = _
    rw [flatten_map_singleton]

/-- A written filter is read as one that is written the same and lets the same weekdays
pass. -/
theorem readDayFilter_weekdayField {filter : DayFilter} (hwell : filter.WellFormed) :
    ∃ other, readDayFilter (weekdayField filter).toList = .ok other ∧
      weekdayField other = weekdayField filter ∧
      ∀ day, other.allows day = filter.allows day := by
  have hbusiness : readDayFilter "1-5".toList = .ok .business := by decide +kernel
  have hweekend : readDayFilter "0,6".toList = .ok .weekend := by decide +kernel
  cases filter with
  | every => exact ⟨.every, rfl, rfl, fun _ => rfl⟩
  | business => exact ⟨.business, hbusiness, rfl, fun _ => rfl⟩
  | weekend => exact ⟨.weekend, hweekend, rfl, fun _ => rfl⟩
  | listed days =>
    obtain ⟨others, hsame, hread⟩ := readDayFilter_listedWeekdayField hwell
    cases hkind : DayFilter.ofDays days with
    | business =>
      have hfield : weekdayField (.listed days) = "1-5" := by simp only [weekdayField, hkind]
      exact ⟨.business, hfield ▸ hbusiness, hfield.symm, hkind ▸ DayFilter.allows_ofDays days⟩
    | weekend =>
      have hfield : weekdayField (.listed days) = "0,6" := by simp only [weekdayField, hkind]
      exact ⟨.weekend, hfield ▸ hweekend, hfield.symm, hkind ▸ DayFilter.allows_ofDays days⟩
    | _ =>
      have hfield : weekdayField (.listed days) = listedWeekdayField days := by
        simp only [weekdayField, hkind]
      refine ⟨.ofDays others, hfield ▸ hread, ?_, fun day => ?_⟩
      · rw [weekdayField_ofDays, weekdayField_listed_congr hsame]
      · rw [Bool.eq_iff_iff, DayFilter.allows_ofDays_iff, hsame]
        exact List.contains_iff_mem.symm

theorem isFieldText_weekdayField {filter : DayFilter} (hwell : filter.WellFormed) :
    IsFieldText (weekdayField filter) := by
  have hbusiness : IsFieldText "1-5" := .of_all (by decide) rfl
  have hweekend : IsFieldText "0,6" := .of_all (by decide) rfl
  cases filter with
  | every => exact .everything
  | business => exact hbusiness
  | weekend => exact hweekend
  | listed days =>
    have hlisted : IsFieldText (listedWeekdayField days) := by
      refine .joined ?_ fun text htext => ?_
      · obtain ⟨day, hday⟩ := List.exists_mem_of_ne_nil days hwell
        refine List.ne_nil_of_mem (List.mem_map_of_mem (a := day.cronNumber) ?_)
        exact mem_eraseReps.mpr (List.mem_mergeSort.mpr (List.mem_map_of_mem hday))
      · obtain ⟨number, _, rfl⟩ := List.mem_map.mp htext
        exact .repr number
    simp only [weekdayField]
    split
    · exact hbusiness
    · exact hweekend
    · exact hlisted

end Weekdays

/-! ### Days of the month -/

section MonthDays

theorem isFieldText_monthDaysField (entry : MonthDays) : IsFieldText (monthDaysField entry) := by
  cases entry with
  | single day => exact .repr day
  | range start stop =>
    exact ((IsFieldText.repr start).append (.of_all (by decide) rfl)).append (.repr stop)

/-- An entry holds digits and at most a hyphen. -/
theorem not_mem_monthDaysField (entry : MonthDays) {c : Char} (hdigit : c.isDigit = false)
    (hhyphen : c ≠ '-') : c ∉ (monthDaysField entry).toList := by
  cases entry with
  | single day => exact (Numeral.denotes_repr day).not_mem hdigit
  | range start stop =>
    simp only [monthDaysField, String.toList_append, List.mem_append]
    rintro ((hmem | hmem) | hmem)
    · exact (Numeral.denotes_repr start).not_mem hdigit hmem
    · exact hhyphen (List.mem_singleton.mp hmem)
    · exact (Numeral.denotes_repr stop).not_mem hdigit hmem

/-- An entry is read back as it is. -/
theorem readMonthDays_monthDaysField {entry : MonthDays} (hwell : entry.WellFormed) :
    readMonthDays (monthDaysField entry).toList = .ok [entry] := by
  have hvalue : ∀ {day : Nat}, 1 ≤ day → day ≤ 31 →
      FieldKind.dayOfMonth.value (Nat.repr day).toList = .ok day := fun hlow hhigh =>
    FieldKind.value_repr hlow hhigh (Nat.le_trans hhigh (by decide))
  cases entry with
  | single day =>
    have hdigits := Numeral.denotes_repr day
    rw [monthDaysField, readMonthDays, splitFirst?_eq_none (hdigits.not_mem rfl), ite_self,
      readEntry_repr _ (hvalue hwell.1 hwell.2)]
    rfl
  | range start stop =>
    have htext : (monthDaysField (.range start stop)).toList =
        (Nat.repr start).toList ++ '-' :: (Nat.repr stop).toList := by
      rw [monthDaysField, String.toList_append, String.toList_append, List.append_assoc]
      rfl
    have hslash : (monthDaysField (.range start stop)).toList.contains '/' = false := by
      rw [List.contains_eq_mem, decide_eq_false_iff_not]
      exact not_mem_monthDaysField _ rfl (by decide)
    obtain ⟨hlow, hle, hhigh⟩ := hwell
    rw [readMonthDays, hslash, htext,
      splitFirst?_append_cons ((Numeral.denotes_repr start).not_mem rfl)]
    simp only [Bool.false_eq_true, if_false, readRange, hvalue hlow (Nat.le_trans hle hhigh),
      hvalue (Nat.le_trans hlow hle) hhigh, ordered, bind, Except.bind, hle, if_true]
    rfl

variable {entries : List MonthDays}

/-- A written list of days is read back as it is. -/
theorem readMonthTarget_joined (hne : entries ≠ [])
    (hwell : ∀ entry ∈ entries, entry.WellFormed) :
    readMonthTarget (joined "," (entries.map monthDaysField)).toList = .ok (.days entries) := by
  have hcut : splitAll ',' (joined "," (entries.map monthDaysField)).toList =
      entries.map fun entry => (monthDaysField entry).toList := by
    rw [splitAll_joined rfl (by simpa using hne), List.map_map]
    · rfl
    · intro text htext
      obtain ⟨entry, _, rfl⟩ := List.mem_map.mp htext
      exact not_mem_monthDaysField entry rfl (by decide)
  rw [readMonthTarget, hcut,
    mapM_map_eq_ok fun entry hentry => readMonthDays_monthDaysField (hwell entry hentry)]
  show Except.ok (MonthTarget.days (entries.map fun entry => [entry]).flatten) = _
  rw [flatten_map_singleton]

/-- A written list of days is not the asterisk that stands for all of them. -/
theorem monthDaysField_ne_everything :
    (joined "," (entries.map monthDaysField)).toList ≠ ['*'] := by
  intro hall
  have hmem : '*' ∈ (joined "," (entries.map monthDaysField)).toList := hall ▸ List.mem_cons_self
  rcases of_mem_joined hmem with hcomma | ⟨text, htext, hmem⟩
  · exact absurd hcomma (by decide)
  · obtain ⟨entry, _, rfl⟩ := List.mem_map.mp htext
    exact not_mem_monthDaysField entry rfl (by decide) hmem

end MonthDays

end Cadence.Cron
