import Cadence.Proofs.Calendar.Months
import Cadence.Proofs.Calendar.Weeks
import Cadence.Proofs.Cron.FieldMeaning

/-!
# What the fields are read as

Each of the five fields has a reader of its own.  The months become a season,
the weekdays a filter and the days of the month a target, and each of these lets
pass what the field lists.  The numbers read lie within the range of the field,
and every entry is read as at least one number, with one exception: weekdays
from 7 on are none, because 7 is a Sunday but the weekdays end with 6.
-/

namespace Cadence

theorem Month.number_eq_iff {month : Month} {number : Nat} :
    month.number = number ↔ Month.ofNumber? number = some month := by
  constructor
  · rintro rfl
    exact month.ofNumber?_number
  · intro hmonth
    unfold Month.ofNumber? at hmonth
    split at hmonth <;> cases hmonth <;> rfl

theorem Month.exists_number {number : Nat} (hlow : 1 ≤ number) (hhigh : number ≤ 12) :
    ∃ month : Month, month.number = number := by
  have hall : ∀ number ∈ List.range 13, 1 ≤ number → (Month.ofNumber? number).isSome := by decide
  obtain ⟨month, hmonth⟩ := Option.isSome_iff_exists.mp
    (hall number (List.mem_range.mpr (Nat.lt_succ_of_le hhigh)) hlow)
  exact ⟨month, Month.number_eq_iff.mpr hmonth⟩

namespace Cron

/-! ## Values -/

theorem FieldKind.value_eq_ok {kind : FieldKind} {word : List Char} {number : Nat}
    (hread : kind.value word = .ok number) :
    Numeral.read? Numeral.countLimit word = some number ∧
      kind.least ≤ number ∧ number ≤ kind.greatest := by
  rw [FieldKind.value] at hread
  split at hread
  · cases hread
  · rename_i found hfound
    split at hread
    · rename_i hrange
      obtain rfl := Except.ok.inj hread
      exact ⟨hfound, hrange⟩
    · cases hread

theorem FieldKind.reads_value (kind : FieldKind) :
    Reads kind.value kind (.plain kind.least kind.greatest) where
  least := rfl
  greatest := rfl
  value := fun hread => (FieldKind.value_eq_ok hread).1
  words := FieldSense.isBuiltFromWords_plain _ _

theorem reads_minute : Reads FieldKind.minute.value .minute .minute := FieldKind.minute.reads_value
theorem reads_hour : Reads FieldKind.hour.value .hour .hour := FieldKind.hour.reads_value
theorem reads_dayOfMonth : Reads FieldKind.dayOfMonth.value .dayOfMonth .dayOfMonth :=
  FieldKind.dayOfMonth.reads_value

theorem readMonth_bounds {word : List Char} {number : Nat} (hread : readMonth word = .ok number) :
    1 ≤ number ∧ number ≤ 12 := by
  rw [readMonth] at hread
  split at hread
  · rename_i month _
    obtain rfl := Except.ok.inj hread
    cases month <;> decide
  · exact (FieldKind.value_eq_ok hread).2

theorem reads_month : Reads readMonth .month .month where
  least := rfl
  greatest := rfl
  value := by
    intro word number hread
    simp only [readMonth, FieldSense.month] at *
    cases hname : Month.ofName? (String.ofList word) with
    | some month =>
      rw [hname] at hread
      exact congrArg some (Except.ok.inj hread)
    | none =>
      rw [hname] at hread
      exact (FieldKind.value_eq_ok hread).1
  words := FieldSense.isBuiltFromWords_month

theorem readWeekdayNumber_le {word : List Char} {number : Nat}
    (hread : readWeekdayNumber word = .ok number) : number ≤ 7 := by
  rw [readWeekdayNumber] at hread
  split at hread
  · split at hread
    · cases hread
      assumption
    · cases hread
  · split at hread
    · rename_i day _
      obtain rfl := Except.ok.inj hread
      cases day <;> decide
    · cases hread

theorem reads_weekday : Reads readWeekdayNumber .weekday .weekday where
  least := rfl
  greatest := rfl
  value := by
    intro word number hread
    simp only [readWeekdayNumber, FieldSense.weekday] at *
    cases hnumber : Numeral.read? Numeral.countLimit word with
    | some found =>
      rw [hnumber] at hread
      dsimp only at hread
      split at hread
      · exact congrArg some (Except.ok.inj hread)
      · cases hread
    | none =>
      rw [hnumber] at hread
      cases hname : Weekday.ofName? (String.ofList word) with
      | some day =>
        rw [hname] at hread
        exact congrArg some (Except.ok.inj hread)
      | none =>
        rw [hname] at hread
        cases hread
  words := FieldSense.isBuiltFromWords_weekday

/-! ## Ranges of the numbers read -/

section Bounds

variable {kind : FieldKind} {readOne : List Char → Except ReadError Nat} {greatest : Nat}

theorem stepped_eq_nil_iff {start stop step : Nat} :
    stepped start stop step = [] ↔ stop < start := by
  rw [stepped]
  split
  · exact iff_of_true rfl ‹_›
  · simp only [List.range'_eq_nil_iff, Nat.add_eq_zero_iff, one_ne_zero, and_false, false_iff]
    assumption

theorem mem_stepped_bounds {start stop step number : Nat} (hstep : 0 < step)
    (hmem : number ∈ stepped start stop step) : start ≤ number ∧ number ≤ stop := by
  obtain ⟨hlow, hhigh, _⟩ := (mem_stepped_iff hstep).mp hmem
  exact ⟨hlow, hhigh⟩

variable (hvalue : ∀ {word number}, readOne word = .ok number →
    kind.least ≤ number ∧ number ≤ greatest)
include hvalue

theorem readBounds_bounds (hgreatest : kind.greatest ≤ greatest) {text : List Char}
    {first final : Nat} (hread : readBounds kind readOne text = .ok (first, final)) :
    kind.least ≤ first ∧ final ≤ greatest := by
  rcases readBounds_eq_ok hread with ⟨_, rfl, rfl⟩ | ⟨start, stop, _, hrange⟩ | ⟨hfirst, rfl⟩
  · exact ⟨Nat.le_refl _, hgreatest⟩
  · obtain ⟨hfirst, hfinal, _⟩ := readRange_eq_ok_iff.mp hrange
    exact ⟨(hvalue hfirst).1, (hvalue hfinal).2⟩
  · exact ⟨(hvalue hfirst).1, hgreatest⟩

omit hvalue in
/-- What stands before a step ascends if no word lies beyond the range. -/
theorem readBounds_le (hrange : kind.least ≤ kind.greatest)
    (hvalue : ∀ {word number}, readOne word = .ok number → number ≤ kind.greatest)
    {text : List Char} {first final : Nat}
    (hread : readBounds kind readOne text = .ok (first, final)) : first ≤ final := by
  rcases readBounds_eq_ok hread with ⟨_, rfl, rfl⟩ | ⟨start, stop, _, hordered⟩ | ⟨hfirst, rfl⟩
  · exact hrange
  · exact (readRange_eq_ok_iff.mp hordered).2.2
  · exact hvalue hfirst

omit hvalue in
/-- What stands before a step in a field of plain numbers is a range of the field. -/
theorem readBounds_value (hrange : kind.least ≤ kind.greatest) {text : List Char}
    {first final : Nat} (hread : readBounds kind kind.value text = .ok (first, final)) :
    first ≤ final ∧ final ≤ kind.greatest := by
  have hvalue : ∀ {word number}, kind.value word = .ok number →
      kind.least ≤ number ∧ number ≤ kind.greatest := fun hword => (FieldKind.value_eq_ok hword).2
  exact ⟨readBounds_le hrange (fun hword => (hvalue hword).2) hread,
    (readBounds_bounds hvalue (Nat.le_refl _) hread).2⟩

/-- The numbers of an entry lie where its words do. -/
theorem readEntry_bounds (hgreatest : kind.greatest ≤ greatest) {entry : List Char}
    {numbers : List Nat} (hread : readEntry kind readOne entry = .ok numbers) {number : Nat}
    (hmem : number ∈ numbers) : kind.least ≤ number ∧ number ≤ greatest := by
  cases entryReads_of_readEntry hread with
  | value hword =>
    obtain rfl := List.mem_singleton.mp hmem
    exact hvalue hword
  | range hrange =>
    obtain ⟨hfirst, hfinal, _⟩ := readRange_eq_ok_iff.mp hrange
    obtain ⟨hlow, hhigh⟩ := mem_stepped_bounds Nat.one_pos hmem
    exact ⟨(hvalue hfirst).1.trans hlow, hhigh.trans (hvalue hfinal).2⟩
  | step hbounds hstep =>
    obtain ⟨hfirst, hfinal⟩ := readBounds_bounds hvalue hgreatest hbounds
    obtain ⟨hlow, hhigh⟩ := mem_stepped_bounds (readStep_eq_ok hstep).2 hmem
    exact ⟨hfirst.trans hlow, hhigh.trans hfinal⟩

theorem readList_bounds (hgreatest : kind.greatest ≤ greatest) {field : List Char}
    {numbers : List Nat} (hread : readList kind readOne field = .ok numbers) {number : Nat}
    (hmem : number ∈ numbers) : kind.least ≤ number ∧ number ≤ greatest := by
  obtain ⟨entries, hentries, hnumbers⟩ := bind_eq_ok_iff.mp hread
  obtain rfl := Except.ok.inj hnumbers
  obtain ⟨found, hfound, hmem⟩ := List.mem_flatten.mp hmem
  obtain ⟨entry, _, hentry⟩ := exists_item_of_mapM hentries hfound
  exact readEntry_bounds hvalue hgreatest hentry hmem

end Bounds

/-! ## Empty lists -/

section Empty

variable {kind : FieldKind} {sense : FieldSense} {readOne : List Char → Except ReadError Nat}

/-- An entry that steps on from a value beyond the range of its field. -/
def StepsBeyond (kind : FieldKind) (readOne : List Char → Except ReadError Nat)
    (entry : List Char) : Prop :=
  ∃ start step first, entry = start ++ '/' :: step ∧ readOne start = .ok first ∧
    kind.greatest < first

variable (hreads : Reads readOne kind sense) (hrange : kind.least ≤ kind.greatest)
include hreads hrange

/-- An entry is read as no number only if it steps on from beyond the range. -/
theorem readEntry_eq_nil_iff {entry : List Char} {numbers : List Nat}
    (hread : readEntry kind readOne entry = .ok numbers) :
    numbers = [] ↔ StepsBeyond kind readOne entry := by
  constructor
  · intro hnil
    cases entryReads_of_readEntry hread with
    | value => cases hnil
    | range hordered =>
      obtain ⟨_, _, hle⟩ := readRange_eq_ok_iff.mp hordered
      exact absurd (stepped_eq_nil_iff.mp hnil) (Nat.not_lt_of_le hle)
    | step hbounds =>
      have hlt := stepped_eq_nil_iff.mp hnil
      rcases readBounds_eq_ok hbounds with ⟨_, rfl, rfl⟩ | ⟨_, _, _, hordered⟩ | ⟨hfirst, rfl⟩
      · exact absurd hlt (Nat.not_lt_of_le hrange)
      · obtain ⟨_, _, hle⟩ := readRange_eq_ok_iff.mp hordered
        exact absurd hlt (Nat.not_lt_of_le hle)
      · exact ⟨_, _, _, rfl, hfirst, hlt⟩
  · rintro ⟨start, step, first, rfl, hfirst, hbeyond⟩
    have hslash : '/' ∉ start := hreads.not_mem (hreads.value hfirst) (by decide)
    rw [readEntry, splitFirst?_append_cons hslash] at hread
    obtain ⟨interval, _, hread⟩ := bind_eq_ok_iff.mp hread
    obtain ⟨⟨first', final⟩, hbounds, hread⟩ := bind_eq_ok_iff.mp hread
    obtain ⟨_, _, hnumbers⟩ := bind_eq_ok_iff.mp hread
    obtain ⟨rfl, rfl⟩ := (hreads.spansFrom_iff hbounds).mp (.onward (hreads.value hfirst))
    obtain rfl := Except.ok.inj hnumbers
    exact stepped_eq_nil_iff.mpr (hreads.greatest ▸ hbeyond)

theorem readList_eq_nil_iff {field : List Char} {numbers : List Nat}
    (hread : readList kind readOne field = .ok numbers) :
    numbers = [] ↔ ∀ entry ∈ splitAll ',' field, StepsBeyond kind readOne entry := by
  obtain ⟨entries, hentries, hnumbers⟩ := bind_eq_ok_iff.mp hread
  obtain rfl := Except.ok.inj hnumbers
  rw [List.flatten_eq_nil_iff]
  constructor
  · intro hnil entry hentry
    obtain ⟨found, hfound, hread⟩ := exists_result_of_mapM hentries hentry
    exact (readEntry_eq_nil_iff hreads hrange hread).mp (hnil found hfound)
  · intro hbeyond found hfound
    obtain ⟨entry, hentry, hread⟩ := exists_item_of_mapM hentries hfound
    exact (readEntry_eq_nil_iff hreads hrange hread).mpr (hbeyond entry hentry)

/-- Where words stay within the range of the field, every list holds a number. -/
theorem readList_ne_nil (hvalue : ∀ {word number}, readOne word = .ok number →
    kind.least ≤ number ∧ number ≤ kind.greatest) {field : List Char} {numbers : List Nat}
    (hread : readList kind readOne field = .ok numbers) : numbers ≠ [] := by
  rw [ne_eq, readList_eq_nil_iff hreads hrange hread]
  intro hbeyond
  obtain ⟨entry, hentry⟩ := List.exists_mem_of_ne_nil _ (splitAll_ne_nil ',' field)
  obtain ⟨_, _, first, _, hfirst, hgreater⟩ := hbeyond entry hentry
  exact Nat.not_le_of_lt hgreater (hvalue hfirst).2

end Empty

/-! ## Months -/

/-- The season of a month field are the months it lists. -/
theorem inSeason_iff_of_readSeason {field : List Char} {season : List Month}
    (hread : readSeason field = .ok season) (date : Date) :
    inSeason season date = true ↔ FieldLists .month field date.month := by
  rw [readSeason] at hread
  split at hread
  · rename_i hall
    obtain rfl := Except.ok.inj hread
    exact iff_of_true rfl (.inl hall)
  · rename_i hstar
    obtain ⟨numbers, hnumbers, hseason⟩ := bind_eq_ok_iff.mp hread
    obtain rfl := Except.ok.inj hseason
    have hmem : ∀ {month : Month}, month ∈ (numbers.filterMap Month.ofNumber?).eraseDups ↔
        month.number ∈ numbers := by
      intro month
      simp only [List.mem_eraseDups, List.mem_filterMap, ← Month.number_eq_iff, exists_eq_right']
    have hsome := readList_ne_nil reads_month (by decide) readMonth_bounds hnumbers
    rw [FieldLists, or_iff_right hstar, ← reads_month.mem_readList_iff hnumbers, inSeason,
      Bool.or_eq_true, List.isEmpty_iff, List.any_eq_true]
    constructor
    · rintro (hempty | ⟨month, hmonth, hsame⟩)
      · obtain ⟨number, hnumber⟩ := List.exists_mem_of_ne_nil _ hsome
        obtain ⟨hlow, hhigh⟩ := readList_bounds readMonth_bounds (Nat.le_refl _) hnumbers hnumber
        obtain ⟨month, rfl⟩ := Month.exists_number hlow hhigh
        exact absurd (hmem.mpr hnumber) (hempty ▸ List.not_mem_nil)
      · rw [← of_decide_eq_true hsame]
        exact hmem.mp hmonth
    · intro hlisted
      obtain ⟨month, hmonth⟩ := Month.exists_number date.month_bounds.1 date.month_bounds.2
      exact .inr ⟨month, hmem.mpr (hmonth ▸ hlisted), decide_eq_true hmonth⟩

/-! ## Weekdays -/

theorem exists_number_of_readWeekday {word : List Char} {day : Weekday}
    (hread : readWeekday word = .ok day) :
    ∃ number, FieldSense.weekday.number? word = some number ∧
      Weekday.ofCronNumber? number = some day := by
  obtain ⟨number, hnumber, hday⟩ := bind_eq_ok_iff.mp hread
  refine ⟨number, reads_weekday.value hnumber, ?_⟩
  split at hday
  · rename_i found hfound
    rw [hfound, Except.ok.inj hday]
  · cases hday

/-- The filter of a weekday field lets the weekdays pass that it lists. -/
theorem allows_iff_of_readDayFilter {field : List Char} {filter : DayFilter}
    (hread : readDayFilter field = .ok filter) {day : Weekday} :
    filter.allows day = true ↔
      ∃ number, FieldLists .weekday field number ∧ Weekday.ofCronNumber? number = some day := by
  rw [readDayFilter] at hread
  split at hread
  · rename_i hall
    obtain rfl := Except.ok.inj hread
    exact iff_of_true rfl ⟨day.cronNumber, .inl hall, day.ofCronNumber?_cronNumber⟩
  · rename_i hstar
    obtain ⟨numbers, hnumbers, hfilter⟩ := bind_eq_ok_iff.mp hread
    obtain rfl := Except.ok.inj hfilter
    simp only [DayFilter.allows_ofDays_iff, List.mem_eraseDups, List.mem_filterMap, FieldLists,
      or_iff_right hstar, reads_weekday.mem_readList_iff hnumbers]

/-! ## Days of the month -/

/-- A range without a step is read number by number. -/
theorem readEntry_of_range {kind : FieldKind} {readOne : List Char → Except ReadError Nat}
    {entry start stop : List Char} {first final : Nat} (hslash : '/' ∉ entry)
    (hsplit : splitFirst? '-' entry = some (start, stop))
    (hrange : readRange readOne start stop = .ok (first, final)) :
    readEntry kind readOne entry = .ok (stepped first final 1) := by
  rw [readEntry, splitFirst?_eq_none hslash, hsplit]
  simp only [hrange]
  rfl

/-- An entry of the days of the month is read as its days, ranges as ranges. -/
theorem readEntry_of_readMonthDays {entry : List Char} {days : List MonthDays}
    (hread : readMonthDays entry = .ok days) :
    readEntry .dayOfMonth FieldKind.dayOfMonth.value entry =
      .ok (days.flatMap MonthDays.days) := by
  rw [readMonthDays] at hread
  split at hread
  · rename_i start stop hsplit
    obtain ⟨hslash, hsplit⟩ := Option.ite_none_left_eq_some.mp hsplit
    obtain ⟨⟨first, final⟩, hrange, hdays⟩ := bind_eq_ok_iff.mp hread
    obtain rfl := Except.ok.inj hdays
    obtain ⟨_, _, hle⟩ := readRange_eq_ok_iff.mp hrange
    have hslash : '/' ∉ entry := fun hmem => hslash (List.contains_iff_mem.mpr hmem)
    rw [readEntry_of_range hslash hsplit hrange, stepped, if_neg (Nat.not_lt_of_le hle),
      Nat.div_one, List.flatMap_singleton, MonthDays.days, Nat.sub_add_comm hle]
  · obtain ⟨numbers, hnumbers, hdays⟩ := bind_eq_ok_iff.mp hread
    obtain rfl := Except.ok.inj hdays
    rw [hnumbers, List.flatMap_map]
    exact congrArg Except.ok (List.flatMap_singleton' numbers).symm

/-- The target of a day field are the days it lists. -/
theorem readList_of_readMonthTarget {field : List Char} {target : MonthTarget}
    (hread : readMonthTarget field = .ok target) :
    ∃ entries, target = .days entries ∧
      readList .dayOfMonth FieldKind.dayOfMonth.value field =
        .ok (entries.flatMap MonthDays.days) := by
  obtain ⟨entries, hentries, htarget⟩ := bind_eq_ok_iff.mp hread
  refine ⟨entries.flatten, (Except.ok.inj htarget).symm, bind_eq_ok_iff.mpr
    ⟨entries.map fun days => days.flatMap MonthDays.days, ?_, ?_⟩⟩
  · rw [mapM_eq_ok_iff, List.forall₂_map_right_iff]
    exact (mapM_eq_ok_iff.mp hentries).imp fun _ _ => readEntry_of_readMonthDays
  · refine congrArg Except.ok ?_
    rw [← List.flatMap_def, ← List.flatMap_id, List.flatMap_assoc]
    rfl

/-! ## Steps and hours -/

section Steps

variable {kind : FieldKind} {sense : FieldSense} {readOne : List Char → Except ReadError Nat}

/-- A field that is one step lists every so many numbers of its range. -/
theorem fieldLists_step_iff (hreads : Reads readOne kind sense) {range step : List Char}
    {first final interval number : Nat} (hstep : readStep step = .ok interval)
    (hbounds : readBounds kind readOne range = .ok (first, final)) :
    FieldLists sense (range ++ '/' :: step) number ↔
      first ≤ number ∧ number ≤ final ∧ interval ∣ number - first := by
  have hspans : SpansFrom sense range first final := (hreads.spansFrom_iff hbounds).mpr ⟨rfl, rfl⟩
  have hnumeral := (readStep_eq_ok hstep).1
  have hslash : '/' ∉ range := hspans.not_mem (hreads.words '/' (by decide)) (by decide)
  have hcomma : ',' ∉ range ++ '/' :: step := by
    rw [List.mem_append, List.mem_cons]
    rintro (hmem | hsame | hmem)
    · exact hspans.not_mem (hreads.words ',' (by decide)) (by decide) hmem
    · exact absurd hsame (by decide)
    · exact Numeral.not_mem_of_read? hnumeral rfl (by decide) hmem
  have hstar : range ++ '/' :: step ≠ ['*'] := fun hall => by
    have hmem : '/' ∈ ['*'] := hall ▸ List.mem_append_right _ List.mem_cons_self
    exact absurd hmem (by decide)
  have hread : readEntry kind readOne (range ++ '/' :: step) =
      .ok (stepped first final interval) := by
    rw [readEntry, splitFirst?_append_cons hslash]
    simp only [hstep, hbounds, divisor_of_readStep hstep, bind, Except.bind]
    rfl
  rw [hreads.fieldLists_iff_of_readEntry hread hcomma hstar,
    mem_stepped_iff (readStep_eq_ok hstep).2]

/-- The hours of a minute step are one range. -/
theorem fieldLists_iff_of_hourWindow {fields : Fields} {start stop : Nat}
    (hread : fields.hourWindow = .ok (start, stop)) :
    (start ≤ stop ∧ stop ≤ 23) ∧ ∀ {hour}, hour ≤ 23 →
      (FieldLists .hour fields.hour hour ↔ start ≤ hour ∧ hour ≤ stop) := by
  rw [Fields.hourWindow] at hread
  split at hread
  · cases hread
  · rename_i hslash
    split at hread
    · rename_i hsplit
      obtain ⟨hfirst, hfinal, hle⟩ := readRange_eq_ok_iff.mp hread
      refine ⟨⟨hle, (FieldKind.value_eq_ok hfinal).2.2⟩, fun _ => ?_⟩
      have hspans : SpansFrom .hour fields.hour start stop := by
        rw [(eq_append_of_splitFirst? hsplit).1]
        exact .range (reads_hour.value hfirst) (reads_hour.value hfinal)
      have hcomma : ',' ∉ fields.hour :=
        hspans.not_mem (reads_hour.words ',' (by decide)) (by decide)
      have hstar : fields.hour ≠ ['*'] := fun hall => by
        rw [hall] at hsplit
        cases hsplit
      have hslash : '/' ∉ fields.hour := fun hmem => hslash (List.contains_iff_mem.mpr hmem)
      rw [reads_hour.fieldLists_iff_of_readEntry (readEntry_of_range hslash hsplit hread) hcomma
        hstar, mem_stepped_iff Nat.one_pos]
      simp only [Nat.one_dvd, and_true]
    · split at hread
      · rename_i hall
        cases hread
        exact ⟨by decide, fun hhour => iff_of_true (.inl hall) ⟨Nat.zero_le _, hhour⟩⟩
      · obtain ⟨hour, hvalue, hpair⟩ := bind_eq_ok_iff.mp hread
        cases hpair
        refine ⟨⟨Nat.le_refl _, (FieldKind.value_eq_ok hvalue).2.2⟩, fun _ => ?_⟩
        rw [reads_hour.fieldLists_word_iff hvalue]
        omega

end Steps

end Cron

end Cadence
