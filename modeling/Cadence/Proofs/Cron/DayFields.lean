import Mathlib.Tactic.MkIffOfInductiveProp
import Cadence.Proofs.Calendar.MonthPositions
import Cadence.Proofs.Cron.ReadRecurrences
import Cadence.Proofs.Occurrence.Offers

/-!
# The dates the day fields allow

Besides lists the two day fields have a few forms of their own: the last day or
last working day of the month, the working day nearest to a day, and a ranked or
last weekday of the month.  The dates that a recurrence read from them selects
are the dates both fields allow.
-/

namespace Cadence.Cron

/-! ## Meaning -/

/-- The dates a field for the day of the month allows. -/
@[mk_iff]
inductive MonthDayAllows : List Char → Date → Prop
  | everyDay {date : Date} : MonthDayAllows ['?'] date
  | listed {field : List Char} {date : Date} (hlists : FieldLists .dayOfMonth field date.day) :
    MonthDayAllows field date
  | lastDay {date : Date} (hlast : date.day = (YearMonth.ofDate date).lastDay) :
    MonthDayAllows ['L'] date
  | lastBusinessDay {date : Date} (hworking : date.isWeekend = false)
      (hlatest : ∀ other : Date, YearMonth.ofDate other = YearMonth.ofDate date →
        other.isWeekend = false → other ≤ date) :
    MonthDayAllows ['L', 'W'] date
  | nearestBusinessDay {word : List Char} {day : Nat} {date : Date}
      (hword : FieldSense.dayOfMonth.number? word = some day)
      (hday : 1 ≤ day ∧ day ≤ (YearMonth.ofDate date).lastDay)
      (hnearest : (YearMonth.ofDate date).IsNearestBusinessDay day date) :
    MonthDayAllows (word ++ ['W']) date

/-- The dates a weekday field allows. -/
@[mk_iff]
inductive WeekdayAllows : List Char → Date → Prop
  | everyDay {date : Date} : WeekdayAllows ['?'] date
  | listed {field : List Char} {number : Nat} {date : Date}
      (hlists : FieldLists .weekday field number)
      (hweekday : Weekday.ofCronNumber? number = some date.weekday) :
    WeekdayAllows field date
  | ranked {word numeral : List Char} {number rank : Nat} {date : Date}
      (hword : FieldSense.weekday.number? word = some number)
      (hweekday : Weekday.ofCronNumber? number = some date.weekday)
      (hnumeral : Numeral.read? Numeral.countLimit numeral = some rank)
      (hrank : (date.day - 1) / 7 + 1 = rank) :
    WeekdayAllows (word ++ '#' :: numeral) date
  | last {word : List Char} {number : Nat} {date : Date}
      (hword : FieldSense.weekday.number? word = some number)
      (hweekday : Weekday.ofCronNumber? number = some date.weekday)
      (hlast : (YearMonth.ofDate date).lastDay < date.day + 7) :
    WeekdayAllows (word ++ ['L']) date

section Forms

variable {field : List Char} {date : Date}

/-- An asterisk in place of a question mark allows the same dates. -/
theorem monthDayAllows_dayField_iff : MonthDayAllows (dayField field) date ↔
    MonthDayAllows field date := by
  rw [dayField]
  split
  · rename_i hfield
    exact iff_of_true (.listed (.inl rfl)) (hfield ▸ .everyDay)
  · rfl

theorem weekdayAllows_dayField_iff : WeekdayAllows (dayField field) date ↔
    WeekdayAllows field date := by
  rw [dayField]
  split
  · rename_i hfield
    exact iff_of_true
      (.listed (.inl rfl) date.weekday.ofCronNumber?_cronNumber) (hfield ▸ .everyDay)
  · rfl

theorem monthDayAllows_everything : MonthDayAllows ['*'] date := .listed (.inl rfl)

theorem weekdayAllows_everything : WeekdayAllows ['*'] date :=
  .listed (.inl rfl) date.weekday.ofCronNumber?_cronNumber

/-! ## Lists -/

/-- A field without the characters of the other forms allows the days it lists. -/
theorem monthDayAllows_iff_of_plain (hplain : ∀ c ∈ ['?', 'L', 'W'], c ∉ field) :
    MonthDayAllows field date ↔ FieldLists .dayOfMonth field date.day := by
  constructor
  · intro hallows
    cases hallows with
    | everyDay => exact absurd List.mem_cons_self (hplain '?' (by decide))
    | listed hlists => exact hlists
    | lastDay => exact absurd List.mem_cons_self (hplain 'L' (by decide))
    | lastBusinessDay => exact absurd List.mem_cons_self (hplain 'L' (by decide))
    | nearestBusinessDay =>
      exact absurd (List.mem_append_right _ List.mem_cons_self) (hplain 'W' (by decide))
  · exact .listed

/-- A field without the characters of the other forms allows the weekdays it lists. -/
theorem weekdayAllows_iff_of_plain (hplain : ∀ c ∈ ['?', '#', 'L'], c ∉ field) :
    WeekdayAllows field date ↔ ∃ number, FieldLists .weekday field number ∧
      Weekday.ofCronNumber? number = some date.weekday := by
  constructor
  · intro hallows
    cases hallows with
    | everyDay => exact absurd List.mem_cons_self (hplain '?' (by decide))
    | listed hlists hweekday => exact ⟨_, hlists, hweekday⟩
    | ranked =>
      exact absurd (List.mem_append_right _ List.mem_cons_self) (hplain '#' (by decide))
    | last => exact absurd (List.mem_append_right _ List.mem_cons_self) (hplain 'L' (by decide))
  · rintro ⟨number, hlists, hweekday⟩
    exact .listed hlists hweekday

/-- A target that is read as a list of days picks the days the field allows. -/
theorem monthDayAllows_iff_of_readMonthTarget {target : MonthTarget}
    (hread : readMonthTarget field = .ok target) (hrestricted : field ≠ ['*'])
    (hsupported : date.IsSupported) :
    MonthDayAllows field date ↔ date ∈ target.datesIn (YearMonth.ofDate date) := by
  obtain ⟨entries, rfl, hlist⟩ := readList_of_readMonthTarget hread
  have hplain : ∀ c ∈ ['?', 'L', 'W'], c ∉ field := by
    have hlacks : ∀ c : Char, c.isDigit = false → c ∉ ['*', '-', '/', '+', ','] → c ∉ field := by
      intro c hdigit hbuilt
      simp only [List.mem_cons, List.not_mem_nil, or_false, not_or] at hbuilt
      obtain ⟨hstar, hhyphen, hslash, hplus, hcomma⟩ := hbuilt
      exact reads_dayOfMonth.not_mem_of_readList hlist (FieldSense.wordsLack_plain hdigit hplus)
        (by simp [hstar, hhyphen, hslash, hplus]) hdigit hcomma
    simp only [List.forall_mem_cons]
    exact ⟨hlacks _ rfl (by decide), hlacks _ rfl (by decide), hlacks _ rfl (by decide),
      List.forall_mem_nil _⟩
  rw [monthDayAllows_iff_of_plain hplain, FieldLists, or_iff_right hrestricted,
    ← reads_dayOfMonth.mem_readList_iff hlist]
  simp only [MonthTarget.datesIn, MonthTarget.listedDays, List.mem_filterMap, mem_eraseReps,
    List.mem_mergeSort, YearMonth.date?_eq_some_iff, hsupported, true_and, exists_eq_right']

/-- A filter that is read as a list of weekdays lets the days pass that the field
allows. -/
theorem weekdayAllows_iff_of_readDayFilter {filter : DayFilter}
    (hread : readDayFilter field = .ok filter) :
    WeekdayAllows field date ↔ filter.allows date.weekday = true := by
  have hplain : ∀ c ∈ ['?', '#', 'L'], c ∉ field := by
    simp only [List.forall_mem_cons]
    rw [readDayFilter] at hread
    split at hread
    · rename_i hall
      rw [hall]
      exact ⟨by decide, by decide, by decide, List.forall_mem_nil _⟩
    · obtain ⟨numbers, hlist, _⟩ := bind_eq_ok_iff.mp hread
      refine ⟨?_, ?_, ?_, List.forall_mem_nil _⟩ <;>
        exact reads_weekday.not_mem_of_readList hlist
          (FieldSense.wordsLack_weekday rfl (by decide) (by decide)) (by decide) rfl (by decide)
  rw [weekdayAllows_iff_of_plain hplain, allows_iff_of_readDayFilter hread]

theorem weekdayAllows_iff_of_windowDays {days : Option DayFilter} (hdays : WindowDays field days) :
    WeekdayAllows field date ↔ ∀ filter ∈ days, filter.allows date.weekday = true := by
  cases hdays with
  | every => exact iff_of_true weekdayAllows_everything nofun
  | filtered hfilter =>
    simp only [weekdayAllows_iff_of_readDayFilter hfilter, Option.mem_some_iff, forall_eq']

/-! ## Days that depend on their month -/

/-- A field that ends in a letter no list holds lists nothing. -/
theorem not_fieldLists_concat {sense : FieldSense} {word : List Char} {final : Char}
    {number : Nat} (hcomma : ',' ∉ word) (hwords : sense.WordsLack final)
    (hbuilt : final ∉ ['*', '-', '/', '+', ',']) (hdigit : final.isDigit = false) :
    ¬ FieldLists sense (word ++ [final]) number := by
  have hseparator : ',' ∉ word ++ [final] := by
    rw [List.mem_append, List.mem_singleton]
    rintro (hmem | rfl)
    · exact hcomma hmem
    · exact hbuilt (by decide)
  intro hlists
  refine hlists.not_mem hseparator hwords (fun hmem => hbuilt ?_) hdigit
    (List.mem_append_right _ List.mem_cons_self)
  exact List.mem_append_left [','] hmem

/-- A day of the month is not written with an L. -/
theorem not_mem_of_dayOfMonth {word : List Char} {number : Nat}
    (hword : FieldSense.dayOfMonth.number? word = some number) : 'L' ∉ word :=
  FieldSense.wordsLack_plain rfl (by decide) _ _ hword

section Special

variable (hsupported : date.IsSupported)
include hsupported

theorem monthDayAllows_lastDay_iff :
    MonthDayAllows ['L'] date ↔ (YearMonth.ofDate date).lastDate? = some date := by
  have hlists : ¬ FieldLists .dayOfMonth ([] ++ ['L']) date.day :=
    not_fieldLists_concat List.not_mem_nil (FieldSense.wordsLack_plain rfl (by decide))
      (by decide) rfl
  rw [monthDayAllows_iff, YearMonth.lastDate?_eq_some_iff]
  simp only [hsupported, true_and]
  constructor
  · rintro (hfield | hlisted | ⟨hlast, -⟩ | ⟨-, -, hfield⟩ | ⟨word, -, -, -, -, hfield⟩)
    · cases hfield
    · exact absurd hlisted hlists
    · exact hlast
    · cases hfield
    · simp [List.cons_eq_append_iff] at hfield
  · exact fun hlast => .inr (.inr (.inl ⟨hlast, trivial⟩))

theorem monthDayAllows_lastBusinessDay_iff :
    MonthDayAllows ['L', 'W'] date ↔ (YearMonth.ofDate date).lastBusinessDate? = some date := by
  have hlists : ¬ FieldLists .dayOfMonth (['L'] ++ ['W']) date.day :=
    not_fieldLists_concat (by decide) (FieldSense.wordsLack_plain rfl (by decide)) (by decide) rfl
  rw [monthDayAllows_iff, YearMonth.lastBusinessDate?_eq_some_iff]
  simp only [hsupported, true_and]
  constructor
  · rintro (hfield | hlisted | ⟨-, hfield⟩ | ⟨hworking, hlatest, -⟩ |
      ⟨word, day, hword, -, -, hfield⟩)
    · cases hfield
    · exact absurd hlisted hlists
    · cases hfield
    · exact ⟨hworking, hlatest⟩
    · obtain rfl : ['L'] = word := List.append_cancel_right hfield
      exact absurd List.mem_cons_self (not_mem_of_dayOfMonth hword)
  · rintro ⟨hworking, hlatest⟩
    exact .inr (.inr (.inr (.inl ⟨hworking, hlatest, trivial⟩)))

theorem monthDayAllows_nearestBusinessDay_iff {word : List Char} {day : Nat}
    (hday : FieldKind.dayOfMonth.value word = .ok day) :
    MonthDayAllows (word ++ ['W']) date ↔
      (YearMonth.ofDate date).nearestBusinessDate? day none = some date := by
  have hword := reads_dayOfMonth.value hday
  have hlists : ¬ FieldLists .dayOfMonth (word ++ ['W']) date.day :=
    not_fieldLists_concat (reads_dayOfMonth.not_mem hword (by decide))
      (FieldSense.wordsLack_plain rfl (by decide)) (by decide) rfl
  have hmark : 'W' ∈ word ++ ['W'] := List.mem_append_right word List.mem_cons_self
  rw [monthDayAllows_iff, YearMonth.nearestBusinessDate?_eq_some_iff]
  simp only [hsupported, true_and]
  constructor
  · rintro (hfield | hlisted | ⟨-, hfield⟩ | ⟨-, -, hfield⟩ |
      ⟨other, number, hother, hbounds, hnearest, hfield⟩)
    · exact absurd (hfield ▸ hmark) (by decide : 'W' ∉ ['?'])
    · exact absurd hlisted hlists
    · exact absurd (hfield ▸ hmark) (by decide : 'W' ∉ ['L'])
    · obtain rfl : word = ['L'] := List.append_cancel_right hfield
      exact absurd List.mem_cons_self (not_mem_of_dayOfMonth hword)
    · obtain rfl := List.append_cancel_right hfield
      obtain rfl := Option.some.inj (hword.symm.trans hother)
      exact ⟨hbounds, hnearest⟩
  · rintro ⟨hbounds, hnearest⟩
    exact .inr (.inr (.inr (.inr ⟨word, day, hword, hbounds, hnearest, rfl⟩)))

/-- A special day field allows the dates that its target picks. -/
theorem SpecialDay.allows_iff {target : MonthTarget} (hspecial : SpecialDay field target) :
    MonthDayAllows field date ↔ date ∈ target.datesIn (YearMonth.ofDate date) := by
  cases hspecial with
  | lastDay => rw [monthDayAllows_lastDay_iff hsupported, MonthTarget.datesIn, Option.mem_toList]
  | lastBusinessDay =>
    rw [monthDayAllows_lastBusinessDay_iff hsupported, MonthTarget.datesIn, Option.mem_toList]
  | nearestBusinessDay hday =>
    rw [monthDayAllows_nearestBusinessDay_iff hsupported hday, MonthTarget.datesIn,
      Option.mem_toList]

end Special

/-! ## Weekdays by position -/

theorem rank?_eq_of_ofRank? {rank : Nat} {position : Position}
    (hrank : Position.ofRank? rank = some position) : position.rank? = some rank := by
  unfold Position.ofRank? at hrank
  split at hrank <;> cases hrank <;> rfl

theorem rank?_of_readRank {numeral : List Char} {position : Position}
    (hread : Fields.readRank numeral = .ok position) : ∃ rank,
      Numeral.read? Numeral.countLimit numeral = some rank ∧ position.rank? = some rank := by
  rw [Fields.readRank] at hread
  split at hread
  · cases hread
  · rename_i rank hrank
    split at hread
    · rename_i found hfound
      obtain rfl := Except.ok.inj hread
      exact ⟨rank, hrank, rank?_eq_of_ofRank? hfound⟩
    · cases hread

/-- No word for a weekday holds a mark of its position. -/
theorem not_mem_weekday_word {word : List Char} {number : Nat} {c : Char}
    (hword : FieldSense.weekday.number? word = some number) (hc : c ∈ ['#', 'L', ',']) :
    c ∉ word := by
  have hall : ∀ c ∈ ['#', 'L', ','], FieldSense.weekday.WordsLack c := by
    simp only [List.forall_mem_cons]
    refine ⟨?_, ?_, ?_, List.forall_mem_nil _⟩ <;>
      exact FieldSense.wordsLack_weekday rfl (by decide) (by decide)
  exact hall c hc word number hword

theorem weekdayAllows_ranked_iff {word numeral : List Char} {weekday : Weekday}
    {position : Position} (hday : readWeekday word = .ok weekday)
    (hread : Fields.readRank numeral = .ok position) (hsupported : date.IsSupported) :
    WeekdayAllows (word ++ '#' :: numeral) date ↔
      (YearMonth.ofDate date).positionedWeekday? position weekday = some date := by
  obtain ⟨number, hword, hweekday⟩ := exists_number_of_readWeekday hday
  obtain ⟨rank, hnumeral, hrank⟩ := rank?_of_readRank hread
  have hlacks : ∀ c ∈ [',', 'L'], c ∉ word ++ '#' :: numeral := by
    have hplain : ∀ {c : Char}, c ∈ ['#', 'L', ','] → c ≠ '#' → c.isDigit = false → c ≠ '+' →
        c ∉ word ++ '#' :: numeral := by
      intro c hc hmark hdigit hplus
      rw [List.mem_append, List.mem_cons]
      rintro (hmem | hsame | hmem)
      · exact not_mem_weekday_word hword hc hmem
      · exact hmark hsame
      · exact Numeral.not_mem_of_read? hnumeral hdigit hplus hmem
    simp only [List.forall_mem_cons]
    exact ⟨hplain (by decide) (by decide) rfl (by decide),
      hplain (by decide) (by decide) rfl (by decide), List.forall_mem_nil _⟩
  have hmark : '#' ∈ word ++ '#' :: numeral := List.mem_append_right _ List.mem_cons_self
  simp only [YearMonth.positionedWeekday?, hrank, YearMonth.nthWeekday?_eq_some_iff, hsupported,
    true_and]
  rw [weekdayAllows_iff]
  constructor
  · rintro (hfield | ⟨other, hlists, -⟩ | ⟨other, numeral', number', rank', hother, hsame, hother',
      hplace, hfield⟩ | ⟨other, number', -, -, -, hfield⟩)
    · exact absurd (hfield ▸ hmark) (by decide : '#' ∉ ['?'])
    · exact absurd hmark (hlists.not_mem (hlacks ',' (by decide))
        (FieldSense.wordsLack_weekday rfl (by decide) (by decide)) (by decide) rfl)
    · have hsplit := @splitFirst?_append_cons '#' word numeral
        (not_mem_weekday_word hword (by decide))
      rw [hfield, splitFirst?_append_cons (not_mem_weekday_word hother (by decide))] at hsplit
      obtain ⟨rfl, rfl⟩ := Prod.mk.inj (Option.some.inj hsplit)
      obtain rfl := Option.some.inj (hword.symm.trans hother)
      obtain rfl := Option.some.inj (hnumeral.symm.trans hother')
      exact ⟨Option.some.inj (hsame.symm.trans hweekday), hplace⟩
    · exact absurd (hfield ▸ List.mem_append_right other List.mem_cons_self)
        (hlacks 'L' (by decide))
  · rintro ⟨rfl, hplace⟩
    exact .inr (.inr (.inl ⟨word, numeral, number, rank, hword, hweekday, hnumeral, hplace, rfl⟩))

theorem weekdayAllows_last_iff {word : List Char} {weekday : Weekday}
    (hday : readWeekday word = .ok weekday) (hsupported : date.IsSupported) :
    WeekdayAllows (word ++ ['L']) date ↔
      (YearMonth.ofDate date).positionedWeekday? .last weekday = some date := by
  obtain ⟨number, hword, hweekday⟩ := exists_number_of_readWeekday hday
  have hmark : 'L' ∈ word ++ ['L'] := List.mem_append_right _ List.mem_cons_self
  have hrank : '#' ∉ word ++ ['L'] := by
    rw [List.mem_append, not_or]
    exact ⟨not_mem_weekday_word hword (by decide), by decide⟩
  simp only [YearMonth.positionedWeekday?, Position.rank?, YearMonth.lastWeekday?_eq_some_iff,
    hsupported, true_and]
  rw [weekdayAllows_iff]
  constructor
  · rintro (hfield | ⟨other, hlists, -⟩ | ⟨other, numeral, number', rank', -, -, -, -, hfield⟩ |
      ⟨other, number', hother, hsame, hplace, hfield⟩)
    · exact absurd (hfield ▸ hmark) (by decide : 'L' ∉ ['?'])
    · exact absurd hlists (not_fieldLists_concat (not_mem_weekday_word hword (by decide))
        (FieldSense.wordsLack_weekday rfl (by decide) (by decide)) (by decide) rfl)
    · exact absurd (hfield ▸ List.mem_append_right other List.mem_cons_self) hrank
    · obtain rfl := List.append_cancel_right hfield
      obtain rfl := Option.some.inj (hword.symm.trans hother)
      exact ⟨Option.some.inj (hsame.symm.trans hweekday), hplace⟩
  · rintro ⟨rfl, hplace⟩
    exact .inr (.inr (.inr ⟨word, number, hword, hweekday, hplace, rfl⟩))

end Forms

/-! ## The dates selected -/

section Selects

variable {date : Date} {times : List TimeOfDay}

/-- A target that stays in its month is asked about the month of the date. -/
theorem selects_monthly_iff {target : MonthTarget} (hstays : target.mayLeaveMonth = false) :
    (Recurrence.monthly 1 target times).Selects none date ↔
      date ∈ target.datesIn (YearMonth.ofDate date) := by
  constructor
  · rintro ⟨ym, _, hmem⟩
    obtain ⟨_, rfl⟩ := MonthTarget.ofDate_of_mem_datesIn hstays hmem
    exact hmem
  · exact fun hmem => ⟨_, isAligned_of_le_one _ (Nat.le_refl 1), hmem⟩

theorem selects_ordinal_iff {position : Position} {weekday : Weekday} :
    (Recurrence.ordinal 1 position weekday times).Selects none date ↔
      (YearMonth.ofDate date).positionedWeekday? position weekday = some date := by
  constructor
  · rintro ⟨ym, _, hmem⟩
    have hdate := Option.mem_toList.mp hmem
    obtain ⟨_, rfl⟩ := YearMonth.ofDate_of_positionedWeekday? hdate
    exact hdate
  · exact fun hdate => ⟨_, isAligned_of_le_one _ (Nat.le_refl 1), Option.mem_toList.mpr hdate⟩

theorem selects_daily_iff {filter : DayFilter} :
    (Recurrence.daily 1 filter times).Selects none date ↔ filter.allows date.weekday = true :=
  and_iff_left (isAligned_of_le_one _ (Nat.le_refl 1))

theorem SpecialDay.stays {field : List Char} {target : MonthTarget}
    (hspecial : SpecialDay field target) : target.mayLeaveMonth = false := by
  cases hspecial <;> rfl

/-- A recurrence read from fields selects the dates that both day fields allow. -/
theorem Fields.ReadsAs.selects_iff {fields : Fields} {recurrence : Recurrence}
    (hreads : fields.ReadsAs recurrence) (hsupported : date.IsSupported) :
    recurrence.Selects none date ↔
      MonthDayAllows fields.dayOfMonth date ∧ WeekdayAllows fields.weekday date := by
  cases hreads with
  | ranked hfield hday hrank heveryday _ =>
    rw [selects_ordinal_iff, heveryday, and_iff_right monthDayAllows_everything, hfield,
      weekdayAllows_ranked_iff hday hrank hsupported]
  | lastWeekday hfield hday heveryday _ =>
    rw [selects_ordinal_iff, heveryday, and_iff_right monthDayAllows_everything, hfield,
      weekdayAllows_last_iff hday hsupported]
  | specialDay htarget heveryday _ =>
    rw [selects_monthly_iff htarget.stays, heveryday, and_iff_left weekdayAllows_everything,
      htarget.allows_iff hsupported]
  | minutes _ _ _ _ heveryday hdays _ =>
    rw [heveryday, and_iff_right monthDayAllows_everything, weekdayAllows_iff_of_windowDays hdays]
    rfl
  | hours _ _ _ _ heveryday =>
    rw [heveryday.1, heveryday.2]
    exact iff_of_true nofun ⟨monthDayAllows_everything, weekdayAllows_everything⟩
  | daily hfilter heveryday _ =>
    rw [selects_daily_iff, heveryday, and_iff_right monthDayAllows_everything,
      weekdayAllows_iff_of_readDayFilter hfilter]
  | monthly htarget hrestricted heveryday _ =>
    obtain ⟨entries, rfl, _⟩ := readList_of_readMonthTarget htarget
    rw [selects_monthly_iff rfl, heveryday, and_iff_left weekdayAllows_everything,
      monthDayAllows_iff_of_readMonthTarget htarget hrestricted hsupported]

end Selects

end Cadence.Cron
