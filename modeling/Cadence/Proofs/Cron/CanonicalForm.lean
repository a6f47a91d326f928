import Mathlib
import Cadence.Proofs.Cron.FiringMinutes
import Cadence.Proofs.Schedule.RoundTrip

/-!
# Schedules read from cron lines have a canonical text

The reader of cron lines builds schedules past the grammar of expressions.
Nearly all of them could have come from an expression: values stay within the
ranges of their fields, and a list has at least one entry.  The exception is a
weekday field whose entries all step on from 7.  Sunday may be written 7, but
steps end at 6, so these entries list no day at all, and no expression has an
empty list of days.
-/

namespace Cadence.Cron

/-! ## Weekday fields without days -/

/-- A weekday field all of whose entries step on from 7. -/
def ListsNoDay (weekday : List Char) : Prop :=
  ∀ entry ∈ splitAll ',' weekday, ∃ start step, entry = start ++ '/' :: step ∧
    readWeekdayNumber start = .ok 7

section Weekdays

variable {field : List Char}

theorem stepsBeyond_weekday_iff {entry : List Char} :
    StepsBeyond .weekday readWeekdayNumber entry ↔
      ∃ start step, entry = start ++ '/' :: step ∧ readWeekdayNumber start = .ok 7 := by
  constructor
  · rintro ⟨start, step, first, hentry, hfirst, hbeyond⟩
    have hle := readWeekdayNumber_le hfirst
    have hseven : first = 7 := Nat.le_antisymm hle hbeyond
    exact ⟨start, step, hentry, hseven ▸ hfirst⟩
  · rintro ⟨start, step, hentry, hstart⟩
    exact ⟨start, step, 7, hentry, hstart, by decide⟩

/-- A single entry without a step lists a day. -/
theorem not_listsNoDay (hcomma : ',' ∉ field) (hslash : '/' ∉ field) : ¬ ListsNoDay field := by
  intro hnone
  obtain ⟨start, step, rfl, _⟩ := hnone field (splitAll_eq_singleton hcomma ▸ List.mem_cons_self)
  exact hslash (List.mem_append_right _ List.mem_cons_self)

theorem listsNoDay_dayField_iff : ListsNoDay (dayField field) ↔ ListsNoDay field := by
  rw [dayField]
  split
  · rename_i hfield
    exact iff_of_false (not_listsNoDay (by decide) (by decide))
      (hfield ▸ not_listsNoDay (by decide) (by decide))
  · rfl

theorem wellFormed_ofDays_iff {days : List Weekday} :
    (DayFilter.ofDays days).WellFormed ↔ days ≠ [] := by
  constructor
  · rintro hwell rfl
    exact hwell rfl
  · intro hsome
    rw [DayFilter.ofDays]
    split
    · trivial
    · split
      · trivial
      · exact hsome

theorem Weekday.exists_ofCronNumber? {number : Nat} (hle : number ≤ 7) :
    ∃ day, Weekday.ofCronNumber? number = some day :=
  Option.isSome_iff_exists.mp ((show ∀ number ∈ List.range 8,
    (Weekday.ofCronNumber? number).isSome by decide) number
      (List.mem_range.mpr (Nat.lt_succ_of_le hle)))

/-- The filter of a weekday field has a day unless all entries step on from 7. -/
theorem wellFormed_iff_of_readDayFilter {filter : DayFilter}
    (hread : readDayFilter field = .ok filter) : filter.WellFormed ↔ ¬ ListsNoDay field := by
  rw [readDayFilter] at hread
  split at hread
  · rename_i hall
    obtain rfl := Except.ok.inj hread
    exact iff_of_true trivial (hall ▸ not_listsNoDay (by decide) (by decide))
  · obtain ⟨numbers, hnumbers, hfilter⟩ := bind_eq_ok_iff.mp hread
    obtain rfl := Except.ok.inj hfilter
    have hbounds : ∀ number ∈ numbers, number ≤ 7 := fun number hmem =>
      (readList_bounds (fun hread => ⟨Nat.zero_le _, readWeekdayNumber_le hread⟩) (by decide)
        hnumbers hmem).2
    have hempty : (numbers.filterMap Weekday.ofCronNumber?).eraseDups = [] ↔ numbers = [] := by
      simp only [List.eq_nil_iff_forall_not_mem, List.mem_eraseDups]
      rw [← List.eq_nil_iff_forall_not_mem, List.filterMap_eq_nil_iff]
      refine forall_congr' fun number => imp_congr_right fun hmem => ?_
      obtain ⟨day, hday⟩ := Weekday.exists_ofCronNumber? (hbounds number hmem)
      rw [hday]
      exact iff_of_false (Option.some_ne_none day) id
    rw [wellFormed_ofDays_iff, ne_eq, hempty,
      readList_eq_nil_iff reads_weekday (by decide) hnumbers]
    simp only [stepsBeyond_weekday_iff, ListsNoDay]

theorem wellFormed_iff_of_windowDays {days : Option DayFilter} (hdays : WindowDays field days) :
    (∀ filter ∈ days, filter.WellFormed) ↔ ¬ ListsNoDay field := by
  cases hdays with
  | every => exact iff_of_true nofun (not_listsNoDay (by decide) (by decide))
  | filtered hfilter =>
    rw [← wellFormed_iff_of_readDayFilter hfilter]
    simp only [Option.mem_some_iff, forall_eq']

/-- A weekday field that is asked for one weekday lists a day. -/
theorem not_listsNoDay_of_word {word rest : List Char} {number : Nat}
    (hword : FieldSense.weekday.number? word = some number)
    (hrest : ',' ∉ rest ∧ '/' ∉ rest) : ¬ ListsNoDay (word ++ rest) := by
  have hlacks : ∀ c ∈ [',', '/'], c ∉ word := by
    have hall : ∀ c ∈ [',', '/'], FieldSense.weekday.WordsLack c := by
      simp only [List.forall_mem_cons]
      refine ⟨?_, ?_, List.forall_mem_nil _⟩ <;>
        exact FieldSense.wordsLack_weekday rfl (by decide) (by decide)
    exact fun c hc => hall c hc word number hword
  simp only [List.forall_mem_cons] at hlacks
  apply not_listsNoDay <;> rw [List.mem_append, not_or]
  · exact ⟨hlacks.1, hrest.1⟩
  · exact ⟨hlacks.2.1, hrest.2⟩

end Weekdays

/-! ## Recurrences within bounds -/

section Recurrences

variable {fields : Fields} {recurrence : Recurrence}

theorem timesWellFormed_of_time {time : TimeOfDay} (hread : fields.time = .ok time) :
    TimesWellFormed [time] :=
  ⟨nofun, List.forall_mem_singleton.mpr (isOnClock_of_time hread)⟩

theorem isOnClock_of_le {hour minute : Nat} (hhour : hour ≤ 23) (hminute : minute ≤ 59) :
    TimeOfDay.IsOnClock ⟨hour, minute⟩ :=
  ⟨Nat.lt_succ_of_le hhour, Nat.lt_succ_of_le hminute⟩

theorem isOnClock_minuteStop {first final interval startHour stopHour : Nat}
    (hrange : first ≤ final ∧ final ≤ 59) (hhour : stopHour ≤ 23) :
    (Fields.minuteStop first final interval startHour stopHour).IsOnClock := by
  rw [Fields.minuteStop]
  split
  · exact isOnClock_of_le (by decide) (by decide)
  · exact isOnClock_of_le hhour (Nat.le_trans (lastSlot_le hrange.1) hrange.2)

theorem intervalWellFormed_of_readStep {word : List Char} {interval : Nat}
    (hread : readStep word = .ok interval) : IntervalWellFormed interval := by
  obtain ⟨hnumeral, hpos⟩ := readStep_eq_ok hread
  exact ⟨hpos, Numeral.le_of_read? hnumeral⟩

theorem wellFormed_of_readMonthDays {entry : List Char} {days : List MonthDays}
    (hread : readMonthDays entry = .ok days) : ∀ found ∈ days, found.WellFormed := by
  have hvalue : ∀ {word number}, FieldKind.dayOfMonth.value word = .ok number →
      1 ≤ number ∧ number ≤ 31 := fun hread => (FieldKind.value_eq_ok hread).2
  rw [readMonthDays] at hread
  split at hread
  · obtain ⟨⟨first, final⟩, hrange, hdays⟩ := bind_eq_ok_iff.mp hread
    obtain rfl := Except.ok.inj hdays
    obtain ⟨hfirst, hfinal, hle⟩ := readRange_eq_ok_iff.mp hrange
    exact List.forall_mem_singleton.mpr ⟨(hvalue hfirst).1, hle, (hvalue hfinal).2⟩
  · obtain ⟨numbers, hnumbers, hdays⟩ := bind_eq_ok_iff.mp hread
    obtain rfl := Except.ok.inj hdays
    rw [List.forall_mem_map]
    exact fun number hmem => readEntry_bounds hvalue (Nat.le_refl _) hnumbers hmem

theorem wellFormed_of_readMonthTarget {field : List Char} {target : MonthTarget}
    (hread : readMonthTarget field = .ok target) : target.WellFormed := by
  obtain ⟨listed, htarget, hlist⟩ := readList_of_readMonthTarget hread
  obtain ⟨entries, hentries, hflat⟩ := bind_eq_ok_iff.mp hread
  obtain rfl := Except.ok.inj hflat
  cases htarget
  refine ⟨?_, ?_⟩
  · intro hnil
    rw [hnil] at hlist
    exact readList_ne_nil reads_dayOfMonth (by decide)
      (fun hread => (FieldKind.value_eq_ok hread).2) hlist rfl
  · intro days hdays
    obtain ⟨found, hfound, hmem⟩ := List.mem_flatten.mp hdays
    obtain ⟨entry, _, hentry⟩ := exists_item_of_mapM hentries hfound
    exact wellFormed_of_readMonthDays hentry days hmem

theorem SpecialDay.wellFormed {field : List Char} {target : MonthTarget}
    (hspecial : SpecialDay field target) : target.WellFormed := by
  cases hspecial with
  | lastDay => trivial
  | lastBusinessDay => trivial
  | nearestBusinessDay hday => exact (FieldKind.value_eq_ok hday).2

/-- A recurrence read from fields has no empty list, if only its weekday field
lists a day. -/
theorem Fields.ReadsAs.wellFormed_iff (hreads : fields.ReadsAs recurrence) :
    recurrence.WellFormed ↔ ¬ ListsNoDay fields.weekday := by
  have heverything : ¬ ListsNoDay ['*'] := not_listsNoDay (by decide) (by decide)
  cases hreads with
  | ranked hfield hday hrank _ htime =>
    obtain ⟨number, hnumber, _⟩ := exists_number_of_readWeekday hday
    obtain ⟨rank, hnumeral, _⟩ := rank?_of_readRank hrank
    refine iff_of_true ⟨intervalWellFormed_one, timesWellFormed_of_time htime⟩ ?_
    rw [hfield]
    refine not_listsNoDay_of_word hnumber ⟨?_, ?_⟩ <;> rw [List.mem_cons, not_or] <;>
      exact ⟨by decide, Numeral.not_mem_of_read? hnumeral rfl (by decide)⟩
  | lastWeekday hfield hday _ htime =>
    obtain ⟨number, hnumber, _⟩ := exists_number_of_readWeekday hday
    refine iff_of_true ⟨intervalWellFormed_one, timesWellFormed_of_time htime⟩ ?_
    rw [hfield]
    exact not_listsNoDay_of_word hnumber ⟨by decide, by decide⟩
  | specialDay htarget heveryday htime =>
    rw [heveryday]
    exact iff_of_true ⟨intervalWellFormed_one, htarget.wellFormed, timesWellFormed_of_time htime⟩
      heverything
  | monthly htarget _ heveryday htime =>
    rw [heveryday]
    exact iff_of_true ⟨intervalWellFormed_one, wellFormed_of_readMonthTarget htarget,
      timesWellFormed_of_time htime⟩ heverything
  | daily hfilter _ htime =>
    rw [← wellFormed_iff_of_readDayFilter hfilter]
    exact ⟨fun hwell => hwell.2.1, fun hwell => ⟨intervalWellFormed_one, hwell,
      fun hlt => absurd hlt (Nat.lt_irrefl 1), timesWellFormed_of_time htime⟩⟩
  | @minutes range step first final interval startHour stopHour days _ hstep hbounds hhours _ hdays
      _ =>
    have hrange : first ≤ final ∧ final ≤ 59 := readBounds_value (by decide) hbounds
    obtain ⟨⟨hhours, hhour⟩, _⟩ := fieldLists_iff_of_hourWindow hhours
    have hstart : TimeOfDay.IsOnClock ⟨startHour, first⟩ :=
      isOnClock_of_le (Nat.le_trans hhours hhour) (Nat.le_trans hrange.1 hrange.2)
    rw [← wellFormed_iff_of_windowDays hdays]
    exact ⟨fun hwell => hwell.2.2.2, fun hwell => ⟨intervalWellFormed_of_readStep hstep, hstart,
      isOnClock_minuteStop hrange hhour, hwell⟩⟩
  | @hours range step startHour stopHour interval _ _ hstep hbounds heveryday =>
    have hrange : startHour ≤ stopHour ∧ stopHour ≤ 23 := readBounds_value (by decide) hbounds
    have hstart : TimeOfDay.IsOnClock ⟨startHour, 0⟩ :=
      isOnClock_of_le (Nat.le_trans hrange.1 hrange.2) (by decide)
    have hstop : (hourStop startHour stopHour).IsOnClock :=
      isOnClock_of_le hrange.2 (by split <;> decide)
    rw [heveryday.2]
    exact iff_of_true ⟨intervalWellFormed_of_readStep hstep, hstart, hstop,
      fun _ hmem => absurd hmem (Option.not_mem_none _)⟩ heverything

theorem wellFormed_of_shortcut? {text : String} (hread : shortcut? text = some recurrence) :
    recurrence.WellFormed := by
  have htimes : TimesWellFormed [.midnight] :=
    ⟨List.cons_ne_nil _ _, List.forall_mem_singleton.mpr ⟨by decide, by decide⟩⟩
  have hfirst : MonthTarget.WellFormed (.days [.single 1]) :=
    ⟨List.cons_ne_nil _ _, List.forall_mem_singleton.mpr ⟨by decide, by decide⟩⟩
  have hdaily : IntervalWellFormed 1 ∧ DayFilter.WellFormed .every ∧
      (1 < 1 → DayFilter.every = .every) ∧ TimesWellFormed [.midnight] :=
    ⟨intervalWellFormed_one, trivial, fun _ => rfl, htimes⟩
  rw [shortcut?] at hread
  split at hread <;> cases hread
  · exact ⟨intervalWellFormed_one, ⟨by decide, by decide⟩, htimes⟩
  · exact ⟨intervalWellFormed_one, ⟨by decide, by decide⟩, htimes⟩
  · exact ⟨intervalWellFormed_one, hfirst, htimes⟩
  · exact ⟨intervalWellFormed_one, List.cons_ne_nil _ _,
      fun hlt => absurd hlt (Nat.lt_irrefl 1), htimes⟩
  · exact hdaily
  · exact hdaily
  · exact ⟨intervalWellFormed_one, ⟨by decide, by decide⟩, ⟨by decide, by decide⟩,
      fun _ hmem => absurd hmem (Option.not_mem_none _)⟩

end Recurrences

/-! ## Lines -/

section Lines

variable {precision : Precision} {text : String} {schedule : Schedule}

/-- A line whose weekday field, if it has one, lists a day. -/
def ListsDays (text : String) : Prop :=
  ∀ minute hour dayOfMonth month weekday,
    words text.toList = [minute, hour, dayOfMonth, month, weekday] → ¬ ListsNoDay weekday

theorem wellFormed_iff_of_read (hread : read precision text = .ok schedule) :
    schedule.WellFormed ↔ ListsDays text := by
  have hclauses : ∀ {recurrence : Recurrence} {season : List Month},
      Schedule.WellFormed { Schedule.ofRecurrence recurrence with season } ↔
        recurrence.WellFormed :=
    ⟨Schedule.WellFormed.recurrence, fun hwell => ⟨hwell, nofun, nofun, nofun, nofun⟩⟩
  rcases read_eq_ok hread with ⟨recurrence, hshortcut, rfl⟩ |
    ⟨minute, hour, dayOfMonth, month, weekday, recurrence, season, hwords, hreads, _, rfl⟩
  · refine iff_of_true (hclauses.mpr (wellFormed_of_shortcut? hshortcut)) ?_
    intro minute hour dayOfMonth month weekday hwords
    rw [words_of_shortcut? hshortcut] at hwords
    cases hwords
  · rw [hclauses, hreads.wellFormed_iff, listsNoDay_dayField_iff, ListsDays, hwords]
    constructor
    · rintro hlists _ _ _ _ _ ⟨⟩
      exact hlists
    · exact fun hlists => hlists _ _ _ _ _ rfl

/-- The schedule of a line is well-formed, and is read back from its canonical
text, exactly if the line lists days. -/
theorem ofText_text_ofCron_iff (hread : Schedule.ofCron text = .ok schedule) :
    (schedule.WellFormed ↔ ListsDays text) ∧
      (Schedule.ofText schedule.text = .ok schedule ↔ ListsDays text) := by
  have hlines := wellFormed_iff_of_read hread
  refine ⟨hlines, ?_⟩
  rw [← hlines]
  constructor
  · exact Schedule.wellFormed_of_ofText
  · exact fun hwell => Schedule.ofText_of_symbols hwell (tokenize_text hwell)

/-- A range of weekdays may end on 7. -/
theorem ofText_text_ofCron_weekend :
    ∃ schedule, Schedule.ofCron "0 9 * * 5-7" = .ok schedule ∧
      schedule.text = "every friday, saturday, sunday at 09:00" ∧
      Schedule.ofText schedule.text = .ok schedule := by
  let recurrence : Recurrence := .daily 1 (.listed [.friday, .saturday, .sunday]) [⟨9, 0⟩]
  have hwords : words "0 9 * * 5-7".toList = [['0'], ['9'], ['*'], ['*'], ['5', '-', '7']] := by
    cbv
  have hread : Schedule.ofCron "0 9 * * 5-7" = .ok (.ofRecurrence recurrence) :=
    read_of_fields hwords (by decide) (show _ = Except.ok recurrence by cbv) (by cbv)
  refine ⟨_, hread, by cbv, (ofText_text_ofCron_iff hread).2.mpr ?_⟩
  intro minute hour dayOfMonth month weekday hother
  rw [hwords] at hother
  cases hother
  exact not_listsNoDay (by decide) (by decide)

/-- A step that starts on 7 lists no day, and the text written for it is not read. -/
theorem ofText_text_ofCron_ne_beyond_sunday :
    ∃ schedule, Schedule.ofCron "0 9 * * 7/2" = .ok schedule ∧
      schedule.recurrence = .daily 1 (.listed []) [⟨9, 0⟩] ∧
      schedule.text = "every  at 09:00" ∧ ∀ other, Schedule.ofText schedule.text ≠ .ok other := by
  let recurrence : Recurrence := .daily 1 (.listed []) [⟨9, 0⟩]
  have hwords : words "0 9 * * 7/2".toList = [['0'], ['9'], ['*'], ['*'], ['7', '/', '2']] := by
    cbv
  have hread : Schedule.ofCron "0 9 * * 7/2" = .ok (.ofRecurrence recurrence) :=
    read_of_fields hwords (by decide) (show _ = Except.ok recurrence by cbv) (by cbv)
  have htext : (Schedule.ofRecurrence recurrence).text = "every  at 09:00" := by cbv
  have hrefused : (Schedule.ofText "every  at 09:00").toOption = none := by cbv
  refine ⟨_, hread, rfl, htext, ?_⟩
  rw [htext]
  intro other hother
  rw [hother] at hrefused
  cases hrefused

end Lines

end Cadence.Cron
