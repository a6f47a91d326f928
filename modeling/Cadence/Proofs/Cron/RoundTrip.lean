import Mathlib
import Cadence.Proofs.Cron.WrittenFields
import Cadence.Proofs.Expression.ParsedSchedules

/-!
# Written cron lines are read back

Four kinds of line are written: one time a day, one time a month, a step of
minutes and a step of hours.  Each is read as a schedule that is written as the
same line, with one exception: a step of sixty minutes goes into the hour evenly
and so is written, but the reader wants steps below sixty.
-/

namespace Cadence.Cron

/-- The lines that are written. -/
inductive IsWrittenLine : String → Prop
  | daily {time : TimeOfDay} {filter : DayFilter} (htime : time.IsOnClock)
      (hfilter : filter.WellFormed) :
    IsWrittenLine (line (Nat.repr time.minute) (Nat.repr time.hour) "*" "*" (weekdayField filter))
  | monthly {time : TimeOfDay} {entries : List MonthDays} (htime : time.IsOnClock)
      (hne : entries ≠ []) (hentries : ∀ entry ∈ entries, entry.WellFormed) :
    IsWrittenLine (line (Nat.repr time.minute) (Nat.repr time.hour)
      (joined "," (entries.map monthDaysField)) "*" "*")
  | minutes {interval : Nat} (hpos : 1 ≤ interval) (hdvd : 60 % interval = 0) :
    IsWrittenLine (line ("*/" ++ Nat.repr interval) "*" "*" "*" "*")
  | hours {interval : Nat} (hinterval : IntervalWellFormed interval) :
    IsWrittenLine (line "0" ("*/" ++ Nat.repr interval) "*" "*" "*")

/-- The recurrences that have a line, each with its line. -/
inductive IsLineOf : Recurrence → String → Prop
  | daily {time : TimeOfDay} {filter : DayFilter} (htime : time.IsOnClock)
      (hfilter : filter.WellFormed) :
    IsLineOf (.daily 1 filter [time])
      (line (Nat.repr time.minute) (Nat.repr time.hour) "*" "*" (weekdayField filter))
  | weekly {time : TimeOfDay} {days : List Weekday} (htime : time.IsOnClock) (hdays : days ≠ []) :
    IsLineOf (.weekly 1 days [time])
      (line (Nat.repr time.minute) (Nat.repr time.hour) "*" "*" (weekdayField (.listed days)))
  | monthly {time : TimeOfDay} {entries : List MonthDays} (htime : time.IsOnClock)
      (hne : entries ≠ []) (hentries : ∀ entry ∈ entries, entry.WellFormed) :
    IsLineOf (.monthly 1 (.days entries) [time])
      (line (Nat.repr time.minute) (Nat.repr time.hour)
        (joined "," (entries.map monthDaysField)) "*" "*")
  | minutes {interval : Nat} (hpos : 1 ≤ interval) (hdvd : 60 % interval = 0) :
    IsLineOf (.window interval .minutes .midnight .lastMinute none)
      (line ("*/" ++ Nat.repr interval) "*" "*" "*" "*")
  | hours {interval : Nat} (hinterval : IntervalWellFormed interval) :
    IsLineOf (.window interval .hours .midnight .lastMinute none)
      (line "0" ("*/" ++ Nat.repr interval) "*" "*" "*")

theorem IsLineOf.isWrittenLine {recurrence : Recurrence} {text : String}
    (hline : IsLineOf recurrence text) : IsWrittenLine text := by
  cases hline with
  | daily htime hfilter => exact .daily htime hfilter
  | weekly htime hdays => exact .daily htime hdays
  | monthly htime hne hentries => exact .monthly htime hne hentries
  | minutes hpos hdvd => exact .minutes hpos hdvd
  | hours hinterval => exact .hours hinterval

/-! ## What is written -/

/-- Only a single time is written, and it lies on the clock. -/
theorem exists_singleTime {times : List TimeOfDay} {rest : TimeOfDay → Except Obstacle String}
    {text : String} (htimes : TimesWellFormed times)
    (hwrite : (singleTime times >>= rest) = .ok text) :
    ∃ time : TimeOfDay, times = [time] ∧ time.IsOnClock ∧ rest time = .ok text := by
  match times, htimes, hwrite with
  | [time], htimes, hwrite => exact ⟨time, rfl, htimes.2 time List.mem_cons_self, hwrite⟩

/-- Only an interval of one is written. -/
theorem eq_one_of_not_one_lt {interval : Nat} (hinterval : IntervalWellFormed interval)
    (hlong : ¬ 1 < interval) : interval = 1 :=
  Nat.le_antisymm (Nat.not_lt.mp hlong) hinterval.1

/-- A well-formed recurrence is written as one of the five lines. -/
theorem isLineOf_of_recurrenceLine {recurrence : Recurrence} (hwell : recurrence.WellFormed)
    {text : String} (hwrite : recurrenceLine recurrence = .ok text) : IsLineOf recurrence text := by
  cases recurrence with
  | window interval unit start stop days =>
    simp only [recurrenceLine, windowLine] at hwrite
    split at hwrite
    · exact nomatch hwrite
    rename_i hwhole
    split at hwrite
    · exact nomatch hwrite
    rename_i hunfiltered
    simp only [ne_eq, not_or, Decidable.not_not] at hwhole
    obtain ⟨rfl, rfl⟩ := hwhole
    obtain rfl := Option.not_isSome_iff_eq_none.mp hunfiltered
    cases unit with
    | minutes =>
      split_ifs at hwrite with hzero hdvd
      obtain rfl := Except.ok.inj hwrite
      exact .minutes hwell.1.1 (Decidable.not_not.mp hdvd)
    | hours =>
      obtain rfl := Except.ok.inj hwrite
      exact .hours hwell.1
  | daily interval days times =>
    rw [recurrenceLine] at hwrite
    split at hwrite
    · exact nomatch hwrite
    rename_i hlong
    obtain rfl := eq_one_of_not_one_lt hwell.1 hlong
    obtain ⟨time, rfl, htime, hline⟩ := exists_singleTime hwell.2.2.2 hwrite
    obtain rfl := Except.ok.inj hline
    exact .daily htime hwell.2.1
  | weekly interval days times =>
    rw [recurrenceLine] at hwrite
    split at hwrite
    · exact nomatch hwrite
    rename_i hlong
    obtain rfl := eq_one_of_not_one_lt hwell.1 hlong
    obtain ⟨time, rfl, htime, hline⟩ := exists_singleTime hwell.2.2 hwrite
    obtain rfl := Except.ok.inj hline
    exact .weekly htime hwell.2.1
  | monthly interval target times =>
    rw [recurrenceLine] at hwrite
    split at hwrite
    · exact nomatch hwrite
    rename_i hlong
    obtain rfl := eq_one_of_not_one_lt hwell.1 hlong
    obtain ⟨time, rfl, htime, hline⟩ := exists_singleTime hwell.2.2 hwrite
    cases target with
    | days entries =>
      obtain rfl := Except.ok.inj hline
      exact .monthly htime hwell.2.1.1 hwell.2.1.2
    | _ => exact nomatch hline
  | _ => exact nomatch hwrite

/-- Only a schedule without clauses that narrow it is written. -/
theorem isLineOf_of_toCron {schedule : Schedule} (hwell : schedule.WellFormed) {text : String}
    (hwrite : schedule.toCron = .ok text) :
    IsLineOf schedule.recurrence text ∧ schedule.skipped = [] ∧ schedule.lastDay = none ∧
      schedule.season = [] := by
  rw [Schedule.toCron] at hwrite
  split_ifs at hwrite with hskipped hlast hseason
  simp only [Bool.not_eq_true', Bool.not_eq_false, List.isEmpty_iff] at hskipped hseason
  exact ⟨isLineOf_of_recurrenceLine hwell.recurrence hwrite, hskipped,
    Option.not_isSome_iff_eq_none.mp hlast, hseason⟩

theorem isWrittenLine_of_toCron {schedule : Schedule} (hwell : schedule.WellFormed) {text : String}
    (hwrite : schedule.toCron = .ok text) : IsWrittenLine text :=
  (isLineOf_of_toCron hwell hwrite).1.isWrittenLine

/-! ## What is read back -/

section Time

variable {time : TimeOfDay}

/-- The time of a line that names one. -/
theorem time_eq_ok (htime : time.IsOnClock) {fields : Fields}
    (hminute : fields.minute = (Nat.repr time.minute).toList)
    (hhour : fields.hour = (Nat.repr time.hour).toList) : fields.time = .ok time := by
  have hhigh : ∀ {value}, value < 60 → value ≤ Numeral.countLimit := fun hvalue =>
    Nat.le_trans (Nat.le_of_lt hvalue) (by decide)
  have hhourValue : FieldKind.hour.value (Nat.repr time.hour).toList = .ok time.hour :=
    FieldKind.value_repr (Nat.zero_le _) (Nat.le_of_lt_succ htime.1)
      (hhigh (Nat.lt_trans htime.1 (by decide)))
  have hminuteValue : FieldKind.minute.value (Nat.repr time.minute).toList = .ok time.minute :=
    FieldKind.value_repr (Nat.zero_le _) (Nat.le_of_lt_succ htime.2) (hhigh htime.2)
  rw [Fields.time, hminute, hhour, hhourValue, hminuteValue]
  rfl

/-- Fields without steps name one time on some weekdays. -/
theorem atOneTime_eq_daily {fields : Fields} (htime : fields.time = .ok time)
    (hday : fields.dayOfMonth = ['*']) {filter : DayFilter}
    (hread : readDayFilter fields.weekday = .ok filter) :
    fields.atOneTime = .ok (.daily 1 filter [time]) := by
  simp only [Fields.atOneTime, htime, hday, if_true, hread]
  rfl

/-- Fields without steps name one time on some days of the month. -/
theorem atOneTime_eq_monthly {fields : Fields} (htime : fields.time = .ok time)
    (hday : fields.dayOfMonth ≠ ['*']) (hweekday : fields.weekday = ['*']) {target : MonthTarget}
    (hread : readMonthTarget fields.dayOfMonth = .ok target) :
    fields.atOneTime = .ok (.monthly 1 target [time]) := by
  simp only [Fields.atOneTime, htime, hday, if_false, hweekday, if_true, hread]
  rfl

/-- A line without steps names one time of day. -/
theorem ofCron_line_of_time {dayOfMonth weekday : String} (hday : IsFieldText dayOfMonth)
    (hweekday : IsFieldText weekday) :
    Schedule.ofCron (line (Nat.repr time.minute) (Nat.repr time.hour) dayOfMonth "*" weekday) =
      (Fields.atOneTime ⟨(Nat.repr time.minute).toList, (Nat.repr time.hour).toList,
        dayOfMonth.toList, weekday.toList, .exact⟩).map Schedule.ofRecurrence := by
  rw [ofCron_line (.repr _) (.repr _) hday hweekday,
    recurrence_of_isFieldText hday hweekday rfl rfl]
  simp only [splitFirst?_eq_none ((Numeral.denotes_repr _).not_mem (c := '/') rfl)]

theorem ofCron_daily (htime : time.IsOnClock) {filter : DayFilter} (hfilter : filter.WellFormed) :
    ∃ other, Schedule.ofCron
        (line (Nat.repr time.minute) (Nat.repr time.hour) "*" "*" (weekdayField filter)) =
        .ok (.ofRecurrence (.daily 1 other [time])) ∧
      weekdayField other = weekdayField filter ∧ ∀ day, other.allows day = filter.allows day := by
  obtain ⟨other, hread, hother⟩ := readDayFilter_weekdayField hfilter
  refine ⟨other, ?_, hother⟩
  rw [ofCron_line_of_time .everything (isFieldText_weekdayField hfilter),
    atOneTime_eq_daily (time_eq_ok htime rfl rfl) rfl hread]
  rfl

theorem ofCron_monthly (htime : time.IsOnClock) {entries : List MonthDays} (hne : entries ≠ [])
    (hentries : ∀ entry ∈ entries, entry.WellFormed) :
    Schedule.ofCron (line (Nat.repr time.minute) (Nat.repr time.hour)
        (joined "," (entries.map monthDaysField)) "*" "*") =
      .ok (.ofRecurrence (.monthly 1 (.days entries) [time])) := by
  have hfield : IsFieldText (joined "," (entries.map monthDaysField)) := by
    refine .joined (by simpa using hne) fun text htext => ?_
    obtain ⟨entry, _, rfl⟩ := List.mem_map.mp htext
    exact isFieldText_monthDaysField entry
  rw [ofCron_line_of_time hfield .everything,
    atOneTime_eq_monthly (time_eq_ok htime rfl rfl) monthDaysField_ne_everything rfl
      (readMonthTarget_joined hne hentries)]
  rfl

end Time

section Step

variable {interval : Nat}

theorem isFieldText_step (interval : Nat) : IsFieldText ("*/" ++ Nat.repr interval) :=
  .append (.of_all (by decide) rfl) (.repr interval)

theorem splitFirst?_step (interval : Nat) :
    splitFirst? '/' ("*/" ++ Nat.repr interval).toList =
      some (['*'], (Nat.repr interval).toList) := by
  have htext : ("*/" ++ Nat.repr interval).toList = ['*'] ++ '/' :: (Nat.repr interval).toList := by
    rw [String.toList_append]
    rfl
  rw [htext]
  exact splitFirst?_append_cons (by decide)

/-- The last slot of an hour lies one step before the next hour if the step goes
into the hour evenly. -/
theorem lastSlot_add_of_mod (hdvd : 60 % interval = 0) :
    0 + (59 - 0) / interval * interval + interval = 0 + 60 := by
  have hdvd : interval ∣ 59 + 1 := Nat.dvd_of_mod_eq_zero hdvd
  calc 0 + (59 - 0) / interval * interval + interval
    _ = (59 / interval + 1) * interval := by rw [Nat.zero_add, Nat.sub_zero, Nat.succ_mul]
    _ = (59 + 1) / interval * interval := by rw [Nat.succ_div_of_dvd hdvd]
    _ = 0 + 60 := Nat.div_mul_cancel hdvd

/-- A step that goes into the hour evenly is read back if it is below sixty. -/
theorem ofCron_minutes (hpos : 1 ≤ interval) (hdvd : 60 % interval = 0) :
    Schedule.ofCron (line ("*/" ++ Nat.repr interval) "*" "*" "*" "*") =
      if 60 ≤ interval then .error (.longMinuteStep interval)
      else .ok (.ofRecurrence (.window interval .minutes .midnight .lastMinute none)) := by
  have hle : interval ≤ 60 := Nat.le_of_dvd (by decide) (Nat.dvd_of_mod_eq_zero hdvd)
  have hstep := readStep_repr hpos (Nat.le_trans hle (by decide))
  have hdivisor : divisor interval = .ok interval := if_neg (Nat.ne_of_gt hpos)
  have hsteady := lastSlot_add_of_mod hdvd
  have hbounds : readBounds .minute FieldKind.minute.value ['*'] = .ok (0, 59) := rfl
  have heverything : "*".toList = ['*'] := rfl
  have hhours : Fields.hourWindow ⟨("*/" ++ Nat.repr interval).toList, ['*'], ['*'], ['*'],
      .exact⟩ = .ok (0, 23) := rfl
  rw [ofCron_line (isFieldText_step interval) .everything .everything .everything,
    recurrence_of_isFieldText .everything .everything rfl rfl]
  simp only [splitFirst?_step, Fields.minuteSteps, hstep, hdivisor, hbounds, heverything, hhours,
    bind, Except.bind, pure, Except.pure, hsteady, if_true, if_false, ne_eq, not_true_eq_false,
    and_false, and_self]
  by_cases hlong : 60 ≤ interval
  · rw [if_pos hlong, if_pos hlong]
    rfl
  · rw [if_neg hlong, if_neg hlong]
    rfl

theorem ofCron_hours (hinterval : IntervalWellFormed interval) :
    Schedule.ofCron (line "0" ("*/" ++ Nat.repr interval) "*" "*" "*") =
      .ok (.ofRecurrence (.window interval .hours .midnight .lastMinute none)) := by
  have hstep := readStep_repr hinterval.1 hinterval.2
  have hzero : splitFirst? '/' "0".toList = none := rfl
  rw [ofCron_line (.of_all (by decide) rfl) (isFieldText_step interval) .everything
      .everything, recurrence_of_isFieldText .everything .everything rfl rfl]
  simp only [splitFirst?_step, hzero, Fields.hourSteps, hstep]
  rfl

end Step

/-- Sixty minutes go into the hour evenly, but are no step below sixty. -/
theorem ofCron_sixty_minutes : Schedule.ofCron "*/60 * * * *" = .error (.longMinuteStep 60) :=
  @ofCron_minutes 60 (by decide) (by decide)

/-- Every written line but one is read as a schedule that is written the same. -/
theorem IsWrittenLine.exists_ofCron {text : String} (hwritten : IsWrittenLine text)
    (hsixty : text ≠ "*/60 * * * *") :
    ∃ schedule, Schedule.ofCron text = .ok schedule ∧ schedule.toCron = .ok text := by
  cases hwritten with
  | daily htime hfilter =>
    obtain ⟨other, hread, hother, _⟩ := ofCron_daily htime hfilter
    refine ⟨_, hread, ?_⟩
    rw [← hother]
    rfl
  | monthly htime hne hentries => exact ⟨_, ofCron_monthly htime hne hentries, rfl⟩
  | @minutes interval hpos hdvd =>
    have hle : interval ≤ 60 := Nat.le_of_dvd (by decide) (Nat.dvd_of_mod_eq_zero hdvd)
    have hne : interval ≠ 60 := fun hinterval => hsixty (hinterval ▸ rfl)
    have hlt : ¬ 60 ≤ interval := Nat.not_le_of_lt (Nat.lt_of_le_of_ne hle hne)
    refine ⟨_, (ofCron_minutes hpos hdvd).trans (if_neg hlt), ?_⟩
    simp only [Schedule.toCron, Schedule.ofRecurrence, recurrenceLine, windowLine, hdvd,
      Nat.ne_of_gt hpos]
    rfl
  | hours hinterval => exact ⟨_, ofCron_hours hinterval, rfl⟩

end Cadence.Cron

namespace Cadence.Schedule

open Cron

/-- The line written for a schedule is read as a schedule that is written the
same, unless it steps by sixty minutes. -/
theorem exists_ofCron_toCron_iff {text line : String} {schedule : Schedule}
    (hread : ofText text = .ok schedule) (hwrite : schedule.toCron = .ok line) :
    (∃ other, ofCron line = .ok other ∧ other.toCron = .ok line) ↔ line ≠ "*/60 * * * *" := by
  constructor
  · rintro ⟨other, hother, -⟩ rfl
    rw [ofCron_sixty_minutes] at hother
    exact nomatch hother
  · exact (isWrittenLine_of_toCron (wellFormed_of_ofText hread) hwrite).exists_ofCron

/-- Unordered and repeated weekdays are written in order, each once, and the line
is read back. -/
theorem exists_ofCron_toCron_weekdays :
    ∃ schedule, ofText "every 1 weeks on fri, mon, fri at 07:05" = .ok schedule ∧
      schedule.toCron = .ok "5 7 * * 1,5" ∧
      ∃ other, ofCron "5 7 * * 1,5" = .ok other ∧ other.toCron = .ok "5 7 * * 1,5" := by
  have hread : ofText "every 1 weeks on fri, mon, fri at 07:05" =
      .ok (.ofRecurrence (.weekly 1 [.friday, .monday, .friday] [⟨7, 5⟩])) := by cbv
  have hwrite : (ofRecurrence (.weekly 1 [.friday, .monday, .friday] [⟨7, 5⟩])).toCron =
      .ok "5 7 * * 1,5" := by cbv
  exact ⟨_, hread, hwrite, (exists_ofCron_toCron_iff hread hwrite).mpr (by decide)⟩

/-- The line of a step of sixty minutes is not read back. -/
theorem toCron_sixty_minutes_not_read :
    ∃ schedule, ofText "every 60 min from 00:00 to 23:59" = .ok schedule ∧
      schedule.toCron = .ok "*/60 * * * *" ∧
      ¬ ∃ other, ofCron "*/60 * * * *" = .ok other ∧ other.toCron = .ok "*/60 * * * *" := by
  refine ⟨.ofRecurrence (.window 60 .minutes .midnight .lastMinute none), ?_, ?_, ?_⟩
  · cbv
  · decide +kernel
  · rintro ⟨other, hother, -⟩
    rw [ofCron_sixty_minutes] at hother
    cases hother

end Cadence.Schedule
