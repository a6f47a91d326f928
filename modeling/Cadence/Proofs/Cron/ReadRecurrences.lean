import Cadence.Proofs.Cron.FieldReaders

/-!
# The recurrences cron lines are read as

A line is read in one of seven ways: a ranked or last weekday, a day that
depends on its month, steps of minutes or of hours, and one time of day on
weekdays or on days of the month.  `Fields.ReadsAs` has one rule for each and
keeps what the reader has checked on the way.
-/

namespace Cadence.Cron

/-- Days that depend on the length or the weekends of their month. -/
inductive SpecialDay : List Char → MonthTarget → Prop
  | lastDay : SpecialDay ['L'] .lastDay
  | lastBusinessDay : SpecialDay ['L', 'W'] .lastBusinessDay
  | nearestBusinessDay {word : List Char} {day : Nat}
      (hday : FieldKind.dayOfMonth.value word = .ok day) :
    SpecialDay (word ++ ['W']) (.nearestBusinessDay day none)

/-- The filter of a window, none where every weekday passes. -/
inductive WindowDays : List Char → Option DayFilter → Prop
  | every : WindowDays ['*'] none
  | filtered {field : List Char} {filter : DayFilter} (hfilter : readDayFilter field = .ok filter) :
    WindowDays field (some filter)

namespace Fields

/-- The last minute of an hour that a step reaches. -/
def lastSlot (first final interval : Nat) : Nat := first + (final - first) / interval * interval

/-- The end of a window of minute steps.  One that starts with the day ends with
the day. -/
def minuteStop (first final interval startHour stopHour : Nat) : TimeOfDay :=
  if startHour = 0 ∧ stopHour = 23 ∧ first = 0 then .lastMinute
  else ⟨stopHour, lastSlot first final interval⟩

/-- The end of a window of hour steps. -/
def hourStop (startHour stopHour : Nat) : TimeOfDay :=
  ⟨stopHour, if startHour = 0 ∧ stopHour = 23 then 59 else 0⟩

/-- The ways in which fields are read as a recurrence. -/
inductive ReadsAs (fields : Fields) : Recurrence → Prop
  | ranked {day rank : List Char} {position : Position} {weekday : Weekday} {time : TimeOfDay}
      (hfield : fields.weekday = day ++ '#' :: rank) (hday : readWeekday day = .ok weekday)
      (hrank : readRank rank = .ok position) (heveryday : fields.dayOfMonth = ['*'])
      (htime : fields.time = .ok time) :
    ReadsAs fields (.ordinal 1 position weekday [time])
  | lastWeekday {day : List Char} {weekday : Weekday} {time : TimeOfDay}
      (hfield : fields.weekday = day ++ ['L']) (hday : readWeekday day = .ok weekday)
      (heveryday : fields.dayOfMonth = ['*']) (htime : fields.time = .ok time) :
    ReadsAs fields (.ordinal 1 .last weekday [time])
  | specialDay {target : MonthTarget} {time : TimeOfDay}
      (htarget : SpecialDay fields.dayOfMonth target) (heveryday : fields.weekday = ['*'])
      (htime : fields.time = .ok time) :
    ReadsAs fields (.monthly 1 target [time])
  | minutes {range step : List Char} {first final interval startHour stopHour : Nat}
      {days : Option DayFilter} (hfield : fields.minute = range ++ '/' :: step)
      (hstep : readStep step = .ok interval)
      (hbounds : readBounds .minute FieldKind.minute.value range = .ok (first, final))
      (hhours : fields.hourWindow = .ok (startHour, stopHour))
      (heveryday : fields.dayOfMonth = ['*']) (hdays : WindowDays fields.weekday days)
      (hsteady : fields.precision = .exact → interval < 60 ∧
        (startHour ≠ stopHour → lastSlot first final interval + interval = first + 60)) :
    ReadsAs fields (.window interval .minutes ⟨startHour, first⟩
      (minuteStop first final interval startHour stopHour) days)
  | hours {range step : List Char} {startHour stopHour interval : Nat}
      (hfield : fields.hour = range ++ '/' :: step)
      (hminute : fields.minute = ['0'] ∨ fields.minute = ['0', '0'])
      (hstep : readStep step = .ok interval)
      (hbounds : readBounds .hour FieldKind.hour.value range = .ok (startHour, stopHour))
      (heveryday : fields.dayOfMonth = ['*'] ∧ fields.weekday = ['*']) :
    ReadsAs fields (.window interval .hours ⟨startHour, 0⟩ (hourStop startHour stopHour) none)
  | daily {filter : DayFilter} {time : TimeOfDay}
      (hfilter : readDayFilter fields.weekday = .ok filter)
      (heveryday : fields.dayOfMonth = ['*']) (htime : fields.time = .ok time) :
    ReadsAs fields (.daily 1 filter [time])
  | monthly {target : MonthTarget} {time : TimeOfDay}
      (htarget : readMonthTarget fields.dayOfMonth = .ok target)
      (hrestricted : fields.dayOfMonth ≠ ['*']) (heveryday : fields.weekday = ['*'])
      (htime : fields.time = .ok time) :
    ReadsAs fields (.monthly 1 target [time])

variable {fields : Fields} {recurrence : Recurrence}

theorem readsAs_of_positioned? (hread : fields.positioned? = .ok (some recurrence)) :
    fields.ReadsAs recurrence := by
  rw [positioned?] at hread
  split at hread
  · rename_i day rank hsplit
    obtain ⟨position, hrank, hread⟩ := bind_eq_ok_iff.mp hread
    obtain ⟨weekday, hday, hread⟩ := bind_eq_ok_iff.mp hread
    split at hread
    · rename_i heveryday
      obtain ⟨time, htime, hrecurrence⟩ := bind_eq_ok_iff.mp hread
      cases hrecurrence
      exact .ranked (eq_append_of_splitFirst? hsplit).1 hday hrank heveryday htime
    · cases hread
  · split at hread
    · cases hread
    · cases hread
    · rename_i day _ hdrop
      obtain ⟨weekday, hday, hread⟩ := bind_eq_ok_iff.mp hread
      split at hread
      · rename_i heveryday
        obtain ⟨time, htime, hrecurrence⟩ := bind_eq_ok_iff.mp hread
        cases hrecurrence
        exact .lastWeekday (dropFinal?_eq_some_iff.mp hdrop) hday heveryday htime
      · cases hread

theorem readsAs_of_specialDay? (hread : fields.specialDay? = .ok (some recurrence)) :
    fields.ReadsAs recurrence := by
  have hfinish : ∀ {target : MonthTarget}, SpecialDay fields.dayOfMonth target →
      (if fields.weekday = ['*'] then do
        let time ← fields.time
        pure (some (Recurrence.monthly 1 target [time]))
      else .error .weekdayWithSpecialDay) = .ok (some recurrence) →
        fields.ReadsAs recurrence := by
    intro target htarget hread
    split at hread
    · rename_i heveryday
      obtain ⟨time, htime, hrecurrence⟩ := bind_eq_ok_iff.mp hread
      cases hrecurrence
      exact .specialDay htarget heveryday htime
    · cases hread
  rw [specialDay?] at hread
  split at hread
  · rename_i hfield
    exact hfinish (hfield ▸ .lastDay) hread
  · split at hread
    · rename_i hfield
      exact hfinish (hfield ▸ .lastBusinessDay) hread
    · split at hread
      · cases hread
      · rename_i word hdrop
        obtain ⟨day, hday, hread⟩ := bind_eq_ok_iff.mp hread
        exact hfinish (dropFinal?_eq_some_iff.mp hdrop ▸ .nearestBusinessDay hday) hread

/-- The parts of minute steps, each read on its own. -/
structure MinuteParts (fields : Fields) (range step : List Char)
    (interval first final startHour stopHour : Nat) (days : Option DayFilter) : Prop where
  step : readStep step = .ok interval
  bounds : readBounds .minute FieldKind.minute.value range = .ok (first, final)
  hours : fields.hourWindow = .ok (startHour, stopHour)
  everyday : fields.dayOfMonth = ['*']
  days : (if fields.weekday = ['*'] then .ok none else some <$> readDayFilter fields.weekday) =
    Except.ok (ε := ReadError) days

theorem exists_minuteParts {range step : List Char}
    (hread : fields.minuteSteps range step = .ok recurrence) :
    ∃ interval first final startHour stopHour days,
      fields.MinuteParts range step interval first final startHour stopHour days := by
  rw [minuteSteps] at hread
  obtain ⟨interval, hstep, hread⟩ := bind_eq_ok_iff.mp hread
  obtain ⟨⟨first, final⟩, hbounds, hread⟩ := bind_eq_ok_iff.mp hread
  obtain ⟨⟨startHour, stopHour⟩, hhours, hread⟩ := bind_eq_ok_iff.mp hread
  dsimp only at hread
  split at hread
  · cases hread
  rename_i heveryday
  have heveryday := Decidable.not_not.mp heveryday
  split at hread
  · rename_i hall
    exact ⟨_, _, _, _, _, none, hstep, hbounds, hhours, heveryday, if_pos hall⟩
  · rename_i hrestricted
    obtain ⟨days, hdays, hread⟩ := bind_eq_ok_iff.mp hread
    exact ⟨_, _, _, _, _, days, hstep, hbounds, hhours, heveryday,
      (if_neg hrestricted).trans hdays⟩

namespace MinuteParts

variable {range step : List Char} {interval first final startHour stopHour : Nat}
  {days : Option DayFilter}
  (hparts : fields.MinuteParts range step interval first final startHour stopHour days)
include hparts

/-- Minute steps whose parts are read make a window.  The exact reader refuses
those that are long or not steady. -/
theorem minuteSteps_eq :
    fields.minuteSteps range step =
      if fields.precision = .exact ∧ 60 ≤ interval then .error (.longMinuteStep interval)
      else if fields.precision = .exact ∧ startHour ≠ stopHour ∧
          lastSlot first final interval + interval ≠ first + 60 then
        .error (.unsteadyMinuteStep (String.ofList fields.minute) interval)
      else .ok (.window interval .minutes ⟨startHour, first⟩
        (minuteStop first final interval startHour stopHour) days) := by
  obtain ⟨hstep, hbounds, hhours, heveryday, hdays⟩ := hparts
  rw [minuteSteps, hstep]
  change (readBounds .minute FieldKind.minute.value range >>= _) = _
  rw [hbounds]
  change (fields.hourWindow >>= _) = _
  rw [hhours]
  change (if fields.dayOfMonth ≠ ['*'] then _ else _) = _
  rw [if_neg (Decidable.not_not.mpr heveryday), divisor_of_readStep hstep]
  have hchecks : ∀ {precision : Precision},
      (show Except ReadError Recurrence from do
        if precision = .exact then
          if 60 ≤ interval then .error (.longMinuteStep interval)
          if startHour ≠ stopHour ∧ lastSlot first final interval + interval ≠ first + 60 then
            .error (.unsteadyMinuteStep (String.ofList fields.minute) interval)
        return .window interval .minutes ⟨startHour, first⟩
          (minuteStop first final interval startHour stopHour) days) =
      if precision = .exact ∧ 60 ≤ interval then .error (.longMinuteStep interval)
      else if precision = .exact ∧ startHour ≠ stopHour ∧
          lastSlot first final interval + interval ≠ first + 60 then
        .error (.unsteadyMinuteStep (String.ofList fields.minute) interval)
      else .ok (.window interval .minutes ⟨startHour, first⟩
        (minuteStop first final interval startHour stopHour) days) := by
    intro precision
    cases precision with
    | approximate => rfl
    | exact =>
      simp only [if_true, true_and]
      split <;> rfl
  split at hdays
  · rename_i hall
    cases hdays
    rw [if_pos hall]
    exact hchecks
  · rename_i hrestricted
    rw [if_neg hrestricted, hdays]
    exact hchecks

theorem windowDays : WindowDays fields.weekday days := by
  have hdays := hparts.days
  split at hdays
  · rename_i hall
    cases hdays
    exact hall ▸ .every
  · obtain ⟨filter, hfilter, rfl⟩ := map_eq_ok_iff.mp hdays
    exact .filtered hfilter

end MinuteParts

theorem readsAs_of_minuteSteps {range step : List Char}
    (hfield : fields.minute = range ++ '/' :: step)
    (hread : fields.minuteSteps range step = .ok recurrence) : fields.ReadsAs recurrence := by
  obtain ⟨interval, first, final, startHour, stopHour, days, hparts⟩ := exists_minuteParts hread
  rw [hparts.minuteSteps_eq] at hread
  split at hread
  · cases hread
  · split at hread
    · cases hread
    · rename_i hshort hsteady
      cases hread
      refine .minutes hfield hparts.step hparts.bounds hparts.hours hparts.everyday
        hparts.windowDays fun hexact => ⟨?_, fun hhours => ?_⟩
      · exact Nat.lt_of_not_le fun hlong => hshort ⟨hexact, hlong⟩
      · exact Decidable.not_not.mp fun hne => hsteady ⟨hexact, hhours, hne⟩

theorem readsAs_of_hourSteps {range step : List Char} (hfield : fields.hour = range ++ '/' :: step)
    (hminute : fields.minute = ['0'] ∨ fields.minute = ['0', '0'])
    (hread : fields.hourSteps range step = .ok recurrence) : fields.ReadsAs recurrence := by
  rw [hourSteps] at hread
  obtain ⟨interval, hstep, hread⟩ := bind_eq_ok_iff.mp hread
  obtain ⟨⟨startHour, stopHour⟩, hbounds, hread⟩ := bind_eq_ok_iff.mp hread
  dsimp only at hread
  split at hread
  · cases hread
  · rename_i heveryday
    cases hread
    exact .hours hfield hminute hstep hbounds (by tauto)

theorem readsAs_of_atOneTime (hread : fields.atOneTime = .ok recurrence) :
    fields.ReadsAs recurrence := by
  obtain ⟨time, htime, hread⟩ := bind_eq_ok_iff.mp hread
  split at hread
  · rename_i heveryday
    obtain ⟨filter, hfilter, hrecurrence⟩ := bind_eq_ok_iff.mp hread
    cases hrecurrence
    exact .daily hfilter heveryday htime
  · rename_i hrestricted
    split at hread
    · rename_i heveryday
      obtain ⟨target, htarget, hrecurrence⟩ := bind_eq_ok_iff.mp hread
      cases hrecurrence
      exact .monthly htarget hrestricted heveryday htime
    · cases hread

/-- Whatever recurrence fields have, they are read in one of the seven ways. -/
theorem readsAs_of_recurrence (hread : fields.recurrence = .ok recurrence) :
    fields.ReadsAs recurrence := by
  obtain ⟨positioned, hpositioned, hread⟩ := bind_eq_ok_iff.mp hread
  cases positioned with
  | some found =>
    cases hread
    exact readsAs_of_positioned? hpositioned
  | none =>
    obtain ⟨special, hspecial, hread⟩ := bind_eq_ok_iff.mp hread
    cases special with
    | some found =>
      cases hread
      exact readsAs_of_specialDay? hspecial
    | none =>
      dsimp only at hread
      split at hread
      · rename_i range step hsplit
        exact readsAs_of_minuteSteps (eq_append_of_splitFirst? hsplit).1 hread
      · split at hread
        · rename_i range step hsplit
          split at hread
          · rename_i hminute
            exact readsAs_of_hourSteps (eq_append_of_splitFirst? hsplit).1 hminute hread
          · exact readsAs_of_atOneTime hread
        · exact readsAs_of_atOneTime hread

end Fields

/-! ## Whole lines -/

section Lines

variable {precision : Precision} {text : String} {schedule : Schedule}

theorem toLower_mem_of_shortcut? {recurrence : Recurrence}
    (hshortcut : shortcut? text = some recurrence) : text.toLower ∈
      ["@yearly", "@annually", "@monthly", "@weekly", "@daily", "@midnight", "@hourly"] := by
  rw [shortcut?] at hshortcut
  split at hshortcut
  case h_8 => cases hshortcut
  all_goals
    rename_i hname
    rw [hname]
    decide

theorem isWord_of_shortcut? {recurrence : Recurrence}
    (hshortcut : shortcut? text = some recurrence) : IsWord text.toList := by
  have hlower : text.toLower.toList = text.toList.map Char.toLower := String.toList_map
  have hname := toLower_mem_of_shortcut? hshortcut
  constructor
  · intro hnil
    rw [hnil, List.map_nil] at hlower
    rw [String.toList_eq_nil_iff.mp hlower] at hname
    revert hname
    decide
  · intro c hmem
    by_contra hblank
    rw [Bool.not_eq_false] at hblank
    have hkept : c.toLower = c := by
      have hcode : ¬ (65 ≤ c.toNat ∧ c.toNat ≤ 90) :=
        (show ∀ code ∈ whiteSpace, ¬ (65 ≤ code ∧ code ≤ 90) by decide) _
          (List.contains_iff_mem.mp hblank)
      exact dif_neg hcode
    have hletter : c ∈ text.toLower.toList := by
      rw [hlower, ← hkept]
      exact List.mem_map_of_mem hmem
    have hnames : ∀ name ∈ ["@yearly", "@annually", "@monthly", "@weekly", "@daily", "@midnight",
        "@hourly"], name.toList.all (!isWhiteSpace ·) = true := by decide
    have hsolid := List.all_eq_true.mp (hnames _ hname) c hletter
    rw [hblank] at hsolid
    cases hsolid

/-- A shortcut is a line of one word. -/
theorem words_of_shortcut? {recurrence : Recurrence}
    (hshortcut : shortcut? (String.ofList (trimmed text.toList)) = some recurrence) :
    words text.toList = [trimmed text.toList] := by
  have hword := isWord_of_shortcut? hshortcut
  rw [String.toList_ofList] at hword
  rw [← words_trimmed, hword.words_eq_singleton]

/-- A line is a shortcut or has five fields that are read on their own. -/
theorem read_eq_ok (hread : read precision text = .ok schedule) :
    (∃ recurrence, shortcut? (String.ofList (trimmed text.toList)) = some recurrence ∧
      schedule = .ofRecurrence recurrence) ∨
    ∃ minute hour dayOfMonth month weekday recurrence season,
      words text.toList = [minute, hour, dayOfMonth, month, weekday] ∧
      Fields.ReadsAs ⟨minute, hour, dayField dayOfMonth, dayField weekday, precision⟩ recurrence ∧
      readSeason month = .ok season ∧
      schedule = { Schedule.ofRecurrence recurrence with season } := by
  rw [read] at hread
  dsimp only at hread
  rw [words_trimmed] at hread
  split at hread
  · left
    split at hread
    · rename_i recurrence hshortcut
      exact ⟨recurrence, hshortcut, (Except.ok.inj hread).symm⟩
    · cases hread
  · right
    split at hread
    · rename_i minute hour dayOfMonth month weekday hwords
      obtain ⟨recurrence, hrecurrence, hread⟩ := bind_eq_ok_iff.mp hread
      obtain ⟨season, hseason, hread⟩ := bind_eq_ok_iff.mp hread
      exact ⟨_, _, _, _, _, recurrence, season, hwords,
        Fields.readsAs_of_recurrence hrecurrence, hseason, (Except.ok.inj hread).symm⟩
    · cases hread

/-- A line of five fields is read field by field. -/
theorem read_fields {minute hour dayOfMonth month weekday : List Char}
    (hwords : words text.toList = [minute, hour, dayOfMonth, month, weekday])
    (hread : read precision text = .ok schedule) :
    ∃ recurrence season,
      Fields.ReadsAs ⟨minute, hour, dayField dayOfMonth, dayField weekday, precision⟩ recurrence ∧
      readSeason month = .ok season ∧
      schedule = { Schedule.ofRecurrence recurrence with season } := by
  rcases read_eq_ok hread with
    ⟨_, hshortcut, _⟩ | ⟨_, _, _, _, _, recurrence, season, hfields, hrest⟩
  · rw [words_of_shortcut? hshortcut] at hwords
    cases hwords
  · rw [hwords] at hfields
    cases hfields
    exact ⟨recurrence, season, hrest⟩

/-- Five fields that are read on their own make a line. -/
theorem read_of_fields {minute hour dayOfMonth month weekday : List Char} {recurrence : Recurrence}
    {season : List Month} (hwords : words text.toList = [minute, hour, dayOfMonth, month, weekday])
    (hstart : (trimmed text.toList).head? ≠ some '@')
    (hrecurrence : Fields.recurrence
      ⟨minute, hour, dayField dayOfMonth, dayField weekday, precision⟩ = .ok recurrence)
    (hseason : readSeason month = .ok season) :
    read precision text = .ok { Schedule.ofRecurrence recurrence with season } := by
  rw [read]
  dsimp only
  rw [words_trimmed, hwords, if_neg hstart]
  dsimp only
  rw [hrecurrence, hseason]
  rfl

end Lines

end Cadence.Cron
