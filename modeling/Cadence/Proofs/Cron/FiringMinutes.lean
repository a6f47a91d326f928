import Mathlib
import Cadence.Proofs.Cron.DayFields
import Cadence.Proofs.Schedule.Occurrences

/-!
# Cron lines fire when all five fields allow it

Cron starts a step over in every hour, while a window steps on through the day.
The two agree because a step that runs through several hours is accepted only if
its last slot and the first of the next hour are one step apart, and then the
step divides the hour.
-/

namespace Cadence.Cron

/-! ## Steps through the day -/

section Slots

variable {interval first final startHour stopHour hour minute : Nat}

/-- The last slot of an hour is the last multiple of the step within its range. -/
theorem le_lastSlot (hpos : 0 < interval) (hlow : first ≤ minute) (hhigh : minute ≤ final)
    (hdvd : interval ∣ minute - first) : minute ≤ Fields.lastSlot first final interval := by
  obtain ⟨count, hcount⟩ := hdvd
  have hle : count ≤ (final - first) / interval :=
    (Nat.le_div_iff_mul_le hpos).mpr (by rw [Nat.mul_comm]; omega)
  have hslots := Nat.mul_le_mul_right interval hle
  rw [Nat.mul_comm count] at hslots
  rw [Fields.lastSlot]
  omega

theorem lastSlot_le (hle : first ≤ final) : Fields.lastSlot first final interval ≤ final := by
  have := Nat.div_mul_le_self (final - first) interval
  rw [Fields.lastSlot]
  omega

theorem minuteStop_bounds (hrange : first ≤ final ∧ final ≤ 59) :
    stopHour * 60 + Fields.lastSlot first final interval ≤
        (Fields.minuteStop first final interval startHour stopHour).minutes ∧
      (Fields.minuteStop first final interval startHour stopHour).minutes ≤ stopHour * 60 + 59 ∧
      (startHour = stopHour →
        (Fields.minuteStop first final interval startHour stopHour).minutes =
          stopHour * 60 + Fields.lastSlot first final interval) := by
  have hlast := @lastSlot_le interval first final hrange.1
  rw [Fields.minuteStop]
  split
  · rename_i hwhole
    obtain ⟨hstart, hstop, -⟩ := hwhole
    simp only [TimeOfDay.lastMinute, TimeOfDay.minutes]
    exact ⟨by omega, by omega, by omega⟩
  · simp only [TimeOfDay.minutes]
    exact ⟨by omega, by omega, fun _ => trivial⟩

section Steady

variable (hfill : Fields.lastSlot first final interval + interval = first + 60)
include hfill

/-- A step whose last slot is one step before the first of the next hour divides the
hour. -/
theorem dvd_sixty_of_steady : interval ∣ 60 := by
  refine ⟨(final - first) / interval + 1, ?_⟩
  rw [Fields.lastSlot] at hfill
  rw [Nat.mul_comm, Nat.succ_mul]
  omega

theorem le_lastSlot_of_steady (hminute : minute ≤ 59) (hlow : first ≤ minute)
    (hdvd : interval ∣ minute - first) : minute ≤ Fields.lastSlot first final interval := by
  have hsum : interval ∣ Fields.lastSlot first final interval + interval - minute := by
    rw [hfill, show first + 60 - minute = 60 - (minute - first) by omega]
    exact Nat.dvd_sub (dvd_sixty_of_steady hfill) hdvd
  have := Nat.le_of_dvd (by omega) hsum
  omega

end Steady

/-- A step that fills the hour and starts before it has gone through once starts
over with the hour. -/
theorem steady_iff (hdvd : interval ∣ 60) (hfirst : first < interval) (hstart : startHour ≤ hour) :
    (∃ count, hour * 60 + minute = startHour * 60 + first + count * interval) ↔
      first ≤ minute ∧ interval ∣ minute - first := by
  constructor
  · rintro ⟨count, hcount⟩
    have hsame : minute % interval = first := by
      calc minute % interval
        _ = (hour * 60 + minute) % interval := by
          rw [Nat.add_mod, Nat.mod_eq_zero_of_dvd (Dvd.dvd.mul_left hdvd hour), Nat.zero_add,
            Nat.mod_mod]
        _ = (startHour * 60 + first) % interval := by rw [hcount, Nat.add_mul_mod_self_right]
        _ = first % interval := by
          rw [Nat.add_mod, Nat.mod_eq_zero_of_dvd (Dvd.dvd.mul_left hdvd startHour), Nat.zero_add,
            Nat.mod_mod]
        _ = first := Nat.mod_eq_of_lt hfirst
    have hle := Nat.mod_le minute interval
    have hmultiple := Nat.dvd_sub_mod (n := interval) minute
    rw [hsame] at hle hmultiple
    exact ⟨hle, hmultiple⟩
  · rintro ⟨hle, steps, hsteps⟩
    obtain ⟨slots, hslots⟩ := hdvd
    obtain ⟨hours, rfl⟩ := Nat.exists_eq_add_of_le hstart
    refine ⟨hours * slots + steps, ?_⟩
    have hproduct : (hours * slots + steps) * interval = hours * 60 + (minute - first) := by
      rw [hslots, hsteps]
      ring
    omega

/-- The slots of a minute step are the minutes that its range allows in each of
its hours. -/
theorem minuteSlot_iff (hpos : 0 < interval) (hrange : first ≤ final ∧ final ≤ 59)
    (hhours : startHour ≤ stopHour)
    (hsteady : startHour ≠ stopHour → Fields.lastSlot first final interval + interval = first + 60)
    (hminute : minute ≤ 59) :
    (startHour * 60 + first ≤ hour * 60 + minute ∧
      hour * 60 + minute ≤
        (Fields.minuteStop first final interval startHour stopHour).minutes ∧
      ∃ count, hour * 60 + minute = startHour * 60 + first + count * interval) ↔
    (first ≤ minute ∧ minute ≤ final ∧ interval ∣ minute - first) ∧
      startHour ≤ hour ∧ hour ≤ stopHour := by
  have hlast := @lastSlot_le interval first final hrange.1
  obtain ⟨hreach, hwithin, hsingle⟩ :=
    @minuteStop_bounds interval first final startHour stopHour hrange
  by_cases hone : startHour = stopHour
  · have hstop := hsingle hone
    constructor
    · rintro ⟨hlow, hhigh, count, hcount⟩
      obtain rfl : hour = startHour := by omega
      exact ⟨⟨by omega, by omega, count, by rw [Nat.mul_comm]; omega⟩, by omega, by omega⟩
    · rintro ⟨⟨hlow, hhigh, hdvd⟩, hfrom, hto⟩
      have hslot := le_lastSlot hpos hlow hhigh hdvd
      obtain ⟨count, hcount⟩ := hdvd
      rw [Nat.mul_comm] at hcount
      exact ⟨by omega, by omega, count, by omega⟩
  · -- The step fills the hour, so each hour has the same slots.
    have hfill := hsteady hone
    have hdvd := dvd_sixty_of_steady hfill
    have hfirst : first < interval := by omega
    have hslot : first ≤ minute → interval ∣ minute - first →
        minute ≤ Fields.lastSlot first final interval :=
      le_lastSlot_of_steady hfill hminute
    constructor
    · rintro ⟨hlow, hhigh, hcount⟩
      have hfrom : startHour ≤ hour := by omega
      obtain ⟨hle, hmultiple⟩ := (steady_iff hdvd hfirst hfrom).mp hcount
      have := hslot hle hmultiple
      exact ⟨⟨hle, by omega, hmultiple⟩, hfrom, by omega⟩
    · rintro ⟨⟨hle, _, hmultiple⟩, hfrom, hto⟩
      have := hslot hle hmultiple
      exact ⟨by omega, by omega, (steady_iff hdvd hfirst hfrom).mpr ⟨hle, hmultiple⟩⟩

/-- The slots of an hour step are the full hours that its range allows.  A step
too long to be written in minutes has no second slot on the day. -/
theorem hourSlot_iff (hpos : 0 < interval) (hstop : stopHour ≤ 23) (hminute : minute ≤ 59) :
    (startHour * 60 ≤ hour * 60 + minute ∧
      hour * 60 + minute ≤ (Fields.hourStop startHour stopHour).minutes ∧
      ∃ count, hour * 60 + minute =
        startHour * 60 + count * max (StepUnit.hours.inMinutes interval) 1) ↔
    minute = 0 ∧ startHour ≤ hour ∧ hour ≤ stopHour ∧ interval ∣ hour - startHour := by
  have hend : stopHour * 60 ≤ (Fields.hourStop startHour stopHour).minutes ∧
      (Fields.hourStop startHour stopHour).minutes ≤ stopHour * 60 + 59 := by
    simp only [Fields.hourStop, TimeOfDay.minutes]
    split <;> omega
  have hstep : max (StepUnit.hours.inMinutes interval) 1 =
      min (interval * 60) Numeral.countLimit := by
    simp only [StepUnit.inMinutes, Numeral.countLimit]
    omega
  rw [hstep]
  by_cases hlong : interval * 60 ≤ Numeral.countLimit
  · rw [Nat.min_eq_left hlong]
    constructor
    · rintro ⟨hlow, hhigh, count, hcount⟩
      rw [← Nat.mul_assoc] at hcount
      exact ⟨by omega, by omega, by omega, count, by rw [Nat.mul_comm]; omega⟩
    · rintro ⟨rfl, hlow, hhigh, count, hcount⟩
      refine ⟨by omega, by omega, count, ?_⟩
      rw [← Nat.mul_assoc, Nat.mul_comm count]
      omega
  · have hlimit : Numeral.countLimit = 4294967295 := rfl
    rw [Nat.min_eq_right (Nat.le_of_not_le hlong), hlimit]
    constructor
    · rintro ⟨hlow, hhigh, count, hcount⟩
      obtain rfl : count = 0 := by omega
      obtain rfl : hour = startHour := by omega
      exact ⟨by omega, by omega, by omega, by rw [Nat.sub_self]; exact Nat.dvd_zero _⟩
    · rintro ⟨rfl, hlow, hhigh, hdvd⟩
      have hsame : hour - startHour = 0 := Nat.eq_zero_of_dvd_of_lt hdvd (by omega)
      exact ⟨by omega, by omega, 0, by omega⟩

end Slots

/-! ## The times of day -/

section Times

variable {fields : Fields} {recurrence : Recurrence} {time : TimeOfDay}

/-- The one time of fields without steps is the one their values name. -/
theorem time_eq_iff {found : TimeOfDay} (hread : fields.time = .ok found) :
    time = found ↔ FieldLists .minute fields.minute time.minute ∧
      FieldLists .hour fields.hour time.hour := by
  obtain ⟨hour, hhour, hread⟩ := bind_eq_ok_iff.mp hread
  obtain ⟨minute, hminute, hread⟩ := bind_eq_ok_iff.mp hread
  obtain rfl := Except.ok.inj hread
  rw [reads_minute.fieldLists_word_iff hminute, reads_hour.fieldLists_word_iff hhour]
  obtain ⟨timeHour, timeMinute⟩ := time
  simp only [TimeOfDay.mk.injEq, and_comm]

theorem isOnClock_of_time (hread : fields.time = .ok time) : time.IsOnClock := by
  obtain ⟨hour, hhour, hread⟩ := bind_eq_ok_iff.mp hread
  obtain ⟨minute, hminute, hread⟩ := bind_eq_ok_iff.mp hread
  obtain rfl := Except.ok.inj hread
  exact ⟨Nat.lt_succ_of_le (FieldKind.value_eq_ok hhour).2.2,
    Nat.lt_succ_of_le (FieldKind.value_eq_ok hminute).2.2⟩

/-- The times of a window are its slots. -/
theorem mem_window_times_iff {interval : Nat} {unit : StepUnit} {start stop : TimeOfDay}
    {days : Option DayFilter} (hclock : time.IsOnClock) :
    time ∈ (Recurrence.window interval unit start stop days).times ↔
      start.minutes ≤ time.minutes ∧ time.minutes ≤ stop.minutes ∧
        ∃ count, time.minutes = start.minutes + count * max (unit.inMinutes interval) 1 := by
  rw [← Frame.mem_slotsDown (show 0 < max (unit.inMinutes interval) 1 by omega),
    Recurrence.times, List.mem_map]
  constructor
  · rintro ⟨slot, hslot, rfl⟩
    rwa [TimeOfDay.minutes_ofMinutes]
  · exact fun hslot => ⟨_, hslot, hclock.ofMinutes_minutes⟩

/-- The slots of steady minute steps are the times that both time fields list. -/
theorem mem_minuteWindow_times_iff {range step : List Char}
    {interval first final startHour stopHour : Nat} {days : Option DayFilter}
    (hstep : readStep step = .ok interval)
    (hbounds : readBounds .minute FieldKind.minute.value range = .ok (first, final))
    (hhours : fields.hourWindow = .ok (startHour, stopHour))
    (hsteady : startHour ≠ stopHour → Fields.lastSlot first final interval + interval = first + 60)
    (hclock : time.IsOnClock) :
    time ∈ (Recurrence.window interval .minutes ⟨startHour, first⟩
        (Fields.minuteStop first final interval startHour stopHour) days).times ↔
      FieldLists .minute (range ++ '/' :: step) time.minute ∧
        FieldLists .hour fields.hour time.hour := by
  have hpos := (readStep_eq_ok hstep).2
  have hrange : first ≤ final ∧ final ≤ 59 := readBounds_value (by decide) hbounds
  obtain ⟨⟨hhours, _⟩, hwindow⟩ := fieldLists_iff_of_hourWindow hhours
  have hunit : max (StepUnit.minutes.inMinutes interval) 1 = interval := by
    simp only [StepUnit.inMinutes]
    omega
  rw [mem_window_times_iff hclock, hunit, fieldLists_step_iff reads_minute hstep hbounds,
    hwindow (Nat.le_of_lt_succ hclock.1),
    ← minuteSlot_iff hpos hrange hhours hsteady (Nat.le_of_lt_succ hclock.2)]
  simp only [TimeOfDay.minutes]

/-- A recurrence read from fields fires at the times that both time fields list. -/
theorem Fields.ReadsAs.mem_times_iff (hreads : fields.ReadsAs recurrence)
    (hexact : fields.precision = .exact) (hclock : time.IsOnClock) :
    time ∈ recurrence.times ↔ FieldLists .minute fields.minute time.minute ∧
      FieldLists .hour fields.hour time.hour := by
  cases hreads with
  | ranked _ _ _ _ htime | lastWeekday _ _ _ htime | specialDay _ _ htime | daily _ _ htime
  | monthly _ _ _ htime =>
    rw [← time_eq_iff htime]
    exact List.mem_singleton
  | minutes hfield hstep hbounds hhours _ _ hsteady =>
    rw [hfield]
    exact mem_minuteWindow_times_iff hstep hbounds hhours (hsteady hexact).2 hclock
  | @hours range step startHour stopHour interval hfield hzero hstep hbounds _ =>
    have hstop : stopHour ≤ 23 := (readBounds_value (by decide) hbounds).2
    have hread : FieldKind.minute.value fields.minute = .ok 0 := by
      rcases hzero with hzero | hzero <;> rw [hzero] <;> rfl
    rw [mem_window_times_iff hclock, reads_minute.fieldLists_word_iff hread, hfield,
      fieldLists_step_iff reads_hour hstep hbounds,
      ← hourSlot_iff (readStep_eq_ok hstep).2 hstop (Nat.le_of_lt_succ hclock.2)]
    simp only [TimeOfDay.minutes, Nat.add_zero]

theorem Fields.ReadsAs.isOnClock (hreads : fields.ReadsAs recurrence)
    (hlisted : recurrence.isWindow = false) (htime : time ∈ recurrence.times) :
    time.IsOnClock := by
  cases hreads with
  | ranked _ _ _ _ hread | lastWeekday _ _ _ hread | specialDay _ _ hread | daily _ _ hread
  | monthly _ _ _ hread =>
    obtain rfl := List.mem_singleton.mp htime
    exact isOnClock_of_time hread
  | minutes | hours => cases hlisted

end Times

/-! ## Whole lines -/

/-- A line of five fields fires in the minutes that every field allows, at each
instant of the supported dates. -/
theorem isOccurrence_ofCron_iff {text : String} {schedule : Schedule}
    {minute hour dayOfMonth month weekday : List Char} {moment : Instant}
    (hwords : words text.toList = [minute, hour, dayOfMonth, month, weekday])
    (hread : Schedule.ofCron text = .ok schedule)
    (hsupported : (Zone.utc.dateOf moment).IsSupported) :
    ∃ fires, schedule.isOccurrence moment = .ok fires ∧
      (fires = true ↔
        FieldLists .minute minute (Zone.utc.timeOf moment).minute ∧
        FieldLists .hour hour (Zone.utc.timeOf moment).hour ∧
        MonthDayAllows dayOfMonth (Zone.utc.dateOf moment) ∧
        FieldLists .month month (Zone.utc.dateOf moment).month ∧
        WeekdayAllows weekday (Zone.utc.dateOf moment)) := by
  obtain ⟨recurrence, season, hreads, hseason, rfl⟩ := read_fields hwords hread
  refine ⟨_, Schedule.isOccurrence_eq_ok rfl moment, ?_⟩
  have hclock := Zone.utc.isOnClock_timeOf moment
  have hfires : (Frame.ofSchedule { Schedule.ofRecurrence recurrence with season } .utc).fires
      recurrence moment = true ↔
      (MonthDayAllows dayOfMonth (Zone.utc.dateOf moment) ∧
        WeekdayAllows weekday (Zone.utc.dateOf moment)) ∧
      FieldLists .minute minute (Zone.utc.timeOf moment).minute ∧
        FieldLists .hour hour (Zone.utc.timeOf moment).hour := by
    rw [Frame.fires_iff_shows, Frame.shows_iff_of_isOnClock (Zone.isUniversal_universal _)
      fun hlisted _ => hreads.isOnClock hlisted]
    refine and_congr ?_ (hreads.mem_times_iff rfl hclock)
    rw [← monthDayAllows_dayField_iff, ← @weekdayAllows_dayField_iff weekday]
    exact hreads.selects_iff hsupported
  have hclauses : Schedule.firesIn { Schedule.ofRecurrence recurrence with season } .utc moment =
      (inSeason season (Zone.utc.dateOf moment) &&
        (Frame.ofSchedule { Schedule.ofRecurrence recurrence with season } .utc).fires
          recurrence moment) := by
    simp only [Schedule.firesIn, Schedule.ofRecurrence, Schedule.skips, Schedule.closingDate?,
      List.any_nil, Option.map_none, Option.any_none, Bool.not_false, Bool.and_true]
  rw [hclauses, Bool.and_eq_true, hfires, inSeason_iff_of_readSeason hseason]
  tauto

/-- The last quarter of the working day on Friday, 2026-01-02. -/
theorem isOccurrence_ofCron_iff_quarters :
    ∃ schedule, Schedule.ofCron "*/15 9-17 ? jan,3 FRI" = .ok schedule ∧
      schedule.isOccurrence (.ofSecond 63903059100) = .ok true := by
  let schedule : Schedule :=
    ⟨.window 15 .minutes ⟨9, 0⟩ ⟨17, 45⟩ (some (.listed [.friday])), none, [], none, none,
      [.january, .march]⟩
  let moment : Instant := .ofSecond 63903059100
  have hwords : words "*/15 9-17 ? jan,3 FRI".toList = [['*', '/', '1', '5'],
      ['9', '-', '1', '7'], ['?'], ['j', 'a', 'n', ',', '3'], ['F', 'R', 'I']] := by cbv
  have hread : Schedule.ofCron "*/15 9-17 ? jan,3 FRI" = .ok schedule :=
    read_of_fields hwords (by decide) (show _ = Except.ok schedule.recurrence by cbv) (by cbv)
  have hsupported : (Zone.utc.dateOf moment).IsSupported := by decide
  obtain ⟨fires, hfires, hiff⟩ := isOccurrence_ofCron_iff hwords hread hsupported
  have hminute : FieldLists .minute ['*', '/', '1', '5'] (Zone.utc.timeOf moment).minute :=
    .inr ⟨['*'] ++ '/' :: ['1', '5'], by decide,
      .step .everything rfl (by decide) (by decide) ⟨3, by decide⟩⟩
  have hhour : FieldLists .hour ['9', '-', '1', '7'] (Zone.utc.timeOf moment).hour :=
    .inr ⟨['9'] ++ '-' :: ['1', '7'], by decide, .range rfl rfl (by decide) (by decide)⟩
  have hmonth : FieldLists .month ['j', 'a', 'n', ',', '3'] (Zone.utc.dateOf moment).month :=
    .inr ⟨['j', 'a', 'n'], by decide, .value (by cbv)⟩
  have hfriday : FieldLists .weekday ['F', 'R', 'I'] 5 :=
    .inr ⟨['F', 'R', 'I'], by decide, .value (by cbv)⟩
  have hweekday : WeekdayAllows ['F', 'R', 'I'] (Zone.utc.dateOf moment) :=
    .listed hfriday (by decide)
  rw [hiff.mpr ⟨hminute, hhour, .everyDay, hmonth, hweekday⟩] at hfires
  exact ⟨schedule, hread, hfires⟩

end Cadence.Cron
