import Cadence.Occurrence.Forward
import Cadence.Proofs.Occurrence.DateSearch

/-!
# What a forward search finds

Each forward search tries dates in ascending order and takes the first that has
a listed time to offer after the current instant.  So it finds the closest
instant of the dates it tries, and these are the dates that the recurrence
selects from the current one on, up to a bound that each statement names.
-/

namespace Cadence

namespace Frame

variable {frame : Frame} {times : List TimeOfDay} {now hit : Instant}

/-- The earliest time ahead on a date is the closest of that date. -/
theorem finds_earliestAfter (frame : Frame) (times : List TimeOfDay) (date : Date) (now : Instant) :
    Finds (· < ·) (frame.OnDate times date) now (frame.earliestAfter date times now) :=
  Finds.min?_filter.congr fun _ _ => List.mem_map

theorem tries_earliestAfter (date : Date) :
    frame.TriesAhead (frame.OnDate times) (· = date) now (frame.earliestAfter date times now) :=
  .single (frame.finds_earliestAfter times date now)

/-- How many days a daily search tries, counted from the current one. -/
def dailyReach (interval : Nat) : Nat :=
  if interval ≤ 1 then Reach.days + 1 else Reach.manyDays * interval

/-- Whether a search that checks the season month by month tries a month. -/
def TriesMonth (frame : Frame) (seasonal : Bool) (ym : YearMonth) : Prop :=
  (!seasonal || (ym.date? 1).any (inSeason frame.season)) = true

/-- The days from the current one on are tried one by one, those that pass a test. -/
theorem tries_days_ahead {on : Date → Instant → Prop} {look : Date → Option Instant}
    (count : Nat) (test : Date → Bool)
    (hlook : ∀ date, frame.TriesAhead on (· = date) now (look date)) :
    frame.TriesAhead on
      (fun date => (date.IsSupported ∧ test date = true) ∧
        date.dayNumber < (frame.zone.dateOf now).dayNumber + count)
      now ((List.range count).findSome? fun (k : Nat) =>
        ((frame.zone.dateOf now).addDays? k).bind fun date =>
          if test date then look date else none) := by
  refine Tries.findSome? (fun k _ => .date_if _ test hlook) ?_ ?_ ?_
  · refine List.pairwise_lt_range.imp fun {k l} hlt date later hdate hlater => ?_
    exact Date.lt_of_addDays? hdate.1 hlater.1 (by omega)
  · rintro k hk date ⟨hdate, htest⟩
    obtain ⟨hnumber, hsupported⟩ := Date.addDays?_eq_some_iff.mp hdate
    rw [List.mem_range] at hk
    exact ⟨⟨hsupported, htest⟩, by omega⟩
  · rintro date hdate ⟨⟨hsupported, htest⟩, hnumber⟩
    have hdate : (frame.zone.dateOf now).dayNumber ≤ date.dayNumber := Int.not_lt.mp hdate
    exact ⟨(date.dayNumber - (frame.zone.dateOf now).dayNumber).toNat,
      List.mem_range.mpr (by omega), Date.addDays?_eq_some_iff.mpr ⟨by omega, hsupported⟩, htest⟩

section Look

/-! What a forward search sees of a date, `on`, is left open. -/

variable {on : Date → Instant → Prop}
  (hlook : ∀ date, frame.TriesAhead on (· = date) now (frame.earliestAfter date times now))
include hlook

/-! ## Daily recurrences -/

theorem tries_nextDaily {interval : Nat} {days : DayFilter} (hdays : 1 < interval → days = .every) :
    frame.TriesAhead on
      (fun date =>
        (date.IsSupported ∧ (Recurrence.daily interval days times).Selects frame.anchor date) ∧
          date.dayNumber < (frame.zone.dateOf now).dayNumber + dailyReach interval)
      now (frame.nextDaily interval days times now) := by
  unfold nextDaily dailyReach
  split
  · rename_i hinterval
    have haligned : ∀ date : Date,
        isAligned (date.dayNumber - dayAnchor frame.anchor) interval = true :=
      fun date => isAligned_of_le_one _ hinterval
    simp only [Recurrence.Selects, haligned, and_true]
    exact tries_days_ahead _ (fun date => days.allows date.weekday) hlook
  · rename_i hinterval
    have hstep : stepOf interval = interval := stepOf_of_pos (by omega)
    have hlead :=
      stepsAhead_lt ((frame.zone.dateOf now).dayNumber - dayAnchor frame.anchor) interval
    rw [hstep] at hlead
    obtain rfl := hdays (by omega)
    refine Tries.strides
      (fun away => ((frame.zone.dateOf now).addDays? away).bind fun date =>
        frame.earliestAfter date times now)
      hlead (fun away => .date _ hlook) ?_ ?_ ?_
    · intro near far date later hlt hdate hlater
      exact Date.lt_of_addDays? hdate hlater (by omega)
    · intro away date hdate
      obtain ⟨hnumber, hsupported⟩ := Date.addDays?_eq_some_iff.mp hdate
      have haligned := isAligned_ahead_iff (dayAnchor frame.anchor) interval hnumber
      rw [hstep] at haligned
      rw [← haligned]
      constructor
      · rintro ⟨⟨_, _, hselected⟩, hnear⟩
        exact ⟨hselected, by omega⟩
      · rintro ⟨hselected, hnear⟩
        exact ⟨⟨hsupported, rfl, hselected⟩, by omega⟩
    · rintro date hdate ⟨⟨hsupported, _⟩, _⟩
      have hdate : (frame.zone.dateOf now).dayNumber ≤ date.dayNumber := Int.not_lt.mp hdate
      exact ⟨(date.dayNumber - (frame.zone.dateOf now).dayNumber).toNat,
        Date.addDays?_eq_some_iff.mpr ⟨by omega, hsupported⟩⟩

/-! ## Weekly recurrences -/

/-- The listed days of a week are tried in order. -/
theorem tries_after_week {days : List Weekday} {week : Date} (hweek : week.dayNumber % 7 = 1) :
    frame.TriesAhead on
      (fun date => date.IsSupported ∧ date.weekday ∈ days ∧ date.weekStart = week.dayNumber)
      now ((sortedWeekdays days).findSome? fun day =>
        (week.addDays? day.index).bind fun date => frame.earliestAfter date times now) := by
  refine Tries.findSome? (fun day _ => .date _ hlook) ?_
    (fun day hday date hdate => (Date.exists_listed_weekday_iff hweek).mp ⟨day, hday, hdate⟩)
    (fun date _ hdate => (Date.exists_listed_weekday_iff hweek).mpr hdate)
  refine (sortedWeekdays_pairwise days).imp fun {a b} hlt date later hdate hlater => ?_
  exact Date.lt_of_addDays? hdate hlater (by omega)

theorem tries_nextWeekly {interval : Nat} {days : List Weekday}
    {anchor monday : Date} (hanchor : Date.ofDayNumber? (weekAnchor frame.anchor) = some anchor)
    (hmonday : (frame.zone.dateOf now).monday? = some monday) :
    frame.TriesAhead on
      (fun date =>
        (date.IsSupported ∧ (Recurrence.weekly interval days times).Selects frame.anchor date) ∧
          date.weekStart <
            (frame.zone.dateOf now).weekStart + 7 * (Reach.weeks * stepOf interval : Nat))
      now (frame.nextWeekly interval days times now) := by
  obtain ⟨hstart, hsupported⟩ := Date.monday?_eq_some_iff.mp hmonday
  have hmondayMod : monday.dayNumber % 7 = 1 := by rw [hstart, Date.weekStart_emod]
  have hmondayWeek := Date.weekStart_of_emod hmondayMod
  have hmondayWeeks := weekStart_eq_add_weeks hanchor monday
  simp only [nextWeekly, hanchor, hmonday, Option.bind_eq_bind, Option.bind_some,
    Recurrence.Selects, Option.some.injEq, exists_eq_left']
  refine Tries.strides
    (fun away => (monday.addDays? (7 * away : Nat)).bind fun week =>
      (sortedWeekdays days).findSome? fun day =>
        (week.addDays? day.index).bind fun date => frame.earliestAfter date times now)
    (stepsAhead_lt (monday.daysSince anchor / 7) interval)
    (fun away => .bind _ fun week hweek => tries_after_week hlook ?_) ?_ ?_ ?_
  · have := (Date.addDays?_eq_some_iff.mp hweek).1
    omega
  · rintro near far date later hlt ⟨week, hweek, _, _, hdate⟩ ⟨week', hweek', _, _, hlater⟩
    have hfirst := (Date.addDays?_eq_some_iff.mp hweek).1
    have hsecond := (Date.addDays?_eq_some_iff.mp hweek').1
    exact Date.lt_of_weekStart_lt (by omega)
  · rintro away date ⟨week, hweek, hdateSupported, hday, hdate⟩
    have hnumber := (Date.addDays?_eq_some_iff.mp hweek).1
    have hdateWeeks := weekStart_eq_add_weeks hanchor date
    have hdistance : date.daysSince anchor / 7 = monday.daysSince anchor / 7 + away := by omega
    rw [hdistance, isAligned_add_iff]
    constructor
    · rintro ⟨⟨_, _, hsteps⟩, hreach⟩
      exact ⟨hsteps, by omega⟩
    · rintro ⟨hsteps, hreach⟩
      exact ⟨⟨hdateSupported, hday, hsteps⟩, by omega⟩
  · rintro date hdate ⟨⟨hdateSupported, hday, _⟩, _⟩
    have hordered := Date.weekStart_mono (Int.not_lt.mp hdate)
    have hdateMod := date.weekStart_emod
    have hbounds := date.weekStart_bounds
    obtain ⟨week, hweek⟩ : ∃ week : Date, week.dayNumber = date.weekStart := ⟨⟨_⟩, rfl⟩
    have hweekSupported : week.IsSupported := hsupported.of_between hdateSupported
      (show monday.dayNumber ≤ week.dayNumber by omega)
      (show week.dayNumber ≤ date.dayNumber by omega)
    exact ⟨((date.weekStart - monday.dayNumber) / 7).toNat, week,
      Date.addDays?_eq_some_iff.mpr ⟨by omega, hweekSupported⟩, hdateSupported, hday, hweek.symm⟩

/-! ## Monthly recurrences -/

/-- The dates of a month are tried all at once. -/
theorem tries_after_month (target : MonthTarget) (ym : YearMonth) :
    frame.TriesAhead on (· ∈ target.datesIn ym) now
      ((target.datesIn ym).filterMap fun date => frame.earliestAfter date times now).min? :=
  .min?_filterMap hlook

theorem tries_nextMonthly {interval : Nat} {target : MonthTarget} {seasonal : Bool} :
    frame.TriesAhead on
      (fun date => ∃ ym : YearMonth,
        (isAligned (ym.monthsSince (monthAnchor frame.anchor)) interval = true ∧
          date ∈ target.datesIn ym) ∧ frame.TriesMonth seasonal ym ∧
        ym.index + 1 ≤ (YearMonth.ofDate (frame.zone.dateOf now)).index +
          (Reach.months * stepOf interval : Nat))
      now (frame.nextMonthly interval target.datesIn seasonal times now) := by
  have hstart := YearMonth.index_previous (YearMonth.isRegular_ofDate (frame.zone.dateOf now))
  rw [nextMonthly]
  generalize (YearMonth.ofDate (frame.zone.dateOf now)).previous = start at hstart
  refine Tries.strides
    (fun away =>
      if away ≤ Reach.months * stepOf interval ∧
          (!seasonal || ((YearMonth.ofIndex (start.index + away)).date? 1).any
            (inSeason frame.season)) then
        ((target.datesIn (.ofIndex (start.index + away))).filterMap fun date =>
          frame.earliestAfter date times now).min?
      else none)
    (stepsAhead_lt (start.monthsSince (monthAnchor frame.anchor)) interval)
    (fun away => .ite fun _ => tries_after_month hlook target _) ?_ ?_ ?_
  · intro near far date later hlt hdate hlater
    apply MonthTarget.lt_of_mem_datesIn hdate.2 hlater.2
    rw [YearMonth.index_ofIndex, YearMonth.index_ofIndex]
    omega
  · rintro away date ⟨⟨hbound, htries⟩, hmem⟩
    have hindex := YearMonth.index_ofIndex (start.index + away)
    have haligned := isAligned_ahead_iff (monthAnchor frame.anchor).index interval hindex
    constructor
    · rintro ⟨ym, ⟨hymAligned, hymMem⟩, _⟩
      obtain rfl := MonthTarget.eq_of_mem_datesIn hymMem hmem
      have hpos := stepOf_pos interval
      exact ⟨haligned.mp hymAligned, by rw [Nat.add_mul]; omega⟩
    · rintro ⟨hsteps, _⟩
      exact ⟨_, ⟨haligned.mpr hsteps, hmem⟩, htries, by omega⟩
  · rintro date hdate ⟨ym, ⟨_, hmem⟩, htries, hbound⟩
    have hmonths := YearMonth.index_ofDate_mono (Int.not_lt.mp hdate)
    have hnear := MonthTarget.index_of_mem_datesIn hmem
    have hregular := (MonthTarget.dayNumber_of_mem_datesIn hmem).2.1
    have hsame := YearMonth.ofIndex_index_of_isRegular hregular
    obtain ⟨away, haway⟩ : ∃ away : Nat, ym.index = start.index + away :=
      ⟨(ym.index - start.index).toNat, by omega⟩
    rw [haway] at hsame
    exact ⟨away, ⟨by omega, hsame ▸ htries⟩, hsame ▸ hmem⟩

/-! ## Yearly recurrences and single days -/

theorem tries_nextYearly {interval : Nat} {target : YearTarget} :
    frame.TriesAhead on
      (fun date =>
        (date.IsSupported ∧ (Recurrence.yearly interval target times).Selects frame.anchor date) ∧
          date.year < (frame.zone.dateOf now).year + (Reach.years * stepOf interval : Nat))
      now (frame.nextYearly interval target times now) := by
  refine Tries.strides
    (fun away => (target.dateIn? ((frame.zone.dateOf now).year + away)).bind fun date =>
      frame.earliestAfter date times now)
    (stepsAhead_lt ((frame.zone.dateOf now).year - yearAnchor frame.anchor) interval)
    (fun away => .date _ hlook) ?_ ?_ ?_
  · intro near far date later hlt hdate hlater
    have hfirst := (YearTarget.year_of_dateIn? hdate).2
    have hsecond := (YearTarget.year_of_dateIn? hlater).2
    exact Date.lt_of_year_lt (by omega)
  · intro away date hpicked
    obtain ⟨hsupported, hyear⟩ := YearTarget.year_of_dateIn? hpicked
    rw [← isAligned_ahead_iff (yearAnchor frame.anchor) interval hyear]
    constructor
    · rintro ⟨⟨_, hselected, _⟩, hreach⟩
      exact ⟨hselected, by omega⟩
    · rintro ⟨hselected, hreach⟩
      exact ⟨⟨hsupported, hselected, hyear ▸ hpicked⟩, by omega⟩
  · rintro date hdate ⟨⟨_, _, hpicked⟩, _⟩
    have hyear := Date.year_mono (Int.not_lt.mp hdate)
    obtain ⟨away, haway⟩ : ∃ away : Nat, date.year = (frame.zone.dateOf now).year + away :=
      ⟨(date.year - (frame.zone.dateOf now).year).toNat, by omega⟩
    exact ⟨away, haway ▸ hpicked⟩

end Look

/-- A day of every year is a yearly recurrence of interval one. -/
theorem nextOnce_yearly (frame : Frame) (month : Month) (day : Nat) (times : List TimeOfDay)
    (now : Instant) :
    frame.nextOnce (.yearly month day) times now =
      frame.nextYearly 1 (.date month day) times now := by
  have hstep : stepOf 1 = 1 := rfl
  have hlead := stepsAhead_lt ((frame.zone.dateOf now).year - yearAnchor frame.anchor) 1
  rw [hstep, Nat.lt_one_iff] at hlead
  simp only [nextOnce, nextYearly, hlead, hstep, Nat.mul_one, Nat.zero_add, YearTarget.dateIn?]

/-! ## Windows -/

/-- Among the slots of a date, the first one ahead is the closest. -/
theorem finds_firstSlot (huniversal : frame.zone.IsUniversal) {date : Date}
    {start step stop slot : Nat} (hstep : 0 < step) (hstop : stop < 1440)
    (hslot : ∃ k, slot = start + k * step)
    (hahead : slot ≤ stop → now < frame.zone.instantAt date (.ofMinutes slot))
    (hfirst : ∀ k, start + k * step ≤ stop →
      now < frame.zone.instantAt date (.ofMinutes (start + k * step)) → slot ≤ start + k * step) :
    Finds (· < ·) (frame.OnDate ((slotsDown start step stop).map .ofMinutes) date) now
      (if slot ≤ stop ∧ now < frame.zone.instantAt date (.ofMinutes slot) then
        some (frame.zone.instantAt date (.ofMinutes slot)) else none) := by
  obtain ⟨k, rfl⟩ := hslot
  have hclock : ∀ {minutes : Nat}, minutes ≤ stop → (TimeOfDay.ofMinutes minutes).IsOnClock :=
    fun hle => TimeOfDay.isOnClock_ofMinutes (by omega)
  split
  · rename_i hhit
    refine ⟨⟨_, List.mem_map_of_mem ((mem_slotsDown hstep).mpr ⟨by omega, hhit.1, k, rfl⟩), rfl⟩,
      hhit.2, ?_⟩
    rintro moment ⟨time, htime, rfl⟩ hmoment hcloser
    obtain ⟨slot, hlisted, rfl⟩ := List.mem_map.mp htime
    obtain ⟨_, hle, l, rfl⟩ := (mem_slotsDown hstep).mp hlisted
    have hleast := hfirst l hle hmoment
    rw [huniversal.instantAt_lt_iff (hclock hle) (hclock hhit.1)] at hcloser
    simp only [TimeOfDay.minutes_ofMinutes] at hcloser
    omega
  · rename_i hmiss
    rintro moment ⟨time, htime, rfl⟩ hmoment
    obtain ⟨slot, hlisted, rfl⟩ := List.mem_map.mp htime
    obtain ⟨_, hle, l, rfl⟩ := (mem_slotsDown hstep).mp hlisted
    have hleast := hfirst l hle hmoment
    exact hmiss ⟨by omega, hahead (by omega)⟩

/-- The slot tried on the current day is the first after the current minute. -/
theorem slotAfter_spec {step : Nat} (start current : Nat) (hstep : 0 < step) :
    current < slotAfter start step current ∧
      (∃ k, slotAfter start step current = start + k * step) ∧
      ∀ k, current < start + k * step → slotAfter start step current ≤ start + k * step := by
  rw [slotAfter]
  split
  · exact ⟨by omega, ⟨0, by omega⟩, fun k _ => by omega⟩
  · have hdiv := Nat.div_add_mod (current - start) step
    have hmod := Nat.mod_lt (current - start) hstep
    rw [Nat.mul_comm] at hdiv
    refine ⟨by rw [Nat.add_mul]; omega, ⟨_, rfl⟩, fun k hk => ?_⟩
    have hlt : (current - start) / step < k := by
      by_contra hge
      have := Nat.mul_le_mul_right step (Nat.not_lt.mp hge)
      omega
    have := Nat.mul_le_mul_right step (show (current - start) / step + 1 ≤ k from hlt)
    omega

/-- The slot of a window that a search looks at: on the current date the first
after the current minute, on other dates the first of all. -/
def comingSlot (frame : Frame) (start step : Nat) (now : Instant) (date : Date) : Nat :=
  if date = frame.zone.dateOf now then slotAfter start step (frame.zone.timeOf now).minutes
  else start

/-- What a search sees of a window on a date: that slot, if it lies ahead. -/
def slotAhead? (frame : Frame) (start stop step : Nat) (now : Instant) (date : Date) :
    Option Instant :=
  let hit := frame.zone.instantAt date (.ofMinutes (frame.comingSlot start step now date))
  if frame.comingSlot start step now date ≤ stop ∧ now < hit then some hit else none

theorem exists_comingSlot {step : Nat} (start : Nat) (hstep : 0 < step) (now : Instant)
    (date : Date) :
    ∃ k, frame.comingSlot start step now date = start + k * step := by
  rw [comingSlot]
  split
  · exact (slotAfter_spec _ _ hstep).2.1
  · exact ⟨0, by omega⟩

/-- What a search sees of a window is one of its slots, and lies ahead. -/
theorem of_slotAhead? {date : Date} {start stop step : Nat} (hstep : 0 < step)
    (hfound : frame.slotAhead? start stop step now date = some hit) :
    frame.OnDate ((slotsDown start step stop).map .ofMinutes) date hit ∧ now < hit := by
  obtain ⟨⟨hstop, hahead⟩, rfl⟩ := Option.ite_none_right_eq_some.mp hfound |>.imp_right
    Option.some.inj
  obtain ⟨k, hk⟩ := frame.exists_comingSlot start hstep now date
  exact ⟨⟨_, List.mem_map_of_mem ((mem_slotsDown hstep).mpr ⟨by omega, hstop, k, hk⟩), rfl⟩, hahead⟩

theorem nextWindow_eq (frame : Frame) (interval : Nat) (unit : StepUnit) (start stop : TimeOfDay)
    (days : Option DayFilter) (now : Instant) :
    frame.nextWindow interval unit start stop days now =
      (List.range Reach.manyDays).findSome? fun (k : Nat) =>
        ((frame.zone.dateOf now).addDays? k).bind fun date =>
          if days.all (·.allows date.weekday) then
            frame.slotAhead? start.minutes stop.minutes (max (unit.inMinutes interval) 1) now date
          else none := by
  rw [nextWindow]
  congr 1
  funext k
  cases hdate : (frame.zone.dateOf now).addDays? k with
  | none => rfl
  | some date =>
    have hnumber := (Date.addDays?_eq_some_iff.mp hdate).1
    have hcurrent : k = 0 ↔ date = frame.zone.dateOf now := by
      constructor
      · intro hk
        have hsame : date.dayNumber = (frame.zone.dateOf now).dayNumber := by omega
        exact congrArg Date.mk hsame
      · rintro rfl
        omega
    simp only [Option.bind_some, hcurrent, slotAhead?, comingSlot]
    rw [ite_and]
    rfl

theorem tries_nextWindow {on : Date → Instant → Prop} {interval : Nat} {unit : StepUnit}
    {start stop : TimeOfDay} {days : Option DayFilter}
    (hlook : ∀ date, frame.TriesAhead on (· = date) now
      (frame.slotAhead? start.minutes stop.minutes (max (unit.inMinutes interval) 1) now date)) :
    frame.TriesAhead on
      (fun date =>
        (date.IsSupported ∧
          (Recurrence.window interval unit start stop days).Selects frame.anchor date) ∧
        date.dayNumber < (frame.zone.dateOf now).dayNumber + Reach.manyDays)
      now (frame.nextWindow interval unit start stop days now) := by
  rw [nextWindow_eq]
  refine (tries_days_ahead _ (fun date => days.all (·.allows date.weekday)) hlook).congr ?_
  exact fun date => and_congr_left fun _ => and_congr_right fun _ => Option.all_eq_true _ _

/-- In universal time the slot that is looked at is the closest of its date. -/
theorem finds_slotAhead? (huniversal : frame.zone.IsUniversal) {start stop step : Nat}
    (hstep : 0 < step) (hstop : stop < 1440) (date : Date) :
    Finds (· < ·) (frame.OnDate ((slotsDown start step stop).map .ofMinutes) date) now
      (frame.slotAhead? start stop step now date) := by
  have hzone := huniversal.keepsDates
  have hclock : ∀ {slot : Nat}, slot ≤ stop → (TimeOfDay.ofMinutes slot).IsOnClock :=
    fun hle => TimeOfDay.isOnClock_ofMinutes (by omega)
  rcases Int.lt_trichotomy date.dayNumber (frame.zone.dateOf now).dayNumber with hlt | heq | hgt
  · have hnone : frame.slotAhead? start stop step now date = none :=
      if_neg fun hahead => Instant.lt_asymm hahead.2 (hzone.instantAt_lt _ hlt)
    rw [hnone]
    rintro moment ⟨time, _, rfl⟩
    exact Instant.lt_asymm (hzone.instantAt_lt time hlt)
  · obtain rfl : date = frame.zone.dateOf now := congrArg Date.mk heq
    have hslot : frame.comingSlot start step now (frame.zone.dateOf now) =
        slotAfter start step (frame.zone.timeOf now).minutes := if_pos rfl
    obtain ⟨hahead, hslots, hfirst⟩ :=
      slotAfter_spec start (frame.zone.timeOf now).minutes hstep
    rw [slotAhead?, hslot]
    refine finds_firstSlot huniversal hstep hstop hslots (fun hle => ?_) fun k hle hmoment => ?_
    · rwa [huniversal.lt_instantAt_dateOf_iff (hclock hle), TimeOfDay.minutes_ofMinutes]
    · rw [huniversal.lt_instantAt_dateOf_iff (hclock hle), TimeOfDay.minutes_ofMinutes] at hmoment
      exact hfirst k hmoment
  · have hslot : frame.comingSlot start step now date = start :=
      if_neg (by rintro rfl; exact Int.lt_irrefl _ hgt)
    rw [slotAhead?, hslot]
    exact finds_firstSlot huniversal hstep hstop ⟨0, by omega⟩
      (fun _ => hzone.lt_instantAt _ hgt) fun k _ _ => Nat.le_add_right _ _

/-! ## All recurrences -/

/-- The dates that a forward search may land on: those that the recurrence
selects, except that a search which checks the season month by month leaves out
what is picked for a month out of season. -/
def Proposes (frame : Frame) : Recurrence → Date → Prop
  | .monthly interval target _, date => ∃ ym : YearMonth,
    (isAligned (ym.monthsSince (monthAnchor frame.anchor)) interval = true ∧
      date ∈ target.datesIn ym) ∧ frame.TriesMonth target.mayLeaveMonth ym
  | recurrence, date => date.IsSupported ∧ recurrence.Selects frame.anchor date

/-- How far a forward search from one date goes. -/
def Reaches : Recurrence → (start date : Date) → Prop
  | .window _ _ _ _ _, start, date => date.dayNumber < start.dayNumber + Reach.manyDays
  | .daily interval _ _, start, date => date.dayNumber < start.dayNumber + dailyReach interval
  | .weekly interval _ _, start, date => start.monday?.isSome = true ∧
    date.weekStart < start.weekStart + 7 * (Reach.weeks * stepOf interval : Nat)
  | .monthly interval target _, start, date => ∃ ym : YearMonth, date ∈ target.datesIn ym ∧
    ym.index + 1 ≤ (YearMonth.ofDate start).index + (Reach.months * stepOf interval : Nat)
  | .ordinal interval _ _ _, start, date => (YearMonth.ofDate date).index + 1 ≤
    (YearMonth.ofDate start).index + (Reach.months * stepOf interval : Nat)
  | .once (.fixed _) _, _, _ => True
  | .once (.yearly _ _) _, start, date => date.year < start.year + Reach.years
  | .yearly interval _ _, start, date =>
    date.year < start.year + (Reach.years * stepOf interval : Nat)

/-- What a forward search sees of a date. -/
def lookAhead? (frame : Frame) (recurrence : Recurrence) (now : Instant) (date : Date) :
    Option Instant :=
  match recurrence with
  | .window interval unit start stop _ =>
    frame.slotAhead? start.minutes stop.minutes (max (unit.inMinutes interval) 1) now date
  | recurrence => frame.earliestAfter date recurrence.times now

variable {recurrence : Recurrence} {on : Date → Instant → Prop}

/-- A month has a first day if a working day is picked for it. -/
theorem exists_first_of_mem_datesIn {day : Nat} {direction : Option Direction} {ym : YearMonth}
    {date : Date} (hdate : date ∈ (MonthTarget.nearestBusinessDay day direction).datesIn ym) :
    ∃ first, ym.date? 1 = some first := by
  obtain ⟨named, hnamed, _⟩ := Option.bind_eq_some_iff.mp (Option.mem_toList.mp hdate)
  have hexists : (ym.date? day).isSome := Option.isSome_of_mem hnamed
  obtain ⟨hyear, hmonth, _⟩ := Date.ofYmd?_isSome_iff.mp hexists
  have hlong := daysInMonth_bounds ym.year ym.month
  exact Option.isSome_iff_exists.mp
    (Date.ofYmd?_isSome_iff.mpr ⟨hyear, hmonth, Nat.le_refl 1, by omega⟩)

/-- Without a season every month that has a picked date is tried. -/
theorem triesMonth_of_mem_datesIn {target : MonthTarget} {ym : YearMonth} {date : Date}
    (hseason : target.mayLeaveMonth = true → frame.season = [])
    (hdate : date ∈ target.datesIn ym) : frame.TriesMonth target.mayLeaveMonth ym := by
  rw [TriesMonth]
  cases target with
  | nearestBusinessDay day direction =>
    cases direction with
    | none => rfl
    | some direction =>
      obtain ⟨first, hfirst⟩ := exists_first_of_mem_datesIn hdate
      simp only [hfirst, hseason rfl, Option.any_some, inSeason, List.isEmpty_nil, Bool.true_or,
        Bool.or_true]
  | days _ | lastDay | lastBusinessDay | positioned _ _ => rfl

theorem Proposes.selects {date : Date} (hproposes : frame.Proposes recurrence date) :
    date.IsSupported ∧ recurrence.Selects frame.anchor date := by
  cases recurrence with
  | monthly interval target times =>
    obtain ⟨ym, hym, _⟩ := hproposes
    exact ⟨(MonthTarget.dayNumber_of_mem_datesIn hym.2).1, ym, hym⟩
  | window | daily | weekly | ordinal | once | yearly => exact hproposes

/-- A search that does not check the season may land on all selected dates. -/
theorem proposes_iff (hseason : recurrence.mayLeaveMonth = true → frame.season = []) {date : Date} :
    frame.Proposes recurrence date ↔
      date.IsSupported ∧ recurrence.Selects frame.anchor date := by
  refine ⟨Proposes.selects, fun hselects => ?_⟩
  cases recurrence with
  | monthly interval target times =>
    obtain ⟨_, ym, hym⟩ := hselects
    exact ⟨ym, hym, triesMonth_of_mem_datesIn hseason hym.2⟩
  | window | daily | weekly | ordinal | once | yearly => exact hselects

/-- Dates that lie closer are reached as well. -/
theorem Reaches.of_le {start date later : Date} (hle : date ≤ later)
    (hproposes : frame.Proposes recurrence date) (hreaches : Reaches recurrence start later) :
    Reaches recurrence start date := by
  have hnumber : date.dayNumber ≤ later.dayNumber := hle
  have hyear := Date.year_mono hle
  have hmonth := YearMonth.index_ofDate_mono hle
  cases recurrence with
  | window interval unit start stop days => exact Int.lt_of_le_of_lt hnumber hreaches
  | daily interval days times => exact Int.lt_of_le_of_lt hnumber hreaches
  | weekly interval days times =>
    exact ⟨hreaches.1, Int.lt_of_le_of_lt (Date.weekStart_mono hle) hreaches.2⟩
  | monthly interval target times =>
    obtain ⟨ym, ⟨_, hmem⟩, _⟩ := hproposes
    obtain ⟨ym', hmem', hbound⟩ := hreaches
    refine ⟨ym, hmem, ?_⟩
    by_contra hfar
    exact absurd (MonthTarget.lt_of_mem_datesIn hmem' hmem (by omega)) (Int.not_lt.mpr hle)
  | ordinal interval position weekday times =>
    exact Int.le_trans (Int.add_le_add_right hmonth 1) hreaches
  | once day times =>
    cases day with
    | fixed date => trivial
    | yearly month day => exact Int.lt_of_le_of_lt hyear hreaches
  | yearly interval target times => exact Int.lt_of_le_of_lt hyear hreaches

/-- The dates of the next days are within the reach of every search. -/
theorem Proposes.reaches_of_near {start date : Date} (hproposes : frame.Proposes recurrence date)
    (hnear : date.dayNumber ≤ start.dayNumber + Reach.days)
    (hweek : start.monday?.isSome = true) : Reaches recurrence start date := by
  rw [Reach.days] at hnear
  have hwithin : date.dayNumber ≤ start.dayNumber + 28 := by omega
  have hmonth := YearMonth.index_ofDate_le_of_near hwithin
  have hyear := YearMonth.year_le_of_near hwithin
  cases recurrence with
  | window interval unit start stop days =>
    simp only [Reaches, Reach.manyDays]
    omega
  | daily interval days times =>
    simp only [Reaches, dailyReach, Reach.days, Reach.manyDays]
    split <;> omega
  | weekly interval days times =>
    have hdate := date.weekStart_bounds
    have hstart := start.weekStart_bounds
    have hstep := stepOf_pos interval
    refine ⟨hweek, ?_⟩
    simp only [Reach.weeks]
    omega
  | monthly interval target times =>
    obtain ⟨ym, ⟨_, hmem⟩, _⟩ := hproposes
    have hindex := MonthTarget.index_of_mem_datesIn hmem
    have hstep := stepOf_pos interval
    refine ⟨ym, hmem, ?_⟩
    simp only [Reach.months]
    omega
  | ordinal interval position weekday times =>
    have hstep := stepOf_pos interval
    simp only [Reaches, Reach.months]
    omega
  | once day times =>
    cases day with
    | fixed date => trivial
    | yearly month day =>
      simp only [Reaches, Reach.years]
      omega
  | yearly interval target times =>
    have hstep := stepOf_pos interval
    simp only [Reaches, Reach.years]
    omega

/-- A forward search tries the dates it may land on as far as it goes. -/
theorem tries_nextOf (hwell : recurrence.WellFormed)
    (hlook : ∀ date, frame.TriesAhead on (· = date) now (frame.lookAhead? recurrence now date)) :
    frame.TriesAhead on
      (fun date =>
        frame.Proposes recurrence date ∧ Reaches recurrence (frame.zone.dateOf now) date)
      now (frame.nextOf recurrence now) := by
  cases recurrence with
  | window interval unit start stop days => exact tries_nextWindow hlook
  | daily interval days times => exact tries_nextDaily hlook hwell.2.2.1
  | weekly interval days times =>
    cases hanchor : Date.ofDayNumber? (weekAnchor frame.anchor) with
    | none =>
      simp only [nextOf, nextWeekly, hanchor, Option.bind_eq_bind, Option.bind_none]
      refine .none_of_empty fun date hdate => ?_
      obtain ⟨⟨_, _, monday, hmonday, _⟩, _⟩ := hdate
      simp [hanchor] at hmonday
    | some anchor =>
      cases hmonday : (frame.zone.dateOf now).monday? with
      | none =>
        simp only [nextOf, nextWeekly, hanchor, hmonday, Option.bind_eq_bind, Option.bind_some,
          Option.bind_none]
        refine .none_of_empty fun date hdate => ?_
        have := hdate.2.1
        simp [hmonday] at this
      | some monday =>
        refine (tries_nextWeekly hlook hanchor hmonday).congr fun date => ?_
        simp only [Proposes, Reaches, Recurrence.Selects, hmonday, Option.isSome_some, true_and]
  | monthly interval target times =>
    refine (tries_nextMonthly hlook).congr fun date => ?_
    constructor
    · rintro ⟨ym, hym, htries, hbound⟩
      exact ⟨⟨ym, hym, htries⟩, ym, hym.2, hbound⟩
    · rintro ⟨⟨ym, hym, htries⟩, ym', hmem, hbound⟩
      obtain rfl := MonthTarget.eq_of_mem_datesIn hym.2 hmem
      exact ⟨ym, hym, htries, hbound⟩
  | ordinal interval position weekday times =>
    have hdates : (fun ym => (YearMonth.positionedWeekday? ym position weekday).toList) =
        (MonthTarget.positioned position weekday).datesIn := rfl
    rw [nextOf, hdates]
    refine (tries_nextMonthly hlook).congr fun date => ?_
    constructor
    · rintro ⟨ym, hym, _, hbound⟩
      obtain ⟨hsupported, hmonth⟩ := MonthTarget.ofDate_of_mem_datesIn rfl hym.2
      refine ⟨⟨hsupported, ym, hym⟩, ?_⟩
      rwa [Reaches, hmonth]
    · rintro ⟨⟨_, ym, hym⟩, hbound⟩
      obtain ⟨_, hmonth⟩ := YearMonth.ofDate_of_positionedWeekday? (Option.mem_toList.mp hym.2)
      rw [Reaches, hmonth] at hbound
      exact ⟨ym, hym, rfl, hbound⟩
  | once day times =>
    cases day with
    | fixed day =>
      refine (hlook day).congr fun date => ?_
      have hsupported : day.IsSupported := Date.HasFourDigitYear.isSupported hwell.1
      simp only [Proposes, Reaches, Recurrence.Selects, CalendarDay.covers, decide_eq_true_eq,
        and_true]
      constructor
      · rintro rfl
        exact ⟨hsupported, rfl⟩
      · rintro ⟨_, rfl⟩
        rfl
    | yearly month day =>
      rw [nextOf, nextOnce_yearly]
      refine (tries_nextYearly hlook).congr fun date => and_congr_left fun _ => ?_
      exact and_congr_right fun hsupported => (Recurrence.selects_once_yearly hsupported).symm
  | yearly interval target times => exact tries_nextYearly hlook

/-- What a forward search finds is the closest instant ahead that is seen on a date
it may land on, however far this search goes. -/
theorem nearest_shown_of_nextOf (horder : frame.SearchOrder on (· < ·) (· < ·))
    (hwell : recurrence.WellFormed)
    (hlook : ∀ date, frame.TriesAhead on (· = date) now (frame.lookAhead? recurrence now date))
    (hnext : frame.nextOf recurrence now = some hit) :
    IsNearest (· < ·) (ShownBy on (frame.Proposes recurrence)) now hit :=
  horder.nearest_of_bounded _ ((tries_nextOf hwell hlook).finds horder) hnext
    fun hproposes hle hreaches => hreaches.of_le (Int.not_lt.mp hle) hproposes

/-- Where all that a date offers is seen of it, a forward search finds the closest
instant ahead that the recurrence offers. -/
theorem nearest_offer_of_nextOf (hzone : frame.zone.KeepsDates) (hwell : recurrence.WellFormed)
    (hseason : recurrence.mayLeaveMonth = true → frame.season = [])
    (hlook : ∀ date, frame.TriesAhead (frame.OnDate recurrence.times) (· = date) now
      (frame.lookAhead? recurrence now date))
    (hnext : frame.nextOf recurrence now = some hit) :
    IsNearest (· < ·) (frame.Offers recurrence) now hit := by
  have horder : frame.SearchOrder (frame.OnDate recurrence.times) (· < ·) (· < ·) :=
    searchOrder_forward hzone exists_time_of_onDate
  have hproposes : frame.Proposes recurrence = fun date =>
      date.IsSupported ∧ recurrence.Selects frame.anchor date :=
    funext fun _ => propext (proposes_iff hseason)
  rw [offers_eq_shownBy, ← hproposes]
  exact nearest_shown_of_nextOf horder hwell hlook hnext

/-- Of listed times a search sees the earliest one ahead. -/
theorem finds_lookAhead?_of_listed (frame : Frame) (hlisted : recurrence.isWindow = false)
    (date : Date) (now : Instant) :
    Finds (· < ·) (frame.OnDate recurrence.times date) now
      (frame.lookAhead? recurrence now date) := by
  cases recurrence with
  | window => exact nomatch hlisted
  | daily | weekly | monthly | ordinal | once | yearly =>
    exact frame.finds_earliestAfter _ date now

theorem tries_lookAhead?_of_listed (hlisted : recurrence.isWindow = false) (date : Date) :
    frame.TriesAhead (frame.OnDate recurrence.times) (· = date) now
      (frame.lookAhead? recurrence now date) :=
  .single (frame.finds_lookAhead?_of_listed hlisted date now)

/-- In universal time a search sees the earliest instant ahead that a date offers. -/
theorem finds_lookAhead? (huniversal : frame.zone.IsUniversal) (hwell : recurrence.WellFormed)
    (date : Date) (now : Instant) :
    Finds (· < ·) (frame.OnDate recurrence.times date) now
      (frame.lookAhead? recurrence now date) := by
  cases recurrence with
  | window interval unit start stop days =>
    have hlimit := hwell.2.2.1.minutes_lt
    exact finds_slotAhead? huniversal (by omega) hlimit date
  | daily | weekly | monthly | ordinal | once | yearly =>
    exact frame.finds_lookAhead?_of_listed rfl date now

/-- In universal time a forward search finds the closest instant ahead of the dates
that it gets to. -/
theorem finds_nextOf_of_isUniversal (huniversal : frame.zone.IsUniversal)
    (hwell : recurrence.WellFormed) (now : Instant) :
    Finds (· < ·) (ShownBy (frame.OnDate recurrence.times) fun date =>
      frame.Proposes recurrence date ∧ Reaches recurrence (frame.zone.dateOf now) date) now
      (frame.nextOf recurrence now) :=
  (tries_nextOf hwell fun date => .single (finds_lookAhead? huniversal hwell date now)).finds
    (searchOrder_forward huniversal.keepsDates exists_time_of_onDate)

theorem nextOf_eq_some (huniversal : frame.zone.IsUniversal) (hwell : recurrence.WellFormed)
    (hnearest : IsNearest (· < ·) (ShownBy (frame.OnDate recurrence.times) fun date =>
      frame.Proposes recurrence date ∧ Reaches recurrence (frame.zone.dateOf now) date) now hit) :
    frame.nextOf recurrence now = some hit :=
  Finds.eq_some (fun hfirst hsecond => Instant.eq_of_not_lt hfirst hsecond)
    (finds_nextOf_of_isUniversal huniversal hwell now) hnearest

end Frame

end Cadence
