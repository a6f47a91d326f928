import Cadence.Proofs.Occurrence.DateSearch

/-!
# What a backward search finds

The backward searches try dates in descending order and take the last time of a
date, or on the current date the last one that has passed.  They find the
closest instant behind, as the forward searches find the closest one ahead.
-/

namespace Cadence

namespace Frame

variable {frame : Frame} {times : List TimeOfDay} {now hit : Instant}

/-- The latest time of a date as seen from `now` is the closest of that date. -/
theorem finds_latestOn (huniversal : frame.zone.IsUniversal)
    (hclock : ∀ time ∈ times, time.IsOnClock) (date : Date) :
    Finds (· > ·) (frame.OnDate times date) now (frame.latestOn date times now) := by
  have hzone := huniversal.keepsDates
  unfold latestOn
  dsimp only
  split
  · rename_i hlater
    rintro moment ⟨time, _, rfl⟩
    exact Instant.lt_asymm (hzone.lt_instantAt time hlater)
  · split
    · exact Finds.max?_filter.congr fun _ _ => List.mem_map
    · rename_i hnot hne
      have hearlier : date < frame.zone.dateOf now :=
        Date.lt_of_le_of_ne (Int.not_lt.mp hnot) hne
      rw [lastTime]
      cases hmax : times.max? with
      | none =>
        rw [List.max?_eq_none_iff] at hmax
        subst hmax
        exact Finds.none_of_empty fun moment ⟨_, htime, _⟩ => by simp at htime
      | some last =>
        rw [List.max?_eq_some_iff] at hmax
        obtain ⟨hmem, hgreatest⟩ := hmax
        refine ⟨⟨last, hmem, rfl⟩, hzone.instantAt_lt last hearlier, ?_⟩
        rintro moment ⟨time, htime, rfl⟩ _
        have hle := TimeOfDay.minutes_mono (hclock time htime) (hgreatest time htime)
        change ¬ frame.zone.instantAt date last < frame.zone.instantAt date time
        rw [huniversal.instantAt_lt_iff (hclock last hmem) (hclock time htime)]
        omega

theorem onDate_of_latestOn {date : Date} (hfound : frame.latestOn date times now = some hit) :
    frame.OnDate times date hit := by
  unfold latestOn at hfound
  dsimp only at hfound
  split at hfound
  · exact nomatch hfound
  · split at hfound
    · have hlatest := List.max?_mem hfound
      obtain ⟨time, htime, rfl⟩ := List.mem_map.mp (List.mem_filter.mp hlatest).1
      exact ⟨time, htime, rfl⟩
    · obtain ⟨time, htime, rfl⟩ := Option.map_eq_some_iff.mp hfound
      exact ⟨time, List.max?_mem htime, rfl⟩

theorem triesBehind_latestOn (huniversal : frame.zone.IsUniversal)
    (hclock : ∀ time ∈ times, time.IsOnClock) (date : Date) :
    frame.TriesBehind (frame.OnDate times) (· = date) now (frame.latestOn date times now) :=
  .single (finds_latestOn huniversal hclock date)

/-- The days up to the current one are tried one by one, those that pass a test. -/
theorem tries_days_behind {on : Date → Instant → Prop} {look : Date → Option Instant}
    (count : Nat) (test : Date → Bool)
    (hlook : ∀ date, frame.TriesBehind on (· = date) now (look date)) :
    frame.TriesBehind on
      (fun date => (date.IsSupported ∧ test date = true) ∧
        (frame.zone.dateOf now).dayNumber < date.dayNumber + count)
      now ((List.range count).findSome? fun (k : Nat) =>
        ((frame.zone.dateOf now).addDays? (-k)).bind fun date =>
          if test date then look date else none) := by
  refine Tries.findSome? (fun k _ => .date_if _ test hlook) ?_ ?_ ?_
  · refine List.pairwise_lt_range.imp fun {k l} hlt date earlier hdate hearlier => ?_
    exact Date.lt_of_addDays? hearlier.1 hdate.1 (by omega)
  · rintro k hk date ⟨hdate, htest⟩
    obtain ⟨hnumber, hsupported⟩ := Date.addDays?_eq_some_iff.mp hdate
    rw [List.mem_range] at hk
    exact ⟨⟨hsupported, htest⟩, by omega⟩
  · rintro date hdate ⟨⟨hsupported, htest⟩, hnumber⟩
    have hdate : date.dayNumber ≤ (frame.zone.dateOf now).dayNumber := Int.not_lt.mp hdate
    exact ⟨((frame.zone.dateOf now).dayNumber - date.dayNumber).toNat,
      List.mem_range.mpr (by omega), Date.addDays?_eq_some_iff.mpr ⟨by omega, hsupported⟩, htest⟩

section Look

/-! What a backward search sees of a date, `on`, is left open: in universal time
it is all listed times that have passed, elsewhere only the one it picks. -/

variable {on : Date → Instant → Prop}
  (hlook : ∀ date, frame.TriesBehind on (· = date) now (frame.latestOn date times now))
include hlook

/-! ## Daily recurrences -/

/-- How many days a backward search for a daily recurrence tries, counted from
the current one. -/
def dailyReachBack (interval : Nat) : Nat :=
  if interval ≤ 1 then Reach.days + 1 else Reach.alignedDaysBack * interval

theorem tries_previousDaily {interval : Nat} {days : DayFilter}
    (hdays : 1 < interval → days = .every) :
    frame.TriesBehind on
      (fun date =>
        (date.IsSupported ∧ (Recurrence.daily interval days times).Selects frame.anchor date) ∧
          (frame.zone.dateOf now).dayNumber < date.dayNumber + dailyReachBack interval)
      now (frame.previousDaily interval days times now) := by
  unfold previousDaily dailyReachBack
  split
  · rename_i hinterval
    have haligned : ∀ date : Date,
        isAligned (date.dayNumber - dayAnchor frame.anchor) interval = true :=
      fun date => isAligned_of_le_one _ hinterval
    simp only [Recurrence.Selects, haligned, and_true]
    exact tries_days_behind _ (fun date => days.allows date.weekday) hlook
  · rename_i hinterval
    have hstep : stepOf interval = interval := stepOf_of_pos (by omega)
    have hlag :=
      stepsBehind_lt ((frame.zone.dateOf now).dayNumber - dayAnchor frame.anchor) interval
    rw [hstep] at hlag
    obtain rfl := hdays (by omega)
    refine Tries.strides
      (fun away => ((frame.zone.dateOf now).addDays? (-(away : Nat))).bind fun date =>
        frame.latestOn date times now)
      hlag (fun away => .date _ hlook) ?_ ?_ ?_
    · intro near far date earlier hlt hdate hearlier
      exact Date.lt_of_addDays? hearlier hdate (by omega)
    · intro away date hdate
      obtain ⟨hnumber, hsupported⟩ := Date.addDays?_eq_some_iff.mp hdate
      have haligned := isAligned_behind_iff (dayAnchor frame.anchor) interval
        (hnumber.trans Int.sub_eq_add_neg.symm)
      rw [hstep] at haligned
      rw [← haligned]
      constructor
      · rintro ⟨⟨_, _, hselected⟩, hnear⟩
        exact ⟨hselected, by omega⟩
      · rintro ⟨hselected, hnear⟩
        exact ⟨⟨hsupported, rfl, hselected⟩, by omega⟩
    · rintro date hdate ⟨⟨hsupported, _⟩, _⟩
      have hdate : date.dayNumber ≤ (frame.zone.dateOf now).dayNumber := Int.not_lt.mp hdate
      exact ⟨((frame.zone.dateOf now).dayNumber - date.dayNumber).toNat,
        Date.addDays?_eq_some_iff.mpr ⟨by omega, hsupported⟩⟩

/-! ## Weekly recurrences -/

/-- The listed days of a week are tried from the last one down. -/
theorem tries_before_week {days : List Weekday} {week : Date} (hweek : week.dayNumber % 7 = 1) :
    frame.TriesBehind on
      (fun date => date.IsSupported ∧ date.weekday ∈ days ∧ date.weekStart = week.dayNumber)
      now ((sortedWeekdays days).reverse.findSome? fun day =>
        (week.addDays? day.index).bind fun date => frame.latestOn date times now) := by
  refine Tries.findSome? (fun day _ => .date _ hlook) ?_
    (fun day hday date hdate => (Date.exists_listed_weekday_iff hweek).mp
      ⟨day, List.mem_reverse.mp hday, hdate⟩)
    (fun date _ hdate => ?_)
  · rw [List.pairwise_reverse]
    refine (sortedWeekdays_pairwise days).imp fun {a b} hlt date earlier hdate hearlier => ?_
    exact Date.lt_of_addDays? hearlier hdate (by omega)
  · simp only [List.mem_reverse]
    exact (Date.exists_listed_weekday_iff hweek).mpr hdate

theorem tries_previousWeekly {interval : Nat} {days : List Weekday}
    {anchor monday latest : Date}
    (hanchor : Date.ofDayNumber? (weekAnchor frame.anchor) = some anchor)
    (hmonday : (frame.zone.dateOf now).monday? = some monday)
    (hlatest : monday.addDays?
      (-(7 * stepsBehind (monday.daysSince anchor / 7) interval : Nat)) = some latest)
    (hreaches : reachesWeekdays latest days = true) :
    frame.TriesBehind on
      (fun date =>
        (date.IsSupported ∧ (Recurrence.weekly interval days times).Selects frame.anchor date) ∧
          Date.least.dayNumber ≤ date.weekStart ∧ (frame.zone.dateOf now).weekStart <
            date.weekStart + 7 * (Reach.weeks * stepOf interval : Nat))
      now (frame.previousWeekly interval days times now) := by
  obtain ⟨hstart, hsupported⟩ := Date.monday?_eq_some_iff.mp hmonday
  have hmondayMod : monday.dayNumber % 7 = 1 := by rw [hstart, Date.weekStart_emod]
  have hmondayWeek := Date.weekStart_of_emod hmondayMod
  have hmondayWeeks := weekStart_eq_add_weeks hanchor monday
  have hnumber := (Date.addDays?_eq_some_iff.mp hlatest).1
  -- The weeks are counted from the latest aligned one; here they are from the current one.
  have hweeks (k : Nat) : latest.addDays? (-(7 * (k * stepOf interval) : Nat)) =
      monday.addDays? (-(7 * (stepsBehind (monday.daysSince anchor / 7) interval +
        k * stepOf interval) : Nat)) := by
    rw [Date.addDays?, Date.addDays?, hnumber]
    congr 1
    omega
  simp only [previousWeekly, hanchor, hmonday, hlatest, hreaches, hweeks, Option.bind_eq_bind,
    Option.bind_some, if_true, Recurrence.Selects, Option.some.injEq, exists_eq_left']
  refine Tries.strides
    (fun away => (monday.addDays? (-(7 * away : Nat))).bind fun week =>
      (sortedWeekdays days).reverse.findSome? fun day =>
        (week.addDays? day.index).bind fun date => frame.latestOn date times now)
    (stepsBehind_lt (monday.daysSince anchor / 7) interval)
    (fun away => .bind _ fun week hweek => tries_before_week hlook ?_) ?_ ?_ ?_
  · have := (Date.addDays?_eq_some_iff.mp hweek).1
    omega
  · rintro near far date earlier hlt ⟨week, hweek, _, _, hdate⟩ ⟨week', hweek', _, _, hearlier⟩
    have hfirst := (Date.addDays?_eq_some_iff.mp hweek).1
    have hsecond := (Date.addDays?_eq_some_iff.mp hweek').1
    exact Date.lt_of_weekStart_lt (by omega)
  · rintro away date ⟨week, hweek, hdateSupported, hday, hdate⟩
    obtain ⟨hweekNumber, hweekSupported⟩ := Date.addDays?_eq_some_iff.mp hweek
    have hleast : Date.least.dayNumber ≤ week.dayNumber := hweekSupported.1
    have hdateWeeks := weekStart_eq_add_weeks hanchor date
    have hdistance : date.daysSince anchor / 7 = monday.daysSince anchor / 7 - away := by omega
    rw [hdistance, isAligned_sub_iff]
    constructor
    · rintro ⟨⟨_, _, hsteps⟩, _, hreach⟩
      exact ⟨hsteps, by omega⟩
    · rintro ⟨hsteps, hreach⟩
      exact ⟨⟨hdateSupported, hday, hsteps⟩, by omega, by omega⟩
  · rintro date hdate ⟨⟨hdateSupported, hday, _⟩, hleast, _⟩
    have hordered := Date.weekStart_mono (Int.not_lt.mp hdate)
    have hdateMod := date.weekStart_emod
    have hbounds := date.weekStart_bounds
    obtain ⟨week, hweek⟩ : ∃ week : Date, week.dayNumber = date.weekStart := ⟨⟨_⟩, rfl⟩
    have hgreatest : date.dayNumber ≤ Date.greatest.dayNumber := hdateSupported.2
    have hweekSupported : week.IsSupported :=
      ⟨show Date.least.dayNumber ≤ week.dayNumber by omega,
        show week.dayNumber ≤ Date.greatest.dayNumber by omega⟩
    exact ⟨((monday.dayNumber - date.weekStart) / 7).toNat, week,
      Date.addDays?_eq_some_iff.mpr ⟨by omega, hweekSupported⟩, hdateSupported, hday, hweek.symm⟩

/-! ## Monthly recurrences -/

/-- The dates of a month are tried from the last one down. -/
theorem tries_before_month (target : MonthTarget) (ym : YearMonth) :
    frame.TriesBehind on (· ∈ target.datesIn ym) now
      ((target.datesIn ym).reverse.findSome? fun date => frame.latestOn date times now) := by
  refine Tries.findSome? (fun date _ => hlook date) ?_ ?_ ?_
  · rw [List.pairwise_reverse]
    refine (target.datesIn_pairwise ym).imp fun {earlier date} hlt => ?_
    rintro _ _ rfl rfl
    exact hlt
  · rintro date hdate _ rfl
    exact List.mem_reverse.mp hdate
  · exact fun date _ hdate => ⟨date, List.mem_reverse.mpr hdate, rfl⟩

theorem tries_previousMonthly {interval : Nat} {target : MonthTarget} :
    frame.TriesBehind on
      (fun date => ∃ ym : YearMonth,
        (isAligned (ym.monthsSince (monthAnchor frame.anchor)) interval = true ∧
          date ∈ target.datesIn ym) ∧
        (YearMonth.ofDate (frame.zone.dateOf now)).index + 1 ≤ ym.index +
          (Reach.months * stepOf interval : Nat))
      now (frame.previousMonthly interval target.datesIn times now) := by
  have hstart := YearMonth.index_next (YearMonth.isRegular_ofDate (frame.zone.dateOf now))
  rw [previousMonthly]
  generalize (YearMonth.ofDate (frame.zone.dateOf now)).next = start at hstart
  refine Tries.strides
    (fun away =>
      if away ≤ Reach.months * stepOf interval then
        (target.datesIn (.ofIndex (start.index - away))).reverse.findSome? fun date =>
          frame.latestOn date times now
      else none)
    (stepsBehind_lt (start.monthsSince (monthAnchor frame.anchor)) interval)
    (fun away => .ite fun _ => tries_before_month hlook target _) ?_ ?_ ?_
  · intro near far date earlier hlt hdate hearlier
    apply MonthTarget.lt_of_mem_datesIn hearlier.2 hdate.2
    rw [YearMonth.index_ofIndex, YearMonth.index_ofIndex]
    omega
  · rintro away date ⟨hbound, hmem⟩
    have hindex := YearMonth.index_ofIndex (start.index - away)
    have haligned := isAligned_behind_iff (monthAnchor frame.anchor).index interval hindex
    constructor
    · rintro ⟨ym, ⟨hymAligned, hymMem⟩, _⟩
      obtain rfl := MonthTarget.eq_of_mem_datesIn hymMem hmem
      have hpos := stepOf_pos interval
      exact ⟨haligned.mp hymAligned, by rw [Nat.add_mul]; omega⟩
    · rintro ⟨hsteps, _⟩
      exact ⟨_, ⟨haligned.mpr hsteps, hmem⟩, by omega⟩
  · rintro date hdate ⟨ym, ⟨_, hmem⟩, hbound⟩
    have hmonths := YearMonth.index_ofDate_mono (Int.not_lt.mp hdate)
    have hnear := MonthTarget.index_of_mem_datesIn hmem
    have hregular := (MonthTarget.dayNumber_of_mem_datesIn hmem).2.1
    have hsame := YearMonth.ofIndex_index_of_isRegular hregular
    obtain ⟨away, haway⟩ : ∃ away : Nat, ym.index = start.index - away :=
      ⟨(start.index - ym.index).toNat, by omega⟩
    rw [haway] at hsame
    exact ⟨away, by omega, hsame ▸ hmem⟩

/-! ## Yearly recurrences -/

theorem tries_previousYearly {interval : Nat} {target : YearTarget} :
    frame.TriesBehind on
      (fun date =>
        (date.IsSupported ∧ (Recurrence.yearly interval target times).Selects frame.anchor date) ∧
          (frame.zone.dateOf now).year < date.year + (Reach.years * stepOf interval : Nat))
      now (frame.previousYearly interval target times now) := by
  refine Tries.strides
    (fun away => (target.dateIn? ((frame.zone.dateOf now).year - away)).bind fun date =>
      frame.latestOn date times now)
    (stepsBehind_lt ((frame.zone.dateOf now).year - yearAnchor frame.anchor) interval)
    (fun away => .date _ hlook) ?_ ?_ ?_
  · intro near far date earlier hlt hdate hearlier
    have hfirst := (YearTarget.year_of_dateIn? hdate).2
    have hsecond := (YearTarget.year_of_dateIn? hearlier).2
    exact Date.lt_of_year_lt (by omega)
  · intro away date hpicked
    obtain ⟨hsupported, hyear⟩ := YearTarget.year_of_dateIn? hpicked
    rw [← isAligned_behind_iff (yearAnchor frame.anchor) interval hyear]
    constructor
    · rintro ⟨⟨_, hselected, _⟩, hreach⟩
      exact ⟨hselected, by omega⟩
    · rintro ⟨hselected, hreach⟩
      exact ⟨⟨hsupported, hselected, hyear ▸ hpicked⟩, by omega⟩
  · rintro date hdate ⟨⟨_, _, hpicked⟩, _⟩
    have hyear := Date.year_mono (Int.not_lt.mp hdate)
    obtain ⟨away, haway⟩ : ∃ away : Nat, date.year = (frame.zone.dateOf now).year - away :=
      ⟨((frame.zone.dateOf now).year - date.year).toNat, by omega⟩
    exact ⟨away, haway ▸ hpicked⟩

end Look

/-- A day of every year is a yearly recurrence of interval one. -/
theorem previousOnce_yearly (frame : Frame) (month : Month) (day : Nat) (times : List TimeOfDay)
    (now : Instant) :
    frame.previousOnce (.yearly month day) times now =
      frame.previousYearly 1 (.date month day) times now := by
  have hstep : stepOf 1 = 1 := rfl
  have hlag := stepsBehind_lt ((frame.zone.dateOf now).year - yearAnchor frame.anchor) 1
  rw [hstep, Nat.lt_one_iff] at hlag
  simp only [previousOnce, previousYearly, hlag, hstep, Nat.mul_one, Nat.zero_add,
    YearTarget.dateIn?]

/-! ## Windows -/

/-- The slots of a date are tried from the last one down.  Slots after the final
one do not matter if none of them has passed. -/
theorem finds_lastSlot (huniversal : frame.zone.IsUniversal) {date : Date}
    {start step stop final : Nat} (hstep : 0 < step) (hstop : stop < 1440) (hfinal : final ≤ stop)
    (hpassed : ∀ slot, slot ≤ stop → frame.zone.instantAt date (.ofMinutes slot) < now →
      slot ≤ final) :
    Finds (· > ·) (frame.OnDate ((slotsDown start step stop).map .ofMinutes) date) now
      ((slotsDown start step final).findSome? fun slot =>
        if frame.zone.instantAt date (.ofMinutes slot) < now then
          some (frame.zone.instantAt date (.ofMinutes slot)) else none) := by
  have hclock : ∀ {slot : Nat}, slot ≤ stop → (TimeOfDay.ofMinutes slot).IsOnClock :=
    fun hle => TimeOfDay.isOnClock_ofMinutes (by omega)
  refine (Finds.findSome? Instant.lt_asymm
    (fun slot moment => moment = frame.zone.instantAt date (.ofMinutes slot))
    (fun slot _ => Finds.single Instant.lt_asymm _) ?_).congr ?_
  · refine (slotsDown_pairwise _ _ hstep).imp_of_mem fun {first second} hfirst hsecond hlt => ?_
    rintro _ _ rfl rfl
    have hfirst := ((mem_slotsDown hstep).mp hfirst).2.1
    have hsecond := ((mem_slotsDown hstep).mp hsecond).2.1
    rw [huniversal.instantAt_lt_iff (hclock (by omega)) (hclock (by omega))]
    simpa only [TimeOfDay.minutes_ofMinutes] using hlt
  · intro moment hmoment
    simp only [OnDate, List.mem_map, mem_slotsDown hstep]
    constructor
    · rintro ⟨slot, ⟨hlow, hhigh, hslot⟩, rfl⟩
      exact ⟨_, ⟨slot, ⟨hlow, by omega, hslot⟩, rfl⟩, rfl⟩
    · rintro ⟨_, ⟨slot, ⟨hlow, hhigh, hslot⟩, rfl⟩, rfl⟩
      exact ⟨slot, ⟨hlow, hpassed slot hhigh hmoment, hslot⟩, rfl⟩

/-- The slots of a window that a search goes through end here: on the current
date with the current minute, on other dates with the window. -/
def finalMinute (frame : Frame) (stop : Nat) (now : Instant) (date : Date) : Nat :=
  if date = frame.zone.dateOf now then min (frame.zone.timeOf now).minutes stop else stop

/-- What a search sees of a window on a date: the last of those slots that has
passed. -/
def slotBehind? (frame : Frame) (start stop step : Nat) (now : Instant) (date : Date) :
    Option Instant :=
  (slotsDown start step (frame.finalMinute stop now date)).findSome? fun slot =>
    let hit := frame.zone.instantAt date (.ofMinutes slot)
    if hit < now then some hit else none

theorem finalMinute_le (frame : Frame) (stop : Nat) (now : Instant) (date : Date) :
    frame.finalMinute stop now date ≤ stop := by
  rw [finalMinute]
  split
  · exact Nat.min_le_right _ _
  · exact Nat.le_refl _

/-- What a search sees of a window is one of its slots, and has passed. -/
theorem of_slotBehind? {date : Date} {start stop step : Nat} (hstep : 0 < step)
    (hfound : frame.slotBehind? start stop step now date = some hit) :
    frame.OnDate ((slotsDown start step stop).map .ofMinutes) date hit ∧ hit < now := by
  obtain ⟨slot, hslot, hhit⟩ := List.exists_of_findSome?_eq_some hfound
  obtain ⟨hpassed, rfl⟩ := Option.ite_none_right_eq_some.mp hhit |>.imp_right Option.some.inj
  obtain ⟨hstart, hfinal, hsteps⟩ := (mem_slotsDown hstep).mp hslot
  have hstop := hfinal.trans (frame.finalMinute_le stop now date)
  exact ⟨⟨_, List.mem_map_of_mem ((mem_slotsDown hstep).mpr ⟨hstart, hstop, hsteps⟩), rfl⟩, hpassed⟩

theorem previousWindow_eq (frame : Frame) (interval : Nat) (unit : StepUnit)
    (start stop : TimeOfDay) (days : Option DayFilter) (now : Instant) :
    frame.previousWindow interval unit start stop days now =
      (List.range Reach.days).findSome? fun (k : Nat) =>
        ((frame.zone.dateOf now).addDays? (-k)).bind fun date =>
          if days.all (·.allows date.weekday) then
            frame.slotBehind? start.minutes stop.minutes (max (unit.inMinutes interval) 1) now date
          else none := by
  rw [previousWindow]
  congr 1
  funext k
  cases hdate : (frame.zone.dateOf now).addDays? (-k) with
  | none => rfl
  | some date =>
    have hnumber := (Date.addDays?_eq_some_iff.mp hdate).1
    have hcurrent : k = 0 ↔ date = frame.zone.dateOf now := by
      constructor
      · intro hk
        have hsame : date.dayNumber = (frame.zone.dateOf now).dayNumber := by omega
        exact congrArg Date.mk hsame
      · rintro rfl
        omega
    simp only [Option.bind_some, hcurrent, slotBehind?, finalMinute]

theorem tries_previousWindow {on : Date → Instant → Prop} {interval : Nat} {unit : StepUnit}
    {start stop : TimeOfDay} {days : Option DayFilter}
    (hlook : ∀ date, frame.TriesBehind on (· = date) now
      (frame.slotBehind? start.minutes stop.minutes (max (unit.inMinutes interval) 1) now date)) :
    frame.TriesBehind on
      (fun date =>
        (date.IsSupported ∧
          (Recurrence.window interval unit start stop days).Selects frame.anchor date) ∧
        (frame.zone.dateOf now).dayNumber < date.dayNumber + Reach.days)
      now (frame.previousWindow interval unit start stop days now) := by
  rw [previousWindow_eq]
  refine (tries_days_behind _ (fun date => days.all (·.allows date.weekday)) hlook).congr ?_
  exact fun date => and_congr_left fun _ => and_congr_right fun _ => Option.all_eq_true _ _

/-- In universal time the slot that is found is the closest of its date. -/
theorem finds_slotBehind? (huniversal : frame.zone.IsUniversal) {start stop step : Nat}
    (hstep : 0 < step) (hstop : stop < 1440) (date : Date) :
    Finds (· > ·) (frame.OnDate ((slotsDown start step stop).map .ofMinutes) date) now
      (frame.slotBehind? start stop step now date) := by
  refine finds_lastSlot huniversal hstep hstop (frame.finalMinute_le stop now date) ?_
  intro slot hle hpassed
  rw [finalMinute]
  split
  · rename_i hsame
    subst hsame
    have := huniversal.minutes_le_of_instantAt_lt
      (TimeOfDay.isOnClock_ofMinutes (by omega)) hpassed
    rw [TimeOfDay.minutes_ofMinutes] at this
    omega
  · exact hle

/-! ## All recurrences -/

/-- The aligned week in which a backward search for a weekly recurrence begins. -/
def latestWeek? (frame : Frame) (interval : Nat) (start : Date) : Option Date := do
  let anchor ← Date.ofDayNumber? (weekAnchor frame.anchor)
  let monday ← start.monday?
  monday.addDays? (-(7 * stepsBehind (monday.daysSince anchor / 7) interval : Nat))

/-- How far a backward search from one date goes.  That for a weekly recurrence
does not start in a week that the calendar ends within. -/
def ReachesBack (frame : Frame) : Recurrence → (start date : Date) → Prop
  | .window _ _ _ _ _, start, date => start.dayNumber < date.dayNumber + Reach.days
  | .daily interval _ _, start, date => start.dayNumber < date.dayNumber + dailyReachBack interval
  | .weekly interval days _, start, date =>
    (frame.latestWeek? interval start).any (reachesWeekdays · days) = true ∧
      Date.least.dayNumber ≤ date.weekStart ∧
      start.weekStart < date.weekStart + 7 * (Reach.weeks * stepOf interval : Nat)
  | .monthly interval target _, start, date => ∃ ym : YearMonth, date ∈ target.datesIn ym ∧
    (YearMonth.ofDate start).index + 1 ≤ ym.index + (Reach.months * stepOf interval : Nat)
  | .ordinal interval _ _ _, start, date => (YearMonth.ofDate start).index + 1 ≤
    (YearMonth.ofDate date).index + (Reach.months * stepOf interval : Nat)
  | .once (.fixed _) _, _, _ => True
  | .once (.yearly _ _) _, start, date => start.year < date.year + Reach.years
  | .yearly interval _ _, start, date =>
    start.year < date.year + (Reach.years * stepOf interval : Nat)

/-- What a backward search sees of a date. -/
def lookBehind? (frame : Frame) (recurrence : Recurrence) (now : Instant) (date : Date) :
    Option Instant :=
  match recurrence with
  | .window interval unit start stop _ =>
    frame.slotBehind? start.minutes stop.minutes (max (unit.inMinutes interval) 1) now date
  | recurrence => frame.latestOn date recurrence.times now

variable {recurrence : Recurrence} {on : Date → Instant → Prop}

theorem previousWeekly_eq_none {interval : Nat} {days : List Weekday}
    (hstart : ¬ (frame.latestWeek? interval (frame.zone.dateOf now)).any
      (reachesWeekdays · days) = true) :
    frame.previousWeekly interval days times now = none := by
  rw [Option.eq_none_iff_forall_ne_some]
  intro hit hprevious
  simp only [previousWeekly, Option.bind_eq_bind, Option.bind_eq_some_iff,
    Option.ite_none_right_eq_some] at hprevious
  obtain ⟨anchor, hanchor, monday, hmonday, latest, hlatest, hreaches, _⟩ := hprevious
  apply hstart
  simp only [latestWeek?, hanchor, hmonday, hlatest, hreaches, Option.bind_eq_bind,
    Option.bind_some, Option.any_some]

/-- Dates that lie closer are reached as well. -/
theorem ReachesBack.of_ge {start date earlier : Date} (hle : earlier ≤ date)
    (hselects : recurrence.Selects frame.anchor date)
    (hreaches : frame.ReachesBack recurrence start earlier) :
    frame.ReachesBack recurrence start date := by
  have hnumber : earlier.dayNumber ≤ date.dayNumber := hle
  have hyear := Date.year_mono hle
  have hmonth := YearMonth.index_ofDate_mono hle
  cases recurrence with
  | window interval unit first stop days =>
    exact Int.lt_of_lt_of_le hreaches (Int.add_le_add_right hnumber _)
  | daily interval days times =>
    exact Int.lt_of_lt_of_le hreaches (Int.add_le_add_right hnumber _)
  | weekly interval days times =>
    obtain ⟨hlatest, hleast, hweeks⟩ := hreaches
    have hweek := Date.weekStart_mono hle
    exact ⟨hlatest, by omega, by omega⟩
  | monthly interval target times =>
    obtain ⟨ym, _, hmem⟩ := hselects
    obtain ⟨ym', hmem', hbound⟩ := hreaches
    refine ⟨ym, hmem, ?_⟩
    by_contra hfar
    exact absurd (MonthTarget.lt_of_mem_datesIn hmem hmem' (by omega)) (Int.not_lt.mpr hle)
  | ordinal interval position weekday times =>
    exact Int.le_trans hreaches (Int.add_le_add_right hmonth _)
  | once day times =>
    cases day with
    | fixed date => trivial
    | yearly month day => exact Int.lt_of_lt_of_le hreaches (Int.add_le_add_right hyear _)
  | yearly interval target times =>
    exact Int.lt_of_lt_of_le hreaches (Int.add_le_add_right hyear _)

/-- A backward search tries the selected dates as far as it goes. -/
theorem tries_previousOf (hwell : recurrence.WellFormed)
    (hlook : ∀ date, frame.TriesBehind on (· = date) now (frame.lookBehind? recurrence now date)) :
    frame.TriesBehind on
      (fun date =>
        (date.IsSupported ∧ recurrence.Selects frame.anchor date) ∧
          frame.ReachesBack recurrence (frame.zone.dateOf now) date)
      now (frame.previousOf recurrence now) := by
  cases recurrence with
  | window interval unit start stop days => exact tries_previousWindow hlook
  | daily interval days times => exact tries_previousDaily hlook hwell.2.2.1
  | weekly interval days times =>
    by_cases hstart : (frame.latestWeek? interval (frame.zone.dateOf now)).any
        (reachesWeekdays · days) = true
    · obtain ⟨latest, hlatest, hreaches⟩ := Option.any_eq_true _ _ |>.mp hstart
      simp only [latestWeek?, Option.bind_eq_bind, Option.bind_eq_some_iff] at hlatest
      obtain ⟨anchor, hanchor, monday, hmonday, hlatest⟩ := hlatest
      refine (tries_previousWeekly hlook hanchor hmonday hlatest hreaches).congr fun date => ?_
      simp only [ReachesBack, Recurrence.Selects, hstart, true_and]
    · rw [previousOf, previousWeekly_eq_none hstart]
      exact .none_of_empty fun date hdate => hstart hdate.2.1
  | monthly interval target times =>
    refine (tries_previousMonthly hlook).congr fun date => ?_
    constructor
    · rintro ⟨ym, hym, hbound⟩
      exact ⟨⟨(MonthTarget.dayNumber_of_mem_datesIn hym.2).1, ym, hym⟩, ym, hym.2, hbound⟩
    · rintro ⟨⟨_, ym, hym⟩, ym', hmem, hbound⟩
      obtain rfl := MonthTarget.eq_of_mem_datesIn hym.2 hmem
      exact ⟨ym, hym, hbound⟩
  | ordinal interval position weekday times =>
    have hdates : (fun ym => (YearMonth.positionedWeekday? ym position weekday).toList) =
        (MonthTarget.positioned position weekday).datesIn := rfl
    rw [previousOf, hdates]
    refine (tries_previousMonthly hlook).congr fun date => ?_
    constructor
    · rintro ⟨ym, hym, hbound⟩
      obtain ⟨hsupported, hmonth⟩ := MonthTarget.ofDate_of_mem_datesIn rfl hym.2
      refine ⟨⟨hsupported, ym, hym⟩, ?_⟩
      rwa [ReachesBack, hmonth]
    · rintro ⟨⟨_, ym, hym⟩, hbound⟩
      obtain ⟨_, hmonth⟩ := YearMonth.ofDate_of_positionedWeekday? (Option.mem_toList.mp hym.2)
      rw [ReachesBack, hmonth] at hbound
      exact ⟨ym, hym, hbound⟩
  | once day times =>
    cases day with
    | fixed day =>
      refine (hlook day).congr fun date => ?_
      have hsupported : day.IsSupported := Date.HasFourDigitYear.isSupported hwell.1
      simp only [ReachesBack, Recurrence.Selects, CalendarDay.covers, decide_eq_true_eq, and_true]
      constructor
      · rintro rfl
        exact ⟨hsupported, rfl⟩
      · rintro ⟨_, rfl⟩
        rfl
    | yearly month day =>
      rw [previousOf, previousOnce_yearly]
      refine (tries_previousYearly hlook).congr fun date => and_congr_left fun _ => ?_
      exact and_congr_right fun hsupported => (Recurrence.selects_once_yearly hsupported).symm
  | yearly interval target times => exact tries_previousYearly hlook

/-- What a backward search finds is the closest instant behind that is seen on a
selected date, however far this search goes. -/
theorem nearest_shown_of_previousOf (horder : frame.SearchOrder on (· > ·) (· > ·))
    (hwell : recurrence.WellFormed)
    (hlook : ∀ date, frame.TriesBehind on (· = date) now (frame.lookBehind? recurrence now date))
    (hprevious : frame.previousOf recurrence now = some hit) :
    IsNearest (· > ·)
      (ShownBy on fun date => date.IsSupported ∧ recurrence.Selects frame.anchor date) now hit :=
  horder.nearest_of_bounded _ ((tries_previousOf hwell hlook).finds horder) hprevious
    fun hselected hle hreaches => hreaches.of_ge (Int.not_lt.mp hle) hselected.2

/-- In universal time what is seen of a date is the closest that it offers. -/
theorem tries_lookBehind? (huniversal : frame.zone.IsUniversal) (hwell : recurrence.WellFormed)
    (date : Date) :
    frame.TriesBehind (frame.OnDate recurrence.times) (· = date) now
      (frame.lookBehind? recurrence now date) := by
  have hclock : ∀ time ∈ recurrence.times, time.IsOnClock := fun _ => hwell.isOnClock
  cases recurrence with
  | window interval unit start stop days =>
    have hlimit := hwell.2.2.1.minutes_lt
    exact .single (finds_slotBehind? huniversal (by omega) hlimit date)
  | daily | weekly | monthly | ordinal | once | yearly =>
    exact triesBehind_latestOn huniversal hclock date

/-- What a backward search finds is the closest instant behind that the recurrence
offers. -/
theorem nearest_of_previousOf (huniversal : frame.zone.IsUniversal) (hwell : recurrence.WellFormed)
    (hprevious : frame.previousOf recurrence now = some hit) :
    IsNearest (· > ·) (frame.Offers recurrence) now hit := by
  have horder : frame.SearchOrder (frame.OnDate recurrence.times) (· > ·) (· > ·) :=
    searchOrder_backward huniversal.keepsDates exists_time_of_onDate
  rw [offers_eq_shownBy]
  exact nearest_shown_of_previousOf horder hwell (tries_lookBehind? huniversal hwell) hprevious

/-- In universal time a backward search finds the closest instant behind of the dates
that it gets to. -/
theorem finds_previousOf_of_isUniversal (huniversal : frame.zone.IsUniversal)
    (hwell : recurrence.WellFormed) (now : Instant) :
    Finds (· > ·) (ShownBy (frame.OnDate recurrence.times) fun date =>
      (date.IsSupported ∧ recurrence.Selects frame.anchor date) ∧
        frame.ReachesBack recurrence (frame.zone.dateOf now) date) now
      (frame.previousOf recurrence now) :=
  (tries_previousOf hwell (tries_lookBehind? huniversal hwell)).finds
    (searchOrder_backward huniversal.keepsDates exists_time_of_onDate)

theorem previousOf_eq_some (huniversal : frame.zone.IsUniversal) (hwell : recurrence.WellFormed)
    (hnearest : IsNearest (· > ·) (ShownBy (frame.OnDate recurrence.times) fun date =>
      (date.IsSupported ∧ recurrence.Selects frame.anchor date) ∧
        frame.ReachesBack recurrence (frame.zone.dateOf now) date) now hit) :
    frame.previousOf recurrence now = some hit :=
  Finds.eq_some (fun hfirst hsecond => Instant.eq_of_not_lt hsecond hfirst)
    (finds_previousOf_of_isUniversal huniversal hwell now) hnearest

end Frame

end Cadence
