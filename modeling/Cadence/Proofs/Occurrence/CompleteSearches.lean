import Cadence.Proofs.Occurrence.PastDates

/-!
# Searches that miss nothing

Counted days and weeks come round, and so do days of the month.  A search for a
recurrence of this kind finds something whenever the recurrence offers something on
that side: there is always a selected date between its start and the end of its reach.
The closest date may be the one that it starts from, after which only some of the times
are left.
-/

namespace Cadence

namespace Recurrence

/-- Recurrences that count days or weeks. -/
def CountsDays : Recurrence → Prop
  | window _ _ _ _ _ | daily _ _ _ | weekly _ _ _ => True
  | _ => False

/-- Recurrences for certain days of the month, or the working days nearest to them. -/
def PicksDaysOfMonth : Recurrence → Prop
  | monthly _ (.positioned _ _) _ => False
  | monthly _ _ _ => True
  | _ => False

/-- Whether the dates of a recurrence come round within the reach of every search. -/
structure ComesRound (recurrence : Recurrence) : Prop where
  roams : ¬ recurrence.KeepsToMonth
  notFifth : ¬ recurrence.AsksFifthWeekday

variable {recurrence : Recurrence}

theorem CountsDays.comesRound (hcounts : recurrence.CountsDays) : recurrence.ComesRound := by
  cases recurrence with
  | window | daily | weekly => exact ⟨id, id⟩
  | monthly | ordinal | once | yearly => exact hcounts.elim

theorem PicksDaysOfMonth.comesRound (hpicks : recurrence.PicksDaysOfMonth) :
    recurrence.ComesRound := by
  cases recurrence with
  | monthly interval target times =>
    cases target with
    | positioned => exact hpicks.elim
    | days | lastDay | lastBusinessDay | nearestBusinessDay => exact ⟨id, id⟩
  | window | daily | weekly | ordinal | once | yearly => exact hpicks.elim

theorem ComesRound.not_maySitOut (hround : recurrence.ComesRound) : ¬ recurrence.MaySitOut := by
  cases recurrence with
  | window | daily | weekly | monthly | ordinal => exact hround.notFifth
  | once | yearly => exact absurd trivial hround.roams

end Recurrence

namespace Frame

variable {frame : Frame} {recurrence : Recurrence} {times : List TimeOfDay} {interval : Nat}
  {earlier start date : Date} {now moment : Instant}

/-! ## Where backward searches start -/

/-- A search for dates of every so many weeks starts in a week of the calendar, unless the
calendar is about to end. -/
theorem startsBack_weekly_of_selects {days : List Weekday}
    (hselects : (Recurrence.weekly interval days times).Selects frame.anchor earlier)
    (hearlier : earlier.HasFourDigitYear) (hstart : start.HasFourDigitYear)
    (hle : earlier ≤ start) : frame.StartsBack (.weekly interval days times) start := by
  have hbounds := earlier.weekStart_bounds
  have hweek : (⟨earlier.weekStart⟩ : Date).IsSupported :=
    hearlier.isSupported_of_near (by simp only; omega) (by simp only; omega)
  obtain ⟨latest, hlatest⟩ := exists_latestWeek? hstart.isSupported hweek
    (isTurn_of_selects hselects) (Date.weekStart_mono hle)
  obtain ⟨hsupported, _, hlatestLe, _⟩ := latestWeek?_spec hlatest
  refine Option.any_eq_true _ _ |>.mpr ⟨latest, hlatest, ?_⟩
  rw [reachesWeekdays, List.all_eq_true]
  intro day _
  have hindex := day.index_lt
  have hstartBounds := start.weekStart_bounds
  obtain ⟨listed, hlisted⟩ : ∃ listed : Date, listed.dayNumber = latest.dayNumber + day.index :=
    ⟨⟨_⟩, rfl⟩
  obtain ⟨final, hfinal⟩ : ∃ final : Date, final.dayNumber = start.dayNumber + 7 := ⟨⟨_⟩, rfl⟩
  have hend : final.IsSupported := hstart.isSupported_of_near (by omega) (by omega)
  refine Option.isSome_iff_exists.mpr ⟨listed, Date.addDays?_eq_some_iff.mpr
    ⟨hlisted, hsupported.of_between hend ?_ ?_⟩⟩
  · change latest.dayNumber ≤ listed.dayNumber
    omega
  · change listed.dayNumber ≤ final.dayNumber
    omega

theorem startsBack_of_selects (hselects : recurrence.Selects frame.anchor earlier)
    (hearlier : earlier.HasFourDigitYear) (hstart : start.HasFourDigitYear)
    (hle : earlier ≤ start) : frame.StartsBack recurrence start := by
  cases recurrence with
  | weekly => exact startsBack_weekly_of_selects hselects hearlier hstart hle
  | window | daily | monthly | ordinal | once | yearly => trivial

/-- A search gets back to the date that it starts from. -/
theorem reachesBack_self (hselects : recurrence.Selects frame.anchor date)
    (hdate : date.HasFourDigitYear) : frame.ReachesBack recurrence date date := by
  cases recurrence with
  | window =>
    rw [ReachesBack, Reach.days]
    omega
  | daily interval days times =>
    rw [ReachesBack, dailyReachBack, Reach.days, Reach.alignedDaysBack]
    split <;> omega
  | weekly interval days times =>
    have hpos := stepOf_pos interval
    have hbounds := date.weekStart_bounds
    have hweek : (⟨date.weekStart⟩ : Date).IsSupported :=
      hdate.isSupported_of_near (by simp only; omega) (by simp only; omega)
    refine ⟨startsBack_of_selects hselects hdate hdate (Int.le_refl _), hweek.1, ?_⟩
    rw [Reach.weeks]
    omega
  | monthly interval target times =>
    obtain ⟨ym, _, hmem⟩ := hselects
    have hpos := stepOf_pos interval
    have hindex := MonthTarget.index_of_mem_datesIn hmem
    refine ⟨ym, hmem, ?_⟩
    rw [Reach.months]
    omega
  | ordinal interval position weekday times =>
    have hpos := stepOf_pos interval
    rw [ReachesBack, Reach.months]
    omega
  | once day times =>
    cases day with
    | fixed => trivial
    | yearly =>
      rw [ReachesBack, Reach.years]
      omega
  | yearly interval target times =>
    have hpos := stepOf_pos interval
    rw [ReachesBack, Reach.years]
    omega

/-! ## Universal time -/

section Universal

variable (huniversal : frame.zone.IsUniversal) (hwell : recurrence.WellFormed)
  (hnow : (frame.zone.dateOf now).HasFourDigitYear)
include huniversal hwell hnow

/-- Where something is offered ahead a forward search finds something. -/
theorem exists_nextOf_of_offers (hround : recurrence.ComesRound)
    (hseason : recurrence.mayLeaveMonth = true → frame.season = [])
    (hoffers : frame.Offers recurrence moment) (hlater : now < moment) :
    ∃ hit, frame.nextOf recurrence now = some hit := by
  have hzone := huniversal.keepsDates
  obtain ⟨date, hsupported, hselects, time, htime, rfl⟩ := hoffers
  have hproposes := (proposes_iff hseason).mpr ⟨hsupported, hselects⟩
  have hfinds := finds_nextOf_of_isUniversal huniversal hwell now
  rcases Date.lt_or_eq_of_le (hzone.dateOf_le_of_lt hlater) with hlt | hsame
  · obtain ⟨next, hnext, hreaches, hafter⟩ := exists_proposes_after hwell hseason hround.notFifth
      hround.roams hnow.isSupported (starts_of_hasFourDigitYear recurrence hnow) hproposes hlt
    exact hfinds.exists_eq_some ⟨next, ⟨hnext, hreaches⟩, time, htime, rfl⟩
      (hzone.lt_instantAt time hafter)
  · have hreaches : Reaches recurrence (frame.zone.dateOf now) date :=
      hproposes.reaches_of_near (by rw [hsame]; omega) hnow.isSome_monday?
    exact hfinds.exists_eq_some ⟨date, ⟨hproposes, hreaches⟩, time, htime, rfl⟩ hlater

/-- Where something is offered behind, no earlier than the year 0, a backward search finds
something. -/
theorem exists_previousOf_of_offers (hturns : ¬ recurrence.MaySitOut)
    (hoffers : frame.Offers recurrence moment) (hearlier : moment < now)
    (hyear : 0 ≤ (frame.zone.dateOf moment).year) :
    ∃ hit, frame.previousOf recurrence now = some hit := by
  have hzone := huniversal.keepsDates
  obtain ⟨date, hsupported, hselects, time, htime, rfl⟩ := hoffers
  rw [hzone.dateOf_instantAt] at hyear
  have hle := hzone.le_dateOf_of_lt hearlier
  have hdate : date.HasFourDigitYear := ⟨hyear, (Date.year_mono hle).trans hnow.2⟩
  have hself := reachesBack_self hselects hdate
  have hfinds := finds_previousOf_of_isUniversal huniversal hwell now
  rcases Date.lt_or_eq_of_le hle with hlt | hsame
  · obtain ⟨before, hbefore, hreaches, hlt⟩ := exists_reachesBack hwell hturns
      ⟨hsupported, hselects⟩ hself hnow.isSupported (startsBack_of_selects hselects hdate hnow hle)
      hlt (Int.le_refl _)
    exact hfinds.exists_eq_some ⟨before, ⟨hbefore, hreaches⟩, time, htime, rfl⟩
      (hzone.instantAt_lt time hlt)
  · exact hfinds.exists_eq_some
      ⟨date, ⟨⟨hsupported, hselects⟩, hsame ▸ hself⟩, time, htime, rfl⟩ hearlier

end Universal

end Frame

end Cadence
