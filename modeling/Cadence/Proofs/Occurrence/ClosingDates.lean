import Cadence.Occurrence.Search
import Cadence.Proofs.Calendar.Seasons
import Cadence.Proofs.Expression.ParsedSchedules

/-!
# Closing dates

A schedule may end on a day of every year, which stands for a date only as seen from some
reference: the first such day on or after it.  Leap days are the rarest ones, eight years
apart over a century that is no leap year, and the years that are looked through reach just
so far.  From the reference to the closing date itself this date stays the same, so a
schedule closes on it wherever in between it is resolved anew.
-/

namespace Cadence

namespace Schedule

variable {schedule : Schedule} {reference later date last : Date} {month : Month} {day : Nat}

/-- A closing date is the same from wherever it is seen. -/
theorem closingDate?_fixed {closing : Date} (hlast : schedule.lastDay = some (.fixed closing))
    (first second : Date) : schedule.closingDate? first = schedule.closingDate? second := by
  rw [closingDate?, closingDate?, hlast]
  rfl

theorem closingDate?_of_resolveFrom? {closing : CalendarDay}
    (hlast : schedule.lastDay = some closing)
    (hresolved : closing.resolveFrom? reference = some last) :
    schedule.closingDate? reference = some last := by
  rw [closingDate?, hlast, Option.map_some, hresolved, Option.getD_some]

/-- All closing dates belong to the calendar. -/
theorem isSupported_of_closingDate? (hwell : schedule.WellFormed)
    (hclosing : schedule.closingDate? reference = some last) : last.IsSupported := by
  obtain ⟨day, hday, rfl⟩ := Option.map_eq_some_iff.mp hclosing
  cases day with
  | fixed date => exact Date.HasFourDigitYear.isSupported (hwell.lastDay _ hday)
  | yearly month day =>
    cases hresolved : (CalendarDay.yearly month day).resolveFrom? reference with
    | some date => exact (CalendarDay.resolveFrom?_spec hresolved).1.1
    | none => exact Date.isSupported_iff_year.mpr (by decide)

/-! ## Days of every year -/

section Yearly

variable (hwell : schedule.WellFormed) (hlast : schedule.lastDay = some (.yearly month day))
  (hleast : Date.leastYear ≤ reference.year)
  (hgreatest : reference.year + CalendarDay.lookahead ≤ Date.greatestYear)
include hwell hlast hleast hgreatest

/-- A closing day of every year lies ahead, at most eight years. -/
theorem exists_closingDate?_yearly : ∃ last,
    (CalendarDay.yearly month day).resolveFrom? reference = some last ∧
      schedule.closingDate? reference = some last ∧ reference ≤ last ∧
      last.year ≤ reference.year + CalendarDay.lookahead := by
  have hday : CalendarDay.WellFormed (.yearly month day) := hwell.lastDay _ hlast
  obtain ⟨last, hresolved, hahead⟩ := CalendarDay.resolveFrom?_yearly hday hleast hgreatest
  exact ⟨last, hresolved, closingDate?_of_resolveFrom? hlast hresolved, hahead⟩

theorem notClosed_of_le (hle : date ≤ reference) :
    ∀ last ∈ schedule.closingDate? reference, date ≤ last := by
  obtain ⟨resolved, _, hclosing, hahead, _⟩ :=
    exists_closingDate?_yearly hwell hlast hleast hgreatest
  rintro last hmem
  obtain rfl := Option.some.inj (hclosing.symm.trans hmem)
  exact Int.le_trans hle hahead

theorem year_le_of_notClosed (hopen : ∀ last ∈ schedule.closingDate? reference, date ≤ last) :
    date.year ≤ reference.year + CalendarDay.lookahead := by
  obtain ⟨resolved, _, hclosing, _, hyear⟩ :=
    exists_closingDate?_yearly hwell hlast hleast hgreatest
  exact Int.le_trans (Date.year_mono (hopen resolved hclosing)) hyear

end Yearly

/-! ## Seen from elsewhere -/

/-- The closing date stays the same up to the dates before it, where it is not the first
date of the calendar for want of another one. -/
theorem closingDate?_congr_of_bound
    (hbound : Date.least ≤ reference ∨ Date.least < date) (hle : reference ≤ later)
    (hby : later ≤ date) (hopen : ∀ last ∈ schedule.closingDate? reference, date ≤ last) :
    schedule.closingDate? later = schedule.closingDate? reference := by
  unfold closingDate? at hopen ⊢
  cases hday : schedule.lastDay with
  | none => rfl
  | some day =>
    rw [hday] at hopen
    have hopen : date ≤ (day.resolveFrom? reference).getD Date.least := hopen _ rfl
    simp only [Option.map_some]
    cases hlast : day.resolveFrom? reference with
    | some last =>
      rw [hlast] at hopen
      rw [CalendarDay.resolveFrom?_congr hlast hle (Int.le_trans hby hopen)]
    | none =>
      rw [hlast] at hopen
      have hleast : Date.least ≤ reference :=
        hbound.resolve_right (Int.not_lt.mpr hopen)
      obtain rfl : later = reference :=
        Date.le_antisymm (Int.le_trans hby (Int.le_trans hopen hleast)) hle
      rw [hlast]

theorem closingDate?_congr (hreference : reference.IsSupported)
    (hle : reference ≤ later) (hby : later ≤ date)
    (hopen : ∀ last ∈ schedule.closingDate? reference, date ≤ last) :
    schedule.closingDate? later = schedule.closingDate? reference :=
  closingDate?_congr_of_bound (.inl hreference.1) hle hby hopen

/-- A date that is not closed as seen from some date is not closed as seen from itself,
even if the closing day is one that few years or none have. -/
theorem notClosed_closingDate?_self (hdate : date.IsSupported)
    (hopen : ∀ last ∈ schedule.closingDate? reference, date ≤ last) :
    ∀ last ∈ schedule.closingDate? date, date ≤ last := by
  intro last hlast
  obtain ⟨closing, hclosing, rfl⟩ := Option.map_eq_some_iff.mp hlast
  have hopen : date ≤ (closing.resolveFrom? reference).getD Date.least :=
    hopen _ (Option.map_eq_some_iff.mpr ⟨closing, hclosing, rfl⟩)
  cases closing with
  | fixed last => exact hopen
  | yearly month day =>
    cases hown : (CalendarDay.yearly month day).resolveFrom? date with
    | some last => exact (CalendarDay.resolveFrom?_spec hown).2.1
    | none =>
      -- The day lies nowhere ahead, so the other reference does not find it ahead either.
      cases hother : (CalendarDay.yearly month day).resolveFrom? reference with
      | none => rwa [hother] at hopen
      | some last =>
        rw [hother] at hopen
        obtain ⟨⟨hsupported, hcovers⟩, _⟩ := CalendarDay.resolveFrom?_spec hother
        obtain ⟨own, hsome⟩ :=
          CalendarDay.exists_resolveFrom? hdate hsupported hcovers hopen
        rw [hown] at hsome
        cases hsome

/-! ## The first such day -/

/-- The closing day that an expression names is resolved to the least date of that name from
the reference on, which always exists, leap days included.  All references from there up to
this date are resolved to it as well. -/
theorem resolveFrom?_least_and_stable {text : String} (hread : Schedule.ofText text = .ok schedule)
    (hlast : schedule.lastDay = some (.yearly month day)) (hyear : reference.HasFourDigitYear) :
    ∃ last, (CalendarDay.yearly month day).resolveFrom? reference = some last ∧
      (last.IsSupported ∧ (CalendarDay.yearly month day).covers last = true) ∧
      reference ≤ last ∧
      (∀ other : Date, other.IsSupported → (CalendarDay.yearly month day).covers other = true →
        reference ≤ other → last ≤ other) ∧
      ∀ later, reference ≤ later → later ≤ last →
        (CalendarDay.yearly month day).resolveFrom? later = some last ∧
          schedule.closingDate? later = some last := by
  have hlookahead : CalendarDay.lookahead = 8 := rfl
  obtain ⟨hleast, hgreatest⟩ := hyear.isFarFromEnds
  obtain ⟨last, hresolved, _⟩ := exists_closingDate?_yearly (wellFormed_of_ofText hread) hlast
    hleast (by omega)
  obtain ⟨hexists, hahead, _, hfirst⟩ := CalendarDay.resolveFrom?_spec hresolved
  refine ⟨last, hresolved, hexists, hahead, hfirst, fun later hle hopen => ?_⟩
  have hlater := CalendarDay.resolveFrom?_congr hresolved hle hopen
  exact ⟨hlater, closingDate?_of_resolveFrom? hlast hlater⟩

/-- Between the leap days of 2096 and 2104 there is none: 2100 is no leap year. -/
theorem resolveFrom?_least_and_stable_over_century :
    ∃ schedule, Schedule.ofText "every day at 09:00 until feb 29" = .ok schedule ∧
      (CalendarDay.yearly .february 29).resolveFrom? ⟨765244⟩ = some ⟨768164⟩ ∧
      schedule.closingDate? ⟨768163⟩ = some ⟨768164⟩ := by
  let schedule : Schedule :=
    ⟨.daily 1 .every [⟨9, 0⟩], none, [], some (.yearly .february 29), none, []⟩
  have hread : Schedule.ofText "every day at 09:00 until feb 29" = .ok schedule := by
    decide +kernel
  have hyear : Date.HasFourDigitYear ⟨765244⟩ := by decide
  obtain ⟨last, hresolved, -, -, -, hstable⟩ := resolveFrom?_least_and_stable hread rfl hyear
  have hlast : (CalendarDay.yearly .february 29).resolveFrom? ⟨765244⟩ = some ⟨768164⟩ := by
    decide
  obtain rfl : last = ⟨768164⟩ := Option.some.inj (hresolved.symm.trans hlast)
  exact ⟨schedule, hread, hresolved, (hstable ⟨768163⟩ (by decide) (by decide)).2⟩

end Schedule

end Cadence
