import Cadence.Proofs.Occurrence.ClosingDates
import Cadence.Proofs.Occurrence.Resumption

/-!
# Adjacent occurrences

Membership and the two searches are separate readings of a schedule.  In
universal time they agree: what a search finds is a whole minute at which the
schedule fires, and none at which it fires lies in between.

A closing day without a year is resolved anew for each instant, in a search from
the instant it starts at and in membership from the instant itself.  The two
dates differ, but they close the schedule to the same instants in between.
-/

namespace Cadence

namespace Schedule

variable {schedule : Schedule} {zone : Zone} {now hit moment : Instant}

/-! ## Closing dates -/

section Closing

variable {reference date : Date}

/-- Seen from a later date, the schedule is closed to a date as it is seen from
the date itself. -/
theorem admits_closingDate?_iff (hwell : schedule.WellFormed)
    (hleast : Date.leastYear ≤ date.year)
    (hgreatest : reference.year + CalendarDay.lookahead ≤ Date.greatestYear)
    (hle : date ≤ reference) :
    schedule.Admits (schedule.closingDate? reference) date ↔
      schedule.Admits (schedule.closingDate? date) date := by
  have hyear := Date.year_mono hle
  cases hlast : schedule.lastDay with
  | none => simp only [closingDate?, hlast, Option.map_none]
  | some day =>
    cases day with
    | fixed closing => rw [closingDate?_fixed hlast reference date]
    | yearly month day =>
      have hown := notClosed_of_le hwell hlast hleast (by omega) (Int.le_refl date.dayNumber)
      have hother := notClosed_of_le hwell hlast (by omega) hgreatest hle
      exact ⟨fun hadmits => ⟨hadmits.inSeason, hadmits.notSkipped, hown⟩,
        fun hadmits => ⟨hadmits.inSeason, hadmits.notSkipped, hother⟩⟩

/-- A date admitted from an earlier one is admitted from itself. -/
theorem admits_closingDate?_of_ge (hwell : schedule.WellFormed)
    (hleast : Date.leastYear ≤ reference.year)
    (hgreatest : reference.year + 2 * CalendarDay.lookahead ≤ Date.greatestYear)
    (hle : reference ≤ date)
    (hadmits : schedule.Admits (schedule.closingDate? reference) date) :
    schedule.Admits (schedule.closingDate? date) date := by
  have hyear := Date.year_mono hle
  refine ⟨hadmits.inSeason, hadmits.notSkipped, ?_⟩
  cases hlast : schedule.lastDay with
  | none => simp [closingDate?, hlast]
  | some day =>
    cases day with
    | fixed closing =>
      rw [closingDate?_fixed hlast date reference]
      exact hadmits.notClosed
    | yearly month day =>
      have hnear := year_le_of_notClosed hwell hlast hleast (by omega) hadmits.notClosed
      exact notClosed_of_le hwell hlast (by omega) (by omega) (Int.le_refl date.dayNumber)

end Closing

/-! ## Membership -/

/-- A schedule fires where its recurrence does, on the dates that its clauses admit. -/
theorem firesIn_iff_admits : schedule.firesIn zone moment = true ↔
    (Frame.ofSchedule schedule zone).fires schedule.recurrence moment = true ∧
      schedule.Admits (schedule.closingDate? (zone.dateOf moment)) (zone.dateOf moment) := by
  simp only [firesIn, Bool.and_eq_true, Bool.not_eq_true']
  constructor
  · rintro ⟨⟨⟨hseason, hkept⟩, hopen⟩, hfires⟩
    exact ⟨hfires, hseason, hkept, any_lt_eq_false_iff.mp hopen⟩
  · rintro ⟨hfires, hadmits⟩
    exact ⟨⟨⟨hadmits.inSeason, hadmits.notSkipped⟩, any_lt_eq_false_iff.mpr hadmits.notClosed⟩,
      hfires⟩

/-- In universal time the whole minutes at which a schedule fires are the
instants it offers. -/
theorem firesIn_iff_offers (huniversal : zone.IsUniversal)
    (hwell : schedule.recurrence.WellFormed) (hminute : moment.IsWholeMinute)
    (hsupported : (zone.dateOf moment).IsSupported) :
    schedule.firesIn zone moment = true ↔
      schedule.Offers zone (schedule.closingDate? (zone.dateOf moment)) moment := by
  have hfires : (Frame.ofSchedule schedule zone).fires schedule.recurrence moment = true ↔
      (Frame.ofSchedule schedule zone).Offers schedule.recurrence moment :=
    Frame.fires_iff_offers huniversal hwell hminute hsupported
  rw [firesIn_iff_admits, hfires, Offers]

/-- The instants in whole minutes at which a schedule fires. -/
def Occurs (schedule : Schedule) (zone : Zone) (moment : Instant) : Prop :=
  moment.IsWholeMinute ∧ schedule.firesIn zone moment = true

/-! ## The adjacent occurrences -/

/-- The next occurrence is the closest instant ahead at which the schedule fires. -/
theorem nextIn_isNearest (huniversal : zone.IsUniversal) (hwell : schedule.WellFormed)
    (hseason : schedule.recurrence.mayLeaveMonth = true → schedule.season = [])
    (hnow : (zone.dateOf now).HasFourDigitYear) (hnext : schedule.nextIn zone now = some hit) :
    IsNearest (· < ·) (schedule.Occurs zone) now hit := by
  have hrecurrence := hwell.recurrence
  have hnearest := nearest_of_searchForward huniversal hrecurrence hseason hnext
  have hlater : zone.dateOf now ≤ zone.dateOf hit := huniversal.dateOf_mono hnearest.isBeyond
  obtain ⟨hminute, hsupported⟩ := hnearest.holds.1.isWholeMinute huniversal hrecurrence
  obtain ⟨hleast, hgreatest⟩ := hnow.isFarFromEnds
  refine ⟨⟨hminute, ?_⟩, hnearest.isBeyond, ?_⟩
  · rw [firesIn_iff_offers huniversal hrecurrence hminute hsupported]
    exact ⟨hnearest.holds.1,
      admits_closingDate?_of_ge hwell hleast hgreatest hlater hnearest.holds.2⟩
  · rintro moment ⟨hwhole, hfires⟩ hmoment hearlier
    have hafter := huniversal.dateOf_mono hmoment
    have hbefore := huniversal.dateOf_mono hearlier
    have hbetween : (zone.dateOf moment).IsSupported :=
      ⟨Int.le_trans hnow.isSupported.1 hafter, Int.le_trans hbefore hsupported.2⟩
    rw [firesIn_iff_offers huniversal hrecurrence hwhole hbetween] at hfires
    refine hnearest.closest moment ⟨hfires.1, hfires.2.inSeason, hfires.2.notSkipped, ?_⟩
      hmoment hearlier
    exact fun last hlast => Int.le_trans hbefore (hnearest.holds.2.notClosed last hlast)

/-- The previous occurrence is the closest instant behind at which the schedule
fires, and it does not lie before the anchor. -/
theorem previousIn_isNearest (huniversal : zone.IsUniversal) (hwell : schedule.WellFormed)
    (hnow : (zone.dateOf now).HasFourDigitYear)
    (hprevious : schedule.previousIn zone now = some hit) :
    IsNearest (· > ·) (schedule.Occurs zone) now hit ∧
      ∀ first ∈ schedule.anchor, first ≤ zone.dateOf hit := by
  have hrecurrence := hwell.recurrence
  obtain ⟨hnearest, hanchor⟩ := nearest_of_searchBackward huniversal hrecurrence hprevious
  obtain ⟨hminute, hsupported⟩ := hnearest.holds.1.isWholeMinute huniversal hrecurrence
  obtain ⟨_, hgreatest⟩ := hnow.isFarFromEnds
  have hlookahead : CalendarDay.lookahead = 8 := rfl
  have hoccurs : ∀ {moment : Instant}, moment.IsWholeMinute → moment < now →
      (zone.dateOf moment).IsSupported →
      (schedule.firesIn zone moment = true ↔
        schedule.Offers zone (schedule.closingDate? (zone.dateOf now)) moment) := by
    intro moment hwhole hmoment hinside
    rw [firesIn_iff_offers huniversal hrecurrence hwhole hinside, Offers, Offers,
      admits_closingDate?_iff hwell (Date.isSupported_iff_year.mp hinside).1 (by omega)
        (huniversal.dateOf_mono hmoment)]
  refine ⟨⟨⟨hminute, (hoccurs hminute hnearest.isBeyond hsupported).mpr hnearest.holds⟩,
    hnearest.isBeyond, ?_⟩, hanchor⟩
  rintro moment ⟨hwhole, hfires⟩ hmoment hlater
  have hbetween : (zone.dateOf moment).IsSupported :=
    ⟨Int.le_trans hsupported.1 (huniversal.dateOf_mono hlater),
      Int.le_trans (huniversal.dateOf_mono hmoment) hnow.isSupported.2⟩
  exact hnearest.closest moment ((hoccurs hwhole hmoment hbetween).mp hfires) hmoment hlater

end Schedule

end Cadence
