import Cadence.Proofs.Occurrence.Perennial
import Cadence.Proofs.Schedule.Occurrences

/-!
# When scans miss occurrences

A schedule without clauses is searched by a single scan, so it has a next
occurrence exactly if there is one within the reach of the scan.  Perennial
targets always come round within the reach.  Leap days need not: from March 2096
to February 2104 there is none, and a scan of eight years that counts the
current one ends a year too early.
-/

namespace Cadence

namespace Schedule

variable {schedule : Schedule} {zone : Zone} {now moment hit : Instant}

/-- A recurrence that no clause narrows; its intervals may have an anchor. -/
structure IsClauseFree (schedule : Schedule) : Prop where
  skipped : schedule.skipped = []
  lastDay : schedule.lastDay = none
  season : schedule.season = []

namespace IsClauseFree

theorem inSeason (hfree : schedule.IsClauseFree) (date : Date) :
    Cadence.inSeason schedule.season date = true := by
  rw [hfree.season]
  rfl

theorem skips (hfree : schedule.IsClauseFree) (date : Date) : schedule.skips date = false := by
  rw [Schedule.skips, hfree.skipped]
  rfl

theorem firesIn_eq (hfree : schedule.IsClauseFree) (zone : Zone) (moment : Instant) :
    schedule.firesIn zone moment =
      (Frame.ofSchedule schedule zone).fires schedule.recurrence moment := by
  simp only [firesIn, hfree.inSeason, hfree.skips, closingDate?, hfree.lastDay, Option.map_none,
    Option.any_none, Bool.not_false, Bool.true_and]

end IsClauseFree

/-! ## A single scan -/

theorem nextIn_of_isClauseFree (hfree : schedule.IsClauseFree) (zone : Zone) (now : Instant) :
    schedule.nextIn zone now =
      (Frame.ofSchedule schedule zone).nextOf schedule.recurrence now := by
  rw [nextIn, closingDate?, hfree.lastDay, show Reach.resumptions = 999 + 1 from rfl, searchForward]
  simp only [Option.map_none, Option.any_none, hfree.inSeason, hfree.skips, Bool.not_true,
    Bool.and_false,
    Bool.false_eq_true, if_false, Option.bind_eq_bind, Option.bind_fun_some]

theorem previousIn_eq_some_iff (hfree : schedule.IsClauseFree) :
    schedule.previousIn zone now = some hit ↔
      (Frame.ofSchedule schedule zone).previousOf schedule.recurrence now = some hit ∧
        ∀ first ∈ schedule.anchor, first ≤ zone.dateOf hit := by
  rw [previousIn, closingDate?, hfree.lastDay, show Reach.resumptions = 999 + 1 from rfl,
    searchBackward]
  simp only [Option.map_none, Option.filter_none, hfree.inSeason, hfree.skips, Bool.not_true,
    Bool.false_eq_true, if_false, Option.bind_eq_bind, Option.bind_eq_some_iff,
    Option.ite_none_left_eq_some, Option.some.injEq, Bool.not_eq_true, any_gt_eq_false_iff]
  constructor
  · rintro ⟨_, hfound, hanchor, rfl⟩
    exact ⟨hfound, hanchor⟩
  · rintro ⟨hfound, hanchor⟩
    exact ⟨_, hfound, hanchor, rfl⟩

/-- Without clauses the schedule fires where its recurrence has something to offer. -/
theorem firesIn_iff_of_isClauseFree (huniversal : zone.IsUniversal)
    (hwell : schedule.recurrence.WellFormed) (hfree : schedule.IsClauseFree)
    (hminute : moment.IsWholeMinute) (hsupported : (zone.dateOf moment).IsSupported) :
    schedule.firesIn zone moment = true ↔
      (Frame.ofSchedule schedule zone).Offers schedule.recurrence moment := by
  rw [firesIn_iff_offers huniversal hwell hminute hsupported, Offers, and_iff_left]
  refine ⟨?_, ?_, ?_⟩
  · exact hfree.inSeason _
  · exact hfree.skips _
  · rw [closingDate?, hfree.lastDay]
    exact fun closing hclosing => absurd hclosing (Option.not_mem_none closing)

/-! ## Occurrences within reach -/

/-- The occurrences after an instant, up to the end of the year 9999. -/
structure IsAhead (schedule : Schedule) (zone : Zone) (now moment : Instant) : Prop where
  isWholeMinute : moment.IsWholeMinute
  later : now < moment
  year_le : (zone.dateOf moment).year ≤ 9999
  isOccurrence : schedule.isOccurrence moment = .ok true

/-- The occurrences before an instant, from the year 0 and the anchor on. -/
structure IsBehind (schedule : Schedule) (zone : Zone) (now moment : Instant) : Prop where
  isWholeMinute : moment.IsWholeMinute
  earlier : moment < now
  year_ge : 0 ≤ (zone.dateOf moment).year
  anchor_le : ∀ first ∈ schedule.anchor, first ≤ zone.dateOf moment
  isOccurrence : schedule.isOccurrence moment = .ok true

section Scans

variable (hwell : schedule.WellFormed) (hzone : Zone.named schedule.zone = .ok zone)
  (huniversal : zone.IsUniversal) (hfree : schedule.IsClauseFree)
  (hnow : (zone.dateOf now).HasFourDigitYear)
include hwell hzone huniversal hfree hnow

theorem isAhead_iff : schedule.IsAhead zone now moment ↔
    now < moment ∧ (zone.dateOf moment).year ≤ 9999 ∧
      (Frame.ofSchedule schedule zone).Offers schedule.recurrence moment := by
  have hfires : moment.IsWholeMinute → now < moment → (zone.dateOf moment).year ≤ 9999 →
      (schedule.isOccurrence moment = .ok true ↔
        (Frame.ofSchedule schedule zone).Offers schedule.recurrence moment) := by
    intro hminute hlater hyear
    have hsupported : (zone.dateOf moment).HasFourDigitYear :=
      ⟨Int.le_trans hnow.1 (Date.year_mono (huniversal.dateOf_mono hlater)), hyear⟩
    rw [isOccurrence_eq_ok hzone, Except.ok.injEq, firesIn_iff_of_isClauseFree huniversal
      hwell.recurrence hfree hminute hsupported.isSupported]
  constructor
  · rintro ⟨hminute, hlater, hyear, hoccurs⟩
    exact ⟨hlater, hyear, (hfires hminute hlater hyear).mp hoccurs⟩
  · rintro ⟨hlater, hyear, hoffers⟩
    have hminute := (hoffers.isWholeMinute huniversal hwell.recurrence).1
    exact ⟨hminute, hlater, hyear, (hfires hminute hlater hyear).mpr hoffers⟩

theorem isBehind_iff : schedule.IsBehind zone now moment ↔
    moment < now ∧ 0 ≤ (zone.dateOf moment).year ∧
      (∀ first ∈ schedule.anchor, first ≤ zone.dateOf moment) ∧
      (Frame.ofSchedule schedule zone).Offers schedule.recurrence moment := by
  have hfires : moment.IsWholeMinute → moment < now → 0 ≤ (zone.dateOf moment).year →
      (schedule.isOccurrence moment = .ok true ↔
        (Frame.ofSchedule schedule zone).Offers schedule.recurrence moment) := by
    intro hminute hearlier hyear
    have hsupported : (zone.dateOf moment).HasFourDigitYear :=
      ⟨hyear, Int.le_trans (Date.year_mono (huniversal.dateOf_mono hearlier)) hnow.2⟩
    rw [isOccurrence_eq_ok hzone, Except.ok.injEq, firesIn_iff_of_isClauseFree huniversal
      hwell.recurrence hfree hminute hsupported.isSupported]
  constructor
  · rintro ⟨hminute, hearlier, hyear, hanchor, hoccurs⟩
    exact ⟨hearlier, hyear, hanchor, (hfires hminute hearlier hyear).mp hoccurs⟩
  · rintro ⟨hearlier, hyear, hanchor, hoffers⟩
    have hminute := (hoffers.isWholeMinute huniversal hwell.recurrence).1
    exact ⟨hminute, hearlier, hyear, hanchor, (hfires hminute hearlier hyear).mpr hoffers⟩

variable (hscanned : schedule.recurrence.IsScanned)
include hscanned

/-- A forward search that finds nothing is right about it unless all occurrences
ahead are out of its reach. -/
theorem next_none_iff_within_reach :
    (schedule.next now = .ok none → ∀ moment, ¬ schedule.IsAhead zone now moment) ↔
      ∀ moment, schedule.IsAhead zone now moment → ∃ nearer, schedule.IsAhead zone now nearer ∧
        schedule.recurrence.ScansTo (zone.dateOf now) (zone.dateOf nearer) := by
  have hahead_iff : ∀ moment, schedule.IsAhead zone now moment ↔ _ :=
    fun _ => isAhead_iff hwell hzone huniversal hfree hnow
  have hscan : (Frame.ofSchedule schedule zone).ScansAhead schedule.recurrence now :=
    Frame.scansAhead huniversal.keepsDates hscanned
  have hnone : schedule.next now = .ok none ↔
      (Frame.ofSchedule schedule zone).nextOf schedule.recurrence now = none := by
    rw [next_eq_ok hzone, nextIn_of_isClauseFree hfree, Except.ok.injEq, Option.map_eq_none_iff]
  rw [hnone]
  constructor
  · intro hnothing moment hahead
    cases hfound : (Frame.ofSchedule schedule zone).nextOf schedule.recurrence now with
    | none => exact absurd hahead (hnothing hfound moment)
    | some hit =>
      rw [Frame.ScansAhead, hfound] at hscan
      obtain ⟨hlater, hyear, hoffers⟩ := (hahead_iff moment).mp hahead
      -- A closer occurrence would be within reach as well.
      have hle : zone.dateOf hit ≤ zone.dateOf moment := Int.not_lt.mp fun hcloser =>
        hscan.closest moment ⟨hoffers, hscan.holds.2.of_le (Int.le_of_lt hcloser)⟩ hlater
          (huniversal.lt_of_dateOf_lt hcloser)
      exact ⟨hit, (hahead_iff hit).mpr ⟨hscan.isBeyond,
        Int.le_trans (Date.year_mono hle) hyear, hscan.holds.1⟩, hscan.holds.2⟩
  · intro hreach hfound moment hahead
    rw [Frame.ScansAhead, hfound] at hscan
    obtain ⟨nearer, hnearer, hscans⟩ := hreach moment hahead
    obtain ⟨hlater, _, hoffers⟩ := (hahead_iff nearer).mp hnearer
    exact hscan nearer ⟨hoffers, hscans⟩ hlater

/-- A backward search that finds nothing is right about it unless all occurrences
behind are out of its reach. -/
theorem previous_none_iff_within_reach :
    (schedule.previous now = .ok none → ∀ moment, ¬ schedule.IsBehind zone now moment) ↔
      ∀ moment, schedule.IsBehind zone now moment → ∃ nearer, schedule.IsBehind zone now nearer ∧
        schedule.recurrence.ScansBackTo (zone.dateOf now) (zone.dateOf nearer) := by
  have hbehind_iff : ∀ moment, schedule.IsBehind zone now moment ↔ _ :=
    fun _ => isBehind_iff hwell hzone huniversal hfree hnow
  have hscan : (Frame.ofSchedule schedule zone).ScansBehind schedule.recurrence now :=
    Frame.scansBehind huniversal hwell.recurrence hscanned
  have hnone : schedule.previous now = .ok none ↔ schedule.previousIn zone now = none := by
    rw [previous_eq_ok hzone, Except.ok.injEq, Option.map_eq_none_iff]
  rw [hnone]
  constructor
  · intro hnothing moment hbehind
    cases hfound : schedule.previousIn zone now with
    | none => exact absurd hbehind (hnothing hfound moment)
    | some hit =>
      obtain ⟨hfound, hanchor⟩ := (previousIn_eq_some_iff hfree).mp hfound
      rw [Frame.ScansBehind, hfound] at hscan
      obtain ⟨hearlier, hyear, _, hoffers⟩ := (hbehind_iff moment).mp hbehind
      -- A closer occurrence would be within reach as well.
      have hle : zone.dateOf moment ≤ zone.dateOf hit := Int.not_lt.mp fun hcloser =>
        hscan.closest moment ⟨hoffers, hscan.holds.2.of_ge (Int.le_of_lt hcloser)⟩ hearlier
          (huniversal.lt_of_dateOf_lt hcloser)
      exact ⟨hit, (hbehind_iff hit).mpr ⟨hscan.isBeyond,
        Int.le_trans hyear (Date.year_mono hle), hanchor, hscan.holds.1⟩, hscan.holds.2⟩
  · intro hreach hfound moment hbehind
    obtain ⟨nearer, hnearer, hscans⟩ := hreach moment hbehind
    obtain ⟨hearlier, _, hanchor, hoffers⟩ := (hbehind_iff nearer).mp hnearer
    cases hcandidate : (Frame.ofSchedule schedule zone).previousOf schedule.recurrence now with
    | none =>
      rw [Frame.ScansBehind, hcandidate] at hscan
      exact hscan nearer ⟨hoffers, hscans⟩ hearlier
    | some hit =>
      rw [Frame.ScansBehind, hcandidate] at hscan
      -- The anchor cannot have cut off `hit`, because it does not cut off `nearer`.
      have hle : zone.dateOf nearer ≤ zone.dateOf hit := Int.not_lt.mp fun hcloser =>
        hscan.closest nearer ⟨hoffers, hscans⟩ hearlier (huniversal.lt_of_dateOf_lt hcloser)
      have hkept := (previousIn_eq_some_iff hfree).mpr
        ⟨hcandidate, fun first hfirst => Int.le_trans (hanchor first hfirst) hle⟩
      rw [hfound] at hkept
      simp at hkept

end Scans

/-- A search for a scanned recurrence without clauses ends it rightly exactly if
some occurrence on that side is within reach, or there is none at all. -/
theorem searches_complete_iff_within_reach {text : String}
    (hread : Schedule.ofText text = .ok schedule) (hzone : Zone.named schedule.zone = .ok zone)
    (huniversal : zone.IsUniversal) (hfree : schedule.IsClauseFree)
    (hscanned : schedule.recurrence.IsScanned) (hnow : (zone.dateOf now).HasFourDigitYear) :
    ((schedule.next now = .ok none → ∀ moment, ¬ schedule.IsAhead zone now moment) ↔
      ∀ moment, schedule.IsAhead zone now moment → ∃ nearer, schedule.IsAhead zone now nearer ∧
        schedule.recurrence.ScansTo (zone.dateOf now) (zone.dateOf nearer)) ∧
    ((schedule.previous now = .ok none → ∀ moment, ¬ schedule.IsBehind zone now moment) ↔
      ∀ moment, schedule.IsBehind zone now moment → ∃ nearer, schedule.IsBehind zone now nearer ∧
        schedule.recurrence.ScansBackTo (zone.dateOf now) (zone.dateOf nearer)) := by
  have hwell := wellFormed_of_ofText hread
  exact ⟨next_none_iff_within_reach hwell hzone huniversal hfree hnow hscanned,
    previous_none_iff_within_reach hwell hzone huniversal hfree hnow hscanned⟩

/-- Searches for a perennial recurrence without clauses never end it too early. -/
theorem searches_complete_of_isPerennial {text : String}
    (hread : Schedule.ofText text = .ok schedule) (hzone : Zone.named schedule.zone = .ok zone)
    (huniversal : zone.IsUniversal) (hfree : schedule.IsClauseFree)
    (hperennial : schedule.recurrence.IsPerennial) (hnow : (zone.dateOf now).HasFourDigitYear) :
    (schedule.next now = .ok none → ∀ moment, ¬ schedule.IsAhead zone now moment) ∧
      (schedule.previous now = .ok none → ∀ moment, ¬ schedule.IsBehind zone now moment) := by
  have hwell := wellFormed_of_ofText hread
  have hkeeps : (Frame.ofSchedule schedule zone).zone.KeepsDates := huniversal.keepsDates
  constructor
  · rw [next_none_iff_within_reach hwell hzone huniversal hfree hnow hperennial.isScanned]
    intro moment hahead
    have hahead_iff : ∀ moment, schedule.IsAhead zone now moment ↔ _ :=
      fun _ => isAhead_iff hwell hzone huniversal hfree hnow
    obtain ⟨hlater, hyear, hoffers⟩ := (hahead_iff moment).mp hahead
    obtain ⟨nearer, hnearer, hscans⟩ := Frame.exists_offers_ahead hkeeps hwell.recurrence
      hperennial hnow hoffers hlater hyear
    exact ⟨nearer, (hahead_iff nearer).mpr hnearer, hscans⟩
  · rw [previous_none_iff_within_reach hwell hzone huniversal hfree hnow hperennial.isScanned]
    intro moment hbehind
    have hbehind_iff : ∀ moment, schedule.IsBehind zone now moment ↔ _ :=
      fun _ => isBehind_iff hwell hzone huniversal hfree hnow
    obtain ⟨hearlier, hyear, hanchor, hoffers⟩ := (hbehind_iff moment).mp hbehind
    obtain ⟨nearer, ⟨hnearer, hle, hoffered⟩, hscans⟩ := Frame.exists_offers_behind hkeeps
      hwell.recurrence hperennial hnow hoffers hearlier hyear
    refine ⟨nearer, (hbehind_iff nearer).mpr ⟨hnearer, ?_, ?_, hoffered⟩, hscans⟩
    · exact hyear.trans (Date.year_mono hle)
    · exact fun first hfirst => Int.le_trans (hanchor first hfirst) hle

/-- From 2096-03-01 no leap day is found, although 2104-02-29 is one. -/
theorem next_misses_leap_day :
    ∃ schedule, Schedule.ofText "every year on feb 29 at 12:00" = .ok schedule ∧
      schedule.next (.ofSecond 66117081600) = .ok none ∧
      schedule.IsAhead .utc (.ofSecond 66117081600) (.ofSecond 66369412800) := by
  refine ⟨⟨.yearly 1 (.date .february 29) [⟨12, 0⟩], none, [], none, none, []⟩, ?_, ?_, ?_⟩
  · cbv
  · cbv
  · exact ⟨by decide, by decide, by decide, by cbv⟩

/-- No leap day is within reach from 2096-03-01. -/
theorem searches_complete_iff_within_reach_of_leap_day :
    ∃ schedule, Schedule.ofText "every year on feb 29 at 12:00" = .ok schedule ∧
      ∀ moment, schedule.IsAhead .utc (.ofSecond 66117081600) moment →
        ¬ schedule.recurrence.ScansTo (Zone.utc.dateOf (.ofSecond 66117081600))
          (Zone.utc.dateOf moment) := by
  let schedule : Schedule :=
    ⟨.yearly 1 (.date .february 29) [⟨12, 0⟩], none, [], none, none, []⟩
  have hread : Schedule.ofText "every year on feb 29 at 12:00" = .ok schedule := by cbv
  have hnext : schedule.next (.ofSecond 66117081600) = .ok none := by cbv
  have hnow : (Zone.utc.dateOf (.ofSecond 66117081600)).HasFourDigitYear := by decide
  have hexact := searches_complete_iff_within_reach hread rfl (Zone.isUniversal_universal _)
    ⟨rfl, rfl, rfl⟩ trivial hnow
  refine ⟨schedule, hread, fun moment hahead hscans => ?_⟩
  exact hexact.1.mpr (fun _ _ => ⟨moment, hahead, hscans⟩) hnext moment hahead

end Schedule

end Cadence
