import Mathlib
import Cadence.Command.Run
import Cadence.Proofs.Clock.WrittenTimestamps
import Cadence.Proofs.Schedule.ResumedStreams
import Cadence.Proofs.Zone.WholeMinutes

/-!
# Paging

The command for the next occurrences prints one of them on a line, and takes such a line
as the instant to start from.  What it prints after the last line of a page is what it
would have printed below that page: the line is read as the occurrence it was printed for,
and the stream goes on from there as if it had not been interrupted.

This does not depend on which zones are known.  Only hours and minutes are written of an
offset, so the zone that the lines are printed in has to have offsets of whole minutes.
-/

namespace Cadence

/-- Offsets are whole minutes, less than a day of them, and so written without loss. -/
structure Zone.WritesOffsets (zone : Zone) : Prop where
  isShort : zone.HasShortOffsets
  isWhole : ∀ second, zone.offsetAt second % 60 = 0

/-- All zones of the table write their offsets without loss. -/
theorem Zone.writesOffsets_of_named {name : Option String} {zone : Zone}
    (hzone : Zone.named name = .ok zone) : zone.WritesOffsets where
  isShort := hasShortOffsets_of_named hzone
  isWhole := (countsMinutes_of_mem_table (mem_table_of_named hzone).1).offsets

namespace Command

/-- The occurrences that the answer to a command for the next ones lists, each as it is
printed. -/
def printedLines (answer : String) : List String :=
  if answer = "no upcoming occurrences" then []
  else (splitAll '\n' answer.toList).map String.ofList

/-! ## Lines -/

/-- A timestamp is written on one line, and not with the words for no occurrences. -/
theorem not_mem_text (stamp : Timestamp) : '\n' ∉ stamp.text.toList ∧ 'n' ∉ stamp.text.toList := by
  constructor
  all_goals
    intro hmem
    have hfigures := stamp.isFigures_text _ hmem
    revert hfigures
    decide

/-- The lines of an answer are those it has been put together from. -/
theorem printedLines_joined {lines : List String} (hne : lines ≠ [])
    (hlines : ∀ line ∈ lines, '\n' ∉ line.toList ∧ 'n' ∉ line.toList) :
    printedLines (joined "\n" lines) = lines := by
  have hsome : joined "\n" lines ≠ "no upcoming occurrences" := by
    intro hnone
    have hletter : 'n' ∈ (joined "\n" lines).toList := by
      rw [hnone]
      decide
    rcases of_mem_joined hletter with hbreak | ⟨line, hmem, hline⟩
    · revert hbreak
      decide
    · exact (hlines line hmem).2 hline
  have hsplit : splitAll '\n' (joined "\n" lines).toList = lines.map String.toList :=
    splitAll_joined rfl hne fun line hmem => (hlines line hmem).1
  rw [printedLines, if_neg hsome, hsplit, List.map_map]
  exact (List.map_congr_left fun line _ => String.ofList_toList).trans (List.map_id lines)

/-- An answer lists each occurrence as it is printed. -/
theorem printedLines_occurrenceLines (zone : Zone) (hits : List Timestamp) :
    printedLines (occurrenceLines zone hits) =
      hits.map fun hit => (zone.timestamp hit.instant).text := by
  cases hits with
  | nil => exact if_pos rfl
  | cons hit hits =>
    refine printedLines_joined (List.cons_ne_nil _ _) fun line hmem => ?_
    obtain ⟨other, _, rfl⟩ := List.mem_map.mp hmem
    exact not_mem_text _

theorem joined_printedLines (zone : Zone) {hits : List Timestamp} (hne : hits ≠ []) :
    joined "\n" (printedLines (occurrenceLines zone hits)) = occurrenceLines zone hits := by
  rw [printedLines_occurrenceLines, occurrenceLines,
    if_neg (Bool.eq_false_iff.mp (List.isEmpty_eq_false_iff.mpr hne))]

/-! ## Answers -/

/-- The answer to the command for the next occurrences, whichever zones are known. -/
def nextAmong (known : Option String → Except Zone.Unknown Zone) (expression : String)
    (count : Option Nat) (start : Option String) (settings : Settings) (now : Instant) :
    Except RunError String := do
  let zone ← knownZone (known (some settings.zone))
  let schedule ← readExpression expression
  let moment ← reference start now
  let inner ← knownZone (known schedule.zone)
  return occurrenceLines zone
    (((Occurrences.inZone schedule inner moment none).take (count.getD settings.count)).map
      inner.timestamp)

/-- The command is answered with the zones of the table. -/
theorem run_next_eq (expression : String) (count : Option Nat) (start : Option String)
    (settings : Settings) (now : Instant) :
    (Command.next expression count start).run settings now =
      nextAmong Zone.named expression count start settings now := by
  rw [run, nextAmong]
  refine bind_congr fun zone => bind_congr fun schedule => bind_congr fun moment => ?_
  rw [Schedule.upcoming, Occurrences.after]
  cases Zone.named schedule.zone <;> rfl

section Known

variable {known : Option String → Except Zone.Unknown Zone} {expression : String}
  {schedule : Schedule} {settings : Settings} {output inner : Zone}
  (hread : Schedule.ofText expression = .ok schedule)
  (houtput : known (some settings.zone) = .ok output) (hinner : known schedule.zone = .ok inner)
include hread houtput

theorem exists_reference {count : Option Nat} {start : Option String} {now : Instant}
    {page : String} (hpage : nextAmong known expression count start settings now = .ok page) :
    ∃ moment, reference start now = .ok moment := by
  cases hstart : reference start now with
  | error cause =>
    rw [nextAmong, houtput, readExpression, hread, hstart] at hpage
    cases hpage
  | ok moment => exact ⟨moment, rfl⟩

include hinner

theorem nextAmong_eq {start : Option String} {now moment : Instant}
    (hstart : reference start now = .ok moment) (count : Nat) :
    nextAmong known expression (some count) start settings now =
      .ok (occurrenceLines output
        (((Occurrences.inZone schedule inner moment none).take count).map inner.timestamp)) := by
  rw [nextAmong, houtput, readExpression, hread, hstart]
  dsimp only [knownZone, Except.mapError, bind, Except.bind]
  rw [hinner]
  rfl

end Known

/-! ## Pages -/

/-- Two clocks are less than two days apart, so what has a year of four figures on the one
is in the calendar of the other. -/
theorem least_lt_dateOf {zone other : Zone} {moment : Instant} (hwrites : zone.WritesOffsets)
    (hspaced : other.HasSpacedChanges) (hyear : (zone.dateOf moment).HasFourDigitYear) :
    Date.least < other.dateOf moment := by
  have hzone := hwrites.isShort moment.second
  have hother := hspaced.offsetAt_bounds moment.second
  have hnear : Date.IsSupported ⟨(other.dateOf moment).dayNumber - 1⟩ := by
    apply hyear.isSupported_of_near
    all_goals
      simp only [Zone.dateOf, dateOfSecond, Zone.localSecond, daySeconds] at hzone ⊢
      omega
  have hleast : Date.least.dayNumber ≤ (other.dateOf moment).dayNumber - 1 := hnear.1
  change Date.least.dayNumber < (other.dateOf moment).dayNumber
  omega

/-- An occurrence is read back from its line. -/
theorem readInstant_text {zone : Zone} (hwrites : zone.WritesOffsets) {hit : Instant}
    (hnano : hit.nano = 0)
    (hyear : (dateOfSecond (zone.timestamp hit).localSecond).HasFourDigitYear) :
    readInstant (zone.timestamp hit).text = .ok hit := by
  have hread : Timestamp.read (zone.timestamp hit).text = .ok (zone.timestamp hit) :=
    Timestamp.read_text hnano hyear (hwrites.isWhole hit.second) (hwrites.isShort hit.second)
  rw [readInstant, hread]
  rfl

/-- A page of occurrences and the page that starts from its last line are the lines of one
longer page, without a gap or a repetition, as long as the year of that line has four
figures.  With the zones of the table these are the answers to the command. -/
theorem joined_next_pages {known : Option String → Except Zone.Unknown Zone}
    {expression : String} {schedule : Schedule} {settings : Settings} {output inner : Zone}
    {start : Option String} {now later : Instant} {count more : Nat} {page last : String}
    (hread : Schedule.ofText expression = .ok schedule)
    (houtput : known (some settings.zone) = .ok output) (hwrites : output.WritesOffsets)
    (hinner : known schedule.zone = .ok inner) (hspaced : inner.HasSpacedChanges)
    (hpage : nextAmong known expression (some count) start settings now = .ok page)
    (hlast : (printedLines page).getLast? = some last)
    (hyear : ∃ stamp : Timestamp, stamp.text = last ∧
      (dateOfSecond stamp.localSecond).HasFourDigitYear) :
    (∃ both rest,
      nextAmong known expression (some (count + more)) start settings now = .ok both ∧
      nextAmong known expression (some more) (some last) settings later = .ok rest ∧
      both = joined "\n" (printedLines page ++ printedLines rest)) ∧
    (known = Zone.named → ∀ count start now,
      (Command.next expression count start).run settings now =
        nextAmong known expression count start settings now) := by
  have hwell := (Schedule.wellFormed_of_ofText hread).recurrence
  obtain ⟨moment, hstart⟩ := exists_reference hread houtput hpage
  rw [nextAmong_eq hread houtput hinner hstart] at hpage
  obtain rfl := Except.ok.inj hpage
  have hlines : ∀ hits : List Instant,
      printedLines (occurrenceLines output (hits.map inner.timestamp)) =
        hits.map fun hit => (output.timestamp hit).text := by
    intro hits
    rw [printedLines_occurrenceLines, List.map_map]
    rfl
  -- The last line is read as the occurrence that it was printed for.
  rw [hlines, List.getLast?_map, Option.map_eq_some_iff] at hlast
  obtain ⟨hit, hhit, rfl⟩ := hlast
  obtain ⟨stamp, htext, hfour⟩ := hyear
  have hyear : (dateOfSecond (output.timestamp hit).localSecond).HasFourDigitYear :=
    Timestamp.hasFourDigitYear_of_text_eq htext.symm hfour
  have hnano := (Schedule.of_mem_take hwell hspaced (List.mem_of_getLast? hhit)).2.2
  have hback : reference (some (output.timestamp hit).text) later = .ok hit := by
    rw [reference]
    exact readInstant_text hwrites hnano hyear
  -- From there the stream goes on as before.
  have hresumed := Schedule.take_add_resumed hwell hspaced hhit
    (least_lt_dateOf hwrites hspaced hyear) more
  have hsome : ((Occurrences.inZone schedule inner moment none).take (count + more)).map
      inner.timestamp ≠ [] := by
    rw [hresumed, ne_eq, List.map_eq_nil_iff, List.append_eq_nil_iff]
    exact fun hnone => List.ne_nil_of_mem (List.mem_of_getLast? hhit) hnone.1
  refine ⟨⟨_, _, nextAmong_eq hread houtput hinner hstart _,
    nextAmong_eq hread houtput hinner hback more, ?_⟩, ?_⟩
  · rw [hlines, hlines, ← List.map_append, ← hresumed, ← hlines, joined_printedLines output hsome]
  · rintro rfl count start now
    exact run_next_eq expression count start settings now

/-- The page ends with 01:30 on the Sunday on which the clocks go back in New York and show
this time twice. -/
theorem joined_next_pages_over_fold : ∃ both rest,
    (Command.next "every day at 01:30 until nov 2 in America/New_York" (some (1 + 2))
      (some "2026-10-31T12:00:00-04:00")).run ⟨"warn", 5, "America/New_York"⟩ (.ofSecond 0) =
        .ok both ∧
    (Command.next "every day at 01:30 until nov 2 in America/New_York" (some 2)
      (some "2026-11-01T01:30:00-04:00")).run ⟨"warn", 5, "America/New_York"⟩ (.ofSecond 0) =
        .ok rest ∧
    both = joined "\n" (printedLines "2026-11-01T01:30:00-04:00" ++ printedLines rest) := by
  obtain ⟨schedule, hread, hzone⟩ : ∃ schedule : Schedule,
      Schedule.ofText "every day at 01:30 until nov 2 in America/New_York" = .ok schedule ∧
        schedule.zone = some "America/New_York" := ⟨_, by cbv, rfl⟩
  have hinner : Zone.named schedule.zone = .ok (.easternTime "America/New_York") :=
    hzone ▸ Zone.named_newYork
  have hwrites := Zone.writesOffsets_of_named hinner
  have hspaced := Zone.hasSpacedChanges_of_mem_table (Zone.mem_table_of_named hinner).1
  have hpage : (Command.next "every day at 01:30 until nov 2 in America/New_York" (some 1)
      (some "2026-10-31T12:00:00-04:00")).run ⟨"warn", 5, "America/New_York"⟩ (.ofSecond 0) =
        .ok "2026-11-01T01:30:00-04:00" := by
    cbv
  have hlast : (printedLines "2026-11-01T01:30:00-04:00").getLast? =
      some "2026-11-01T01:30:00-04:00" := by decide +kernel
  have hyear : ∃ stamp : Timestamp, stamp.text = "2026-11-01T01:30:00-04:00" ∧
      (dateOfSecond stamp.localSecond).HasFourDigitYear :=
    ⟨⟨.ofSecond 63929194200, -14400⟩, by decide +kernel, by decide +kernel⟩
  rw [run_next_eq] at hpage
  obtain ⟨⟨both, rest, hboth, hrest, hjoined⟩, hrun⟩ :=
    joined_next_pages hread Zone.named_newYork hwrites hinner hspaced hpage hlast hyear
  exact ⟨both, rest, (hrun rfl _ _ _).trans hboth, (hrun rfl _ _ _).trans hrest, hjoined⟩

end Command

end Cadence
