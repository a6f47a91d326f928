import Mathlib
import Cadence.Proofs.Command.Paging

/-!
# The lines of upcoming occurrences

The answer to the command for the next occurrences says that there are none where its list
of them is empty.  The list ends where the search does, but also where no more have been
asked for.  Settings that ask for none are refused, while a command may ask for none, and
is then told that there are none, whatever lies ahead.
-/

namespace Cadence

/-- Settings that are not refused ask for an occurrence at least. -/
theorem Settings.count_ne_zero {settings : Settings} (hvalid : settings.fault? = none) :
    settings.count ≠ 0 := by
  intro hcount
  rw [fault?, if_pos hcount] at hvalid
  cases hvalid

/-- Where nothing is asked for or found, the stream of a schedule yields nothing. -/
theorem Schedule.take_inZone_eq_nil_iff {schedule : Schedule} {zone : Zone} {start : Instant}
    {count : Nat} : (Occurrences.inZone schedule zone start none).take count = [] ↔
      count = 0 ∨ schedule.nextIn zone start = none := by
  rw [Occurrences.take_eq_nil_iff, Occurrences.inZone, Occurrences.head?_endless, nextIn]

namespace Command

/-- An answer says that there are no occurrences exactly if it has none to list. -/
theorem occurrenceLines_eq_none_iff {zone : Zone} {hits : List Timestamp} :
    occurrenceLines zone hits = "no upcoming occurrences" ↔ hits = [] := by
  constructor
  · intro hanswer
    have hlines := printedLines_occurrenceLines zone hits
    rw [hanswer, printedLines, if_pos rfl] at hlines
    exact List.map_eq_nil_iff.mp hlines.symm
  · rintro rfl
    rfl

/-- A command that asks for no number of occurrences asks for that of the settings. -/
theorem getD_count_eq_zero_iff {settings : Settings} (hvalid : settings.fault? = none)
    {count : Option Nat} : count.getD settings.count = 0 ↔ count = some 0 := by
  cases count with
  | none => exact ⟨fun hzero => absurd hzero (Settings.count_ne_zero hvalid), nofun⟩
  | some count => exact Option.some_inj.symm

section Known

variable {known : Option String → Except Zone.Unknown Zone} {expression : String}
  {settings : Settings} {count : Option Nat} {start : Option String} {now moment : Instant}

theorem nextAmong_getD : nextAmong known expression count start settings now =
    nextAmong known expression (some (count.getD settings.count)) start settings now := by
  cases count <;> rfl

/-- The zone to print in is looked up before anything else is read. -/
theorem nextAmong_of_unknown {unknown : Zone.Unknown}
    (houtput : known (some settings.zone) = .error unknown) :
    nextAmong known expression count start settings now =
      .error (.report (.ofUnknownZone unknown)) := by
  rw [nextAmong, houtput]
  rfl

/-- Where a number other than zero or none at all is asked for, the answer says that there
are no occurrences exactly if the search finds none, and otherwise has one line for each of
them, in order.  Where zero is asked for, it says so whatever the search finds.  If the zone
to print in is unknown, this is reported instead.  With the zones of the table these are the
answers to the command. -/
theorem next_answers_none_iff {schedule : Schedule} {inner : Zone} (count : Option Nat)
    (hread : Schedule.ofText expression = .ok schedule) (hinner : known schedule.zone = .ok inner)
    (hvalid : settings.fault? = none) (hstart : reference start now = .ok moment) :
    (∀ output, known (some settings.zone) = .ok output → ∃ answer lines,
      nextAmong known expression count start settings now = .ok answer ∧
      lines = ((Occurrences.inZone schedule inner moment none).take
        (count.getD settings.count)).map (fun hit => (output.timestamp hit).text) ∧
      printedLines answer = lines ∧
      (answer = "no upcoming occurrences" ↔
        count = some 0 ∨ schedule.nextIn inner moment = none) ∧
      (answer ≠ "no upcoming occurrences" → answer = joined "\n" lines)) ∧
    (∀ unknown, known (some settings.zone) = .error unknown →
      nextAmong known expression count start settings now =
        .error (.report (.ofUnknownZone unknown))) ∧
    (known = Zone.named →
      (Command.next expression count start).run settings now =
        nextAmong known expression count start settings now ∧
      schedule.next moment = .ok ((schedule.nextIn inner moment).map inner.timestamp) ∧
      schedule.upcoming moment (count.getD settings.count) =
        .ok (((Occurrences.inZone schedule inner moment none).take
          (count.getD settings.count)).map inner.timestamp)) := by
  refine ⟨fun output houtput => ?_, fun unknown hunknown => nextAmong_of_unknown hunknown, ?_⟩
  · have hanswer := nextAmong_eq hread houtput hinner hstart (count.getD settings.count)
    have hprinted := printedLines_occurrenceLines output
      (((Occurrences.inZone schedule inner moment none).take
        (count.getD settings.count)).map inner.timestamp)
    rw [List.map_map] at hprinted
    refine ⟨_, _, nextAmong_getD.trans hanswer, rfl, hprinted, ?_, fun hsome => ?_⟩
    · rw [occurrenceLines_eq_none_iff, List.map_eq_nil_iff, Schedule.take_inZone_eq_nil_iff,
        getD_count_eq_zero_iff hvalid]
    · rw [← joined_printedLines output (mt occurrenceLines_eq_none_iff.mpr hsome), hprinted]
      rfl
  · rintro rfl
    refine ⟨run_next_eq expression count start settings now, ?_,
      Schedule.upcoming_eq_ok hinner moment _⟩
    rw [Schedule.next, hinner]
    rfl

/-- Two occurrences are left before the closing date, fewer than the settings ask for.  The
clocks of New York go back the night before the first. -/
theorem next_answers_none_iff_before_closing : ∃ answer lines,
    (Command.next "every day at 09:00 until nov 2 in America/New_York" none
      (some "2026-10-31T12:00:00-04:00")).run .standard (.ofSecond 0) = .ok answer ∧
    lines = ["2026-11-01T14:00:00+00:00", "2026-11-02T14:00:00+00:00"] ∧
    answer = joined "\n" lines := by
  obtain ⟨schedule, hread, hzone⟩ : ∃ schedule : Schedule,
      Schedule.ofText "every day at 09:00 until nov 2 in America/New_York" = .ok schedule ∧
        schedule.zone = some "America/New_York" := ⟨_, by cbv, rfl⟩
  have hinner : Zone.named schedule.zone = .ok (.easternTime "America/New_York") :=
    hzone ▸ Zone.named_newYork
  obtain ⟨output, houtput⟩ : ∃ output, Zone.named (some Settings.standard.zone) = .ok output :=
    ⟨_, rfl⟩
  have hvalid : Settings.standard.fault? = none := by decide
  have hstart : reference (some "2026-10-31T12:00:00-04:00") (.ofSecond 0) =
      .ok (.ofSecond 63929145600) := by
    cbv
  obtain ⟨hknown, -, hrun⟩ := next_answers_none_iff none hread hinner hvalid hstart
  obtain ⟨answer, lines, hanswer, -, hprinted, -, hjoined⟩ := hknown output houtput
  rw [← (hrun rfl).1] at hanswer
  have hcomputed : (Command.next "every day at 09:00 until nov 2 in America/New_York" none
      (some "2026-10-31T12:00:00-04:00")).run .standard (.ofSecond 0) =
        .ok "2026-11-01T14:00:00+00:00\n2026-11-02T14:00:00+00:00" := by
    cbv
  obtain rfl := Except.ok.inj (hanswer.symm.trans hcomputed)
  have hlines : printedLines "2026-11-01T14:00:00+00:00\n2026-11-02T14:00:00+00:00" =
      ["2026-11-01T14:00:00+00:00", "2026-11-02T14:00:00+00:00"] := by
    decide +kernel
  exact ⟨_, lines, hanswer, hprinted.symm.trans hlines, hjoined (by decide)⟩

/-- A command may ask for no occurrence, and is told that there are none though one lies
ahead. -/
theorem next_answers_none_at_zero : ∃ schedule hit,
    Command.ofArguments ["next", "every day at 09:00", "-n", "0"] =
      .ok (.next "every day at 09:00" (some 0) none) ∧
    Settings.standard.fault? = none ∧
    (Command.next "every day at 09:00" (some 0) none).run .standard (.ofSecond 63906062400) =
      .ok "no upcoming occurrences" ∧
    Schedule.ofText "every day at 09:00" = .ok schedule ∧
    schedule.next (.ofSecond 63906062400) = .ok (some hit) := by
  refine ⟨⟨.daily 1 .every [⟨9, 0⟩], none, [], none, none, []⟩, ⟨.ofSecond 63906138000, 0⟩,
    ?_, ?_, ?_, ?_, ?_⟩
  · cbv
  · decide
  · cbv
  · cbv
  · decide +kernel

end Known

end Command

end Cadence
