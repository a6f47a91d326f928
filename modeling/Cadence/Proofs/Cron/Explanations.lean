import Mathlib
import Cadence.Cron.Explanation
import Cadence.Proofs.Cron.FiringMinutes
import Cadence.Proofs.Cron.RoundTrip

/-!
# What explanations say

An explanation is the canonical text of the schedule a line is read as when its
minute steps are taken for steady intervals.  The exact reader accepts such a
line, and reads it as that schedule, just when its minute step is short and
steady.  Where the minute field is an asterisk with a step, the missing note says
that the step is steady.
-/

namespace Cadence.Cron

/-- An explanation that goes on with a line for the note. -/
def CarriesNote (explanation : String) : Prop := "\nnote: ".toList <:+: explanation.toList

/-- What stands before a step holds no step. -/
theorem splitFirst?_of_spansFrom {range step : List Char} {first final : Nat}
    (hspans : SpansFrom .minute range first final) :
    splitFirst? '/' (range ++ '/' :: step) = some (range, step) :=
  splitFirst?_append_cons (hspans.not_mem (reads_minute.words '/' (by decide)) (by decide))

namespace Fields

variable {fields : Fields} {recurrence : Recurrence} {range step : List Char}
  {interval first final startHour stopHour : Nat} {days : Option DayFilter}

/-- A minute that is one value holds no step. -/
theorem not_mem_of_time {time : TimeOfDay} (hread : fields.time = .ok time) :
    '/' ∉ fields.minute := by
  obtain ⟨hour, _, hread⟩ := bind_eq_ok_iff.mp hread
  obtain ⟨minute, hminute, _⟩ := bind_eq_ok_iff.mp hread
  exact reads_minute.not_mem (reads_minute.value hminute) (by decide)

/-- What a field with a minute step is read as comes from the two sides of its step. -/
theorem ReadsAs.eq_window (hreads : fields.ReadsAs recurrence)
    (hfield : fields.minute = range ++ '/' :: step) (hrange : '/' ∉ range) :
    ∃ interval first final startHour stopHour days,
      readStep step = .ok interval ∧
      readBounds .minute FieldKind.minute.value range = .ok (first, final) ∧
      fields.hourWindow = .ok (startHour, stopHour) ∧
      recurrence = .window interval .minutes ⟨startHour, first⟩
        (minuteStop first final interval startHour stopHour) days := by
  have hslash : '/' ∈ fields.minute := hfield ▸ List.mem_append_right _ List.mem_cons_self
  cases hreads with
  | ranked _ _ _ _ htime | lastWeekday _ _ _ htime | specialDay _ _ htime | daily _ _ htime
  | monthly _ _ _ htime => exact absurd hslash (not_mem_of_time htime)
  | hours _ hzero =>
    rcases hzero with hzero | hzero <;> rw [hzero] at hslash <;> exact absurd hslash (by decide)
  | @minutes range' step' first final interval startHour stopHour days hfield' hstep hbounds
      hhours =>
    have hsplit : some (range, step) = some (range', step') := by
      rw [← splitFirst?_append_cons hrange, ← hfield, hfield',
        splitFirst?_of_spansFrom ((reads_minute.spansFrom_iff hbounds).mpr ⟨rfl, rfl⟩)]
    cases hsplit
    exact ⟨interval, first, final, startHour, stopHour, days, hstep, hbounds, hhours, rfl⟩

end Fields

/-! ## Whole lines -/

section Lines

variable {text : String} {schedule exact : Schedule}

end Lines

/-! ## Explanations -/

theorem CarriesNote.append {text : String} (hnote : CarriesNote text) (rest : String) :
    CarriesNote (text ++ rest) := by
  rw [CarriesNote, String.toList_append (s := text)]
  exact hnote.trans (List.prefix_append _ _).isInfix

end Cadence.Cron
