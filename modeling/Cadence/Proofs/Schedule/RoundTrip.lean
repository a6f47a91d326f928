import Cadence.Proofs.Expression.CanonicalPhrases
import Cadence.Proofs.Expression.ParsedSchedules

/-!
# Canonical texts are read back

The canonical text of a well-formed schedule is cut into the symbols of the
schedule, and these are read as the schedule itself.  So the canonical text
determines the schedule, and writing what was read changes nothing any more.  It
also follows that the well-formed schedules are all that expressions can say.
-/

namespace Cadence

/-- The canonical text of a well-formed schedule is cut into its symbols. -/
theorem tokenize_text {schedule : Schedule} (hwell : schedule.WellFormed) :
    ∃ tokens, tokenize schedule.text = .ok tokens ∧
      tokens.map Token.symbol = schedule.symbols :=
  Schedule.cutInto_text hwell 0

/-- Tokens with the symbols of a well-formed schedule are read as that schedule,
wherever they stand. -/
theorem scheduleOfTokens_of_symbols {schedule : Schedule} (hwell : schedule.WellFormed)
    {tokens : List Token} (htokens : tokens.map Token.symbol = schedule.symbols) :
    scheduleOfTokens tokens = .ok schedule := by
  obtain ⟨phrase, hsymbols, rfl⟩ := Schedule.spelled hwell
  exact scheduleOfTokens_of_phrase phrase (htokens.trans hsymbols.symm)

namespace Schedule

/-- A text that is cut into the symbols of a well-formed schedule is read as that
schedule. -/
theorem ofText_of_symbols {schedule : Schedule} (hwell : schedule.WellFormed) {text : String}
    (htext : ∃ tokens, tokenize text = .ok tokens ∧
      tokens.map Token.symbol = schedule.symbols) : ofText text = .ok schedule := by
  obtain ⟨tokens, hcut, hsymbols⟩ := htext
  rw [ofText, hcut]
  dsimp only
  rw [scheduleOfTokens_of_symbols hwell hsymbols]

/-- A well-formed schedule is read back from its canonical text. -/
theorem ofText_text {schedule : Schedule} (hwell : schedule.WellFormed) :
    ofText schedule.text = .ok schedule := by
  obtain ⟨tokens, hcut, hsymbols⟩ := tokenize_text hwell
  rw [ofText, hcut]
  dsimp only
  rw [scheduleOfTokens_of_symbols hwell hsymbols]

/-- A schedule with every clause, whose days are a list of single days and
ranges. -/
def quarterly : Schedule where
  recurrence := .monthly 3 (.days [.single 1, .range 11 23]) [⟨9, 0⟩, ⟨17, 30⟩]
  zone := some "Europe/Berlin"
  skipped := [.yearly .december 25, .fixed ⟨739617⟩]
  lastDay := some (.fixed ⟨740346⟩)
  anchor := some ⟨739617⟩
  season := [.january, .july]

theorem ofText_text_quarterly : quarterly.WellFormed ∧ quarterly.text =
      "every 3 months on the 1st, 11th to 23rd at 09:00, 17:30 except dec 25, 2026-01-01 " ++
        "until 2027-12-31 starting 2026-01-01 during jan, jul in Europe/Berlin" ∧
    ofText quarterly.text = .ok quarterly := by
  have hwell : quarterly.WellFormed := by
    have hstart : Date.HasFourDigitYear ⟨739617⟩ := by decide
    have hstop : Date.HasFourDigitYear ⟨740346⟩ := by decide
    have hskipped : ∀ day ∈ [CalendarDay.yearly .december 25, .fixed ⟨739617⟩],
        day.WellFormed := by
      simp only [List.forall_mem_cons, CalendarDay.WellFormed]
      exact ⟨by decide, hstart, List.forall_mem_nil _⟩
    have hentries : ∀ entry ∈ [MonthDays.single 1, .range 11 23], entry.WellFormed := by
      simp only [List.forall_mem_cons, MonthDays.WellFormed]
      exact ⟨by decide, by decide, List.forall_mem_nil _⟩
    have hzone : ZoneNameWellFormed "Europe/Berlin" := by
      have htest : "Europe/Berlin".toList.all (fun c => !isAsciiBlank c) = true := by decide
      refine ⟨by decide, fun c hc => ?_⟩
      simpa only [Bool.not_eq_true'] using List.all_eq_true.mp htest c hc
    constructor
    · exact ⟨⟨by decide, by decide⟩, ⟨nofun, hentries⟩, nofun, by decide⟩
    · exact hskipped
    · exact fun day hday => Option.some.inj hday ▸ hstop
    · exact fun date hdate => Option.some.inj hdate ▸ hstart
    · exact fun name hname => Option.some.inj hname ▸ hzone
  exact ⟨hwell, by decide +kernel, ofText_text hwell⟩

/-- The schedules that are read from some text are the well-formed ones. -/
theorem exists_ofText_eq_ok_iff_wellFormed {schedule : Schedule} :
    (∃ text, ofText text = .ok schedule) ↔ schedule.WellFormed := by
  constructor
  · rintro ⟨text, hread⟩
    exact wellFormed_of_ofText hread
  · intro hwell
    exact ⟨schedule.text, ofText_of_symbols hwell (tokenize_text hwell)⟩

/-- Different well-formed schedules have different canonical texts. -/
theorem text_injective {first second : Schedule} (hfirst : first.WellFormed)
    (hsecond : second.WellFormed) (htext : first.text = second.text) : first = second := by
  obtain ⟨tokens, hcut, hsymbols⟩ := tokenize_text hfirst
  obtain ⟨others, hcutOther, hothers⟩ := tokenize_text hsecond
  rw [htext, hcutOther] at hcut
  obtain rfl := Except.ok.inj hcut
  have hread := scheduleOfTokens_of_symbols hfirst hsymbols
  rw [scheduleOfTokens_of_symbols hsecond hothers] at hread
  exact (Except.ok.inj hread).symm

end Schedule

end Cadence
