import Cadence.Cron.Writing
import Cadence.Proofs.Cron.Explanations

/-!
# Divisions by a step

Readers of cron expressions divide by the steps that they have read, and a step of
zero is refused before that: where the step is read, or because the fields that
hold it are read as single values.  An explanation divides once more, by the step of
the minute field, and only after the whole line has been read.

A line is written from a schedule instead, which may have been built by hand.
Nothing has refused its interval, so writing does divide by zero.
-/

namespace Cadence.Cron

/-- A result that is no failure of a certain kind, whatever else it may be. -/
def Avoids {ε α : Type} (fault : ε) (result : Except ε α) : Prop := result ≠ .error fault

namespace Avoids

variable {ε α β : Type} {fault cause : ε} {result : Except ε α}

theorem ok (value : α) : Avoids fault (.ok value) := by
  rintro ⟨⟩

theorem error (hcause : cause ≠ fault) : Avoids fault (Except.error cause : Except ε α) :=
  fun heq => hcause (Except.error.inj heq)

/-- What comes next matters only for the value it is given. -/
theorem bind {next : α → Except ε β} (hresult : Avoids fault result)
    (hnext : ∀ value, result = .ok value → Avoids fault (next value)) :
    Avoids fault (result >>= next) := by
  cases result with
  | error other => exact fun heq => hresult (congrArg _ (Except.error.inj heq))
  | ok value => exact hnext value rfl

theorem map {f : α → β} (hresult : Avoids fault result) : Avoids fault (f <$> result) :=
  hresult.bind fun value _ => ok (f value)

theorem mapM {reader : α → Except ε β} (items : List α)
    (hreader : ∀ item, Avoids fault (reader item)) : Avoids fault (items.mapM reader) := by
  induction items with
  | nil => exact ok []
  | cons item items ih =>
    rw [List.mapM_cons]
    exact (hreader item).bind fun _ _ => ih.bind fun _ _ => ok _

end Avoids

/-! ## Parts of a field -/

theorem FieldKind.value_avoids (kind : FieldKind) (text : List Char) :
    Avoids .divisionByZero (kind.value text) := by
  unfold value
  split
  · exact .error (by rintro ⟨⟩)
  · split
    · exact .ok _
    · exact .error (by rintro ⟨⟩)

theorem readStep_avoids (text : List Char) : Avoids .divisionByZero (readStep text) := by
  unfold readStep
  split
  · exact .error (by rintro ⟨⟩)
  · exact .error (by rintro ⟨⟩)
  · exact .ok _

/-- A step that has been read can be divided by. -/
theorem divisor_avoids {text : List Char} {step : Nat} (hread : readStep text = .ok step) :
    Avoids .divisionByZero (divisor step) := by
  rw [divisor_of_readStep hread]
  exact .ok step

section Fields

variable {readOne : List Char → Except ReadError Nat}
  (hone : ∀ text, Avoids .divisionByZero (readOne text))
include hone

theorem readRange_avoids (start stop : List Char) :
    Avoids .divisionByZero (readRange readOne start stop) := by
  refine (hone start).bind fun first _ => (hone stop).bind fun final _ => ?_
  unfold ordered
  split
  · exact .ok _
  · exact .error (by rintro ⟨⟩)

theorem readBounds_avoids (kind : FieldKind) (text : List Char) :
    Avoids .divisionByZero (readBounds kind readOne text) := by
  unfold readBounds
  split
  · exact .ok _
  · split
    · exact readRange_avoids hone _ _
    · exact (hone text).bind fun _ _ => .ok _

theorem readEntry_avoids (kind : FieldKind) (entry : List Char) :
    Avoids .divisionByZero (readEntry kind readOne entry) := by
  unfold readEntry
  split
  · rename_i bounds step _
    refine (readStep_avoids step).bind fun interval hstep => ?_
    refine (readBounds_avoids hone kind bounds).bind fun _ _ => ?_
    exact (divisor_avoids hstep).bind fun _ _ => .ok _
  · split
    · exact (readRange_avoids hone _ _).bind fun _ _ => .ok _
    · split
      · exact .error (by rintro ⟨⟩)
      · exact (hone entry).bind fun _ _ => .ok _

theorem readList_avoids (kind : FieldKind) (field : List Char) :
    Avoids .divisionByZero (readList kind readOne field) :=
  (Avoids.mapM _ (readEntry_avoids hone kind)).bind fun _ _ => .ok _

end Fields

/-! ## Whole fields -/

theorem readMonth_avoids (text : List Char) : Avoids .divisionByZero (readMonth text) := by
  unfold readMonth
  split
  · exact .ok _
  · exact FieldKind.value_avoids _ _

theorem readSeason_avoids (field : List Char) : Avoids .divisionByZero (readSeason field) := by
  unfold readSeason
  split
  · exact .ok _
  · exact (readList_avoids readMonth_avoids _ _).bind fun _ _ => .ok _

theorem readMonthDays_avoids (entry : List Char) :
    Avoids .divisionByZero (readMonthDays entry) := by
  have hvalue := FieldKind.dayOfMonth.value_avoids
  unfold readMonthDays
  split
  · exact (readRange_avoids hvalue _ _).bind fun _ _ => .ok _
  · exact (readEntry_avoids hvalue _ _).bind fun _ _ => .ok _

theorem readMonthTarget_avoids (field : List Char) :
    Avoids .divisionByZero (readMonthTarget field) :=
  (Avoids.mapM _ readMonthDays_avoids).bind fun _ _ => .ok _

theorem readWeekdayNumber_avoids (text : List Char) :
    Avoids .divisionByZero (readWeekdayNumber text) := by
  unfold readWeekdayNumber
  split
  · split
    · exact .ok _
    · exact .error (by rintro ⟨⟩)
  · split
    · exact .ok _
    · exact .error (by rintro ⟨⟩)

theorem readWeekday_avoids (text : List Char) : Avoids .divisionByZero (readWeekday text) := by
  refine (readWeekdayNumber_avoids text).bind fun _ _ => ?_
  split
  · exact .ok _
  · exact .error (by rintro ⟨⟩)

theorem readDayFilter_avoids (field : List Char) :
    Avoids .divisionByZero (readDayFilter field) := by
  unfold readDayFilter
  split
  · exact .ok _
  · exact (readList_avoids readWeekdayNumber_avoids _ _).bind fun _ _ => .ok _

/-! ## Recurrences -/

namespace Fields

theorem time_avoids (fields : Fields) : Avoids .divisionByZero fields.time :=
  (FieldKind.value_avoids _ _).bind fun _ _ =>
    (FieldKind.value_avoids _ _).bind fun _ _ => .ok _

theorem readRank_avoids (text : List Char) : Avoids .divisionByZero (readRank text) := by
  unfold readRank
  split
  · exact .error (by rintro ⟨⟩)
  · split
    · exact .ok _
    · exact .error (by rintro ⟨⟩)

theorem positioned?_avoids (fields : Fields) : Avoids .divisionByZero fields.positioned? := by
  unfold positioned?
  split
  · refine (readRank_avoids _).bind fun _ _ => ?_
    refine (readWeekday_avoids _).bind fun _ _ => ?_
    split
    · exact fields.time_avoids.bind fun _ _ => .ok _
    · exact .error (by rintro ⟨⟩)
  · split
    · exact .ok _
    · exact .ok _
    · refine (readWeekday_avoids _).bind fun _ _ => ?_
      split
      · exact fields.time_avoids.bind fun _ _ => .ok _
      · exact .error (by rintro ⟨⟩)

theorem specialDay?_avoids (fields : Fields) : Avoids .divisionByZero fields.specialDay? := by
  -- Once the target is known, the time of day is read, or nothing.
  have hfinish (target : MonthTarget) : Avoids .divisionByZero
      (if fields.weekday = ['*'] then do
        let time ← fields.time
        pure (some (Recurrence.monthly 1 target [time]))
      else .error .weekdayWithSpecialDay) := by
    split
    · exact fields.time_avoids.bind fun _ _ => .ok _
    · exact .error (by rintro ⟨⟩)
  rw [specialDay?]
  by_cases hlast : fields.dayOfMonth = ['L']
  · simp only [if_pos hlast]
    exact hfinish _
  by_cases hbusiness : fields.dayOfMonth = ['L', 'W']
  · simp only [if_neg hlast, if_pos hbusiness]
    exact hfinish _
  simp only [if_neg hlast, if_neg hbusiness]
  cases dropFinal? 'W' fields.dayOfMonth with
  | none => exact .ok none
  | some day => exact (FieldKind.value_avoids _ day).bind fun _ _ => hfinish _

theorem hourWindow_avoids (fields : Fields) : Avoids .divisionByZero fields.hourWindow := by
  have hvalue := FieldKind.hour.value_avoids
  unfold hourWindow
  split
  · exact .error (by rintro ⟨⟩)
  · split
    · exact readRange_avoids hvalue _ _
    · split
      · exact .ok _
      · exact (hvalue _).bind fun _ _ => .ok _

theorem minuteSteps_avoids (fields : Fields) (range step : List Char) :
    Avoids .divisionByZero (fields.minuteSteps range step) := by
  refine (readStep_avoids step).bind fun interval hstep => ?_
  refine (readBounds_avoids FieldKind.minute.value_avoids _ range).bind fun _ _ => ?_
  refine fields.hourWindow_avoids.bind fun _ _ => ?_
  dsimp only
  split
  · exact .error (by rintro ⟨⟩)
  · -- With or without a filter, the slots are counted next, and two checks come last.
    split
    · refine (Avoids.ok none).bind fun days _ => ?_
      refine (divisor_avoids hstep).bind fun _ _ => ?_
      repeat' split
      all_goals first | exact .error (by rintro ⟨⟩) | exact .ok _
    · refine (readDayFilter_avoids _).map.bind fun days _ => ?_
      refine (divisor_avoids hstep).bind fun _ _ => ?_
      repeat' split
      all_goals first | exact .error (by rintro ⟨⟩) | exact .ok _

theorem hourSteps_avoids (fields : Fields) (range step : List Char) :
    Avoids .divisionByZero (fields.hourSteps range step) := by
  refine (readStep_avoids step).bind fun _ _ => ?_
  refine (readBounds_avoids FieldKind.hour.value_avoids _ range).bind fun _ _ => ?_
  dsimp only
  split
  · exact .error (by rintro ⟨⟩)
  · exact .ok _

theorem atOneTime_avoids (fields : Fields) : Avoids .divisionByZero fields.atOneTime := by
  refine fields.time_avoids.bind fun _ _ => ?_
  split
  · exact (readDayFilter_avoids _).bind fun _ _ => .ok _
  · split
    · exact (readMonthTarget_avoids _).bind fun _ _ => .ok _
    · exact .error (by rintro ⟨⟩)

theorem recurrence_avoids (fields : Fields) : Avoids .divisionByZero fields.recurrence := by
  refine fields.positioned?_avoids.bind fun positioned _ => ?_
  split
  · exact .ok _
  · refine fields.specialDay?_avoids.bind fun special _ => ?_
    split
    · exact .ok _
    · split
      · exact fields.minuteSteps_avoids _ _
      · split
        · split
          · exact fields.hourSteps_avoids _ _
          · exact fields.atOneTime_avoids
        · exact fields.atOneTime_avoids

end Fields

theorem read_avoids (precision : Precision) (text : String) :
    Avoids .divisionByZero (read precision text) := by
  unfold read
  dsimp only
  split
  · split
    · exact .ok _
    · exact .error (by rintro ⟨⟩)
  · split
    · exact (Fields.recurrence_avoids _).bind fun _ _ =>
        (readSeason_avoids _).bind fun _ _ => .ok _
    · exact .error (by rintro ⟨⟩)

/-! ## Explanations -/

/-- A shortcut has no minute step. -/
theorem minuteStep?_of_shortcut? {text : String} {recurrence : Recurrence}
    (hshortcut : shortcut? (String.ofList (trimmed text.toList)) = some recurrence) :
    minuteStep? text = none := by
  have hstart : (trimmed text.toList).head?.map Char.toLower = some '@' := by
    have hnames : ∀ name ∈ ["@yearly", "@annually", "@monthly", "@weekly", "@daily", "@midnight",
        "@hourly"], name.toList.head? = some '@' := by decide
    have hlower : (String.ofList (trimmed text.toList)).toLower.toList =
        (trimmed text.toList).map Char.toLower := by
      rw [String.toLower, String.toList_map, String.toList_ofList]
    rw [← List.head?_map, ← hlower]
    exact hnames _ (toLower_mem_of_shortcut? hshortcut)
  rw [minuteStep?, words_of_shortcut? hshortcut, List.head?_cons]
  split
  · rename_i step heq
    rw [Option.some.inj heq] at hstart
    exact absurd (show some (Char.toLower '*') = some '@' from hstart) (by decide)
  · rfl

/-- Whatever branch reads a line, it refuses a minute step of zero. -/
theorem minuteStep?_pos {text : String} {schedule : Schedule} {step : Nat}
    (hread : read .approximate text = .ok schedule) (hstep : minuteStep? text = some step) :
    0 < step := by
  rcases read_eq_ok hread with
    ⟨_, hshortcut, _⟩ | ⟨minute, _, _, _, _, _, _, hwords, hreads, _⟩
  · rw [minuteStep?_of_shortcut? hshortcut] at hstep
    cases hstep
  · rw [minuteStep?, hwords] at hstep
    dsimp only [List.head?_cons] at hstep
    split at hstep
    · rename_i digits hminute
      obtain ⟨interval, _, _, _, _, _, hinterval, _⟩ :=
        hreads.eq_window (show _ = ['*'] ++ '/' :: digits from Option.some.inj hminute) (by decide)
      obtain ⟨hnumber, hpos⟩ := readStep_eq_ok hinterval
      rwa [← Option.some.inj (hnumber.symm.trans hstep)]
    · cases hstep

theorem explain_avoids (text : String) : Avoids .divisionByZero (explain text) := by
  refine (read_avoids .approximate text).bind fun schedule hread => ?_
  split
  · rename_i step hstep
    rw [divisor_eq_ok_iff.mpr ⟨minuteStep?_pos hread hstep, rfl⟩]
    exact .ok _
  · exact .ok _

/-! ## Writing -/

theorem windowLine_eq_noMinutes_iff {interval : Nat} {unit : StepUnit} {start stop : TimeOfDay}
    {days : Option DayFilter} :
    windowLine interval unit start stop days = .error .noMinutes ↔
      Recurrence.window interval unit start stop days =
        .window 0 .minutes .midnight .lastMinute none := by
  constructor
  · intro hline
    unfold windowLine at hline
    split at hline
    · cases hline
    rename_i hwhole
    obtain ⟨hstart, hstop⟩ := not_or.mp hwhole
    obtain rfl := Decidable.not_not.mp hstart
    obtain rfl := Decidable.not_not.mp hstop
    split at hline
    · cases hline
    rename_i hunfiltered
    obtain rfl := Option.not_isSome_iff_eq_none.mp hunfiltered
    cases unit with
    | hours => cases hline
    | minutes =>
      dsimp only at hline
      split at hline
      · rename_i hzero
        rw [hzero]
      · split at hline <;> cases hline
  · rintro ⟨⟩
    rfl

theorem singleTime_avoids (times : List TimeOfDay) : Avoids .noMinutes (singleTime times) := by
  unfold singleTime
  split
  · exact .ok _
  · exact .error (by rintro ⟨⟩)

theorem dayOfMonthField_avoids (target : MonthTarget) :
    Avoids .noMinutes (dayOfMonthField target) := by
  cases target with
  | days entries => exact .ok _
  | lastDay | lastBusinessDay | nearestBusinessDay | positioned => exact .error (by rintro ⟨⟩)

/-- Only windows divide. -/
theorem recurrenceLine_eq_noMinutes_iff {recurrence : Recurrence} :
    recurrenceLine recurrence = .error .noMinutes ↔
      recurrence = .window 0 .minutes .midnight .lastMinute none := by
  have hsafe (hline : Avoids Obstacle.noMinutes (recurrenceLine recurrence))
      (hother : recurrence.isWindow = false) :
      recurrenceLine recurrence = .error .noMinutes ↔
        recurrence = .window 0 .minutes .midnight .lastMinute none :=
    iff_of_false hline (by rintro rfl; cases hother)
  cases recurrence with
  | window => exact windowLine_eq_noMinutes_iff
  | daily interval days times =>
    refine hsafe ?_ rfl
    rw [recurrenceLine]
    split
    · exact .error (by rintro ⟨⟩)
    · exact (singleTime_avoids times).bind fun _ _ => .ok _
  | weekly interval days times =>
    refine hsafe ?_ rfl
    rw [recurrenceLine]
    split
    · exact .error (by rintro ⟨⟩)
    · exact (singleTime_avoids times).bind fun _ _ => .ok _
  | monthly interval target times =>
    refine hsafe ?_ rfl
    rw [recurrenceLine]
    split
    · exact .error (by rintro ⟨⟩)
    · exact (singleTime_avoids times).bind fun _ _ =>
        (dayOfMonthField_avoids target).bind fun _ _ => .ok _
  | ordinal | once | yearly => exact hsafe (.error (by rintro ⟨⟩)) rfl

end Cadence.Cron

namespace Cadence

namespace Schedule

/-- Writing a schedule divides by zero just for windows of the whole day, without a filter
and without clauses, that step by no minutes.  Reading and explaining never do. -/
theorem dividesByZero_iff (schedule : Schedule) (text : String) :
    (schedule.toCron = .error .noMinutes ↔
      (schedule.skipped = [] ∧ schedule.lastDay = none ∧ schedule.season = []) ∧
        schedule.recurrence = .window 0 .minutes .midnight .lastMinute none) ∧
    ofCron text ≠ .error .divisionByZero ∧ Cron.explain text ≠ .error .divisionByZero := by
  refine ⟨?_, Cron.read_avoids .exact text, Cron.explain_avoids text⟩
  rw [← Cron.recurrenceLine_eq_noMinutes_iff]
  cases hskipped : schedule.skipped with
  | cons => simp [toCron, hskipped]
  | nil =>
    cases hlastDay : schedule.lastDay with
    | some => simp [toCron, hskipped, hlastDay]
    | none => cases hseason : schedule.season <;> simp [toCron, hskipped, hlastDay, hseason]

/-- A window of the whole day that steps by no minutes. -/
theorem toCron_dividesByZero :
    (Schedule.ofRecurrence (.window 0 .minutes .midnight .lastMinute none)).toCron =
      .error .noMinutes := by
  rfl

end Schedule

end Cadence
