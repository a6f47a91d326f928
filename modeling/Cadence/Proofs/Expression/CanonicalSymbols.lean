import Cadence.Proofs.Expression.WrittenText

/-!
# The symbols of canonical texts

Every part of a schedule has a sequence of symbols, and its canonical text is
cut into exactly these.
-/

namespace Cadence

/-! ## Parts of a schedule -/

namespace CalendarDay

def symbols : CalendarDay → List Symbol
  | yearly month day => [.month month, .number day]
  | fixed date => [.date date.text]

end CalendarDay

namespace DayFilter

def symbols : DayFilter → List Symbol
  | every => [.keyword .day]
  | business => [.keyword .weekday]
  | weekend => [.keyword .weekend]
  | listed days => commaSeparated (days.map fun day => [.weekday day])

end DayFilter

namespace MonthDays

def symbols : MonthDays → List Symbol
  | single day => [.ordinal day]
  | range start stop => [.ordinal start, .keyword .«to», .ordinal stop]

end MonthDays

/-- The last place is a keyword, the others are positions. -/
def Position.symbol : Position → Symbol
  | last => .keyword .last
  | rank => .position rank

def Direction.symbol : Direction → Symbol
  | next => .keyword .next
  | previous => .keyword .previous

namespace MonthTarget

def symbols : MonthTarget → List Symbol
  | days entries => commaSeparated (entries.map MonthDays.symbols)
  | lastDay => [.keyword .last, .keyword .day]
  | lastBusinessDay => [.keyword .last, .keyword .weekday]
  | nearestBusinessDay day direction =>
    direction.toList.map Direction.symbol ++
      [.keyword .nearest, .keyword .weekday, .keyword .«to», .ordinal day]
  | positioned position weekday => [position.symbol, .weekday weekday]

end MonthTarget

namespace YearTarget

def symbols : YearTarget → List Symbol
  | date month day => [.month month, .number day]
  | positioned position weekday month =>
    [.keyword .«the», position.symbol, .weekday weekday, .keyword .«of», .month month]
  | dayOfMonth day month => [.keyword .«the», .ordinal day, .keyword .«of», .month month]
  | lastBusinessDay month =>
    [.keyword .«the», .keyword .last, .keyword .weekday, .keyword .«of», .month month]

end YearTarget

def timesSymbols (times : List TimeOfDay) : List Symbol :=
  .keyword .«at» :: commaSeparated (times.map fun time => [.time time])

def weekdaysSymbols (days : List Weekday) : List Symbol :=
  commaSeparated (days.map fun day => [.weekday day])

/-- A repeated unit, with a number where the interval is longer than one. -/
def repeatedSymbols (interval : Nat) (unit : Keyword) : List Symbol :=
  if 1 < interval then [.keyword .every, .number interval, .keyword unit]
  else [.keyword .every, .keyword unit]

namespace Recurrence

def symbols : Recurrence → List Symbol
  | window interval unit start stop days =>
    [.keyword .every, .number interval, .unit unit, .keyword .«from», .time start, .keyword .«to»,
      .time stop] ++ (match days with
        | some filter => .keyword .«on» :: filter.symbols
        | none => [])
  | daily interval days times =>
    (if 1 < interval then [.keyword .every, .number interval, .keyword .day]
      else .keyword .every :: days.symbols) ++ timesSymbols times
  | weekly interval days times =>
    [.keyword .every, .number interval, .keyword .week, .keyword .«on»] ++ weekdaysSymbols days ++
      timesSymbols times
  | monthly interval target times =>
    repeatedSymbols interval .month ++ (.keyword .«on» :: .keyword .«the» :: target.symbols) ++
      timesSymbols times
  | ordinal interval position weekday times =>
    [position.symbol, .weekday weekday, .keyword .«of»] ++ repeatedSymbols interval .month ++
      timesSymbols times
  | once day times => .keyword .«on» :: day.symbols ++ timesSymbols times
  | yearly interval target times =>
    repeatedSymbols interval .year ++ .keyword .«on» :: target.symbols ++ timesSymbols times

end Recurrence

/-- The symbols of the clauses behind a recurrence. -/
def Schedule.clausesSymbols (schedule : Schedule) : List Symbol :=
  clauseSymbols .except (schedule.skipped.map CalendarDay.symbols) ++
    (clauseSymbols .«until» (schedule.lastDay.toList.map CalendarDay.symbols) ++
      (clauseSymbols .starting (schedule.anchor.toList.map fun date => [.date date.text]) ++
        (clauseSymbols .during (schedule.season.map fun month => [.month month]) ++
          clauseSymbols .«in» (schedule.zone.toList.map fun name => [.zone name]))))

def Schedule.symbols (schedule : Schedule) : List Symbol :=
  schedule.recurrence.symbols ++ schedule.clausesSymbols

/-! ## Their texts -/

theorem writes_weekday (day : Weekday) : Writes day.name [.weekday day] :=
  .word day.symbolOfWord?_name nofun

theorem writes_month (month : Month) : Writes month.name [.month month] :=
  .word month.symbolOfWord?_name nofun

theorem writes_position (position : Position) : Writes position.text [position.symbol] := by
  cases position <;> exact .word rfl nofun

theorem writes_direction (direction : Direction) : Writes direction.text [direction.symbol] := by
  cases direction <;> exact .word rfl nofun

theorem writes_unit (unit : StepUnit) (count : Nat) :
    Writes (unit.textFor count) [.unit unit] := by
  cases unit <;> unfold StepUnit.textFor <;> dsimp only <;> split <;> exact .word rfl nofun

theorem writes_number {value : Nat} (hvalue : value ≤ Numeral.countLimit) :
    Writes (Nat.repr value) [.number value] :=
  .of_spells (spells_number hvalue) nofun

/-- Days of a month are far below the limit of counts. -/
theorem le_countLimit_of_day {day : Nat} (hday : day ≤ 31) : day ≤ Numeral.countLimit :=
  hday.trans (by decide)

theorem writes_ordinal {day : Nat} (hday : day ≤ 31) :
    Writes (Numeral.ordinalText day) [.ordinal day] :=
  .of_spells (spells_ordinal (le_countLimit_of_day hday)) nofun

theorem writes_date {date : Date} (hyear : date.HasFourDigitYear) :
    Writes date.text [.date date.text] :=
  .of_spells (spells_date hyear) nofun

theorem writes_time {time : TimeOfDay} (htime : time.IsOnClock) :
    Writes time.text [.time time] :=
  .of_spells (spells_time htime) nofun

/-- No month has more than 31 days. -/
theorem Month.maxDays_le (month : Month) : month.maxDays ≤ 31 := by
  cases month <;> decide

/-- A day of a month, and `at` and times after anything. -/
theorem writes_dayOfMonth (month : Month) {day : Nat} (hday : day ≤ month.maxDays) :
    Writes (month.name ++ " " ++ Nat.repr day) [.month month, .number day] := by
  have hcount := le_countLimit_of_day (hday.trans month.maxDays_le)
  exact (writes_month month).blank (writes_number hcount)

theorem CalendarDay.writes {day : CalendarDay} (hday : day.WellFormed) :
    Writes day.text day.symbols := by
  cases day with
  | yearly month day => exact writes_dayOfMonth month hday.2
  | fixed date => exact writes_date hday

theorem writes_weekdays {days : List Weekday} (hdays : days ≠ []) :
    Writes (Weekday.listText days) (weekdaysSymbols days) :=
  .joined hdays fun day _ => writes_weekday day

theorem DayFilter.writes {days : DayFilter} (hdays : days.WellFormed) :
    Writes days.text days.symbols := by
  cases days with
  | every => exact .word rfl nofun
  | business => exact .word rfl nofun
  | weekend => exact .word rfl nofun
  | listed days => exact writes_weekdays hdays

theorem MonthDays.writes {entry : MonthDays} (hentry : entry.WellFormed) :
    Writes entry.text entry.symbols := by
  cases entry with
  | single day => exact writes_ordinal hentry.2
  | range start stop =>
    obtain ⟨_, hordered, hstop⟩ := hentry
    have hto : Links " to " [.keyword .«to»] := ⟨"to", rfl, .word rfl nofun⟩
    exact hto.between (writes_ordinal (hordered.trans hstop)) (writes_ordinal hstop)

theorem links_of : Links " of " [.keyword .«of»] := ⟨"of", rfl, .word rfl nofun⟩

theorem links_on : Links " on " [.keyword .«on»] := ⟨"on", rfl, .word rfl nofun⟩

theorem MonthTarget.writes {target : MonthTarget} (htarget : target.WellFormed) :
    Writes target.text target.symbols := by
  cases target with
  | days entries =>
    exact .joined htarget.1 fun entry hentry => MonthDays.writes (htarget.2 entry hentry)
  | lastDay => exact .phrase "last" ["day"] rfl rfl (by decide)
  | lastBusinessDay => exact .phrase "last" ["weekday"] rfl rfl (by decide)
  | positioned position weekday => exact (writes_position position).blank (writes_weekday weekday)
  | nearestBusinessDay day direction =>
    have hnearest : Leads "nearest weekday to "
        [.keyword .nearest, .keyword .weekday, .keyword .«to»] :=
      ⟨_, rfl, .phrase "nearest" ["weekday", "to"] rfl rfl (by decide)⟩
    have hday := hnearest.append (writes_ordinal htarget.2)
    cases direction with
    | none =>
      have htext : (nearestBusinessDay day none).text =
          "nearest weekday to " ++ Numeral.ordinalText day := by
        change "" ++ "nearest weekday to " ++ Numeral.ordinalText day = _
        rw [String.empty_append]
      exact htext ▸ hday
    | some direction =>
      have htext : (nearestBusinessDay day (some direction)).text =
          direction.text ++ " " ++ ("nearest weekday to " ++ Numeral.ordinalText day) :=
        String.append_assoc
      exact htext ▸ (writes_direction direction).blank hday

theorem YearTarget.writes {target : YearTarget} (htarget : target.WellFormed) :
    Writes target.text target.symbols := by
  have hthe : Leads "the " [.keyword .«the»] := ⟨"the", rfl, .word rfl nofun⟩
  cases target with
  | date month day => exact writes_dayOfMonth month htarget.2
  | positioned position weekday month =>
    have hposition := (hthe.append (writes_position position)).blank (writes_weekday weekday)
    exact links_of.between hposition (writes_month month)
  | dayOfMonth day month =>
    have hday := hthe.append (writes_ordinal (htarget.2.trans month.maxDays_le))
    exact links_of.between hday (writes_month month)
  | lastBusinessDay month =>
    have hlast : Leads "the last weekday of "
        [.keyword .«the», .keyword .last, .keyword .weekday, .keyword .«of»] :=
      ⟨_, rfl, .phrase "the" ["last", "weekday", "of"] rfl rfl (by decide)⟩
    exact hlast.append (writes_month month)

/-! ## Recurrences -/

/-- Times behind anything. -/
theorem Writes.atTimes {text : String} {symbols : List Symbol} {times : List TimeOfDay}
    (hfirst : Writes text symbols) (htimes : TimesWellFormed times) :
    Writes (text ++ " at " ++ TimeOfDay.listText times) (symbols ++ timesSymbols times) := by
  have hat : Links " at " [.keyword .«at»] := ⟨"at", rfl, .word rfl nofun⟩
  exact hat.between hfirst (.joined htimes.1 fun time hmem => writes_time (htimes.2 time hmem))

theorem leads_every : Leads "every " [.keyword .every] := ⟨"every", rfl, .word rfl nofun⟩

theorem writes_everyCount {interval : Nat} (hinterval : IntervalWellFormed interval) :
    Writes ("every " ++ Nat.repr interval) [.keyword .every, .number interval] :=
  leads_every.append (writes_number hinterval.2)

theorem writes_repeatedText {interval : Nat} {unit : String} {keyword : Keyword}
    (hinterval : IntervalWellFormed interval) (hunit : Writes unit [.keyword keyword])
    (hunits : Writes (unit ++ "s") [.keyword keyword]) :
    Writes (repeatedText interval unit) (repeatedSymbols interval keyword) := by
  unfold repeatedText repeatedSymbols
  split
  · have hcounted := (writes_everyCount hinterval).blank hunits
    rw [← String.append_assoc] at hcounted
    exact hcounted
  · exact leads_every.append hunit

theorem writes_everyMonth {interval : Nat} (hinterval : IntervalWellFormed interval) :
    Writes (repeatedText interval "month") (repeatedSymbols interval .month) :=
  writes_repeatedText hinterval (.word rfl nofun) (.phrase "months" [] rfl rfl (by decide))

theorem writes_everyYear {interval : Nat} (hinterval : IntervalWellFormed interval) :
    Writes (repeatedText interval "year") (repeatedSymbols interval .year) :=
  writes_repeatedText hinterval (.word rfl nofun) (.phrase "years" [] rfl rfl (by decide))

theorem Recurrence.writes {recurrence : Recurrence} (hwell : recurrence.WellFormed) :
    Writes recurrence.text recurrence.symbols := by
  cases recurrence with
  | window interval unit start stop days =>
    obtain ⟨hinterval, hstart, hstop, hdays⟩ := hwell
    have hfrom : Links " from " [.keyword .«from»] := ⟨"from", rfl, .word rfl nofun⟩
    have hto : Links " to " [.keyword .«to»] := ⟨"to", rfl, .word rfl nofun⟩
    have hcount := (writes_everyCount hinterval).blank (writes_unit unit interval)
    have hbounds := hto.between (hfrom.between hcount (writes_time hstart)) (writes_time hstop)
    cases days with
    | none =>
      have htext : (window interval unit start stop none).text =
          "every " ++ Nat.repr interval ++ " " ++ unit.textFor interval ++ " from " ++
            start.text ++ " to " ++ stop.text := String.append_empty
      exact htext ▸ hbounds
    | some days =>
      have hall := links_on.between hbounds (DayFilter.writes (hdays days rfl))
      rw [String.append_assoc] at hall
      exact hall
  | daily interval days times =>
    obtain ⟨hinterval, hdays, _, htimes⟩ := hwell
    refine Writes.atTimes ?_ htimes
    split
    · have hdays : Writes "days" [.keyword .day] := .word rfl nofun
      have hcounted := (writes_everyCount hinterval).blank hdays
      rwa [String.append_assoc] at hcounted
    · exact leads_every.append (DayFilter.writes hdays)
  | weekly interval days times =>
    obtain ⟨hinterval, hdays, htimes⟩ := hwell
    have hweeks : Links " weeks on " [.keyword .week, .keyword .«on»] :=
      ⟨_, rfl, .phrase "weeks" ["on"] rfl rfl (by decide)⟩
    exact (hweeks.between (writes_everyCount hinterval) (writes_weekdays hdays)).atTimes htimes
  | monthly interval target times =>
    obtain ⟨hinterval, htarget, htimes⟩ := hwell
    have honThe : Links " on the " [.keyword .«on», .keyword .«the»] :=
      ⟨_, rfl, .phrase "on" ["the"] rfl rfl (by decide)⟩
    exact (honThe.between (writes_everyMonth hinterval) (MonthTarget.writes htarget)).atTimes htimes
  | ordinal interval position weekday times =>
    obtain ⟨hinterval, htimes⟩ := hwell
    have hplace := (writes_position position).blank (writes_weekday weekday)
    exact (links_of.between hplace (writes_everyMonth hinterval)).atTimes htimes
  | once day times =>
    have hon : Leads "on " [.keyword .«on»] := ⟨"on", rfl, .word rfl nofun⟩
    exact (hon.append (CalendarDay.writes hwell.1)).atTimes hwell.2
  | yearly interval target times =>
    obtain ⟨hinterval, htarget, htimes⟩ := hwell
    have htarget := YearTarget.writes htarget
    exact (links_on.between (writes_everyYear hinterval) htarget).atTimes htimes

/-! ## Schedules -/

/-- The clauses of a schedule, from the last to the first. -/
theorem Schedule.continuation_clauses {schedule : Schedule} (hwell : schedule.WellFormed) :
    Continuation
      ((clauseText "except" (schedule.skipped.map CalendarDay.text)).toList ++
        ((clauseText "until" (schedule.lastDay.toList.map CalendarDay.text)).toList ++
          ((clauseText "starting" (schedule.anchor.toList.map Date.text)).toList ++
            ((clauseText "during" (schedule.season.map Month.name)).toList ++
              (clauseText "in" schedule.zone.toList).toList))))
      schedule.clausesSymbols := by
  have hzone : Continuation (clauseText "in" schedule.zone.toList).toList
      (clauseSymbols .«in» (schedule.zone.toList.map fun name => [.zone name])) := by
    have hname := hwell.zone
    cases hcase : schedule.zone with
    | none => exact .nil
    | some name => exact .zone (hname name hcase)
  refine .clause rfl nofun (fun day hday => CalendarDay.writes (hwell.skipped day hday)) ?_
  refine .clause rfl nofun (fun day hday => ?_) ?_
  · exact CalendarDay.writes (hwell.lastDay day (Option.mem_toList.mp hday))
  refine .clause rfl nofun (fun date hdate => ?_) ?_
  · exact writes_date (hwell.anchor date (Option.mem_toList.mp hdate))
  exact .clause rfl nofun (fun month _ => writes_month month) hzone

/-- The canonical text of a schedule is cut into its symbols. -/
theorem Schedule.cutInto_text {schedule : Schedule} (hwell : schedule.WellFormed) :
    CutInto false schedule.text.toList schedule.symbols := by
  have hall := Recurrence.writes hwell.recurrence _ _ (continuation_clauses hwell)
  simp only [← String.toList_append, ← String.append_assoc] at hall
  exact hall

end Cadence
