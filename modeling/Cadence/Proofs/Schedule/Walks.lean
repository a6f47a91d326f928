import Mathlib
import Cadence.Proofs.Expression.ParsedSchedules
import Cadence.Proofs.Occurrence.ClosingDates
import Cadence.Proofs.Occurrence.FoundOffers
import Cadence.Proofs.Occurrence.MonthWalks
import Cadence.Proofs.Occurrence.Resumption
import Cadence.Proofs.Zone.SpacedZones

/-!
# Schedules whose searches walk

Clauses compute years as well: the months of a season and the years of a closing day are
walked to, and a search is resumed from where they lead.  All of that stays near the
calendar.  So a search overflows exactly if it comes to look from a place where nothing is
found and the walk from there does not stay in the word.
-/

namespace Cadence

/-! ## Near the calendar -/

namespace Zone

variable {zone : Zone} (hshort : zone.HasShortOffsets)
include hshort

/-- A reading is resolved to a second less than a day away. -/
theorem resolve_bounds (reading : Int) :
    reading - 86400 < zone.resolve reading ∧ zone.resolve reading < reading + 86400 := by
  simp only [HasShortOffsets, daySeconds] at hshort
  rcases zone.resolve_spec reading with ⟨hshown, _⟩ | ⟨_, hresolve⟩
  · have hoffset := hshort (zone.resolve reading)
    simp only [localSecond] at hshown
    omega
  · have hoffset := hshort (reading - daySeconds)
    omega

/-- Around a date of the calendar the clocks show years near the calendar. -/
theorem isNearCalendar_dateOf {date : Date} {moment : Instant} (hsupported : date.IsSupported)
    (hlow : date.dayNumber * 86400 - 86401 ≤ moment.second)
    (hhigh : moment.second ≤ date.dayNumber * 86400 + 172800) :
    IsNearCalendar (zone.dateOf moment).year := by
  have hoffset := hshort moment.second
  have hday : (zone.dateOf moment).dayNumber = zone.localSecond moment.second / 86400 := rfl
  simp only [daySeconds] at hoffset
  simp only [localSecond] at hday
  have hyear := Date.isSupported_iff_year.mp hsupported
  have hafter : (zone.dateOf moment).year ≤ date.year + 1 :=
    YearMonth.year_le_of_near (by omega)
  have hbefore : date.year ≤ (zone.dateOf moment).year + 1 :=
    YearMonth.year_le_of_near (by omega)
  exact ⟨by omega, by omega⟩

/-- So they do on the dates of the calendar in universal time. -/
theorem isNearCalendar_of_utc {moment : Instant} (hsupported : (utc.dateOf moment).IsSupported) :
    IsNearCalendar (zone.dateOf moment).year := by
  have hday : (utc.dateOf moment).dayNumber = moment.second / 86400 := by
    rw [utc, (isUniversal_universal _).dateOf]
  exact isNearCalendar_dateOf hshort hsupported (by omega) (by omega)

theorem isNearCalendar_instantAt {date : Date} (hsupported : date.IsSupported) (time : TimeOfDay) :
    IsNearCalendar (zone.dateOf (zone.instantAt date time)).year := by
  have htime := time.secondOfDay_lt
  have hbounds := zone.resolve_bounds hshort (secondOf date time.secondOfDay)
  simp only [secondOf, daySeconds] at hbounds
  refine isNearCalendar_dateOf hshort hsupported ?_ ?_ <;>
    simp only [instantAt, Instant.ofSecond, secondOf, daySeconds] <;> omega

theorem isNearCalendar_shift_instantAt {date : Date} (hsupported : date.IsSupported)
    (time : TimeOfDay) {seconds : Int} (hseconds : -1 ≤ seconds ∧ seconds ≤ 1) :
    IsNearCalendar (zone.dateOf ((zone.instantAt date time).shift seconds)).year := by
  have htime := time.secondOfDay_lt
  have hbounds := zone.resolve_bounds hshort (secondOf date time.secondOfDay)
  simp only [secondOf, daySeconds] at hbounds
  rw [instantAt, Instant.shift_ofSecond]
  refine isNearCalendar_dateOf hshort hsupported ?_ ?_ <;>
    simp only [Instant.ofSecond, secondOf, daySeconds] <;> omega

end Zone

/-! ## Months of the season and closing days -/

/-- As many months as are walked take no more years than that. -/
theorem walkSeason_eq {season : List Month} {heading : Heading} {fuel : Nat} {ym : YearMonth}
    (hlow : -2147483648 + fuel ≤ ym.year) (hhigh : ym.year + fuel ≤ 2147483647) :
    walkSeason season heading fuel ym = .ok (seasonMonth? season heading.month fuel ym) := by
  induction fuel generalizing ym with
  | zero => rfl
  | succ fuel ih =>
    have hyear := heading.year_month_bounds ym
    have hholds : Word.holds (heading.month ym).year = true := Word.holds_iff.mpr (by omega)
    rw [walkSeason, YearMonth.inWord_of_holds hholds, seasonMonth?]
    change (if _ then _ else _) = _
    split
    · rfl
    · exact ih (by omega) (by omega)

theorem walkToSeasonStart_eq {season : List Month} {date : Date}
    (hnear : IsNearCalendar date.year) :
    walkToSeasonStart season date = .ok (nextSeasonStart? season date) := by
  simp only [IsNearCalendar, Date.leastYear, Date.greatestYear] at hnear
  rw [walkToSeasonStart, walkSeason_eq (by simp only [YearMonth.ofDate]; omega)
    (by simp only [YearMonth.ofDate]; omega)]
  rfl

theorem walkToSeasonEnd_eq {season : List Month} {date : Date}
    (hnear : IsNearCalendar date.year) :
    walkToSeasonEnd season date = .ok (previousSeasonEnd? season date) := by
  simp only [IsNearCalendar, Date.leastYear, Date.greatestYear] at hnear
  have hseason : walkSeason season .behind 12 (.ofDate date) =
      .ok (seasonMonth? season YearMonth.previous 12 (.ofDate date)) :=
    walkSeason_eq (by simp only [YearMonth.ofDate]; omega) (by simp only [YearMonth.ofDate]; omega)
  rw [walkToSeasonEnd, hseason, previousSeasonEnd?]
  cases seasonMonth? season YearMonth.previous 12 (.ofDate date) <;> rfl

/-! ## Verdicts -/

namespace Verdict

/-- What a search finds after a verdict, if `search` says what resumed searches find. -/
def result (search : Instant → Option Instant) (candidate : Instant) : Verdict → Option Instant
  | accepted => some candidate
  | closed => none
  | resumed cursor => search cursor

theorem result_resumedAt {search : Instant → Option Instant} {candidate : Instant}
    {edge : Date → Instant} (date? : Option Date) :
    (resumedAt edge date?).result search candidate =
      date?.bind fun date => search (edge date) := by
  cases date? <;> rfl

theorem of_resumedAt_eq {edge : Date → Instant} {date? : Option Date} {cursor : Instant}
    (heq : resumedAt edge date? = .resumed cursor) :
    ∃ date, date? = some date ∧ edge date = cursor := by
  cases date? with
  | none => cases heq
  | some date => exact ⟨date, rfl, Verdict.resumed.inj heq⟩

end Verdict

namespace Schedule

variable {schedule : Schedule} {zone : Zone} {closing : Option Date} {candidate : Instant}

theorem walkToClosingDate_eq {reference : Date} (hnear : IsNearCalendar reference.year) :
    schedule.walkToClosingDate reference = .ok (schedule.closingDate? reference) := by
  simp only [IsNearCalendar, Date.leastYear, Date.greatestYear] at hnear
  unfold walkToClosingDate
  split
  · rw [Word.ofInt_of_holds (Word.holds_iff.mpr (by simp only [CalendarDay.lookahead]; omega))]
    rfl
  · rfl
  · rfl

/-- What a verdict has to say: where the search goes on, and that this is the edge of a day of
the calendar. -/
structure Judges (verdict : Verdict) (settle : (resumptions : Nat) → Option Instant)
    (search : (resumptions : Nat) → Instant → Option Instant) (edge : Date → Instant)
    (candidate : Instant) : Prop where
  result (resumptions : Nat) : settle resumptions = verdict.result (search resumptions) candidate
  supported {cursor : Instant} (hresumed : verdict = .resumed cursor) :
    ∃ date : Date, date.IsSupported ∧ cursor = edge date

/-- A candidate is judged as a forward search does it. -/
theorem judgeAhead_spec (hnear : IsNearCalendar (zone.dateOf candidate).year) :
    ∃ verdict, schedule.judgeAhead zone closing candidate = .ok verdict ∧
      Judges verdict (schedule.settle zone closing · candidate)
        (schedule.searchForward zone closing) (Frame.ofSchedule schedule zone).startOfDay
        candidate := by
  let edge := (Frame.ofSchedule schedule zone).startOfDay
  by_cases hclosed : closing.any (· < zone.dateOf candidate) = true
  · refine ⟨.closed, ?_, fun _ => ?_, by rintro _ ⟨⟩⟩
    · simp only [judgeAhead, if_pos hclosed]
      rfl
    · simp only [settle, if_pos hclosed]
      rfl
  by_cases hout : (!schedule.seasonInRecurrence &&
      !inSeason schedule.season (zone.dateOf candidate)) = true
  · refine ⟨.resumedAt edge (nextSeasonStart? schedule.season (zone.dateOf candidate)), ?_,
      fun _ => ?_, fun {_} hresumed => ?_⟩
    · simp only [judgeAhead, if_neg hclosed, if_pos hout, walkToSeasonStart_eq hnear]
      rfl
    · rw [Verdict.result_resumedAt]
      simp only [settle, if_neg hclosed, if_pos hout]
      rfl
    · obtain ⟨date, hdate, rfl⟩ := Verdict.of_resumedAt_eq hresumed
      obtain ⟨_, _, hfirst⟩ := Option.bind_eq_some_iff.mp hdate
      exact ⟨date, (YearMonth.date?_eq_some_iff.mp hfirst).1, rfl⟩
  by_cases hskipped : schedule.skips (zone.dateOf candidate) = true
  · refine ⟨.resumedAt edge ((zone.dateOf candidate).addDays? 1), ?_, fun _ => ?_,
      fun {_} hresumed => ?_⟩
    · simp only [judgeAhead, if_neg hclosed, if_neg hout, if_pos hskipped]
      rfl
    · rw [Verdict.result_resumedAt]
      simp only [settle, if_neg hclosed, if_neg hout, if_pos hskipped]
      rfl
    · obtain ⟨date, hdate, rfl⟩ := Verdict.of_resumedAt_eq hresumed
      exact ⟨date, (Date.addDays?_eq_some_iff.mp hdate).2, rfl⟩
  · refine ⟨.accepted, ?_, fun _ => ?_, by rintro _ ⟨⟩⟩
    · simp only [judgeAhead, if_neg hclosed, if_neg hout, if_neg hskipped]
      rfl
    · simp only [settle, if_neg hclosed, if_neg hout, if_neg hskipped]
      rfl

theorem isSupported_of_previousSeasonEnd? {season : List Month} {date last : Date}
    (hend : previousSeasonEnd? season date = some last) : last.IsSupported := by
  unfold previousSeasonEnd? at hend
  split at hend
  · exact (YearMonth.lastDate?_eq_some_iff.mp hend).1
  · exact (Date.addDays?_eq_some_iff.mp hend).2

/-- A candidate is judged as a backward search does it. -/
theorem judgeBehind_spec (hnear : IsNearCalendar (zone.dateOf candidate).year)
    (hclosing : ∀ last ∈ closing, last.IsSupported) :
    ∃ verdict, schedule.judgeBehind zone closing candidate = .ok verdict ∧
      Judges verdict (schedule.settleBack zone closing · candidate)
        (schedule.searchBackward zone closing) (Frame.ofSchedule schedule zone).endOfDay
        candidate := by
  let edge := (Frame.ofSchedule schedule zone).endOfDay
  by_cases hearly : schedule.anchor.any (zone.dateOf candidate < ·) = true
  · refine ⟨.closed, ?_, fun _ => ?_, by rintro _ ⟨⟩⟩
    · simp only [judgeBehind, if_pos hearly]
      rfl
    · simp only [settleBack, if_pos hearly]
      rfl
  cases hclosed : closing.filter (· < zone.dateOf candidate) with
  | some last =>
    refine ⟨.resumed (edge last), ?_, fun _ => ?_, ?_⟩
    · simp only [judgeBehind, if_neg hearly, hclosed]
      rfl
    · simp only [settleBack, if_neg hearly, hclosed]
      rfl
    · rintro _ ⟨⟩
      exact ⟨last, hclosing last (Option.filter_eq_some_iff.mp hclosed).1, rfl⟩
  | none =>
    by_cases hout : (!inSeason schedule.season (zone.dateOf candidate)) = true
    · refine ⟨.resumedAt edge (previousSeasonEnd? schedule.season (zone.dateOf candidate)), ?_,
        fun _ => ?_, fun {_} hresumed => ?_⟩
      · simp only [judgeBehind, if_neg hearly, hclosed, if_pos hout, walkToSeasonEnd_eq hnear]
        rfl
      · rw [Verdict.result_resumedAt]
        simp only [settleBack, if_neg hearly, hclosed, if_pos hout]
        rfl
      · obtain ⟨date, hdate, rfl⟩ := Verdict.of_resumedAt_eq hresumed
        exact ⟨date, isSupported_of_previousSeasonEnd? hdate, rfl⟩
    by_cases hskipped : schedule.skips (zone.dateOf candidate) = true
    · refine ⟨.resumedAt edge ((zone.dateOf candidate).addDays? (-1)), ?_, fun _ => ?_,
        fun {_} hresumed => ?_⟩
      · simp only [judgeBehind, if_neg hearly, hclosed, if_neg hout, if_pos hskipped]
        rfl
      · rw [Verdict.result_resumedAt]
        simp only [settleBack, if_neg hearly, hclosed, if_neg hout, if_pos hskipped]
        rfl
      · obtain ⟨date, hdate, rfl⟩ := Verdict.of_resumedAt_eq hresumed
        exact ⟨date, (Date.addDays?_eq_some_iff.mp hdate).2, rfl⟩
    · refine ⟨.accepted, ?_, fun _ => ?_, by rintro _ ⟨⟩⟩
      · simp only [judgeBehind, if_neg hearly, hclosed, if_neg hout, if_neg hskipped]
        rfl
      · simp only [settleBack, if_neg hearly, hclosed, if_neg hout, if_neg hskipped]
        rfl

end Schedule

/-! ## Where searches look from -/

/-- The cursors from which a search comes to look: the first one, and where verdicts resume it. -/
inductive LooksFrom (found? : Instant → Option Instant)
    (judge : Instant → Except Overflow Verdict) :
    (resumptions : Nat) → (cursor place : Instant) → Prop
  | here {resumptions : Nat} {cursor : Instant} :
    LooksFrom found? judge (resumptions + 1) cursor cursor
  | resumed {resumptions : Nat} {cursor candidate resume place : Instant}
    (hfound : found? cursor = some candidate) (hjudged : judge candidate = .ok (.resumed resume))
    (hrest : LooksFrom found? judge resumptions resume place) :
    LooksFrom found? judge (resumptions + 1) cursor place

namespace LooksFrom

variable {found? : Instant → Option Instant} {judge : Instant → Except Overflow Verdict}
  {resumptions : Nat} {cursor candidate : Instant} {verdict : Verdict} {P : Instant → Prop}

/-- A search that finds nothing looks from nowhere else. -/
theorem forall_iff_of_found_none (hnone : found? cursor = none) :
    (∀ place, LooksFrom found? judge (resumptions + 1) cursor place → found? place = none →
      P place) ↔ P cursor := by
  constructor
  · exact fun hall => hall cursor .here hnone
  · intro hcursor place hlooks _
    cases hlooks with
    | here => exact hcursor
    | resumed hfound => cases hnone.symm.trans hfound

/-- After a candidate, the places where nothing is found lie where its verdict leads. -/
theorem forall_iff_of_found (hfound : found? cursor = some candidate)
    (hjudge : judge candidate = .ok verdict) :
    (∀ place, LooksFrom found? judge (resumptions + 1) cursor place → found? place = none →
      P place) ↔
    ∀ resume, verdict = .resumed resume → ∀ place,
      LooksFrom found? judge resumptions resume place → found? place = none → P place := by
  constructor
  · intro hall resume hresume place hrest hnone
    exact hall place (.resumed hfound (hresume ▸ hjudge) hrest) hnone
  · intro hall place hlooks hnone
    cases hlooks with
    | here => cases hnone.symm.trans hfound
    | resumed hother hjudged hrest =>
      obtain rfl := Option.some.inj (hfound.symm.trans hother)
      exact hall _ (Except.ok.inj (hjudge.symm.trans hjudged)) place hrest hnone

end LooksFrom

/-- A search that looks for candidates and settles what becomes of them, and the same search
walked, as long as cursors stay near. -/
structure IsWalkedSearch (look : Instant → Except Overflow (Option Instant))
    (judge : Instant → Except Overflow Verdict) (found? : Instant → Option Instant)
    (stays : Instant → Bool) (settle search : (resumptions : Nat) → Instant → Option Instant)
    (edge : Date → Instant) (near : Instant → Prop) : Prop where
  looks {cursor : Instant} (hnear : near cursor) :
    look cursor = Frame.outcome (found? cursor) (stays cursor)
  judges {cursor candidate : Instant} (hfound : found? cursor = some candidate) :
    ∃ verdict, judge candidate = .ok verdict ∧
      Schedule.Judges verdict (settle · candidate) search edge candidate
  near_edge {date : Date} (hsupported : date.IsSupported) : near (edge date)
  search_zero (cursor : Instant) : search 0 cursor = none
  search_succ (resumptions : Nat) (cursor : Instant) :
    search (resumptions + 1) cursor = (found? cursor).bind (settle resumptions)

section Walked

variable {look : Instant → Except Overflow (Option Instant)}
  {judge : Instant → Except Overflow Verdict} {found? : Instant → Option Instant}
  {stays : Instant → Bool} {settle search : (resumptions : Nat) → Instant → Option Instant}
  {edge : Date → Instant} {near : Instant → Prop} {resumptions : Nat} {cursor : Instant}
  (hwalked : IsWalkedSearch look judge found? stays settle search edge near)
include hwalked

/-- Cursors stay near. -/
theorem IsWalkedSearch.near_of_looksFrom {place : Instant} (hnear : near cursor)
    (hlooks : LooksFrom found? judge resumptions cursor place) : near place := by
  induction hlooks with
  | here => exact hnear
  | resumed hfound hjudged _ ih =>
    obtain ⟨verdict, hjudge, hjudges⟩ := hwalked.judges hfound
    obtain ⟨date, hsupported, rfl⟩ :=
      hjudges.supported (Except.ok.inj (hjudge.symm.trans hjudged))
    exact ih (hwalked.near_edge hsupported)

/-- A walked search finds what the search finds, unless it comes to a place where nothing is found
and the walk from there does not stay in the word. -/
theorem IsWalkedSearch.eq_ok_iff (hnear : near cursor) {found : Option Instant} :
    lookAndJudge look judge resumptions cursor = .ok found ↔
      search resumptions cursor = found ∧
        ∀ place, LooksFrom found? judge resumptions cursor place → found? place = none →
          stays place = true := by
  -- A resumed search is one with a resumption less, from a cursor that is near again.
  induction resumptions generalizing cursor with
  | zero =>
    rw [lookAndJudge, hwalked.search_zero, Except.ok.injEq]
    exact (and_iff_left (by rintro _ ⟨⟩)).symm
  | succ resumptions ih =>
    rw [lookAndJudge, hwalked.looks hnear, hwalked.search_succ]
    cases hfound : found? cursor with
    | none =>
      rw [LooksFrom.forall_iff_of_found_none hfound, Frame.outcome]
      cases stays cursor with
      | true => exact Except.ok.injEq none found ▸ (and_iff_left rfl).symm
      | false => exact iff_of_false (by rintro ⟨⟩) (by rintro ⟨_, ⟨⟩⟩)
    | some candidate =>
      obtain ⟨verdict, hjudge, hjudges⟩ := hwalked.judges hfound
      have hsettle : settle resumptions candidate = verdict.result (search resumptions) candidate :=
        hjudges.result resumptions
      rw [LooksFrom.forall_iff_of_found hfound hjudge, Option.bind_some, hsettle, Frame.outcome]
      change (judge candidate >>= fun verdict => _) = .ok found ↔ _
      rw [hjudge]
      cases verdict with
      | accepted =>
        change Except.ok (some candidate) = .ok found ↔ some candidate = found ∧ _
        rw [Except.ok.injEq]
        exact (and_iff_left (by rintro _ ⟨⟩)).symm
      | closed =>
        change Except.ok none = .ok found ↔ none = found ∧ _
        rw [Except.ok.injEq]
        exact (and_iff_left (by rintro _ ⟨⟩)).symm
      | resumed resume =>
        obtain ⟨date, hsupported, rfl⟩ := hjudges.supported rfl
        change lookAndJudge look judge resumptions (edge date) = .ok found ↔
          search resumptions (edge date) = found ∧ _
        rw [ih (hwalked.near_edge hsupported)]
        refine and_congr_right fun _ => ⟨?_, fun hall => hall _ rfl⟩
        rintro hall _ ⟨⟩
        exact hall

end Walked

/-! ## Searches of schedules -/

/-- Where a search is resumed that may not find anything on the near side of a date. -/
def Frame.edge (frame : Frame) : Heading → Date → Instant
  | .ahead => frame.startOfDay
  | .behind => frame.endOfDay

namespace Schedule

/-- What becomes of a candidate ahead or behind. -/
def settleIn (schedule : Schedule) : Heading → Zone → (closing : Option Date) →
    (resumptions : Nat) → (candidate : Instant) → Option Instant
  | .ahead => schedule.settle
  | .behind => schedule.settleBack

/-- The search for the closest occurrence ahead of or behind a cursor. -/
def searchFrom (schedule : Schedule) : Heading → Zone → (closing : Option Date) →
    (resumptions : Nat) → (cursor : Instant) → Option Instant
  | .ahead => schedule.searchForward
  | .behind => schedule.searchBackward

/-- The cursors from which the search of a schedule comes to look for candidates. -/
def LooksFrom (schedule : Schedule) (heading : Heading) (zone : Zone) (now place : Instant) :
    Prop :=
  Cadence.LooksFrom ((Frame.ofSchedule schedule zone).closestOf heading schedule.recurrence)
    (schedule.judge heading zone (schedule.closingDate? (zone.dateOf now))) Reach.resumptions
    now place

/-- Whether every walk of the search of a schedule that finds nothing stays in the word. -/
def StaysInWord (schedule : Schedule) (heading : Heading) (zone : Zone) (now : Instant) : Prop :=
  ∀ place, schedule.LooksFrom heading zone now place →
    (Frame.ofSchedule schedule zone).closestOf heading schedule.recurrence place = none →
      (Frame.ofSchedule schedule zone).staysInWord heading schedule.recurrence place = true

variable {schedule : Schedule} {zone : Zone} {heading : Heading} {now : Instant}

section Searches

variable (hwell : schedule.WellFormed)
include hwell

theorem isSupported_of_anchor : ∀ date ∈ schedule.anchor, date.IsSupported :=
  fun date hdate => Date.HasFourDigitYear.isSupported (hwell.anchor date hdate)

theorem walkOf_eq_jumpOf {cursor : Instant} (hnear : IsNearCalendar (zone.dateOf cursor).year) :
    (Frame.ofSchedule schedule zone).walkOf heading schedule.recurrence cursor =
      (Frame.ofSchedule schedule zone).jumpOf heading schedule.recurrence cursor := by
  have hstart : IsNearCalendar ((Frame.ofSchedule schedule zone).zone.dateOf cursor).year := hnear
  exact Frame.walkOf_eq_jumpOf hstart (isSupported_of_anchor hwell) _

variable (hshort : zone.HasShortOffsets)
include hshort

theorem isNearCalendar_of_closestOf {cursor candidate : Instant}
    (hfound : (Frame.ofSchedule schedule zone).closestOf heading schedule.recurrence cursor =
      some candidate) : IsNearCalendar (zone.dateOf candidate).year := by
  have hoffers : (Frame.ofSchedule schedule zone).Offers schedule.recurrence candidate := by
    cases heading with
    | ahead => exact Frame.offers_of_nextOf hwell.recurrence hfound
    | behind => exact Frame.offers_of_previousOf hwell.recurrence hfound
  obtain ⟨date, hsupported, _, time, _, rfl⟩ := hoffers
  exact Zone.isNearCalendar_instantAt hshort hsupported time

/-- The searches of a schedule are walked if candidates are looked for in a walk, or in what a
walk comes to. -/
theorem isWalkedSearch {look : Instant → Except Overflow (Option Instant)}
    (hlook : ∀ {cursor}, IsNearCalendar (zone.dateOf cursor).year →
      look cursor = (Frame.ofSchedule schedule zone).jumpOf heading schedule.recurrence cursor)
    (reference : Date) :
    IsWalkedSearch look (schedule.judge heading zone (schedule.closingDate? reference))
      ((Frame.ofSchedule schedule zone).closestOf heading schedule.recurrence)
      ((Frame.ofSchedule schedule zone).staysInWord heading schedule.recurrence)
      (schedule.settleIn heading zone (schedule.closingDate? reference))
      (schedule.searchFrom heading zone (schedule.closingDate? reference))
      ((Frame.ofSchedule schedule zone).edge heading)
      (fun cursor => IsNearCalendar (zone.dateOf cursor).year) where
  looks := hlook
  judges hfound := by
    have hnear := isNearCalendar_of_closestOf hwell hshort hfound
    cases heading with
    | ahead => exact judgeAhead_spec hnear
    | behind => exact judgeBehind_spec hnear fun _ => isSupported_of_closingDate? hwell
  near_edge hsupported := by
    cases heading with
    | ahead => exact Zone.isNearCalendar_shift_instantAt hshort hsupported .midnight (by decide)
    | behind => exact Zone.isNearCalendar_shift_instantAt hshort hsupported .lastMinute (by decide)
  search_zero _ := by cases heading <;> rfl
  search_succ _ _ := by cases heading <;> rfl

/-- Such a search finds what the search finds, if all its walks stay in the word. -/
theorem searchIn_eq_ok_iff {look : Recurrence → Instant → Except Overflow (Option Instant)}
    (hlook : ∀ {cursor}, IsNearCalendar (zone.dateOf cursor).year →
      look schedule.recurrence cursor =
        (Frame.ofSchedule schedule zone).jumpOf heading schedule.recurrence cursor)
    (hnow : IsNearCalendar (zone.dateOf now).year) {found : Option Instant} :
    schedule.searchIn heading zone look now = .ok found ↔
      schedule.closestIn heading zone now = found ∧ schedule.StaysInWord heading zone now := by
  have hsearch : schedule.searchFrom heading zone (schedule.closingDate? (zone.dateOf now))
      Reach.resumptions now = schedule.closestIn heading zone now := by
    cases heading <;> rfl
  rw [searchIn, walkToClosingDate_eq hnow, ← hsearch]
  exact (isWalkedSearch hwell hshort hlook (zone.dateOf now)).eq_ok_iff hnow

theorem walkIn_eq_ok_iff (hnow : IsNearCalendar (zone.dateOf now).year) {found : Option Instant} :
    schedule.walkIn heading zone now = .ok found ↔
      schedule.closestIn heading zone now = found ∧ schedule.StaysInWord heading zone now :=
  searchIn_eq_ok_iff hwell hshort (walkOf_eq_jumpOf hwell) hnow

/-- What a walked search comes to. -/
theorem walkIn_eq_jumpIn (hnow : IsNearCalendar (zone.dateOf now).year) :
    schedule.walkIn heading zone now = schedule.jumpIn heading zone now :=
  Overflow.eq_of_ok_iff fun _ => (walkIn_eq_ok_iff hwell hshort hnow).trans
    (searchIn_eq_ok_iff hwell hshort (fun _ => rfl) hnow).symm

/-- All walks stay in the word if the interval is not too long. -/
theorem staysInWord_of_interval_le (hnow : IsNearCalendar (zone.dateOf now).year)
    (hinterval : schedule.recurrence.interval ≤ 2 ^ 28 - 2 ^ 16) :
    schedule.StaysInWord heading zone now := by
  intro place hlooks _
  have hplace : IsNearCalendar ((Frame.ofSchedule schedule zone).zone.dateOf place).year :=
    (isWalkedSearch hwell hshort (walkOf_eq_jumpOf hwell) (zone.dateOf now)).near_of_looksFrom
      hnow hlooks
  exact Frame.staysInWord_of_interval_le hplace (isSupported_of_anchor hwell) hinterval

end Searches

/-- The search of a schedule overflows exactly if one of its walks finds nothing and leaves the
word.  Otherwise it finds what the search finds that jumps.  Repetitions over no more than
2²⁸ - 2¹⁶ months or years stay in the word. -/
theorem walkIn_overflows_iff {text : String} (hread : Schedule.ofText text = .ok schedule)
    (hshort : zone.HasShortOffsets) (hnow : (Zone.utc.dateOf now).HasFourDigitYear) :
    (schedule.walkIn heading zone now = .error .overflow ↔
      ¬ schedule.StaysInWord heading zone now) ∧
    (schedule.StaysInWord heading zone now →
      schedule.walkIn heading zone now = .ok (schedule.closestIn heading zone now)) ∧
    (schedule.recurrence.interval ≤ 2 ^ 28 - 2 ^ 16 →
      schedule.StaysInWord heading zone now) := by
  have hwell := wellFormed_of_ofText hread
  have hnear := Zone.isNearCalendar_of_utc hshort hnow.isSupported
  have hstays (hstays : schedule.StaysInWord heading zone now) :
      schedule.walkIn heading zone now = .ok (schedule.closestIn heading zone now) :=
    (walkIn_eq_ok_iff hwell hshort hnear).mpr ⟨rfl, hstays⟩
  refine ⟨⟨fun hoverflow hall => ?_, fun hleaves => ?_⟩, hstays,
    staysInWord_of_interval_le hwell hshort hnear⟩
  · cases hoverflow.symm.trans (hstays hall)
  · cases hwalk : schedule.walkIn heading zone now with
    | error fault => rfl
    | ok found => exact absurd ((walkIn_eq_ok_iff hwell hshort hnear).mp hwalk).2 hleaves

/-- The first year after 2026 that this repetition counts lies beyond the calendar.  The walk
comes to see that without an overflow. -/
theorem walkIn_overflows_iff_beyond_calendar :
    ∃ schedule, Schedule.ofText "every 200000000 years on jan 1 at 00:00" = .ok schedule ∧
      schedule.walkIn .ahead .utc (.ofSecond 63902908800) = .ok none := by
  let schedule : Schedule :=
    .ofRecurrence (.yearly 200000000 (.date .january 1) [⟨0, 0⟩])
  have hread : Schedule.ofText "every 200000000 years on jan 1 at 00:00" = .ok schedule := by cbv
  have hnow : (Zone.utc.dateOf (.ofSecond 63902908800)).HasFourDigitYear := by decide
  have hnone : schedule.closestIn .ahead .utc (.ofSecond 63902908800) = none := by cbv
  have hshort := Zone.hasShortOffsets_of_named (show Zone.named none = .ok .utc from rfl)
  obtain ⟨_, hfinds, hstays⟩ := walkIn_overflows_iff hread hshort hnow
  exact ⟨schedule, hread, hnone ▸ hfinds (hstays (by decide))⟩

/-- At 2026-01-01 a repetition over as many years as can be written overflows. -/
theorem walkIn_overflows_at_greatest_interval :
    ∃ schedule, Schedule.ofText "every 4294967295 years on jan 1 at 00:00" = .ok schedule ∧
      schedule.walkIn .ahead .utc (.ofSecond 63902908800) = .error .overflow := by
  let schedule : Schedule :=
    .ofRecurrence (.yearly 4294967295 (.date .january 1) [⟨0, 0⟩])
  have hread : Schedule.ofText "every 4294967295 years on jan 1 at 00:00" = .ok schedule := by cbv
  have hnow : (Zone.utc.dateOf (.ofSecond 63902908800)).IsSupported := by decide
  have hshort := Zone.hasShortOffsets_of_named (show Zone.named none = .ok .utc from rfl)
  refine ⟨schedule, hread, ?_⟩
  rw [walkIn_eq_jumpIn (wellFormed_of_ofText hread) hshort
    (Zone.isNearCalendar_of_utc hshort hnow)]
  cbv

end Schedule

end Cadence
