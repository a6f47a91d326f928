import Cadence.Proofs.Calendar.Seasons
import Cadence.Proofs.Occurrence.ScanReach

/-!
# Recurrences that never sit out a turn

Every year has each of its days except a leap day, and every month has each of
its weekdays except a fifth one.  A recurrence on other days fires in every year
or month whose turn it is, so its next occurrence is at most one interval away.
The scans reach several intervals far and find it.
-/

namespace Cadence

/-- What every year has: neither a leap day nor a fifth weekday. -/
def YearTarget.IsPerennial : YearTarget → Prop
  | date month day | dayOfMonth day month => ¬ (month = .february ∧ day = 29)
  | positioned position _ _ => position ≠ .fifth
  | lastBusinessDay _ => True

/-- Apart from the leap day all days of a month come every year. -/
theorem Month.le_daysInMonth {month : Month} {day : Nat} (hday : day ≤ month.maxDays)
    (hleap : ¬ (month = .february ∧ day = 29)) (year : Int) :
    day ≤ daysInMonth year month.number := by
  cases month with
  | february =>
    have hshort := (daysInMonth_bounds year Month.february.number).1
    simp only [true_and, maxDays] at hleap hday
    omega
  | _ => exact hday

theorem YearTarget.exists_dateIn? {target : YearTarget} (hwell : target.WellFormed)
    (hperennial : target.IsPerennial) {year : Int}
    (hyear : Date.leastYear ≤ year ∧ year ≤ Date.greatestYear) :
    ∃ date, target.dateIn? year = some date := by
  have hregular (month : Month) : (⟨year, month.number⟩ : YearMonth).IsRegular :=
    month.number_bounds
  cases target with
  | date month day | dayOfMonth day month =>
    exact YearMonth.exists_date? (hregular month) hyear
      ⟨hwell.1, Month.le_daysInMonth hwell.2 hperennial year⟩
  | positioned position weekday month =>
    exact YearMonth.exists_positionedWeekday? (hregular month) hyear hperennial weekday
  | lastBusinessDay month => exact YearMonth.exists_lastBusinessDate? (hregular month) hyear

section Between

variable {first second : Date} (hfirst : first.HasFourDigitYear)
  (hsecond : second.HasFourDigitYear)
include hfirst hsecond

/-- Every year from that of one date to that of another has a perennial target. -/
theorem YearTarget.exists_dateIn?_between {target : YearTarget} (hwell : target.WellFormed)
    (hperennial : target.IsPerennial) {year : Int} (hlow : first.year ≤ year)
    (hhigh : year ≤ second.year) :
    ∃ date : Date, date.HasFourDigitYear ∧ date.year = year ∧
      target.dateIn? year = some date := by
  have hleast := hfirst.isFarFromEnds.1
  have hgreatest := hsecond.isFarFromEnds.2
  obtain ⟨date, hdate⟩ := target.exists_dateIn? hwell hperennial
    (show Date.leastYear ≤ year ∧ year ≤ Date.greatestYear by omega)
  obtain ⟨_, rfl⟩ := YearTarget.year_of_dateIn? hdate
  exact ⟨date, ⟨hfirst.1.trans hlow, hhigh.trans hsecond.2⟩, rfl, hdate⟩

/-- Every month from that of one date to that of another has all its weekdays but
a fifth. -/
theorem YearMonth.exists_positionedWeekday?_between {position : Position}
    (hposition : position ≠ .fifth) (weekday : Weekday) {ym : YearMonth}
    (hregular : ym.IsRegular) (hlow : (YearMonth.ofDate first).index ≤ ym.index)
    (hhigh : ym.index ≤ (YearMonth.ofDate second).index) :
    ∃ date : Date, date.HasFourDigitYear ∧ YearMonth.ofDate date = ym ∧
      ym.positionedWeekday? position weekday = some date := by
  have hleast := hfirst.isFarFromEnds.1
  have hgreatest := hsecond.isFarFromEnds.2
  have hlow : first.year ≤ ym.year := year_mono (isRegular_ofDate first) hregular hlow
  have hhigh : ym.year ≤ second.year := year_mono hregular (isRegular_ofDate second) hhigh
  obtain ⟨date, hdate⟩ := exists_positionedWeekday? hregular
    (show Date.leastYear ≤ ym.year ∧ ym.year ≤ Date.greatestYear by omega) hposition weekday
  obtain ⟨_, rfl⟩ := ofDate_of_positionedWeekday? hdate
  exact ⟨date, ⟨hfirst.1.trans hlow, hhigh.trans hsecond.2⟩, rfl, hdate⟩

end Between

namespace Recurrence

/-- Recurrences on one day of their years or months that none of these lacks. -/
def IsPerennial : Recurrence → Prop
  | yearly _ target _ => target.IsPerennial
  | once (.yearly month day) _ => (YearTarget.date month day).IsPerennial
  | ordinal _ position _ _ | monthly _ (.positioned position _) _ => position ≠ .fifth
  | _ => False

theorem IsPerennial.isScanned {recurrence : Recurrence} (hperennial : recurrence.IsPerennial) :
    recurrence.IsScanned := by
  cases recurrence with
  | yearly | ordinal => trivial
  | once day times => cases day <;> trivial
  | monthly interval target times => cases target <;> trivial
  | window | daily | weekly => exact hperennial.elim

/-- A selected date that a forward scan from `start` gets to. -/
structure ReachedAhead (recurrence : Recurrence) (anchor : Option Date) (start date : Date) :
    Prop where
  year : date.HasFourDigitYear
  later : start < date
  selects : recurrence.Selects anchor date
  scansTo : recurrence.ScansTo start date

/-- A selected date that a backward scan from `start` gets back to. -/
structure ReachedBehind (recurrence : Recurrence) (anchor : Option Date) (start date : Date) :
    Prop where
  year : date.HasFourDigitYear
  earlier : date < start
  selects : recurrence.Selects anchor date
  scansBackTo : recurrence.ScansBackTo start date

section Closer

variable {anchor : Option Date} {interval : Nat} {times : List TimeOfDay} {target : YearTarget}
  {position : Position} {weekday : Weekday} {start date : Date}
  (hstart : start.HasFourDigitYear) (hdate : date.HasFourDigitYear)
include hstart hdate

theorem exists_reachedAhead_yearly (hwell : target.WellFormed) (hperennial : target.IsPerennial)
    (hselects : (yearly interval target times).Selects anchor date)
    (hfar : ¬ (yearly interval target times).ScansTo start date) :
    ∃ nearer, (yearly interval target times).ReachedAhead anchor start nearer := by
  have hpos := stepOf_pos interval
  simp only [ScansTo, Reach.years] at hfar
  obtain ⟨closest, hafter, hle, hwithin, haligned⟩ := exists_isAligned_after hselects.1
    (show start.year - yearAnchor anchor < date.year - yearAnchor anchor by omega)
  obtain ⟨year, rfl⟩ : ∃ year, closest = year - yearAnchor anchor :=
    ⟨closest + yearAnchor anchor, by omega⟩
  obtain ⟨nearer, hyear, rfl, hnearer⟩ := YearTarget.exists_dateIn?_between hstart hdate hwell
    hperennial (show start.year ≤ year by omega) (by omega)
  refine ⟨nearer, hyear, Date.lt_of_year_lt (by omega), ⟨haligned, hnearer⟩, ?_⟩
  simp only [ScansTo, Reach.years]
  omega

theorem exists_reachedAhead_ordinal (hposition : position ≠ .fifth)
    (hselects : (ordinal interval position weekday times).Selects anchor date)
    (hfar : ¬ (ordinal interval position weekday times).ScansTo start date) :
    ∃ nearer, (ordinal interval position weekday times).ReachedAhead anchor start nearer := by
  have hpos := stepOf_pos interval
  obtain ⟨ym, hturn, hmem⟩ := hselects
  obtain ⟨_, rfl⟩ := YearMonth.ofDate_of_positionedWeekday? (Option.mem_toList.mp hmem)
  simp only [ScansTo, Reach.months] at hfar
  obtain ⟨closest, hafter, hle, hwithin, haligned⟩ := exists_isAligned_after hturn
    (show (YearMonth.ofDate start).monthsSince (monthAnchor anchor) < _ by
      simp only [YearMonth.monthsSince]; omega)
  obtain ⟨ym, hregular, rfl⟩ := YearMonth.exists_monthsSince (monthAnchor anchor) closest
  simp only [YearMonth.monthsSince] at hafter hle hwithin
  obtain ⟨nearer, hyear, rfl, hnearer⟩ := YearMonth.exists_positionedWeekday?_between hstart
    hdate hposition weekday hregular (by omega) (by omega)
  refine ⟨nearer, hyear, YearMonth.lt_of_index_ofDate_lt (by omega),
    ⟨_, haligned, Option.mem_toList.mpr hnearer⟩, ?_⟩
  simp only [ScansTo, Reach.months]
  omega

theorem exists_reachedBehind_yearly (hwell : target.WellFormed) (hperennial : target.IsPerennial)
    (hselects : (yearly interval target times).Selects anchor date)
    (hfar : ¬ (yearly interval target times).ScansBackTo start date) :
    ∃ nearer, (yearly interval target times).ReachedBehind anchor start nearer := by
  have hpos := stepOf_pos interval
  simp only [ScansBackTo, Reach.years] at hfar
  obtain ⟨closest, hbefore, hle, hwithin, haligned⟩ := exists_isAligned_before hselects.1
    (show date.year - yearAnchor anchor < start.year - yearAnchor anchor by omega)
  obtain ⟨year, rfl⟩ : ∃ year, closest = year - yearAnchor anchor :=
    ⟨closest + yearAnchor anchor, by omega⟩
  obtain ⟨nearer, hyear, rfl, hnearer⟩ := YearTarget.exists_dateIn?_between hdate hstart hwell
    hperennial (show date.year ≤ year by omega) (by omega)
  refine ⟨nearer, hyear, Date.lt_of_year_lt (by omega), ⟨haligned, hnearer⟩, ?_⟩
  simp only [ScansBackTo, Reach.years]
  omega

theorem exists_reachedBehind_ordinal (hposition : position ≠ .fifth)
    (hselects : (ordinal interval position weekday times).Selects anchor date)
    (hfar : ¬ (ordinal interval position weekday times).ScansBackTo start date) :
    ∃ nearer, (ordinal interval position weekday times).ReachedBehind anchor start nearer := by
  have hpos := stepOf_pos interval
  obtain ⟨ym, hturn, hmem⟩ := hselects
  obtain ⟨_, rfl⟩ := YearMonth.ofDate_of_positionedWeekday? (Option.mem_toList.mp hmem)
  simp only [ScansBackTo, Reach.months] at hfar
  obtain ⟨closest, hbefore, hle, hwithin, haligned⟩ := exists_isAligned_before hturn
    (show _ < (YearMonth.ofDate start).monthsSince (monthAnchor anchor) by
      simp only [YearMonth.monthsSince]; omega)
  obtain ⟨ym, hregular, rfl⟩ := YearMonth.exists_monthsSince (monthAnchor anchor) closest
  simp only [YearMonth.monthsSince] at hbefore hle hwithin
  obtain ⟨nearer, hyear, rfl, hnearer⟩ := YearMonth.exists_positionedWeekday?_between hdate
    hstart hposition weekday hregular (by omega) (by omega)
  refine ⟨nearer, hyear, YearMonth.lt_of_index_ofDate_lt (by omega),
    ⟨_, haligned, Option.mem_toList.mpr hnearer⟩, ?_⟩
  simp only [ScansBackTo, Reach.months]
  omega

variable {recurrence : Recurrence} (hwell : recurrence.WellFormed)
  (hperennial : recurrence.IsPerennial) (hselects : recurrence.Selects anchor date)
include hwell hperennial hselects

/-- If a scan does not get to a date ahead, it gets to a closer one. -/
theorem exists_reachedAhead (hfar : ¬ recurrence.ScansTo start date) :
    ∃ nearer, recurrence.ReachedAhead anchor start nearer := by
  cases recurrence with
  | yearly interval target times =>
    exact exists_reachedAhead_yearly hstart hdate hwell.2.1 hperennial hselects hfar
  | ordinal interval position weekday times =>
    exact exists_reachedAhead_ordinal hstart hdate hperennial hselects hfar
  | monthly interval target times =>
    cases target with
    | positioned position weekday =>
      have hselects : (ordinal interval position weekday times).Selects anchor date := hselects
      obtain ⟨nearer, hyear, hlater, hnearer, hscans⟩ :=
        exists_reachedAhead_ordinal hstart hdate hperennial hselects hfar
      exact ⟨nearer, hyear, hlater, hnearer, hscans⟩
    | _ => exact hperennial.elim
  | once day times =>
    cases day with
    | yearly month day =>
      have htarget : (YearTarget.date month day).WellFormed := hwell.1
      obtain ⟨nearer, hyear, hlater, hnearer, hscans⟩ :=
        exists_reachedAhead_yearly hstart hdate htarget hperennial
          ((selects_once_yearly hdate.isSupported).mp hselects) hfar
      exact ⟨nearer, hyear, hlater, (selects_once_yearly hyear.isSupported).mpr hnearer, hscans⟩
    | fixed date => exact hperennial.elim
  | window | daily | weekly => exact hperennial.elim

/-- If a scan does not get back to a date behind, it gets back to a closer one. -/
theorem exists_reachedBehind (hfar : ¬ recurrence.ScansBackTo start date) :
    ∃ nearer, recurrence.ReachedBehind anchor start nearer := by
  cases recurrence with
  | yearly interval target times =>
    exact exists_reachedBehind_yearly hstart hdate hwell.2.1 hperennial hselects hfar
  | ordinal interval position weekday times =>
    exact exists_reachedBehind_ordinal hstart hdate hperennial hselects hfar
  | monthly interval target times =>
    cases target with
    | positioned position weekday =>
      have hselects : (ordinal interval position weekday times).Selects anchor date := hselects
      obtain ⟨nearer, hyear, hearlier, hnearer, hscans⟩ :=
        exists_reachedBehind_ordinal hstart hdate hperennial hselects hfar
      exact ⟨nearer, hyear, hearlier, hnearer, hscans⟩
    | _ => exact hperennial.elim
  | once day times =>
    cases day with
    | yearly month day =>
      have htarget : (YearTarget.date month day).WellFormed := hwell.1
      obtain ⟨nearer, hyear, hearlier, hnearer, hscans⟩ :=
        exists_reachedBehind_yearly hstart hdate htarget hperennial
          ((selects_once_yearly hdate.isSupported).mp hselects) hfar
      exact ⟨nearer, hyear, hearlier, (selects_once_yearly hyear.isSupported).mpr hnearer,
        hscans⟩
    | fixed date => exact hperennial.elim
  | window | daily | weekly => exact hperennial.elim

end Closer

end Recurrence

namespace Frame

variable {frame : Frame} {recurrence : Recurrence} {now moment : Instant}
  (hzone : frame.zone.KeepsDates) (hwell : recurrence.WellFormed)
  (hperennial : recurrence.IsPerennial) (hnow : (frame.zone.dateOf now).HasFourDigitYear)
  (hoffers : frame.Offers recurrence moment)
include hzone hwell hperennial hnow hoffers

/-- A forward scan gets to some offered instant unless there is none ahead. -/
theorem exists_offers_ahead (hlater : now < moment)
    (hyear : (frame.zone.dateOf moment).year ≤ 9999) :
    ∃ nearer, (now < nearer ∧ (frame.zone.dateOf nearer).year ≤ 9999 ∧
        frame.Offers recurrence nearer) ∧
      recurrence.ScansTo (frame.zone.dateOf now) (frame.zone.dateOf nearer) := by
  by_cases hscans : recurrence.ScansTo (frame.zone.dateOf now) (frame.zone.dateOf moment)
  · exact ⟨moment, ⟨hlater, hyear, hoffers⟩, hscans⟩
  · obtain ⟨date, _, hselects, time, htime, rfl⟩ := hoffers
    have hdateOf := fun date => hzone.dateOf_instantAt date time
    have hle : (frame.zone.dateOf now).year ≤ date.year :=
      Date.year_mono (hzone.dateOf_le_of_lt hlater)
    rw [hdateOf] at hscans hyear
    obtain ⟨nearer, hnearer⟩ := Recurrence.exists_reachedAhead hnow
      ⟨hnow.1.trans hle, hyear⟩ hwell hperennial hselects hscans
    refine ⟨frame.zone.instantAt nearer time, ⟨hzone.lt_instantAt time hnearer.later, ?_,
      nearer, hnearer.year.isSupported, hnearer.selects, time, htime, rfl⟩, ?_⟩
    · rw [hdateOf]
      exact hnearer.year.2
    · rw [hdateOf]
      exact hnearer.scansTo

/-- A backward scan gets back to some offered instant unless there is none behind. -/
theorem exists_offers_behind (hearlier : moment < now)
    (hyear : 0 ≤ (frame.zone.dateOf moment).year) :
    ∃ nearer, (nearer < now ∧ frame.zone.dateOf moment ≤ frame.zone.dateOf nearer ∧
        frame.Offers recurrence nearer) ∧
      recurrence.ScansBackTo (frame.zone.dateOf now) (frame.zone.dateOf nearer) := by
  by_cases hscans : recurrence.ScansBackTo (frame.zone.dateOf now) (frame.zone.dateOf moment)
  · exact ⟨moment, ⟨hearlier, Int.le_refl _, hoffers⟩, hscans⟩
  · obtain ⟨date, _, hselects, time, htime, rfl⟩ := hoffers
    have hdateOf := fun date => hzone.dateOf_instantAt date time
    have hle : date.year ≤ (frame.zone.dateOf now).year :=
      Date.year_mono (hzone.le_dateOf_of_lt hearlier)
    rw [hdateOf] at hscans hyear
    obtain ⟨nearer, hnearer⟩ := Recurrence.exists_reachedBehind hnow
      ⟨hyear, hle.trans hnow.2⟩ hwell hperennial hselects hscans
    refine ⟨frame.zone.instantAt nearer time, ⟨hzone.instantAt_lt time hnearer.earlier, ?_,
      nearer, hnearer.year.isSupported, hnearer.selects, time, htime, rfl⟩, ?_⟩
    · rw [hdateOf, hdateOf]
      exact Int.not_lt.mp fun hlt => hscans (hnearer.scansBackTo.of_ge (Int.le_of_lt hlt))
    · rw [hdateOf]
      exact hnearer.scansBackTo

end Frame

end Cadence
