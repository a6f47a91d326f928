import Cadence.Proofs.Occurrence.Nearest
import Cadence.Proofs.Occurrence.Offers

/-!
# Searches through dates

A search tries dates in order, forward or backward, and looks at each.  What it
finds is shown by a date it tries; that needs nothing of the zone.  Where the
dates of the zone run in the order of its instants, it also finds the closest
instant that such a date shows.  Short of that it stops at the first date that shows
anything, if this is the closest instant.  `Tries` states all three, in either
direction, and is put together like the searches themselves.
-/

namespace Cadence

/-- The instants seen on some date with a property, where `on` says what is seen
of each date. -/
def ShownBy (on : Date → Instant → Prop) (D : Date → Prop) (moment : Instant) : Prop :=
  ∃ date, D date ∧ on date moment

namespace Frame

variable {frame : Frame} {on : Date → Instant → Prop} {beyond : Instant → Instant → Prop}
  {ahead : Date → Date → Prop} {now hit : Instant} {D E : Date → Prop}

theorem offers_eq_shownBy (frame : Frame) (recurrence : Recurrence) :
    frame.Offers recurrence = ShownBy (frame.OnDate recurrence.times) fun date =>
      date.IsSupported ∧ recurrence.Selects frame.anchor date := by
  funext moment
  simp only [Offers, ShownBy, and_assoc]

/-- A direction of search: which instants lie beyond others, and which dates
ahead of others.  The instants of a date ahead lie beyond those of the other. -/
structure SearchOrder (frame : Frame) (on : Date → Instant → Prop)
    (beyond : Instant → Instant → Prop) (ahead : Date → Date → Prop) : Prop where
  asymm : ∀ {first second : Instant}, beyond first second → ¬ beyond second first
  beyond_of_ahead : ∀ {first second : Date} {moment other : Instant},
    on first moment → on second other → ahead first second → beyond moment other
  beyond_now : ∀ {now moment : Instant} {date : Date},
    on date moment → ahead (frame.zone.dateOf now) date → beyond now moment
  not_ahead : ∀ {now moment : Instant} {date : Date},
    on date moment → beyond now moment → ¬ ahead date (frame.zone.dateOf now)

section Order

variable (hzone : frame.zone.KeepsDates)
  (hon : ∀ {date : Date} {moment : Instant}, on date moment →
    ∃ time, frame.zone.instantAt date time = moment)
include hzone hon

theorem searchOrder_forward : frame.SearchOrder on (· < ·) (· < ·) where
  asymm := Instant.lt_asymm
  beyond_of_ahead hfirst hsecond hlt := by
    obtain ⟨time, rfl⟩ := hon hfirst
    obtain ⟨time', rfl⟩ := hon hsecond
    exact hzone.instantAt_lt_instantAt hlt time time'
  beyond_now hmoment hlt := by
    obtain ⟨time, rfl⟩ := hon hmoment
    exact hzone.lt_instantAt time hlt
  not_ahead hmoment hlt := by
    obtain ⟨time, rfl⟩ := hon hmoment
    exact Int.not_lt.mpr (hzone.dateOf_le_of_lt hlt)

theorem searchOrder_backward : frame.SearchOrder on (· > ·) (· > ·) where
  asymm := Instant.lt_asymm
  beyond_of_ahead hfirst hsecond hlt := by
    obtain ⟨time, rfl⟩ := hon hfirst
    obtain ⟨time', rfl⟩ := hon hsecond
    exact hzone.instantAt_lt_instantAt hlt time' time
  beyond_now hmoment hlt := by
    obtain ⟨time, rfl⟩ := hon hmoment
    exact hzone.instantAt_lt time hlt
  not_ahead hmoment hlt := by
    obtain ⟨time, rfl⟩ := hon hmoment
    exact Int.not_lt.mpr (hzone.le_dateOf_of_lt hlt)

end Order

/-- The listed times of a date are instants of that date. -/
theorem exists_time_of_onDate {times : List TimeOfDay} {date : Date} {moment : Instant}
    (hmoment : frame.OnDate times date moment) :
    ∃ time, frame.zone.instantAt date time = moment := by
  obtain ⟨time, _, htime⟩ := hmoment
  exact ⟨time, htime⟩

/-- A bound on the dates that are tried does not matter to a search that found
something before it. -/
theorem SearchOrder.nearest_of_bounded (horder : frame.SearchOrder on beyond ahead)
    {result : Option Instant} {selected : Date → Prop} (within : Date → Prop)
    (hfinds : Finds beyond (ShownBy on fun date => selected date ∧ within date) now result)
    (hresult : result = some hit)
    (hcloser : ∀ {date other : Date}, selected date → ¬ ahead other date → within other →
      within date) :
    IsNearest beyond (ShownBy on selected) now hit := by
  subst hresult
  obtain ⟨other, ⟨_, hwithin⟩, hhit⟩ := hfinds.holds
  refine hfinds.widen (fun ⟨date, hdate, hmoment⟩ => ⟨date, hdate.1, hmoment⟩) ?_
  rintro moment ⟨date, hdate, hmoment⟩ _ hbeyond
  refine ⟨date, ⟨hdate, hcloser hdate (fun hahead => ?_) hwithin⟩, hmoment⟩
  exact horder.asymm hbeyond (horder.beyond_of_ahead hhit hmoment hahead)

/-! ## What is tried -/

/-- What a search that tries the dates with a property comes to: whatever it
finds is seen on such a date, and it finds the closest such instant, provided
that dates and instants run in the same order or that this instant is seen on the
first date of which anything is seen. -/
structure Tries (frame : Frame) (on : Date → Instant → Prop) (beyond : Instant → Instant → Prop)
    (ahead : Date → Date → Prop) (D : Date → Prop) (now : Instant) (result : Option Instant) :
    Prop where
  found : ∀ hit, result = some hit → ShownBy on D hit
  finds : frame.SearchOrder on beyond ahead → Finds beyond (ShownBy on D) now result
  stopsAt : ∀ {date : Date} {hit : Instant},
    (∀ {first second : Instant}, ¬ beyond first second → ¬ beyond second first → first = second) →
    (∀ other moment, on other moment → beyond now moment) →
    D date → ¬ ahead date (frame.zone.dateOf now) → on date hit →
    (∀ other moment, D other → ahead other date → ¬ on other moment) →
    IsNearest beyond (ShownBy on D) now hit → result = some hit

/-- What a forward search tries. -/
abbrev TriesAhead (frame : Frame) (on : Date → Instant → Prop) :=
  frame.Tries on (· < ·) (· < ·)

/-- What a backward search tries. -/
abbrev TriesBehind (frame : Frame) (on : Date → Instant → Prop) :=
  frame.Tries on (· > ·) (· > ·)

namespace Tries

/-- A search that may be made in any order of dates, such as that of one date. -/
theorem of_finds {result : Option Instant} (hfinds : Finds beyond (ShownBy on D) now result) :
    frame.Tries on beyond ahead D now result where
  found hit hresult := by
    subst hresult
    exact hfinds.holds
  finds _ := hfinds
  stopsAt htotal _ _ _ _ _ hnearest := hfinds.eq_some htotal hnearest

/-- A search that has no date to try. -/
theorem none_of_empty (hempty : ∀ date, ¬ D date) : frame.Tries on beyond ahead D now none :=
  of_finds (Finds.none_of_empty fun _ ⟨date, hdate, _⟩ => hempty date hdate)

/-- The search of a single date. -/
theorem single {date : Date} {result : Option Instant}
    (hfinds : Finds beyond (on date) now result) :
    frame.Tries on beyond ahead (· = date) now result :=
  of_finds (hfinds.congr fun _ _ => by simp only [ShownBy, exists_eq_left])

/-- Trying one group of dates after the other, each ahead of the groups before
it.  The dates tried need only be all there are from the current one on. -/
theorem findSome? {α : Type} {items : List α} {search : α → Option Instant}
    {group : α → Date → Prop}
    (htries : ∀ a ∈ items, frame.Tries on beyond ahead (group a) now (search a))
    (hordered : items.Pairwise fun a b =>
      ∀ date other, group a date → group b other → ahead date other)
    (hsound : ∀ a ∈ items, ∀ date, group a date → E date)
    (hcomplete : ∀ date, ¬ ahead date (frame.zone.dateOf now) → E date →
      ∃ a ∈ items, group a date) :
    frame.Tries on beyond ahead E now (items.findSome? search) where
  found hit hresult := by
    obtain ⟨a, ha, hfound⟩ := List.exists_of_findSome?_eq_some hresult
    obtain ⟨date, hdate, hmoment⟩ := (htries a ha).found hit hfound
    exact ⟨date, hsound a ha date hdate, hmoment⟩
  finds horder := by
    refine (Finds.findSome? horder.asymm (fun a => ShownBy on (group a))
      (fun a ha => (htries a ha).finds horder) (hordered.imp ?_)).congr fun moment hmoment => ?_
    · rintro a b hahead first second ⟨date, hdate, hfirst⟩ ⟨other, hother, hsecond⟩
      exact horder.beyond_of_ahead hfirst hsecond (hahead date other hdate hother)
    · constructor
      · rintro ⟨a, ha, date, hdate, hseen⟩
        exact ⟨date, hsound a ha date hdate, hseen⟩
      · rintro ⟨date, hdate, hseen⟩
        obtain ⟨a, ha, hgroup⟩ := hcomplete date (horder.not_ahead hseen hmoment) hdate
        exact ⟨a, ha, date, hgroup, hseen⟩
  stopsAt {date hit} htotal hbeyond hdate hcurrent hseen hnone hnearest := by
    obtain ⟨a, ha, hgroup⟩ := hcomplete date hcurrent hdate
    obtain ⟨before, after, rfl⟩ := List.append_of_mem ha
    refine List.findSome?_eq_some_iff.mpr ⟨before, a, after, rfl, ?_, fun b hb => ?_⟩
    · refine (htries a ha).stopsAt htotal hbeyond hgroup hcurrent hseen
        (fun other moment hother => hnone other moment (hsound a ha other hother)) ?_
      exact hnearest.restrict ⟨date, hgroup, hseen⟩ fun moment ⟨other, hother, hmoment⟩ =>
        ⟨other, hsound a ha other hother, hmoment⟩
    · -- The dates of earlier groups come first, so nothing is seen of them.
      have hb' := List.mem_append_left (a :: after) hb
      by_contra hfound
      obtain ⟨seen, hseen'⟩ := Option.ne_none_iff_exists'.mp hfound
      obtain ⟨other, hother, hmoment⟩ := (htries b hb').found seen hseen'
      have hahead := (List.pairwise_append.mp hordered).2.2 b hb a List.mem_cons_self
      exact hnone other seen (hsound b hb' other hother) (hahead other date hother hgroup) hmoment

/-- A group of dates that depends on something that may be missing. -/
theorem bind {α : Type} {source : Option α} {search : α → Option Instant}
    (group : α → Date → Prop)
    (htries : ∀ a, source = some a → frame.Tries on beyond ahead (group a) now (search a)) :
    frame.Tries on beyond ahead (fun date => ∃ a, source = some a ∧ group a date) now
      (source.bind search) where
  found hit hresult := by
    obtain ⟨a, ha, hfound⟩ := Option.bind_eq_some_iff.mp hresult
    obtain ⟨date, hdate, hmoment⟩ := (htries a ha).found hit hfound
    exact ⟨date, ⟨a, ha, hdate⟩, hmoment⟩
  finds horder := by
    refine (Finds.bind fun a ha => (htries a ha).finds horder).congr fun moment _ => ?_
    constructor
    · rintro ⟨a, ha, date, hdate, hseen⟩
      exact ⟨date, ⟨a, ha, hdate⟩, hseen⟩
    · rintro ⟨date, ⟨a, ha, hdate⟩, hseen⟩
      exact ⟨a, ha, date, hdate, hseen⟩
  stopsAt {date hit} htotal hbeyond hdate hcurrent hseen hnone hnearest := by
    obtain ⟨a, ha, hgroup⟩ := hdate
    refine Option.bind_eq_some_iff.mpr ⟨a, ha, ?_⟩
    refine (htries a ha).stopsAt htotal hbeyond hgroup hcurrent hseen
      (fun other moment hother => hnone other moment ⟨a, ha, hother⟩) ?_
    exact hnearest.restrict ⟨date, hgroup, hseen⟩ fun moment ⟨other, hother, hmoment⟩ =>
      ⟨other, ⟨a, ha, hother⟩, hmoment⟩

/-- A group of dates that is only tried under a condition. -/
theorem ite {c : Prop} [Decidable c] {result : Option Instant}
    (htries : c → frame.Tries on beyond ahead D now result) :
    frame.Tries on beyond ahead (fun date => c ∧ D date) now (if c then result else none) where
  found hit hresult := by
    obtain ⟨hc, hfound⟩ := Option.ite_none_right_eq_some.mp hresult
    obtain ⟨date, hdate, hmoment⟩ := (htries hc).found hit hfound
    exact ⟨date, ⟨hc, hdate⟩, hmoment⟩
  finds horder := by
    refine (Finds.ite fun hc => (htries hc).finds horder).congr fun moment _ => ?_
    constructor
    · rintro ⟨hc, date, hdate, hseen⟩
      exact ⟨date, ⟨hc, hdate⟩, hseen⟩
    · rintro ⟨date, ⟨hc, hdate⟩, hseen⟩
      exact ⟨hc, date, hdate, hseen⟩
  stopsAt {date hit} htotal hbeyond hdate hcurrent hseen hnone hnearest := by
    obtain ⟨hc, hgroup⟩ := hdate
    rw [if_pos hc]
    refine (htries hc).stopsAt htotal hbeyond hgroup hcurrent hseen
      (fun other moment hother => hnone other moment ⟨hc, hother⟩) ?_
    exact hnearest.restrict ⟨date, hgroup, hseen⟩ fun moment ⟨other, hother, hmoment⟩ =>
      ⟨other, ⟨hc, hother⟩, hmoment⟩

/-- The least of what some dates show, whichever order they are tried in. -/
theorem min?_filterMap {dates : List Date} {search : Date → Option Instant}
    (htries : ∀ date, frame.Tries on (· < ·) ahead (· = date) now (search date)) :
    frame.Tries on (· < ·) ahead (· ∈ dates) now (dates.filterMap search).min? where
  found hit hresult := by
    obtain ⟨date, hdate, hfound⟩ := List.mem_filterMap.mp (List.min?_mem hresult)
    obtain ⟨_, rfl, hmoment⟩ := (htries date).found hit hfound
    exact ⟨_, hdate, hmoment⟩
  finds horder := Finds.min?_filterMap fun date _ =>
    ((htries date).finds horder).congr fun _ _ => by simp only [ShownBy, exists_eq_left]
  stopsAt {date hit} htotal hbeyond hdate hcurrent hseen hnone hnearest := by
    have hfound : search date = some hit := by
      refine (htries date).stopsAt htotal hbeyond rfl hcurrent hseen ?_ ?_
      · rintro other moment rfl
        exact hnone other moment hdate
      · refine hnearest.restrict ⟨date, rfl, hseen⟩ ?_
        rintro moment ⟨other, rfl, hmoment⟩
        exact ⟨other, hdate, hmoment⟩
    refine List.min?_eq_some_iff.mpr ⟨List.mem_filterMap.mpr ⟨date, hdate, hfound⟩, ?_⟩
    intro moment hmem
    obtain ⟨other, hother, hresult⟩ := List.mem_filterMap.mp hmem
    obtain ⟨_, rfl, hmoment⟩ := (htries other).found moment hresult
    exact Instant.not_lt.mp
      (hnearest.closest moment ⟨_, hother, hmoment⟩ (hbeyond _ moment hmoment))

/-- The same dates, described in another way. -/
theorem congr {result : Option Instant} (htries : frame.Tries on beyond ahead D now result)
    (hsame : ∀ date, D date ↔ E date) : frame.Tries on beyond ahead E now result := by
  obtain rfl : D = E := funext fun date => propext (hsame date)
  exact htries

/-- A single date that may be missing. -/
theorem date (source : Option Date) {search : Date → Option Instant}
    (htries : ∀ date, frame.Tries on beyond ahead (· = date) now (search date)) :
    frame.Tries on beyond ahead (source = some ·) now (source.bind search) := by
  refine (bind _ fun date _ => htries date).congr fun date => ?_
  constructor
  · rintro ⟨_, hsource, rfl⟩
    exact hsource
  · exact fun hsource => ⟨date, hsource, rfl⟩

/-- A single date that may be missing and has to pass a test. -/
theorem date_if (source : Option Date) {search : Date → Option Instant} (test : Date → Bool)
    (htries : ∀ date, frame.Tries on beyond ahead (· = date) now (search date)) :
    frame.Tries on beyond ahead (fun date => source = some date ∧ test date = true) now
      (source.bind fun date => if test date then search date else none) := by
  refine (bind _ fun date _ => ite fun _ => htries date).congr fun date => ?_
  constructor
  · rintro ⟨_, hsource, htest, rfl⟩
    exact ⟨hsource, htest⟩
  · exact fun ⟨hsource, htest⟩ => ⟨date, hsource, htest, rfl⟩

/-- A search that goes from one aligned place to the next, where `group` says which dates
lie so many units away: of the dates that are within reach it tries all whose distance is
the lead and a number of strides. -/
theorem strides {group : Nat → Date → Prop} {lead stride count : Nat}
    (search : Nat → Option Instant) (hlead : lead < stride)
    (htries : ∀ away, frame.Tries on beyond ahead (group away) now (search away))
    (hordered : ∀ {near far : Nat} {date other : Date}, near < far →
      group near date → group far other → ahead date other)
    (htried : ∀ {away : Nat} {date : Date}, group away date →
      (E date ↔ (∃ k, away = lead + k * stride) ∧ away < count * stride))
    (hreached : ∀ date, ¬ ahead date (frame.zone.dateOf now) → E date → ∃ away, group away date) :
    frame.Tries on beyond ahead E now
      ((List.range count).findSome? fun k => search (lead + k * stride)) := by
  refine findSome? (fun k _ => htries _) ?_ ?_ ?_
  · refine List.pairwise_lt_range.imp fun {k l} hlt date other hdate hother => ?_
    have hmul := Nat.mul_lt_mul_of_pos_right hlt (Nat.zero_lt_of_lt hlead)
    exact hordered (Nat.add_lt_add_left hmul lead) hdate hother
  · intro k hk date hdate
    exact (htried hdate).mpr ⟨⟨k, rfl⟩, (steps_lt_iff hlead).mp (List.mem_range.mp hk)⟩
  · intro date hcurrent hdate
    obtain ⟨away, hgroup⟩ := hreached date hcurrent hdate
    obtain ⟨⟨k, rfl⟩, hnear⟩ := (htried hgroup).mp hdate
    exact ⟨k, List.mem_range.mpr ((steps_lt_iff hlead).mpr hnear), hgroup⟩

end Tries

end Frame

end Cadence
