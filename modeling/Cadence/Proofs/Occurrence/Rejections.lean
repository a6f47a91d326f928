import Cadence.Proofs.Occurrence.Resumption

/-!
# How often a search is resumed

A forward search lands on one candidate after another and is resumed behind those
that a clause rejects.  `LandsOn` follows this path without a bound and counts the
rejections; a search that may be resumed so many times finds what lies at the end
of the path exactly if there are fewer rejections than that.
-/

namespace Cadence

namespace Schedule

variable {schedule : Schedule} {zone : Zone} {closing : Option Date} {resumptions count other : Nat}
  {cursor start candidate found hit : Instant} {resume : Date}

theorem Resumes.unique {date later : Date} (hresumes : schedule.Resumes date resume)
    (hother : schedule.Resumes date later) : resume = later := by
  cases hresumes with
  | inSeason hchecks hout hstart =>
    cases hother with
    | inSeason _ _ hstart' => exact Option.some.inj (hstart.symm.trans hstart')
    | behind hin _ _ => exact nomatch hout.symm.trans (hin hchecks)
  | behind hin _ hnext =>
    cases hother with
    | inSeason hchecks hout _ => exact nomatch hout.symm.trans (hin hchecks)
    | behind _ _ hnext' => exact Option.some.inj (hnext.symm.trans hnext')

/-- After a number of rejections a search lands on a candidate. -/
inductive LandsOn (schedule : Schedule) (zone : Zone) (closing : Option Date) :
    (count : Nat) → (cursor candidate : Instant) → Prop
  | first {cursor candidate : Instant}
      (hnext : (Frame.ofSchedule schedule zone).nextOf schedule.recurrence cursor =
        some candidate) :
    LandsOn schedule zone closing 0 cursor candidate
  | resumed {count : Nat} {cursor rejected candidate : Instant} {resume : Date}
      (hnext : (Frame.ofSchedule schedule zone).nextOf schedule.recurrence cursor = some rejected)
      (hopen : ∀ last ∈ closing, zone.dateOf rejected ≤ last)
      (hresumes : schedule.Resumes (zone.dateOf rejected) resume)
      (hrest : LandsOn schedule zone closing count
        ((Frame.ofSchedule schedule zone).startOfDay resume) candidate) :
    LandsOn schedule zone closing (count + 1) cursor candidate

/-- A search finds the accepted candidates that it lands on after fewer rejections
than it may be resumed. -/
theorem searchForward_eq_some_iff :
    schedule.searchForward zone closing resumptions cursor = some hit ↔
      ∃ count < resumptions, schedule.LandsOn zone closing count cursor hit ∧
        schedule.Passes closing (zone.dateOf hit) := by
  induction resumptions generalizing cursor with
  | zero =>
    refine iff_of_false nofun ?_
    rintro ⟨count, hcount, _⟩
    exact Nat.not_lt_zero count hcount
  | succ resumptions ih =>
    rw [searchForward_succ, Option.bind_eq_some_iff]
    constructor
    · rintro ⟨candidate, hnext, hsettle⟩
      obtain ⟨hopen, ⟨rfl, hpasses⟩ | ⟨resume, hresumes, hrest⟩⟩ := settle_eq_some_iff.mp hsettle
      · exact ⟨0, Nat.succ_pos resumptions, .first hnext, hpasses⟩
      · obtain ⟨count, hcount, hlands, hpasses⟩ := ih.mp hrest
        exact ⟨count + 1, Nat.succ_lt_succ hcount, .resumed hnext hopen hresumes hlands, hpasses⟩
    · rintro ⟨count, hcount, hlands, hpasses⟩
      cases hlands with
      | first hnext => exact ⟨hit, hnext, settle_of_passes hpasses⟩
      | resumed hnext hopen hresumes hrest =>
        refine ⟨_, hnext, settle_eq_some_iff.mpr ⟨hopen, .inr ⟨_, hresumes, ih.mpr ?_⟩⟩⟩
        exact ⟨_, Nat.lt_of_succ_lt_succ hcount, hrest, hpasses⟩

/-- A search that is resumed more often finds the same. -/
theorem searchForward_mono {more : Nat} (hle : resumptions ≤ more)
    (hsearch : schedule.searchForward zone closing resumptions cursor = some hit) :
    schedule.searchForward zone closing more cursor = some hit := by
  obtain ⟨count, hcount, hlands⟩ := searchForward_eq_some_iff.mp hsearch
  exact searchForward_eq_some_iff.mpr ⟨count, Nat.lt_of_lt_of_le hcount hle, hlands⟩

namespace LandsOn

/-- What a search lands on is a candidate from where it was last resumed. -/
theorem exists_nextOf (hlands : schedule.LandsOn zone closing count cursor hit) :
    ∃ start, (Frame.ofSchedule schedule zone).nextOf schedule.recurrence start = some hit := by
  induction hlands with
  | first hnext => exact ⟨_, hnext⟩
  | resumed _ _ _ _ ih => exact ih

/-- The path of a search ends at its first accepted candidate. -/
theorem unique (hlands : schedule.LandsOn zone closing count cursor hit)
    (hpasses : schedule.Passes closing (zone.dateOf hit))
    (hother : schedule.LandsOn zone closing other cursor found)
    (hfound : schedule.Passes closing (zone.dateOf found)) : count = other ∧ hit = found := by
  have hrejects : ∀ {date resume : Date}, schedule.Resumes date resume →
      ¬ schedule.Passes closing date :=
    fun hresumes => hresumes.not_passes (Int.le_refl _) hresumes.lt
  induction hlands generalizing other with
  | first hnext =>
    cases hother with
    | first hnext' => exact ⟨rfl, Option.some.inj (hnext.symm.trans hnext')⟩
    | resumed hnext' _ hresumes _ =>
      obtain rfl := Option.some.inj (hnext.symm.trans hnext')
      exact absurd hpasses (hrejects hresumes)
  | resumed hnext _ hresumes _ ih =>
    cases hother with
    | first hnext' =>
      obtain rfl := Option.some.inj (hnext.symm.trans hnext')
      exact absurd hfound (hrejects hresumes)
    | resumed hnext' _ hresumes' hrest =>
      obtain rfl := Option.some.inj (hnext.symm.trans hnext')
      obtain rfl := hresumes.unique hresumes'
      obtain ⟨rfl, rfl⟩ := ih hpasses hrest
      exact ⟨rfl, rfl⟩

/-- A rejected candidate adds one to the rejections before and behind it. -/
theorem trans (hlands : schedule.LandsOn zone closing count cursor candidate)
    (hopen : ∀ last ∈ closing, zone.dateOf candidate ≤ last)
    (hresumes : schedule.Resumes (zone.dateOf candidate) resume)
    (hrest : schedule.LandsOn zone closing other
      ((Frame.ofSchedule schedule zone).startOfDay resume) hit) :
    schedule.LandsOn zone closing (count + 1 + other) cursor hit := by
  induction hlands with
  | first hnext =>
    rw [Nat.zero_add, Nat.add_comm]
    exact .resumed hnext hopen hresumes hrest
  | @resumed count _ _ _ _ hnext hopen' hresumes' _ ih =>
    rw [show count + 1 + 1 + other = count + 1 + other + 1 by omega]
    exact .resumed hnext hopen' hresumes' (ih hopen hresumes)

/-- The path depends on the first candidate only. -/
theorem congr (hlands : schedule.LandsOn zone closing count cursor hit)
    (hsame : ∀ {candidate : Instant},
      (Frame.ofSchedule schedule zone).nextOf schedule.recurrence cursor = some candidate →
        (Frame.ofSchedule schedule zone).nextOf schedule.recurrence start = some candidate) :
    schedule.LandsOn zone closing count start hit := by
  cases hlands with
  | first hnext => exact .first (hsame hnext)
  | resumed hnext hopen hresumes hrest => exact .resumed (hsame hnext) hopen hresumes hrest

end LandsOn

end Schedule

end Cadence
