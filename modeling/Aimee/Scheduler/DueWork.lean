-- SUMMARY: The survey against the sweeps of the store: work that a sweep would do is flagged, or waited for.
import Aimee.Scheduler.Survey
import Aimee.Workflow.TreeStops

/-!
# Due work

The survey decides from a listing what the sweeps of `lifecycle_engine.go` decide from the rows. The clock of the
store and the stamps and windows of the sweeps are in nanoseconds here.
-/

namespace Scheduler

open Workflow (Store WorkItem endedStates)

/-! ## Sweeps -/

/-- The nanoseconds of the whole seconds that a sweep is given: `int(d.Seconds())`. -/
def wholeSeconds (d : Duration) : ℤ := d.toInt.tdiv second.toInt * second.toInt

inductive Sweep where
  | resumeTransient (pause : TransientPause)
  | resumeWallCaps
  | abandonExhaustedWallCaps
  | reconcileOrphans
  | resumeReadyParents

namespace Sweep

/-- The sweep with the arguments of a pass, at a time of the store's clock. -/
def run (policy : RunPolicy) (t : Workflow.Time) (s : Store) : Sweep → Store
  | .resumeTransient pause => (Workflow.wfeResumeTransient t pause.reason (wholeSeconds pause.backoff) s).1
  | .resumeWallCaps => (Workflow.wfeResumeWallCaps t policy.maxResumes s).1
  | .abandonExhaustedWallCaps =>
    (Workflow.wfeAbandonExhaustedWallCaps t policy.maxResumes (wholeSeconds policy.staleAbandon) s).1
  | .reconcileOrphans => (Workflow.wfeReconcileOrphans t listCeiling s).1
  | .resumeReadyParents => (Workflow.wfeResumeReadyParents t s).1

/-- A pass makes the sweep at all, for its reason or under its policy. -/
def Enabled (policy : RunPolicy) : Sweep → Prop
  | .resumeTransient pause => pause ∈ schedulerTransientPauses
  | .resumeWallCaps => policy.autoResumeWall = true
  | .abandonExhaustedWallCaps => 0 < policy.staleAbandon
  | .reconcileOrphans => True
  | .resumeReadyParents => True

/-- The sweep is flagged as due. -/
def Flagged (work : PendingWork) : Sweep → Prop
  | .resumeTransient pause => pause.reason ∈ work.transientDue
  | .resumeWallCaps => work.wallResumable = true
  | .abandonExhaustedWallCaps => work.wallAbandon = true
  | .reconcileOrphans => work.orphans = true
  | .resumeReadyParents => work.fanInParents = true

instance (work : PendingWork) : (sweep : Sweep) → Decidable (sweep.Flagged work)
  | .resumeTransient pause => inferInstanceAs (Decidable (pause.reason ∈ work.transientDue))
  | .resumeWallCaps => inferInstanceAs (Decidable (work.wallResumable = true))
  | .abandonExhaustedWallCaps => inferInstanceAs (Decidable (work.wallAbandon = true))
  | .reconcileOrphans => inferInstanceAs (Decidable (work.orphans = true))
  | .resumeReadyParents => inferInstanceAs (Decidable (work.fanInParents = true))

/-- How much longer than a second a survey may wait: the fraction of a second that a grace has, which the sweep is not
    given. -/
def slack (policy : RunPolicy) : Sweep → ℤ
  | .abandonExhaustedWallCaps => policy.staleAbandon.toInt - wholeSeconds policy.staleAbandon
  | _ => 0

end Sweep

/-- An item shows a row. A stamp is no later than the time it was made from. -/
structure Shows (storeTime : String → Option Instant) (item : Item) (w : WorkItem) : Prop where
  id : item.id = w.workItemId
  state : item.state = w.state
  parentId : item.parentId = w.parentId
  pauseReason : item.pauseReason = w.pauseReason
  overrideCount : item.overrideCount = w.overrideCount
  updatedAt : ∃ stamp, storeTime item.updatedAt = some stamp ∧ stamp ≤ w.updatedAt

/-- A complete listing of the rows of a store. -/
structure Lists (storeTime : String → Option Instant) (items : List Item) (s : Store) : Prop where
  all : ∀ w ∈ s.items.rows, ∃ item ∈ items, Shows storeTime item w
  only : ∀ item ∈ items, ∃ w ∈ s.items.rows, Shows storeTime item w

/-! ## What a survey keeps -/

/-- What is flagged stays flagged, and a wake-up is only moved to an earlier time. -/
structure Sooner (p q : PendingWork) : Prop where
  transientDue : p.transientDue ⊆ q.transientDue
  wallResumable : p.wallResumable = true → q.wallResumable = true
  wallAbandon : p.wallAbandon = true → q.wallAbandon = true
  fanInParents : p.fanInParents = true → q.fanInParents = true
  orphans : p.orphans = true → q.orphans = true
  next : p.next ≠ 0 → q.next ≠ 0 ∧ q.next ≤ p.next

namespace Sooner

variable {p q r : PendingWork}

theorem refl (p : PendingWork) : Sooner p p := ⟨List.Subset.refl _, id, id, id, id, fun h => ⟨h, le_rfl⟩⟩

theorem trans (h : Sooner p q) (h' : Sooner q r) : Sooner p r where
  transientDue := List.Subset.trans h.transientDue h'.transientDue
  wallResumable hp := h'.wallResumable (h.wallResumable hp)
  wallAbandon hp := h'.wallAbandon (h.wallAbandon hp)
  fanInParents hp := h'.fanInParents (h.fanInParents hp)
  orphans hp := h'.orphans (h.orphans hp)
  next hp := ⟨(h'.next (h.next hp).1).1, (h'.next (h.next hp).1).2.trans (h.next hp).2⟩

theorem flagged (h : Sooner p q) {sweep : Sweep} (hp : sweep.Flagged p) : sweep.Flagged q := by
  cases sweep with
  | resumeTransient pause => exact h.transientDue hp
  | resumeWallCaps => exact h.wallResumable hp
  | abandonExhaustedWallCaps => exact h.wallAbandon hp
  | reconcileOrphans => exact h.orphans hp
  | resumeReadyParents => exact h.fanInParents hp

end Sooner

/-- A wake-up is set by a time, or there was an earlier one. -/
theorem next_dueAt (work : PendingWork) {due : Instant} (hdue : due ≠ 0) :
    (work.dueAt due).next ≠ 0 ∧ (work.dueAt due).next ≤ due := by
  unfold PendingWork.dueAt
  split
  case isTrue => exact ⟨hdue, le_rfl⟩
  case isFalse h => exact ⟨fun hzero => h (.inl hzero), not_lt.mp fun hlt => h (.inr hlt)⟩

theorem sooner_dueAt (work : PendingWork) {due : Instant} (hdue : due ≠ 0) : Sooner work (work.dueAt due) := by
  unfold PendingWork.dueAt
  split
  case isTrue h =>
    refine ⟨List.Subset.refl _, id, id, id, id, fun hnext => ⟨hdue, ?_⟩⟩
    exact le_of_lt (h.resolve_left hnext)
  case isFalse => exact .refl work

section

variable {storeTime : String → Option Instant} {policy : RunPolicy} {pauses : List TransientPause} {now : ℕ}
  {active : List String}
  {items : List Item} {item : Item} {work : PendingWork}

/-- A time that is still to come is not the zero time. -/
theorem ne_zero_of_not_le {due : Instant} (h : ¬due ≤ (now : Instant)) : due ≠ 0 := by
  have hpos : (0 : Instant) ≤ now := Int.natCast_nonneg now
  exact ne_of_gt (lt_of_le_of_lt hpos (not_le.mp h))

theorem sooner_surveyWallCap (item : Item) (work : PendingWork) :
    Sooner work (surveyWallCap storeTime policy now item work) := by
  unfold surveyWallCap
  split
  · exact ⟨List.Subset.refl _, fun _ => rfl, id, id, id, fun h => ⟨h, le_rfl⟩⟩
  · split
    · exact .refl work
    · split
      · dsimp only
        split
        · exact ⟨List.Subset.refl _, id, fun _ => rfl, id, id, fun h => ⟨h, le_rfl⟩⟩
        · next hdue => exact sooner_dueAt work (ne_zero_of_not_le hdue)
      · exact .refl work

theorem sooner_surveyTransient (item : Item) (work : PendingWork) :
    Sooner work (surveyTransient storeTime pauses now item work) := by
  unfold surveyTransient
  split
  · exact .refl work
  · dsimp only
    split
    · exact ⟨List.subset_cons_self _ _, id, id, id, id, fun h => ⟨h, le_rfl⟩⟩
    · next hdue => exact sooner_dueAt work (ne_zero_of_not_le hdue)

theorem sooner_orphans (work : PendingWork) (p : Prop) [Decidable p] :
    Sooner work (if p then { work with orphans := true } else work) := by
  split
  · exact ⟨List.Subset.refl _, id, id, id, fun _ => rfl, fun h => ⟨h, le_rfl⟩⟩
  · exact .refl work

theorem sooner_surveyItem (work : PendingWork) (item : Item) :
    Sooner work (surveyItem storeTime pauses policy now active work item) := by
  unfold surveyItem
  split
  · exact ⟨List.Subset.refl _, id, id, id, id, fun h => ⟨h, le_rfl⟩⟩
  · split
    · exact .refl work
    · have horphans := sooner_orphans work (item.parentId ≠ "" ∧ item.parentId ∉ active)
      dsimp only
      split
      · exact horphans
      · split
        · exact horphans.trans ⟨List.Subset.refl _, id, id, fun _ => rfl, id, fun h => ⟨h, le_rfl⟩⟩
        · split
          · exact horphans.trans (sooner_surveyWallCap item _)
          · exact horphans.trans (sooner_surveyTransient item _)

theorem sooner_survey (hitem : item ∈ items) :
    ∃ work, Sooner (surveyItem storeTime pauses policy now (activeIds items) work item)
      (survey storeTime pauses policy now items) := by
  have hfold : ∀ (rest : List Item) (work : PendingWork),
      Sooner work (rest.foldl (surveyItem storeTime pauses policy now (activeIds items)) work) := by
    intro rest
    induction rest with
    | nil => exact fun work => .refl work
    | cons item rest ih => exact fun work => (sooner_surveyItem work item).trans (ih _)
  obtain ⟨pre, post, hsplit⟩ := List.append_of_mem hitem
  refine ⟨pre.foldl (surveyItem storeTime pauses policy now (activeIds items)) {}, ?_⟩
  have hsurvey : survey storeTime pauses policy now items =
      post.foldl (surveyItem storeTime pauses policy now (activeIds items))
        (surveyItem storeTime pauses policy now (activeIds items)
          (pre.foldl (surveyItem storeTime pauses policy now (activeIds items)) {}) item) := by
    rw [survey, ← List.foldl_cons, ← List.foldl_append, ← hsplit]
  rw [hsurvey]
  exact hfold post _

/-! ## What a sweep would do -/

/-- The survey flags the sweep, or it wakes up in time for it. -/
def Covers (policy : RunPolicy) (t : Instant) (work : PendingWork) (sweep : Sweep) : Prop :=
  sweep.Flagged work ∨ work.next ≠ 0 ∧ work.next ≤ t + second.toInt + sweep.slack policy

theorem Covers.mono {t : Instant} {sweep : Sweep} {work' : PendingWork} (h : Covers policy t work sweep)
    (hsooner : Sooner work work') :
    Covers policy t work' sweep := by
  rcases h with h | ⟨hne, hle⟩
  · exact .inl (hsooner.flagged h)
  · exact .inr ⟨(hsooner.next hne).1, (hsooner.next hne).2.trans hle⟩

/-- A positive duration and a second, where the sum may wrap around. -/
theorem toInt_add_second_le {d : Duration} (hd : 0 < d) : (d + second).toInt ≤ d.toInt + second.toInt := by
  have hpos : 0 < d.toInt := Int64.lt_iff_toInt_lt.mp hd
  have hsecond : second.toInt = 1000000000 := rfl
  rw [Int64.toInt_add, Int.bmod_def]
  split <;> omega

theorem exists_hit {s : Store} {p : WorkItem → Bool} {f : WorkItem → WorkItem}
    {hf : ∀ w, (f w).workItemId = w.workItemId}
    (h : (s.updateItems p f hf).items ≠ s.items) : ∃ w ∈ s.items.rows, p w = true := by
  by_contra hnone
  refine h (Table.ext ?_)
  have hmap : ∀ w ∈ s.items.rows, (if p w then f w else w) = w := fun w hw => if_neg fun hp => hnone ⟨w, hw, hp⟩
  exact (List.map_congr_left hmap).trans (List.map_id _)

/-- An active item is looked at by its pause, after the check for an orphan. -/
theorem surveyItem_active (hactive : item.state = "active") :
    ∃ work', Sooner work work' ∧ (item.parentId ≠ "" → item.parentId ∉ active → work'.orphans = true) ∧
      surveyItem storeTime pauses policy now active work item =
        if item.pauseReason = "" then work'
        else if item.pauseReason = "slices_running" then { work' with fanInParents := true }
        else if item.pauseReason = "wall_cap" then surveyWallCap storeTime policy now item work'
        else surveyTransient storeTime pauses now item work' := by
  refine ⟨_, sooner_orphans work (item.parentId ≠ "" ∧ item.parentId ∉ active), fun hparent horphan => ?_, ?_⟩
  · rw [if_pos ⟨hparent, horphan⟩]
  · have hended : item.state ∉ endedStates := by
      rw [hactive]
      decide
    rw [surveyItem, if_neg hended, if_neg (not_not.mpr hactive)]

/-- What a survey relies on in the table of the pauses. -/
theorem pause_spec : ∀ pause ∈ schedulerTransientPauses, pause.reason ∉ ["", "slices_running", "wall_cap"] ∧
    schedulerTransientPauses.reverse.find? (·.reason = pause.reason) = some pause ∧ 0 < pause.backoff ∧
    wholeSeconds pause.backoff = pause.backoff.toInt := by
  decide

/-- A paused run whose backoff is over at `t`. -/
theorem covers_resumeTransient {pause : TransientPause} (hpause : pause ∈ schedulerTransientPauses) {t stamp : ℤ}
    (hactive : item.state = "active") (hreason : item.pauseReason = pause.reason)
    (hstamp : storeTime item.updatedAt = some stamp) (hover : stamp ≤ t - wholeSeconds pause.backoff) :
    Covers policy t (surveyItem storeTime schedulerTransientPauses policy now active work item)
      (.resumeTransient pause) := by
  obtain ⟨hkinds, hfind, hpos, hwhole⟩ := pause_spec pause hpause
  simp only [List.mem_cons, List.not_mem_nil, or_false, not_or] at hkinds
  obtain ⟨work', -, -, hsurvey⟩ := surveyItem_active hactive
  rw [hsurvey, hreason, if_neg hkinds.1, if_neg hkinds.2.1, if_neg hkinds.2.2, surveyTransient, hreason, hfind]
  dsimp only
  split
  case isTrue => exact .inl List.mem_cons_self
  case isFalse hdue =>
    obtain ⟨hne, hle⟩ := next_dueAt work' (ne_zero_of_not_le hdue)
    refine .inr ⟨hne, hle.trans ?_⟩
    have hwait := toInt_add_second_le hpos
    have hslack : (Sweep.resumeTransient pause).slack policy = 0 := rfl
    rw [backoffOver, hstamp, hslack, add_zero]
    change stamp + (pause.backoff + second).toInt ≤ t + second.toInt
    omega

theorem covers_resumeWallCaps {t : Instant} (henabled : policy.autoResumeWall = true) (hactive : item.state = "active")
    (hreason : item.pauseReason = "wall_cap") (hcount : item.overrideCount < policy.maxResumes) :
    Covers policy t (surveyItem storeTime pauses policy now active work item) .resumeWallCaps := by
  obtain ⟨work', -, -, hsurvey⟩ := surveyItem_active hactive
  rw [hsurvey, hreason, if_neg (by decide), if_neg (by decide), if_pos rfl, surveyWallCap, if_pos ⟨henabled, hcount⟩]
  exact .inl rfl

/-- A wall cap without one, whose grace is over at `t`. -/
theorem covers_abandon {t stamp : ℤ} (henabled : 0 < policy.staleAbandon) (hactive : item.state = "active")
    (hreason : item.pauseReason = "wall_cap") (hcount : policy.maxResumes ≤ item.overrideCount)
    (hstamp : storeTime item.updatedAt = some stamp) (hover : stamp < t - wholeSeconds policy.staleAbandon) :
    Covers policy t (surveyItem storeTime pauses policy now active work item) .abandonExhaustedWallCaps := by
  obtain ⟨work', -, -, hsurvey⟩ := surveyItem_active hactive
  rw [hsurvey, hreason, if_neg (by decide), if_neg (by decide), if_pos rfl, surveyWallCap, if_neg fun h =>
    absurd h.2 (not_lt.mpr hcount), hstamp]
  dsimp only
  rw [if_pos henabled]
  split
  case isTrue => exact .inl rfl
  case isFalse hdue =>
    obtain ⟨hne, hle⟩ := next_dueAt work' (ne_zero_of_not_le hdue)
    refine .inr ⟨hne, hle.trans ?_⟩
    have hwait := toInt_add_second_le henabled
    change stamp + (policy.staleAbandon + second).toInt ≤
      t + second.toInt + (policy.staleAbandon.toInt - wholeSeconds policy.staleAbandon)
    omega

theorem covers_resumeReadyParents {t : Instant} (hactive : item.state = "active")
    (hreason : item.pauseReason = "slices_running") :
    Covers policy t (surveyItem storeTime pauses policy now active work item) .resumeReadyParents := by
  obtain ⟨work', -, -, hsurvey⟩ := surveyItem_active hactive
  rw [hsurvey, hreason, if_pos rfl]
  exact .inl rfl

/-- The check for an orphan comes before the pause is looked at. -/
theorem covers_reconcileOrphans {t : Instant} (hactive : item.state = "active") (hparent : item.parentId ≠ "")
    (horphan : item.parentId ∉ active) :
    Covers policy t (surveyItem storeTime pauses policy now active work item) .reconcileOrphans := by
  obtain ⟨work', -, hflag, hsurvey⟩ := surveyItem_active hactive
  rw [hsurvey]
  have hflagged : work'.orphans = true := hflag hparent horphan
  left
  split
  · exact hflagged
  · split
    · exact hflagged
    · split
      · exact (sooner_surveyWallCap item work').orphans hflagged
      · exact (sooner_surveyTransient item work').orphans hflagged

/-! ## Survey and sweeps -/

/-- An orphan has an orphan above it, or is one, whose parent has ended. -/
theorem exists_seed {s : Store} {w : WorkItem} (h : s.Orphaned w) :
    ∃ v ∈ s.items.rows, v.state = "active" ∧ ∃ p ∈ s.items.rows, p.workItemId = v.parentId ∧ p.state ∈ endedStates := by
  induction h with
  | @seed w p hw hactive hp hparent hended => exact ⟨w, hw, hactive, p, hp, hparent, hended⟩
  | under _ _ _ _ ih => exact ih

/-- A reconciliation that changes a row found an orphan. -/
theorem exists_orphan {s : Store} {t : Workflow.Time} (h : (Sweep.reconcileOrphans.run policy t s).items ≠ s.items) :
    ∃ w, s.Orphaned w := by
  have hne : s.activeIn s.orphans ≠ [] := by
    intro hnil
    refine h ?_
    simp only [Sweep.run, Workflow.wfeReconcileOrphans]
    split
    · rfl
    · rw [Workflow.endActiveSet, if_pos hnil]
  obtain ⟨id, hid⟩ := List.exists_mem_of_ne_nil _ hne
  obtain ⟨_, _, hmem, -, -⟩ := Workflow.mem_activeIn.mp hid
  obtain ⟨w, hw, -⟩ := Store.mem_orphans.mp hmem
  exact ⟨w, hw⟩

/-- A survey does not sleep through what a sweep would do: it flags the sweep, or it wakes up within a second of it. -/
theorem survey_covers {s : Store} (hids : ∀ w ∈ s.items.rows, w.workItemId ≠ "") (hlists : Lists storeTime items s)
    {sweep : Sweep} (henabled : sweep.Enabled policy) {t : Workflow.Time}
    (hchanges : (sweep.run policy t s).items ≠ s.items) :
    Covers policy t (survey storeTime schedulerTransientPauses policy now items) sweep := by
  -- It is enough that the survey covers the sweep at one item.
  have hcovers : ∀ w ∈ s.items.rows,
      (∀ item work, item ∈ items → Shows storeTime item w →
        Covers policy t (surveyItem storeTime schedulerTransientPauses policy now (activeIds items) work item) sweep) →
      Covers policy t (survey storeTime schedulerTransientPauses policy now items) sweep := by
    intro w hw hitem
    obtain ⟨item, hmem, hshows⟩ := hlists.all w hw
    have hkept : ∃ work, Sooner (surveyItem storeTime schedulerTransientPauses policy now (activeIds items) work item)
        (survey storeTime schedulerTransientPauses policy now items) := sooner_survey hmem
    obtain ⟨work, hsooner⟩ := hkept
    exact (hitem item work hmem hshows).mono hsooner
  cases sweep with
  | resumeTransient pause =>
    have hhit : ∃ w ∈ s.items.rows, w.state = "active" ∧ w.pauseReason = pause.reason ∧
      w.updatedAt ≤ t - wholeSeconds pause.backoff := by
      simp only [Sweep.run, Workflow.wfeResumeTransient] at hchanges
      split at hchanges
      · exact absurd rfl hchanges
      · obtain ⟨w, hw, hp⟩ := exists_hit hchanges
        simp only [Bool.and_eq_true, decide_eq_true_eq] at hp
        exact ⟨w, hw, hp.1.1, hp.1.2, hp.2⟩
    obtain ⟨w, hw, hactive, hreason, hover⟩ := hhit
    refine hcovers w hw fun item work _ hshows => ?_
    obtain ⟨stamp, hstamp, hle⟩ := hshows.updatedAt
    exact covers_resumeTransient henabled (hshows.state.trans hactive) (hshows.pauseReason.trans hreason)
      hstamp (hle.trans hover)
  | resumeWallCaps =>
    simp only [Sweep.run, Workflow.wfeResumeWallCaps] at hchanges
    split at hchanges
    · exact absurd rfl hchanges
    · obtain ⟨w, hw, hp⟩ := exists_hit hchanges
      simp only [Bool.and_eq_true, decide_eq_true_eq] at hp
      refine hcovers w hw fun item work _ hshows => ?_
      exact covers_resumeWallCaps henabled (hshows.state.trans hp.1.1) (hshows.pauseReason.trans hp.1.2)
        (hshows.overrideCount ▸ hp.2)
  | abandonExhaustedWallCaps =>
    simp only [Sweep.run, Workflow.wfeAbandonExhaustedWallCaps] at hchanges
    split at hchanges
    · exact absurd rfl hchanges
    · obtain ⟨w, hw, hp⟩ := exists_hit hchanges
      simp only [Bool.and_eq_true, decide_eq_true_eq] at hp
      refine hcovers w hw fun item work _ hshows => ?_
      obtain ⟨stamp, hstamp, hle⟩ := hshows.updatedAt
      exact covers_abandon henabled (hshows.state.trans hp.1.1.1) (hshows.pauseReason.trans hp.1.1.2)
        (hshows.overrideCount ▸ hp.1.2)
        hstamp (lt_of_le_of_lt hle hp.2)
  | reconcileOrphans =>
    obtain ⟨_, horphan⟩ := exists_orphan hchanges
    obtain ⟨w, hw, hactive, p, hp, hparent, hended⟩ := exists_seed horphan
    refine hcovers w hw fun item work _ hshows => ?_
    refine covers_reconcileOrphans (hshows.state.trans hactive) ?_ fun hmem => ?_
    · rw [hshows.parentId, ← hparent]
      exact hids p hp
    · -- The parent is listed once, and it is not active.
      obtain ⟨other, hother, hid⟩ := List.mem_map.mp hmem
      obtain ⟨hlisted, hotherActive⟩ := List.mem_filter.mp hother
      obtain ⟨v, hv, hshown⟩ := hlists.only other hlisted
      have hsame : v = p := s.items.eq_of_key hv hp (by rw [← hshown.id, hid, hshows.parentId, hparent])
      have hstate : p.state = "active" := by rw [← hsame, ← hshown.state, of_decide_eq_true hotherActive]
      rw [hstate] at hended
      exact absurd hended (by decide)
  | resumeReadyParents =>
    simp only [Sweep.run, Workflow.wfeResumeReadyParents] at hchanges
    obtain ⟨w, hw, hp⟩ := exists_hit hchanges
    simp only [Bool.and_eq_true, decide_eq_true_eq] at hp
    refine hcovers w hw fun item work _ hshows => ?_
    exact covers_resumeReadyParents (hshows.state.trans hp.1.1.1) (hshows.pauseReason.trans hp.1.1.2)

/-- A store with one run at a wall cap, and its listing. -/
def wallCapStore (overrideCount : ℕ) : Store :=
  { Store.empty with
    items :=
      { rows := [{ WorkItem.new 0 "a" "" "a.md" "build" "1" "plan" "" with
          pauseReason := "wall_cap", overrideCount := overrideCount }]
        nodup := List.nodup_singleton _ } }

def wallCapItem (overrideCount : ℕ) : Item := ⟨"a", "active", "", "wall_cap", overrideCount, "0001-01-01 00:00:00"⟩

theorem lists_wallCap (overrideCount : ℕ) :
    Lists (fun _ => some 0) [wallCapItem overrideCount] (wallCapStore overrideCount) := by
  have hshows : Shows (fun _ => some 0) (wallCapItem overrideCount)
      { WorkItem.new 0 "a" "" "a.md" "build" "1" "plan" "" with
        pauseReason := "wall_cap", overrideCount := overrideCount } :=
    ⟨rfl, rfl, rfl, rfl, rfl, 0, rfl, le_rfl⟩
  constructor
  · intro w hw
    exact ⟨_, List.mem_singleton_self _, List.mem_singleton.mp hw ▸ hshows⟩
  · intro item hitem
    exact ⟨_, List.mem_singleton_self _, List.mem_singleton.mp hitem ▸ hshows⟩

/-- A wall cap that is resumed at once, and one that is abandoned after two seconds, for which the survey
    wakes up. -/
theorem survey_covers_wallCap :
    Covers { autoResumeWall := true, maxResumes := 1 } 5 (survey (fun _ => some 0) schedulerTransientPauses
      { autoResumeWall := true, maxResumes := 1 } (5 : ℕ) [wallCapItem 0]) .resumeWallCaps ∧
    Covers { staleAbandon := 2000000000 } 3000000000 (survey (fun _ => some 0) schedulerTransientPauses
      { staleAbandon := 2000000000 } (0 : ℕ) [wallCapItem 0]) .abandonExhaustedWallCaps ∧
    ¬Sweep.abandonExhaustedWallCaps.Flagged (survey (fun _ => some 0) schedulerTransientPauses
      { staleAbandon := 2000000000 } (0 : ℕ) [wallCapItem 0]) := by
  have hids : ∀ w ∈ (wallCapStore 0).items.rows, w.workItemId ≠ "" := by
    intro w hw
    rw [List.mem_singleton.mp hw]
    decide
  have henabled : Sweep.resumeWallCaps.Enabled { autoResumeWall := true, maxResumes := 1 } := rfl
  have habandon : Sweep.abandonExhaustedWallCaps.Enabled { staleAbandon := 2000000000 } := by
    unfold Sweep.Enabled
    decide
  refine ⟨survey_covers hids (lists_wallCap 0) henabled fun hsame => ?_,
    survey_covers hids (lists_wallCap 0) habandon fun hsame => ?_, by decide⟩
  · exact absurd (congrArg (fun items => items.rows.map (·.pauseReason)) hsame) (by decide)
  · exact absurd (congrArg (fun items => items.rows.map (·.pauseReason)) hsame) (by decide)

/-- A sweep would change a row, but it is not flagged, and the survey does not wake up within a second. -/
def SleepsThrough (policy : RunPolicy) (now : ℕ) (items : List Item) (s : Store) (sweep : Sweep) (t : ℤ) : Prop :=
  (sweep.run policy t s).items ≠ s.items ∧
    ¬sweep.Flagged (survey (fun _ => some 0) schedulerTransientPauses policy now items) ∧
    ¬((survey (fun _ => some 0) schedulerTransientPauses policy now items).next ≠ 0 ∧
      (survey (fun _ => some 0) schedulerTransientPauses policy now items).next ≤ t + second.toInt)

/-- A wall cap under a policy that does not resume, and one whose grace has half a second that the sweep is not
    given. -/
theorem survey_sleeps_through :
    SleepsThrough { maxResumes := 1 } 0 [wallCapItem 0] (wallCapStore 0) .resumeWallCaps 0 ∧
      SleepsThrough { staleAbandon := 1500000000 } 0 [wallCapItem 0] (wallCapStore 0) .abandonExhaustedWallCaps
        1000000001 := by
  refine ⟨⟨fun hsame => ?_, by decide, by decide⟩, ⟨fun hsame => ?_, by decide, by decide⟩⟩
  · exact absurd (congrArg (fun items => items.rows.map (·.pauseReason)) hsame) (by decide)
  · exact absurd (congrArg (fun items => items.rows.map (·.pauseReason)) hsame) (by decide)

end

end Scheduler
