-- SUMMARY: What each operation of the lifecycle family does to the event log, and the counts since progress that are read off it.
import Aimee.Workflow.FrozenCreates

/-!
# The event log under operations

An operation appends events or erases all events of some work items. `Op.pauses` lists the pause
events it may append; everything else in the log is no pause. The counts since progress are
bounded along any sequence of operations by the pauses these append.
-/

namespace Workflow

/-! ## Pause events -/

/-- The detail of the event that parks a review round. -/
def ReviewRound.parkDetail (r : ReviewRound) (s : Store) : String :=
  let unresolved := (convergenceFields r.payload).1
  if unresolved = "" then r.pauseReason s
  else r.pauseReason s ++ " after " ++ toString (r.attempts s) ++ " rounds; still unresolved: " ++ unresolved

/-- The pause events an operation writes unless it is refused: work item, stage and detail. -/
def Op.pauses (s : Store) : Op → List (String × String × String)
  | .lifecycleEventAdd id stage kind _ detail _ _ => if kind = "pause" then [(id, stage, detail)] else []
  | .workItemRecordOutcome id disposition _ nodeId kind detail _ =>
    (if kind = "pause" then [(id, nodeId, detail)] else []) ++
      match disposition with
      | .advance nextStage _ parkReason => if parkReason = "" then [] else [(id, nextStage, parkReason)]
      | _ => []
  | .wfeMove id fromStage _ kind detail _ _ => if kind = "pause" then [(id, fromStage, detail)] else []
  | .wfeRecordRetry id stage _ detail maxAttempts _ =>
    if maxAttempts ≤ s.attemptsOf id stage + 1 then [(id, stage, detail)] else []
  | .wfeParkWithDetail id stage _ detail _ => [(id, stage, detail)]
  | .wfeParkRunnerFailure id stage _ _ detail _ _ _ => [(id, stage, detail)]
  | .wfeRecoverLostReplay id stage _ =>
    if (s.item? id).any (·.reservation.state = .actual) then
      [(id, stage, "replay_unrecoverable: reconciled result lost, parked for human")]
    else []
  | .wfeRecordRequestedChanges r _ _ =>
    if r.pauseReason s = "" then [] else [(r.workItemId, r.gate, r.parkDetail s)]
  | _ => []

/-- What an operation may append. -/
def Op.Logged (op : Op) (s : Store) (e : Event) : Prop :=
  e.kind = "pause" → (e.workItemId, e.stage, e.detail) ∈ op.pauses s

/-! ## Changes of the log -/

/-- A chain of changes of the log: events appended that satisfy a predicate, and all events of some
    work items erased that satisfy another. -/
inductive LogStep (P : Event → Prop) (E : String → Prop) (s : Store) : Store → Prop where
  | keep {t : Store} (hevents : t.events = s.events) (hid : t.nextEventId = s.nextEventId) : LogStep P E s t
  | append {t u : Store} (h : LogStep P E s t) (e : Event) (hP : P e) (heid : e.id = t.nextEventId)
      (hevents : u.events = t.events ++ [e]) (hid : u.nextEventId = t.nextEventId + 1) : LogStep P E s u
  | erase {t u : Store} (h : LogStep P E s t) (p : String → Bool) (hE : ∀ id, p id = false → E id)
      (hevents : u.events = t.events.filter fun e => p e.workItemId)
      (hid : u.nextEventId = t.nextEventId) : LogStep P E s u

namespace LogStep

variable {P : Event → Prop} {E : String → Prop} {s t u : Store}

theorem refl (s : Store) : LogStep P E s s := .keep rfl rfl

theorem of_same (h : LogStep P E s t) (hevents : u.events = t.events)
    (hid : u.nextEventId = t.nextEventId) : LogStep P E s u := by
  refine .erase h (fun _ => true) nofun ?_ hid
  rw [hevents]
  simp

theorem addEvent (h : LogStep P E s t) {id stage kind actor detail hash : String} {cost : ℚ}
    (hP : P ⟨t.nextEventId, id, stage, kind, actor, detail, hash, cost⟩) :
    LogStep P E s (t.addEvent id stage kind actor detail hash cost) :=
  .append h _ hP rfl rfl rfl

theorem updateItems (h : LogStep P E s t) {p : WorkItem → Bool} {f : WorkItem → WorkItem}
    {hf : ∀ w, (f w).workItemId = w.workItemId} : LogStep P E s (t.updateItems p f hf) :=
  h.of_same rfl rfl

/-- A call that is refused changes nothing. -/
theorem guard {ρ : Type} {r : ρ} {x : Store × ρ} {c : Prop} [Decidable c] (h : ¬c → LogStep P E s x.1) :
    LogStep P E s (if c then (s, r) else x).1 := by
  split
  · exact .refl s
  · exact h ‹_›

/-- One event after updates of other tables. -/
theorem event {id stage kind actor detail hash : String} {cost : ℚ} (hevents : t.events = s.events)
    (hid : t.nextEventId = s.nextEventId)
    (hP : P ⟨t.nextEventId, id, stage, kind, actor, detail, hash, cost⟩) :
    LogStep P E s (t.addEvent id stage kind actor detail hash cost) :=
  .addEvent (.keep hevents hid) hP

end LogStep

/-! ## The operations, one by one -/

section Ops

variable {P : Event → Prop} {E : String → Prop} (s : Store)

theorem logStep_setField (id : String) (f : WorkItem → WorkItem)
    (hf : ∀ w, (f w).workItemId = w.workItemId) : LogStep P E s (setField id f hf s).1 := by
  unfold setField
  split <;> exact .keep rfl rfl

theorem logStep_setFieldChecked (id : String) (f : WorkItem → WorkItem)
    (hf : ∀ w, (f w).workItemId = w.workItemId) : LogStep P E s (setFieldChecked id f hf s).1 := by
  unfold setFieldChecked
  split
  · exact .refl s
  · split <;> exact .keep rfl rfl

theorem logStep_of_insertItem {s t : Store} {w : WorkItem} (h : s.insertItem w = some t) :
    LogStep P E s t := by
  rw [(Store.items_of_insertItem h).2.2.2]
  exact .keep rfl rfl

theorem logStep_reserveExisting (now : Time) (id owner : String) (root : WorkItem) (held : Reservation) :
    LogStep P E s (reserveExisting now id owner root held s).1 := by
  unfold reserveExisting
  dsimp only
  split_ifs <;> exact .keep rfl rfl

variable (hP : ∀ e : Event, e.kind ≠ "pause" → P e)
include hP

theorem logStep_addTerminalEvents (ids : List String) (detail : String) :
    LogStep P E s (s.addTerminalEvents ids detail) := by
  unfold Store.addTerminalEvents
  generalize s.items.rows.filter _ = rows
  have hfold : ∀ t, LogStep P E s t → LogStep P E s (rows.foldl (fun t w =>
      t.addEvent w.workItemId w.currentStage "terminal" "go-wfe" detail w.contentHash 0) t) := by
    induction rows with
    | nil => exact fun t h => h
    | cons w rows ih => exact fun t h => ih _ (h.addEvent (hP _ (by simp)))
  exact hfold s (.refl s)

theorem logStep_endActiveSet (now : Time) (ids : List String) (detail : String) :
    LogStep P E s (endActiveSet now ids detail s).1 := by
  unfold endActiveSet
  dsimp only
  split
  · exact .refl s
  · exact (logStep_addTerminalEvents s hP (s.activeIn ids) detail).of_same rfl rfl

theorem logStep_workItemSubmitCapped (now : Time) (id repo path name version stage submitter : String)
    (maxActive rateMax rateSecs : ℤ) :
    LogStep P E s
      (workItemSubmitCapped now id repo path name version stage submitter maxActive rateMax rateSecs s).1 := by
  refine .guard fun _ => .guard fun _ => .guard fun _ => ?_
  dsimp only
  split
  · exact .refl s
  · next h =>
    refine .addEvent (.addEvent (logStep_of_insertItem h) ?_) ?_
    · exact hP _ (by simp)
    · exact hP _ (by simp)

theorem logStep_wfeCreateWorkItem (now : Time) (r : CreateRequest) :
    LogStep P E s (wfeCreateWorkItem now r s).1 := by
  rcases wfeCreateWorkItem_cases now s r with h | ⟨t, -, ht, h⟩
  · rw [h]
    exact .refl s
  · rw [h]
    refine .addEvent (logStep_of_insertItem ht) ?_
    exact hP _ (by simp)

end Ops

theorem Op.logged_of_kind {op : Op} {s : Store} {e : Event} (h : e.kind ≠ "pause") : op.Logged s e :=
  fun hpause => absurd hpause h

section Pauses

variable {E : String → Prop} (s : Store)

theorem logStep_wfeMove (now : Time) (id fromStage toStage kind detail hash : String) (cost : ℚ) :
    LogStep (Op.Logged (.wfeMove id fromStage toStage kind detail hash cost) s) E s
      (wfeMove now id fromStage toStage kind detail hash cost s).1 := by
  have hlogged : ∀ e : Event, e.workItemId = id → e.stage = fromStage → e.kind = kind → e.detail = detail →
      Op.Logged (.wfeMove id fromStage toStage kind detail hash cost) s e := by
    intro e hid hstage hkind hdetail hpause
    simp [Op.pauses, hid, hstage, hdetail, ← hkind, hpause]
  refine .guard fun _ => .guard fun _ => ?_
  split
  · exact .of_same (.event rfl rfl (hlogged _ rfl rfl rfl rfl)) rfl rfl
  · exact .event rfl rfl (hlogged _ rfl rfl rfl rfl)

theorem logStep_wfeRecordRetry (now : Time) (id stage toStage detail : String) (maxAttempts : ℤ) (cost : ℚ) :
    LogStep (Op.Logged (.wfeRecordRetry id stage toStage detail maxAttempts cost) s) E s
      (wfeRecordRetry now id stage toStage detail maxAttempts cost s).1 := by
  refine .guard fun _ => .guard fun _ => .event rfl rfl ?_
  intro hpause
  by_cases hparked : maxAttempts ≤ s.attemptsOf id stage + 1
  · simp [Op.pauses, hparked]
  · simp [hparked] at hpause

theorem logStep_wfeRecoverLostReplay (now : Time) (id stage owner : String) :
    LogStep (Op.Logged (.wfeRecoverLostReplay id stage owner) s) E s
      (wfeRecoverLostReplay now id stage owner s).1 := by
  refine .guard fun _ => ?_
  split
  · exact .refl s
  · next w hw =>
    refine .guard fun _ => ?_
    split
    · refine .event rfl rfl ?_
      exact Op.logged_of_kind (by simp)
    · next hstate =>
      refine .event rfl rfl ?_
      intro _
      simp [Op.pauses, hw, hstate]
    · exact .refl s
    · exact .refl s

theorem logStep_wfeRecordRequestedChanges (now : Time) (r : ReviewRound) (planStage : String) (cost : ℚ) :
    LogStep (Op.Logged (.wfeRecordRequestedChanges r planStage cost) s) E s
      (wfeRecordRequestedChanges now r planStage cost s).1 := by
  refine .guard fun _ => ?_
  split
  · exact .refl s
  · dsimp only
    split
    · next hparked =>
      refine .event rfl rfl ?_
      intro _
      simp [Op.pauses, hparked, ReviewRound.parkDetail]
    · refine .event rfl rfl ?_
      exact Op.logged_of_kind (by simp)

theorem logStep_workItemRecordOutcome (now : Time) (id : String) (disposition : Disposition) (cost : ℚ)
    (nodeId kind detail hash : String) :
    LogStep (Op.Logged (.workItemRecordOutcome id disposition cost nodeId kind detail hash) s) E s
      (workItemRecordOutcome now id disposition cost nodeId kind detail hash s).1 := by
  refine .guard fun _ => ?_
  have hlogged : ∀ e : Event, e.workItemId = id → e.stage = nodeId → e.kind = kind → e.detail = detail →
      Op.Logged (.workItemRecordOutcome id disposition cost nodeId kind detail hash) s e := by
    intro e hid hstage hkind hdetail hpause
    simp [Op.pauses, hid, hstage, hdetail, ← hkind, hpause]
  cases disposition with
  | pause reason stage =>
    refine .event ?_ ?_ (hlogged _ rfl rfl rfl rfl)
    · split <;> rfl
    · split <;> rfl
  | terminal state abandon =>
    refine .event ?_ ?_ (hlogged _ rfl rfl rfl rfl)
    · split_ifs <;> rfl
    · split_ifs <;> rfl
  | advance nextStage prRef parkReason =>
    dsimp only
    split
    · refine .event ?_ ?_ (hlogged _ rfl rfl rfl rfl)
      · split_ifs <;> rfl
      · split_ifs <;> rfl
    · next hparked =>
      refine .addEvent (.updateItems (.event ?_ ?_ (hlogged _ rfl rfl rfl rfl))) ?_
      · split_ifs <;> rfl
      · split_ifs <;> rfl
      · intro _
        simp [Op.pauses, hparked]

end Pauses

theorem find?_delete_of_id {items : Table WorkItem WorkItem.workItemId} {p : String → Bool} {id : String}
    (h : p id = true) : (items.delete fun w => p w.workItemId).find? id = none := by
  refine Table.find?_eq_none_iff.mpr fun w hw hid => ?_
  have hkept := (Table.mem_rows_delete.mp hw).2
  rw [hid, h] at hkept
  cases hkept

/-- The log after an operation. It erases the events of work items whose rows are gone. -/
theorem logStep_apply (now : Time) (s : Store) (op : Op) :
    LogStep (op.Logged s) (fun id => (op.apply now s).item? id = none) s (op.apply now s) := by
  have hquiet : ∀ e : Event, e.kind ≠ "pause" → op.Logged s e := fun _ => Op.logged_of_kind
  cases op with
  | workItemSetStage | workItemSetPRRef | workItemSetWorktree | workItemSetTerminal | workItemSetPause
  | workItemClearPause => exact logStep_setField ..
  | workItemSetSubmitter => exact logStep_setFieldChecked ..
  | workItemSetParent => exact .guard fun _ => logStep_setFieldChecked ..
  | workItemAddCost | workItemSetCostCap => exact .guard fun _ => logStep_setField ..
  | workItemCreate =>
    refine .guard fun _ => ?_
    dsimp only
    split
    · exact .refl s
    · next h => exact logStep_of_insertItem h
  | workItemSubmitCapped => exact logStep_workItemSubmitCapped s hquiet now ..
  | wfeCreateWorkItem r => exact logStep_wfeCreateWorkItem s hquiet now r
  | wfeStopTree id => exact .guard fun _ => logStep_endActiveSet s hquiet now (s.tree id) "operator_stop"
  | wfeReconcileOrphans => exact .guard fun _ => logStep_endActiveSet s hquiet now s.orphans "ancestor_terminal"
  | workItemDelete id =>
    refine .guard fun hid => .erase (.refl s) (fun w => w ≠ id) (fun id' hgone => ?_) rfl rfl
    rw [Op.apply, workItemDelete, if_neg hid]
    exact find?_delete_of_id (p := (· = id)) (by simpa using hgone)
  | wfeDeleteTree id =>
    refine .guard fun hid => .erase (.refl s) (fun w => w ∉ s.tree id) (fun id' hgone => ?_) rfl rfl
    rw [Op.apply, wfeDeleteTree, if_neg hid]
    exact find?_delete_of_id (p := (· ∈ s.tree id)) (by simpa using hgone)
  | workItemAbandonChildren | workItemGateApply | workItemClearPauseIf | workItemIncOverride
  | workItemReapStaleParks | stageAttemptInc | stageAttemptReset | wfeResumeTransient | wfeResumeWallCaps
  | wfeAbandonExhaustedWallCaps | wfeResumeReadyParents | wfeBudgetRelease | wfeBudgetHeartbeat
  | wfeParkBudgetTree | wfeBudgetReconcile | wfeClaimFrozenCreates =>
    simp only [Op.apply, workItemAbandonChildren, abandonChildren, workItemGateApply,
      workItemClearPauseIf, workItemIncOverride, workItemReapStaleParks, stageAttemptInc,
      stageAttemptReset, wfeResumeTransient, wfeResumeWallCaps, wfeAbandonExhaustedWallCaps,
      wfeResumeReadyParents, wfeBudgetRelease, wfeBudgetHeartbeat, wfeParkBudgetTree,
      wfeBudgetReconcile, wfeClaimFrozenCreates]
    repeat' split
    all_goals exact .keep rfl rfl
  | wfeBudgetReserve =>
    simp only [Op.apply, wfeBudgetReserve]
    repeat' split
    all_goals first
      | exact .keep rfl rfl
      | exact logStep_reserveExisting ..
  | lifecycleEventAdd id stage kind =>
    refine .guard fun _ => .addEvent (.refl s) ?_
    intro hpause
    simp [Op.pauses, show kind = "pause" from hpause]
  | wfeMove => exact logStep_wfeMove s now ..
  | wfeRecordRetry => exact logStep_wfeRecordRetry s now ..
  | wfeParkWithDetail =>
    refine .guard fun _ => .guard fun _ => .event rfl rfl ?_
    intro _
    simp [Op.pauses]
  | wfeResume =>
    simp only [Op.apply, wfeResume]
    repeat' split
    all_goals first
      | exact .refl s
      | refine .event rfl rfl ?_
        exact Op.logged_of_kind (by simp)
  | wfeFinish =>
    refine .guard fun _ => .guard fun _ => .of_same (.event rfl rfl ?_) rfl rfl
    exact Op.logged_of_kind (by simp)
  | wfeResolveGate | wfeRejectGate =>
    refine .guard fun _ => .guard fun _ => .event rfl rfl ?_
    exact Op.logged_of_kind (by simp)
  | wfeParkRunnerFailure =>
    refine .guard fun _ => .event rfl rfl ?_
    intro _
    simp [Op.pauses]
  | wfeRecoverLostReplay => exact logStep_wfeRecoverLostReplay s now ..
  | wfeRecordRequestedChanges r => exact logStep_wfeRecordRequestedChanges s now r ..
  | workItemRecordOutcome => exact logStep_workItemRecordOutcome s now ..

/-! ## Counts since progress -/

theorem foldl_max_lt {k : ℕ} (l : List ℕ) (b : ℕ) : l.foldl max b < k ↔ b < k ∧ ∀ x ∈ l, x < k := by
  induction l generalizing b with
  | nil => simp
  | cons x l ih => simp [ih, and_assoc]

theorem Store.lastProgress_lt_iff {s : Store} {id : String} {k : ℕ} :
    s.lastProgress id < k ↔
      0 < k ∧ ∀ e ∈ s.events, e.workItemId = id → e.kind ∈ progressKinds → e.id < k := by
  unfold lastProgress
  rw [foldl_max_lt]
  refine and_congr_right fun _ => ?_
  simp only [List.mem_map, List.mem_filter, Bool.and_eq_true, decide_eq_true_eq, forall_exists_index,
    and_imp]
  exact ⟨fun h e he hid hkind => h e.id e he hid hkind rfl, fun h x e he hid hkind hx => hx ▸ h e he hid hkind⟩

theorem Store.le_lastProgress {s : Store} {id : String} {e : Event} (he : e ∈ s.events)
    (hid : e.workItemId = id) (hkind : e.kind ∈ progressKinds) : e.id ≤ s.lastProgress id :=
  Nat.lt_succ_iff.mp ((lastProgress_lt_iff.mp (Nat.lt_succ_self _)).2 e he hid hkind)

theorem Store.exists_progress {s : Store} {id : String} {k : ℕ} (h : k < s.lastProgress id) :
    ∃ e ∈ s.events, e.workItemId = id ∧ e.kind ∈ progressKinds ∧ k < e.id := by
  by_contra hnone
  refine absurd (lastProgress_lt_iff.mpr ⟨k.succ_pos, fun e he hid hkind => ?_⟩) (Nat.not_lt.mpr h)
  exact Nat.lt_succ_of_le (Nat.not_lt.mp fun hlt => hnone ⟨e, he, hid, hkind, hlt⟩)

theorem Store.lastProgress_mono {s t : Store} {id : String}
    (h : ∀ e ∈ s.events, e.workItemId = id → e ∈ t.events) : s.lastProgress id ≤ t.lastProgress id := by
  refine Nat.lt_succ_iff.mp (lastProgress_lt_iff.mpr ⟨Nat.succ_pos _, fun e he hid hkind => ?_⟩)
  exact Nat.lt_succ_of_le (le_lastProgress (h e he hid) hid hkind)

/-- Every event of the log is older than the next one. -/
def Store.LogOrdered (s : Store) : Prop := ∀ e ∈ s.events, e.id < s.nextEventId

theorem LogStep.ordered {P : Event → Prop} {E : String → Prop} {s t : Store} (h : LogStep P E s t) (hs : s.LogOrdered) :
    t.LogOrdered := by
  induction h with
  | keep hevents hid =>
    intro e he
    rw [hevents] at he
    rw [hid]
    exact hs e he
  | append _ e _ heid hevents hid ih =>
    intro e' he'
    rw [hevents, List.mem_append, List.mem_singleton] at he'
    rw [hid]
    rcases he' with he' | rfl
    · exact Nat.lt_succ_of_lt (ih e' he')
    · exact Nat.lt_succ_of_le heid.le
  | erase _ p _ hevents hid ih =>
    intro e he
    rw [hevents] at he
    rw [hid]
    exact ih e (List.mem_filter.mp he).1

theorem Store.LogOrdered.apply {s : Store} (hs : s.LogOrdered) (now : Time) (op : Op) :
    (op.apply now s).LogOrdered :=
  (logStep_apply now s op).ordered hs

theorem Store.LogOrdered.run {s : Store} (hs : s.LogOrdered) (steps : List (Time × Op)) :
    (s.run steps).LogOrdered := by
  induction steps generalizing s with
  | nil => exact hs
  | cons step steps ih => exact ih (hs.apply step.1 step.2)

/-- A pause that counts as a runner failure of the stage. -/
def Event.countsAt (id stage : String) (e : Event) : Bool :=
  e.workItemId = id && e.stage = stage && e.kind = "pause" && isCapacityDetail e.detail = false

theorem Store.pausesSince_eq (s : Store) (id stage : String) :
    s.pausesSince id stage false =
      s.events.countP fun e => e.countsAt id stage && s.lastProgress id < e.id :=
  rfl

/-- From one store to another at most `k` more pauses count, and after progress only they do. -/
structure Counts (id stage : String) (k : ℕ) (s t : Store) : Prop where
  ordered : t.LogOrdered
  count : t.pausesSince id stage false ≤
    (if s.lastProgress id < t.lastProgress id then 0 else s.pausesSince id stage false) + k

section Counts

variable {id stage : String} {s t u : Store}

theorem Counts.trans {j k : ℕ} (h : Counts id stage j s t) (h' : Counts id stage k t u) :
    Counts id stage (j + k) s u := by
  refine ⟨h'.ordered, ?_⟩
  have hcount := h.count
  have hcount' := h'.count
  split_ifs at hcount hcount' ⊢ <;> omega

theorem Counts.le {k : ℕ} (h : Counts id stage k s t) :
    t.pausesSince id stage false ≤ s.pausesSince id stage false + k := by
  have hcount := h.count
  split at hcount <;> omega

theorem counts_of_keep (hs : s.LogOrdered) (hevents : t.events = s.events)
    (hid : t.nextEventId = s.nextEventId) : Counts id stage 0 s t := by
  have hprogress : t.lastProgress id = s.lastProgress id := by
    rw [Store.lastProgress, Store.lastProgress, hevents]
  have hstep : LogStep (fun _ => True) (fun _ => True) s t := .keep hevents hid
  refine ⟨hstep.ordered hs, ?_⟩
  rw [Store.pausesSince_eq, hevents, hprogress, if_neg (lt_irrefl _)]
  exact Nat.le_refl _

theorem countP_append_le {e : Event} (hs : s.LogOrdered) (heid : e.id = s.nextEventId)
    (hevents : t.events = s.events ++ [e]) :
    s.events.countP (fun e => e.countsAt id stage && t.lastProgress id < e.id) ≤
      if s.lastProgress id < t.lastProgress id then 0 else s.pausesSince id stage false := by
  split
  · next hprogress =>
    -- The newest progress event is the appended one, and every other event is older.
    obtain ⟨e', he', hid, hkind, hlt⟩ := Store.exists_progress hprogress
    have hnew : e.id ≤ t.lastProgress id := by
      rw [hevents, List.mem_append, List.mem_singleton] at he'
      rcases he' with he' | rfl
      · exact absurd hlt (Nat.not_lt.mpr (Store.le_lastProgress he' hid hkind))
      · exact Store.le_lastProgress (by rw [hevents]; simp) hid hkind
    refine Nat.le_of_eq (List.countP_eq_zero.mpr fun e'' he'' => ?_)
    simp only [Bool.and_eq_true, decide_eq_true_eq, not_and, not_lt]
    intro _
    exact ((hs e'' he'').le.trans heid.ge).trans hnew
  · rw [Store.pausesSince_eq]
    refine List.countP_mono_left fun e' _ hcounts => ?_
    simp only [Bool.and_eq_true, decide_eq_true_eq] at hcounts ⊢
    refine ⟨hcounts.1, lt_of_le_of_lt (Store.lastProgress_mono fun e'' he'' _ => ?_) hcounts.2⟩
    rw [hevents]
    exact List.mem_append_left _ he''

theorem counts_of_append {e : Event} (hs : s.LogOrdered) (heid : e.id = s.nextEventId)
    (hevents : t.events = s.events ++ [e]) (hid : t.nextEventId = s.nextEventId + 1) :
    Counts id stage (if e.countsAt id stage then 1 else 0) s t := by
  have hstep : LogStep (fun _ => True) (fun _ => True) s t := .append (.refl s) e trivial heid hevents hid
  refine ⟨hstep.ordered hs, ?_⟩
  rw [t.pausesSince_eq, hevents, List.countP_append]
  refine Nat.add_le_add (countP_append_le hs heid hevents) ?_
  rw [List.countP_singleton]
  split_ifs with hcounts he he
  · exact Nat.le_refl _
  · exact absurd (Bool.and_eq_true_iff.mp hcounts).1 he
  · exact Nat.zero_le _
  · exact Nat.le_refl _

theorem counts_of_erase {p : String → Bool} (hs : s.LogOrdered)
    (hevents : t.events = s.events.filter fun e => p e.workItemId)
    (hid : t.nextEventId = s.nextEventId) : Counts id stage 0 s t := by
  have hstep : LogStep (fun _ => True) (fun _ => True) s t := .erase (.refl s) p (fun _ _ => trivial) hevents hid
  refine ⟨hstep.ordered hs, ?_⟩
  have hle : t.lastProgress id ≤ s.lastProgress id := by
    refine Store.lastProgress_mono fun e he _ => ?_
    rw [hevents] at he
    exact (List.mem_filter.mp he).1
  rw [if_neg (Nat.not_lt.mpr hle), t.pausesSince_eq, s.pausesSince_eq, hevents, List.countP_filter]
  refine List.countP_mono_left fun e _ hcounts => ?_
  simp only [Bool.and_eq_true, decide_eq_true_eq] at hcounts ⊢
  -- An event that is left shows that all events of its work item are.
  have hkept : p id = true := by
    have hwork : e.workItemId = id := by
      have hcounted := hcounts.1.1
      simp only [Event.countsAt, Bool.and_eq_true, decide_eq_true_eq] at hcounted
      exact hcounted.1.1.1
    exact hwork ▸ hcounts.2
  refine ⟨hcounts.1.1, lt_of_le_of_lt (Store.lastProgress_mono fun e' he' hid' => ?_) hcounts.1.2⟩
  rw [hevents]
  exact List.mem_filter.mpr ⟨he', by rw [hid']; exact hkept⟩

/-- A change of the log that appends no counted pause adds nothing to the count. -/
theorem LogStep.counts {P : Event → Prop} {E : String → Prop} (h : LogStep P E s t) (hs : s.LogOrdered)
    (hP : ∀ e, P e → e.countsAt id stage = false) : Counts id stage 0 s t := by
  induction h with
  | keep hevents hid => exact counts_of_keep hs hevents hid
  | append h e he heid hevents hid ih =>
    have happend : Counts id stage _ _ _ := counts_of_append ih.ordered heid hevents hid
    rw [hP e he] at happend
    exact ih.trans happend
  | erase h p _ hevents hid ih => exact ih.trans (counts_of_erase ih.ordered hevents hid)

theorem Counts.mono {j k : ℕ} (h : Counts id stage j s t) (hle : j ≤ k) : Counts id stage k s t :=
  ⟨h.ordered, h.count.trans (Nat.add_le_add_left hle _)⟩

theorem Counts.of_event (hs : s.LogOrdered) (hevents : t.events = s.events)
    (hid : t.nextEventId = s.nextEventId) {a b c d e g : String} {x : ℚ} :
    Counts id stage 1 s (t.addEvent a b c d e g x) := by
  have hkeep : Counts id stage 0 s t := counts_of_keep hs hevents hid
  refine (hkeep.trans (counts_of_append hkeep.ordered rfl rfl rfl)).mono ?_
  split
  · exact Nat.le_refl _
  · exact Nat.zero_le _

theorem counts_wfeParkRunnerFailure (hs : s.LogOrdered) (now : Time)
    (id' stage' owner reason detail : String) (dispatched costKnown : Bool) (actual : ℚ) :
    Counts id stage 1 s
      ((Op.wfeParkRunnerFailure id' stage' owner reason detail dispatched costKnown actual).apply now s) := by
  simp only [Op.apply, wfeParkRunnerFailure]
  split
  · exact (counts_of_keep hs rfl rfl).mono (Nat.zero_le _)
  · refine .of_event hs ?_ ?_
    · rfl
    · rfl

theorem counts_wfeRecoverLostReplay (hs : s.LogOrdered) (now : Time) (id' stage' owner : String) :
    Counts id stage 1 s ((Op.wfeRecoverLostReplay id' stage' owner).apply now s) := by
  have hsame : Counts id stage 1 s s := (counts_of_keep hs rfl rfl).mono (Nat.zero_le _)
  simp only [Op.apply, wfeRecoverLostReplay]
  split
  · exact hsame
  · split
    · exact hsame
    · split
      · exact hsame
      · split
        · refine .of_event hs ?_ ?_
          · rfl
          · rfl
        · refine .of_event hs ?_ ?_
          · rfl
          · rfl
        · exact hsame
        · exact hsame

/-! ## Quiet operations -/

/-- The operation writes no pause that counts as a runner failure of the stage. -/
def Op.quietAt (id stage : String) (_ : Time) (op : Op) (s : Store) : Prop :=
  ∀ p ∈ op.pauses s, p.1 = id → p.2.1 = stage → isCapacityDetail p.2.2 = true

instance (now : Time) (op : Op) : Decidable (op.quietAt id stage now s) :=
  inferInstanceAs (Decidable (∀ p ∈ op.pauses s, p.1 = id → p.2.1 = stage → isCapacityDetail p.2.2 = true))

theorem counts_apply (hs : s.LogOrdered) {now : Time} {op : Op} (hquiet : op.quietAt id stage now s) :
    Counts id stage 0 s (op.apply now s) := by
  refine (logStep_apply now s op).counts hs fun e he => ?_
  by_contra hcounts
  simp only [Event.countsAt, Bool.not_eq_false, Bool.and_eq_true, decide_eq_true_eq] at hcounts
  obtain ⟨⟨⟨hid, hstage⟩, hkind⟩, hdetail⟩ := hcounts
  have hcapacity := hquiet _ (he hkind) hid hstage
  rw [hdetail] at hcapacity
  cases hcapacity

theorem counts_run (hs : s.LogOrdered) {steps : List (Time × Op)}
    (h : StepsMeet (Op.quietAt id stage) s steps) : Counts id stage 0 s (s.run steps) := by
  induction steps generalizing s with
  | nil => exact counts_of_keep hs rfl rfl
  | cons step steps ih =>
    have hstep : Counts id stage 0 s (step.2.apply step.1 s) := counts_apply hs h.1
    exact hstep.trans (ih hstep.ordered h.2)

end Counts

end Workflow
