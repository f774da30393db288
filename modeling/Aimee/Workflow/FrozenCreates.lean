-- SUMMARY: The claims slices make on the paths they will create: agreement on content, conflicts without effect, and when a claim outlives its slice.
import Aimee.Workflow.Rows

/-!
# Frozen creates

A slice claims the paths it will create under its parent. Rows on one path agree on the content,
and a claim that clashes leaves the table as it was. A row blocks its siblings, so it should go with
the slice that made it: `wfeFinish` and the operations that end sets of runs drop it, but rejecting
a gate, abandoning a run and the other ways to end or delete one leave it behind.
-/

namespace Workflow

/-! ## The table under operations -/

theorem frozen_setField (id : String) (f : WorkItem → WorkItem) (hf : ∀ w, (f w).workItemId = w.workItemId)
    (s : Store) : (setField id f hf s).1.frozen = s.frozen := by
  unfold setField
  split <;> rfl

theorem frozen_setFieldChecked (id : String) (f : WorkItem → WorkItem)
    (hf : ∀ w, (f w).workItemId = w.workItemId) (s : Store) :
    (setFieldChecked id f hf s).1.frozen = s.frozen := by
  unfold setFieldChecked
  split
  · rfl
  · split <;> rfl

theorem frozen_addTerminalEvents (s : Store) (ids : List String) (detail : String) :
    (s.addTerminalEvents ids detail).frozen = s.frozen := by
  unfold Store.addTerminalEvents
  generalize s.items.rows.filter _ = rows
  have hfold : ∀ t : Store, (rows.foldl (fun t w =>
      t.addEvent w.workItemId w.currentStage "terminal" "go-wfe" detail w.contentHash 0) t).frozen =
      t.frozen := by
    induction rows with
    | nil => exact fun _ => rfl
    | cons w rows ih => exact fun t => ih _
  exact hfold s

theorem frozen_of_insertItem {s t : Store} {w : WorkItem} (h : s.insertItem w = some t) :
    t.frozen = s.frozen := by
  rw [(Store.items_of_insertItem h).2.2.2]

theorem frozen_reserveExisting (now : Time) (id owner : String) (root : WorkItem) (held : Reservation)
    (s : Store) : (reserveExisting now id owner root held s).1.frozen = s.frozen := by
  unfold reserveExisting
  dsimp only
  split_ifs <;> rfl

theorem frozen_endActiveSet (now : Time) (ids : List String) (detail : String) (s : Store) :
    (endActiveSet now ids detail s).1.frozen = s.frozen ∨
      ∃ p, (endActiveSet now ids detail s).1.frozen = s.frozen.delete p := by
  unfold endActiveSet
  dsimp only
  split
  · exact .inl rfl
  · refine .inr ⟨fun c => decide (c.workItemId ∈ s.activeIn ids), ?_⟩
    rw [Store.deleteFrozen, Store.frozen_updateItems, frozen_addTerminalEvents]

/-- A call that is refused changes nothing. -/
theorem frozen_guard {ρ : Type} {s : Store} {r : ρ} {x : Store × ρ} {c : Prop} [Decidable c]
    (h : ¬c → x.1.frozen = s.frozen ∨ ∃ p, x.1.frozen = s.frozen.delete p) :
    (if c then (s, r) else x).1.frozen = s.frozen ∨ ∃ p, (if c then (s, r) else x).1.frozen = s.frozen.delete p := by
  split
  · exact .inl rfl
  · exact h ‹_›

theorem mem_frozen_apply {now : Time} {s : Store} {op : Op}
    (hop : ∀ parentId id creates, op ≠ .wfeClaimFrozenCreates parentId id creates) :
    ∀ c ∈ (op.apply now s).frozen.rows, c ∈ s.frozen.rows := by
  suffices hsub : (op.apply now s).frozen = s.frozen ∨
      ∃ p, (op.apply now s).frozen = s.frozen.delete p by
    intro c hc
    rcases hsub with h | ⟨p, h⟩
    · exact h ▸ hc
    · rw [h] at hc
      exact (Table.mem_rows_delete.mp hc).1
  cases op with
  | workItemSetStage | workItemSetPRRef | workItemSetWorktree | workItemSetTerminal | workItemSetPause
  | workItemClearPause => exact .inl (frozen_setField ..)
  | workItemSetSubmitter => exact .inl (frozen_setFieldChecked ..)
  | wfeClaimFrozenCreates parentId id creates => exact absurd rfl (hop parentId id creates)
  | workItemSetParent => exact frozen_guard fun _ => .inl (frozen_setFieldChecked ..)
  | workItemAddCost | workItemSetCostCap => exact frozen_guard fun _ => .inl (frozen_setField ..)
  | workItemCreate =>
    refine frozen_guard fun _ => ?_
    dsimp only
    split
    · exact .inl rfl
    · next h => exact .inl (frozen_of_insertItem h)
  | workItemSubmitCapped =>
    refine frozen_guard fun _ => frozen_guard fun _ => frozen_guard fun _ => ?_
    dsimp only
    split
    · exact .inl rfl
    · next h =>
      have hfrozen := frozen_of_insertItem h
      exact .inl hfrozen
  | wfeCreateWorkItem r =>
    rcases wfeCreateWorkItem_cases now s r with h | ⟨t, -, ht, h⟩
    · exact .inl (congrArg Store.frozen h)
    · refine .inl ?_
      rw [Op.apply, h, Store.frozen_addEvent, frozen_of_insertItem ht]
  | wfeFinish => exact frozen_guard fun _ => frozen_guard fun _ => .inr ⟨_, rfl⟩
  | wfeStopTree id => exact frozen_guard fun _ => frozen_endActiveSet now (s.tree id) "operator_stop" s
  | wfeReconcileOrphans => exact frozen_guard fun _ => frozen_endActiveSet now s.orphans "ancestor_terminal" s
  | wfeDeleteTree => exact frozen_guard fun _ => .inr ⟨_, rfl⟩
  | workItemRecordOutcome id disposition =>
    refine frozen_guard fun _ => ?_
    cases disposition <;> dsimp only [abandonChildren] <;> split_ifs <;> exact .inl rfl
  | workItemAbandonChildren | workItemGateApply | workItemClearPauseIf | workItemIncOverride
  | workItemDelete | workItemReapStaleParks | lifecycleEventAdd | stageAttemptInc | stageAttemptReset
  | wfeResumeTransient | wfeResumeWallCaps | wfeAbandonExhaustedWallCaps | wfeResumeReadyParents
  | wfeBudgetRelease | wfeBudgetHeartbeat | wfeMove | wfeRecordRetry | wfeParkWithDetail
  | wfeParkBudgetTree | wfeResolveGate | wfeRejectGate | wfeParkRunnerFailure =>
    simp only [Op.apply, workItemAbandonChildren, abandonChildren, workItemGateApply,
      workItemClearPauseIf, workItemIncOverride, workItemDelete, workItemReapStaleParks,
      lifecycleEventAdd, stageAttemptInc, stageAttemptReset, wfeResumeTransient, wfeResumeWallCaps,
      wfeAbandonExhaustedWallCaps, wfeResumeReadyParents, wfeBudgetRelease, wfeBudgetHeartbeat,
      wfeMove, wfeRecordRetry, wfeParkWithDetail, wfeParkBudgetTree, wfeResolveGate, wfeRejectGate,
      wfeParkRunnerFailure]
    refine .inl ?_
    repeat' split
    all_goals rfl
  | wfeBudgetReserve =>
    simp only [Op.apply, wfeBudgetReserve]
    refine .inl ?_
    repeat' split
    all_goals first
      | rfl
      | exact frozen_reserveExisting ..
  | wfeBudgetReconcile | wfeResume | wfeRecoverLostReplay | wfeRecordRequestedChanges =>
    simp only [Op.apply, wfeBudgetReconcile, wfeResume, wfeRecoverLostReplay, wfeRecordRequestedChanges]
    refine .inl ?_
    repeat' split
    all_goals rfl

/-! ## Claims -/

/-- Rows on one path under one parent carry one content hash. -/
def Agree (frozen : Table FrozenCreate FrozenCreate.key) : Prop :=
  ∀ c ∈ frozen.rows, ∀ d ∈ frozen.rows, c.parentId = d.parentId → c.path = d.path →
    c.contentHash = d.contentHash

section Claims

variable {parentId id : String}

variable {path hash : String} {frozen : Table FrozenCreate FrozenCreate.key}
    {creates : List (String × String)}

/-- Without a clash, the other slices that froze the path froze the same content. -/
theorem eq_of_frozenClash_eq_none
    (h : frozenClash parentId id path hash frozen = none) {c : FrozenCreate} (hc : c ∈ frozen.rows)
    (hparent : c.parentId = parentId) (hpath : c.path = path) (hid : c.workItemId ≠ id) :
    c.contentHash = hash := by
  by_contra hne
  unfold frozenClash at h
  rw [List.head?_eq_none_iff] at h
  have hmem : c.workItemId ∈ ((frozen.rows.filter fun c => c.parentId = parentId && c.path = path &&
      c.workItemId ≠ id && c.contentHash ≠ hash).map (·.workItemId)).mergeSort := by
    rw [List.mem_mergeSort]
    exact List.mem_map_of_mem (List.mem_filter.mpr ⟨hc, by simp [hparent, hpath, hid, hne]⟩)
  rw [h] at hmem
  cases hmem

theorem Agree.upsert (h : Agree frozen) (hclash : frozenClash parentId id path hash frozen = none) :
    Agree (frozen.upsert
      { parentId := parentId, path := path, workItemId := id, contentHash := hash }) := by
  have hnew : ∀ c ∈ frozen.rows, c.key ≠ (parentId, path, id) → c.parentId = parentId → c.path = path →
      c.contentHash = hash := by
    intro c hc hkey hparent hpath
    refine eq_of_frozenClash_eq_none hclash hc hparent hpath fun hid => hkey ?_
    rw [FrozenCreate.key, hparent, hpath, hid]
  intro c hc d hd hparent hpath
  rcases Table.mem_rows_upsert.mp hc with rfl | ⟨hc, hckey⟩
  · rcases Table.mem_rows_upsert.mp hd with rfl | ⟨hd, hdkey⟩
    · rfl
    · exact (hnew d hd hdkey hparent.symm hpath.symm).symm
  · rcases Table.mem_rows_upsert.mp hd with rfl | ⟨hd, -⟩
    · exact hnew c hc hckey hparent hpath
    · exact h c hc d hd hparent hpath

/-- What the loop over the paths of a claim keeps. -/
theorem claimPaths_claimed {frozen frozen' : Table FrozenCreate FrozenCreate.key}
    (h : claimPaths parentId id creates frozen = .claimed frozen') (hagree : Agree frozen) :
    Agree frozen' ∧ ∀ c ∈ frozen'.rows, c ∈ frozen.rows ∨ c.workItemId = id := by
  induction creates generalizing frozen with
  | nil =>
    cases h
    exact ⟨hagree, fun c hc => .inl hc⟩
  | cons create creates ih =>
    unfold claimPaths at h
    split at h
    · cases h
    · split at h
      · cases h
      · next hclash =>
        obtain ⟨hagree', hrows⟩ := ih h (hagree.upsert hclash)
        refine ⟨hagree', fun c hc => ?_⟩
        rcases hrows c hc with hc | hc
        · rcases Table.mem_rows_upsert.mp hc with rfl | ⟨hc, -⟩
          · exact .inr rfl
          · exact .inl hc
        · exact .inr hc

/-- A claim keeps the table, or extends it for an active child of the parent. -/
theorem wfeClaimFrozenCreates_cases (parentId id : String) (creates : List (String × String)) (s : Store) :
    (wfeClaimFrozenCreates parentId id creates s).1 = s ∨
      ∃ w frozen, s.item? id = some w ∧ w.state = "active" ∧
        claimPaths parentId id creates s.frozen = .claimed frozen ∧
        (wfeClaimFrozenCreates parentId id creates s).1 = { s with frozen := frozen } := by
  unfold wfeClaimFrozenCreates
  split
  · exact .inl rfl
  · split
    · exact .inl rfl
    · split
      · exact .inl rfl
      · next w hw =>
        obtain ⟨hitem, hchild⟩ := Option.filter_eq_some_iff.mp hw
        simp only [Bool.and_eq_true, decide_eq_true_eq] at hchild
        split
        · exact .inl rfl
        · exact .inl rfl
        · next frozen hclaim => exact .inr ⟨w, frozen, hitem, hchild.2, hclaim, rfl⟩

theorem wfeClaimFrozenCreates_conflict {s : Store}
    {conflict : FrozenConflict}
    (h : (wfeClaimFrozenCreates parentId id creates s).2 = .ok (some conflict)) :
    (wfeClaimFrozenCreates parentId id creates s).1 = s := by
  revert h
  unfold wfeClaimFrozenCreates
  split
  · exact fun _ => rfl
  · split
    · exact fun _ => rfl
    · split
      · exact fun _ => rfl
      · split
        · exact fun _ => rfl
        · exact fun _ => rfl
        · rintro ⟨⟩

end Claims

/-! ## The law of the table -/

structure FrozenLaw (s : Store) : Prop where
  agree : Agree s.frozen
  conflict : ∀ parentId id creates conflict,
    (wfeClaimFrozenCreates parentId id creates s).2 = .ok (some conflict) →
      (wfeClaimFrozenCreates parentId id creates s).1.frozen = s.frozen
  active : ∀ c ∈ s.frozen.rows, ∃ w, s.item? c.workItemId = some w ∧ w.state = "active"

/-- The operation does not end or delete a run that has frozen creates and leave these behind. -/
def Op.sparesFrozen (now : Time) (op : Op) (s : Store) : Prop :=
  ∀ c ∈ s.frozen.rows, op ≠ .workItemDelete c.workItemId ∧
    ∀ w ∈ s.item? c.workItemId, op.endsSilently now w = false

instance decidableSparesFrozen (now : Time) (op : Op) (s : Store) : Decidable (op.sparesFrozen now s) :=
  inferInstanceAs (Decidable (∀ c ∈ s.frozen.rows, op ≠ .workItemDelete c.workItemId ∧
    ∀ w ∈ s.item? c.workItemId, op.endsSilently now w = false))

variable {s : Store} {w : WorkItem} {c : FrozenCreate}

theorem item?_workItemDelete {id id' : String} (hw : s.item? id' = some w)
    (hne : id' ≠ id) : (workItemDelete id s).1.item? id' = some w := by
  unfold workItemDelete
  split
  · exact hw
  · rw [Store.item?, Table.find?_delete]
    refine Option.filter_eq_some_iff.mpr ⟨hw, ?_⟩
    simpa [Store.workItemId_of_item? hw] using hne

/-- A run whose frozen creates survive a deletion of a tree is not in the tree. -/
theorem item?_wfeDeleteTree {id : String}
    (hw : s.item? c.workItemId = some w) (hc : c ∈ (wfeDeleteTree id s).1.frozen.rows) :
    (wfeDeleteTree id s).1.item? c.workItemId = some w := by
  unfold wfeDeleteTree at hc ⊢
  split at hc
  · next hid => rw [if_pos hid, hw]
  · next hid =>
    rw [if_neg hid, Store.item?, Table.find?_delete]
    refine Option.filter_eq_some_iff.mpr ⟨hw, ?_⟩
    rw [Store.workItemId_of_item? hw, (Table.mem_rows_delete.mp hc).2]
    rfl

theorem frozenLaw_empty : FrozenLaw .empty where
  agree := nofun
  conflict _ _ _ _ h := congrArg Store.frozen (wfeClaimFrozenCreates_conflict h)
  active := nofun

theorem FrozenLaw.agree_apply {now : Time} (h : FrozenLaw s) (op : Op) :
    Agree (op.apply now s).frozen := by
  by_cases hop : ∃ parentId id creates, op = .wfeClaimFrozenCreates parentId id creates
  · obtain ⟨parentId, id, creates, rfl⟩ := hop
    rcases wfeClaimFrozenCreates_cases parentId id creates s with hsame | ⟨w, frozen, -, -, hclaim, hafter⟩
    · rw [Op.apply, hsame]
      exact h.agree
    · rw [Op.apply, hafter]
      exact (claimPaths_claimed hclaim h.agree).1
  · have hsub : ∀ c ∈ (op.apply now s).frozen.rows, c ∈ s.frozen.rows :=
      mem_frozen_apply fun parentId id creates h => hop ⟨parentId, id, creates, h⟩
    exact fun c hc d hd => h.agree c (hsub c hc) d (hsub d hd)

theorem FrozenLaw.active_apply {now : Time} (h : FrozenLaw s) {op : Op}
    (hspares : op.sparesFrozen now s) (hc : c ∈ (op.apply now s).frozen.rows) :
    ∃ w, (op.apply now s).item? c.workItemId = some w ∧ w.state = "active" := by
  by_cases hop : ∃ parentId id creates, op = .wfeClaimFrozenCreates parentId id creates
  · obtain ⟨parentId, id, creates, rfl⟩ := hop
    simp only [Op.apply] at hc ⊢
    rcases wfeClaimFrozenCreates_cases parentId id creates s with
      hsame | ⟨w, frozen, hw, hactive, hclaim, hafter⟩
    · rw [hsame] at hc ⊢
      exact h.active c hc
    · rw [hafter] at hc ⊢
      rcases (claimPaths_claimed hclaim h.agree).2 c hc with hc | hid
      · exact h.active c hc
      · exact ⟨w, hid ▸ hw, hactive⟩
  · have hmem : c ∈ s.frozen.rows :=
      mem_frozen_apply (fun parentId id creates h => hop ⟨parentId, id, creates, h⟩) c hc
    obtain ⟨w, hw, hactive⟩ := h.active c hmem
    by_cases hdelete : ∀ id, op ≠ .workItemDelete id ∧ op ≠ .wfeDeleteTree id
    · obtain ⟨w', hw', hstep⟩ : ∃ w', (op.apply now s).item? c.workItemId = some w' ∧
          RowStep now s op w w' := exists_item?_apply hdelete hw
      rcases hstep.state hactive with hactive | hends | hgone
      · exact ⟨w', hw', hactive⟩
      · rw [(hspares c hmem).2 w hw] at hends
        cases hends
      · exact absurd (Store.workItemId_of_item? hw).symm (hgone c hc)
    · simp only [not_forall, not_and_or, not_not, ne_eq] at hdelete
      obtain ⟨id, rfl | rfl⟩ := hdelete
      · refine ⟨w, item?_workItemDelete hw ?_, hactive⟩
        rintro rfl
        exact (hspares c hmem).1 rfl
      · exact ⟨w, item?_wfeDeleteTree hw hc, hactive⟩

/-- The law holds in every store of a run whose steps do not leave frozen creates behind. -/
theorem frozenLaw_of_steps {steps : List (Time × Op)}
    (h : StepsMeet (fun now op s => op.sparesFrozen now s) .empty steps) :
    AlongRun FrozenLaw .empty steps := by
  refine AlongRun.of_steps ?_ frozenLaw_empty h
  intro now op s hlaw hspares
  exact
    { agree := hlaw.agree_apply op
      conflict := fun _ _ _ _ hconflict => congrArg Store.frozen (wfeClaimFrozenCreates_conflict hconflict)
      active := fun _ hc => hlaw.active_apply hspares hc }

/-- A slice claims a path and waits at a human gate. -/
def claimingRun : List (Time × Op) :=
  [(0, .wfeCreateWorkItem sampleRequest), (0, .wfeCreateWorkItem sliceRequest),
    (1, .wfeClaimFrozenCreates "item" "slice" [("a.go", "hash")]),
    (2, .wfeParkWithDetail "slice" "review" "human_gate" "" 0)]

theorem claimingRun_frozenLaw : AlongRun FrozenLaw .empty claimingRun :=
  frozenLaw_of_steps (by decide +kernel)

/-- The operator rejects the gate, and the rejected slice keeps its claim. -/
theorem rejected_slice_keeps_claim :
    ¬∀ steps : List (Time × Op), AlongRun FrozenLaw .empty steps := by
  intro h
  have hlaw := (h (claimingRun ++ [(3, .wfeRejectGate "slice" "review" "")])).last
  obtain ⟨w, hw, hactive⟩ := hlaw.active
    { parentId := "item", path := "a.go", workItemId := "slice", contentHash := "hash" } (by decide +kernel)
  have hstate : ((Store.empty.run (claimingRun ++ [(3, .wfeRejectGate "slice" "review" "")])).item?
      "slice").map (·.state) = some "rejected" := by
    decide +kernel
  rw [hw, Option.map_some, hactive] at hstate
  revert hstate
  decide

end Workflow
