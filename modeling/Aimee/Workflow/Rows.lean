-- SUMMARY: What each operation of the lifecycle family does to the rows of the work-item table, and what every reachable row satisfies.
import Aimee.Workflow.Ops

/-!
# Rows under operations

`MoneyStep` lists every change an operation makes to the cost and reservation columns of a row,
with what it checked before, and `RowStep` adds the columns that decide where a row belongs.
`itemsStep_apply` says that an operation changes rows in these ways, inserts one, or deletes some;
the invariants of the family are derived from it.
-/

namespace Workflow

/-! ## Changes of a row -/

/-- The cost an operation commits or reconciles against a reservation, and the row it is about. -/
def Op.charged : Op → Option (String × ℚ≥0)
  | .wfeBudgetReconcile id _ actual => some (id, actual.toNNRat)
  | .wfeMove id _ _ _ _ _ cost => some (id, cost.toNNRat)
  | .wfeRecordRetry id _ _ _ _ cost => some (id, cost.toNNRat)
  | .wfeParkWithDetail id _ _ _ cost => some (id, cost.toNNRat)
  | .wfeFinish id _ _ _ _ cost => some (id, cost.toNNRat)
  | .wfeRecordRequestedChanges r _ cost => some (r.workItemId, cost.toNNRat)
  | .wfeParkRunnerFailure id _ _ _ _ dispatched costKnown actual =>
    if dispatched ∧ costKnown then some (id, actual.toNNRat) else none
  | .wfeParkBudgetTree _ id cost => if 0 < cost then some (id, cost.toNNRat) else none
  | _ => none

/-- The row an operation inserts, if nothing refuses it. -/
def Op.inserts (now : Time) : Op → Option WorkItem
  | .workItemCreate id repo path name version stage mode =>
    some (.new now id repo path (if name = "" then "build" else name) version stage
      (if mode = "" then "interactive" else mode))
  | .workItemSubmitCapped id repo path name version stage submitter _ _ _ =>
    some { WorkItem.new now id repo path (if name = "" then "build" else name) version
      (if stage = "" then "intake" else stage) "autonomous" with submitter := submitter }
  | .wfeCreateWorkItem r => some (r.row now)
  | _ => none

/-- Whether an operation ends an active run while its frozen creates stay. -/
def Op.endsSilently (now : Time) : Op → WorkItem → Bool
  | .workItemAbandonChildren parentId, w => parentId ≠ "" && w.parentId = parentId
  | .workItemSetTerminal id state, w => state ≠ "active" && w.workItemId = id
  | .workItemGateApply id stage hash newStage state, w =>
    newStage = "" && state ≠ "" && state ≠ "active" && w.workItemId = id &&
      w.currentStage = stage && w.contentHash = hash && w.pauseReason = "pending_human"
  | .workItemReapStaleParks graceSecs, w =>
    0 < graceSecs && w.mode = "autonomous" && w.pauseReason ∈ reapableParkReasons &&
      w.updatedAt < now - graceSecs
  | .workItemRecordOutcome id (.terminal state abandon) _ _ _ _ _, w =>
    id ≠ "" && (state ≠ "active" && w.workItemId = id || abandon && w.parentId = id)
  | .wfeAbandonExhaustedWallCaps maxResumes graceSecs, w =>
    w.pauseReason = "wall_cap" && maxResumes ≤ (w.overrideCount : ℤ) &&
      w.updatedAt < now - graceSecs
  | .wfeRejectGate id stage _, w =>
    w.workItemId = id && w.currentStage = stage && w.pauseReason = "human_gate"
  | _, _ => false

/-- What an operation does to the cost and the reservation of a row. -/
inductive MoneyStep (now : Time) (op : Op) (w w' : WorkItem) : Prop where
  | keep (hcost : w'.cumCostUsd = w.cumCostUsd) (hres : w'.reservation = w.reservation)
  | spend (d : ℚ≥0)
      (hop : (∃ cost, op = .workItemAddCost w.workItemId cost) ∨
        ∃ disposition cost nodeId kind detail hash,
          op = .workItemRecordOutcome w.workItemId disposition cost nodeId kind detail hash)
      (hcost : w'.cumCostUsd = w.cumCostUsd + d) (hres : w'.reservation = w.reservation)
  | settle (d : ℚ≥0)
      (hd : op.charged = some (w.workItemId, d) ∨
        op.charged = none ∧ (d = 0 ∨ d = w.reservation.reservedCostUsd))
      (hcost : w'.cumCostUsd = w.cumCostUsd + d) (hres : w'.reservation = clearReservation)
  | reserve (owner : String) (amount : ℚ≥0) (hop : op = .wfeBudgetReserve w.workItemId owner)
      (hstate : w.reservation.state = .none) (hcost : w'.cumCostUsd = w.cumCostUsd)
      (hres : w'.reservation =
        { reservedCostUsd := amount, state := .reserved, owner := owner
          leaseUntil := some (leaseFrom now) })
  | takeOver (owner : String) (hop : op = .wfeBudgetReserve w.workItemId owner)
      (hstate : w.reservation.state = .actual ∨ w.reservation.state = .unresolved)
      (howner : w.reservation.owner = owner ∨ w.reservation.leaseIsLive now = false)
      (hcost : w'.cumCostUsd = w.cumCostUsd)
      (hres : w'.reservation =
        { w.reservation with owner := owner, leaseUntil := some (leaseFrom now) })
  | steal (owner : String) (hop : op = .wfeBudgetReserve w.workItemId owner)
      (hstate : w.reservation.state = .reserved) (hlive : w.reservation.leaseIsLive now = false)
      (hcost : w'.cumCostUsd = w.cumCostUsd)
      (hres : w'.reservation =
        { w.reservation with state := .unresolved, owner := owner, leaseUntil := some (leaseFrom now) })
  | extend (hstate : w.reservation.state ≠ .none) (hcost : w'.cumCostUsd = w.cumCostUsd)
      (hres : w'.reservation = { w.reservation with leaseUntil := some (leaseFrom now) })
  | measure (actual : ℚ≥0) (hop : op.charged = some (w.workItemId, actual))
      (hstate : w.reservation.state ∈ reservationReplaceable) (hcost : w'.cumCostUsd = w.cumCostUsd)
      (hres : w'.reservation = { w.reservation with reservedCostUsd := actual, state := .actual })
  | retain (amount : ℚ≥0)
      (hop : ∃ stage owner reason detail actual,
        op = .wfeParkRunnerFailure w.workItemId stage owner reason detail true false actual)
      (hamount : amount ≤ w.reservation.reservedCostUsd)
      (hcost : w'.cumCostUsd = w.cumCostUsd)
      (hres : w'.reservation =
        { w.reservation with reservedCostUsd := amount, state := .unresolved })

/-- What an operation does to a row that it does not delete. -/
structure RowStep (now : Time) (s : Store) (op : Op) (w w' : WorkItem) : Prop where
  id : w'.workItemId = w.workItemId
  money : MoneyStep now op w w'
  parent : w'.parentId = w.parentId ∨ ∃ parentId, op = .workItemSetParent w.workItemId parentId
  cap : w'.workItemMaxCostUsd = w.workItemMaxCostUsd ∨
    ∃ cap, op = .workItemSetCostCap w.workItemId cap
  -- A run that an operation ends holds no frozen creates afterwards, but for the operations that
  -- leave them.
  state : w.state = "active" → w'.state = "active" ∨ op.endsSilently now w = true ∨
    ∀ c ∈ (op.apply now s).frozen.rows, c.workItemId ≠ w.workItemId

/-- What an operation does to the table of work items. -/
inductive ItemsStep (now : Time) (s : Store) (op : Op) : Prop where
  | update (h : List.Forall₂ (RowStep now s op) s.items.rows (op.apply now s).items.rows)
  | insert (w : WorkItem) (hop : op.inserts now = some w) (hid : w.workItemId ≠ "")
      (hself : w.parentId ≠ w.workItemId) (hnone : s.item? w.workItemId = none)
      (hrows : (op.apply now s).items.rows = s.items.rows ++ [w])
  | delete (p : String → Bool)
      (hop : (∃ id, op = .workItemDelete id ∧ p = (· = id)) ∨
        ∃ id, op = .wfeDeleteTree id ∧ p = (· ∈ s.tree id))
      (hrows : (op.apply now s).items = s.items.delete fun w => p w.workItemId)

/-! ## Rules for single updates -/

variable {id : String}

section Rules

variable {now : Time} {s : Store} {op : Op} {w w' : WorkItem}

/-- The columns that `RowStep` is about. -/
def WorkItem.ledger (w : WorkItem) : String × ℚ≥0 × Reservation × String × ℚ≥0 × String :=
  (w.workItemId, w.cumCostUsd, w.reservation, w.parentId, w.workItemMaxCostUsd, w.state)

theorem RowStep.of_ledger (h : w'.ledger = w.ledger) : RowStep now s op w w' := by
  simp only [WorkItem.ledger, Prod.mk.injEq] at h
  obtain ⟨hid, hcost, hres, hparent, hcap, hstate⟩ := h
  exact ⟨hid, .keep hcost hres, .inl hparent, .inl hcap, fun h => .inl (hstate.trans h)⟩

theorem RowStep.of_money (h : MoneyStep now op w w')
    (hrest : { w' with cumCostUsd := w.cumCostUsd, reservation := w.reservation }.ledger = w.ledger) :
    RowStep now s op w w' := by
  simp only [WorkItem.ledger, Prod.mk.injEq] at hrest
  obtain ⟨hid, -, -, hparent, hcap, hstate⟩ := hrest
  exact ⟨hid, h, .inl hparent, .inl hcap, fun h => .inl (hstate.trans h)⟩

theorem RowStep.of_state (h : w.state = "active" → w'.state = "active" ∨ op.endsSilently now w = true ∨
      ∀ c ∈ (op.apply now s).frozen.rows, c.workItemId ≠ w.workItemId)
    (hrest : { w' with state := w.state }.ledger = w.ledger) : RowStep now s op w w' := by
  simp only [WorkItem.ledger, Prod.mk.injEq] at hrest
  obtain ⟨hid, hcost, hres, hparent, hcap, -⟩ := hrest
  exact ⟨hid, .keep hcost hres, .inl hparent, .inl hcap, h⟩

variable {w'' : WorkItem} {f : WorkItem → WorkItem} {p : WorkItem → Bool}
    {hf : ∀ w, (f w).workItemId = w.workItemId}

theorem MoneyStep.trans_keep (h : MoneyStep now op w w')
    (hcost : w''.cumCostUsd = w'.cumCostUsd) (hres : w''.reservation = w'.reservation) :
    MoneyStep now op w w'' := by
  cases h with
  | keep h₁ h₂ => exact .keep (hcost.trans h₁) (hres.trans h₂)
  | spend d hop h₁ h₂ => exact .spend d hop (hcost.trans h₁) (hres.trans h₂)
  | settle d hd h₁ h₂ => exact .settle d hd (hcost.trans h₁) (hres.trans h₂)
  | reserve owner amount hop hstate h₁ h₂ =>
    exact .reserve owner amount hop hstate (hcost.trans h₁) (hres.trans h₂)
  | takeOver owner hop hstate howner h₁ h₂ =>
    exact .takeOver owner hop hstate howner (hcost.trans h₁) (hres.trans h₂)
  | steal owner hop hstate hlive h₁ h₂ =>
    exact .steal owner hop hstate hlive (hcost.trans h₁) (hres.trans h₂)
  | extend hstate h₁ h₂ => exact .extend hstate (hcost.trans h₁) (hres.trans h₂)
  | measure actual hop hstate h₁ h₂ => exact .measure actual hop hstate (hcost.trans h₁) (hres.trans h₂)
  | retain amount hop hamount h₁ h₂ =>
    exact .retain amount hop hamount (hcost.trans h₁) (hres.trans h₂)

theorem RowStep.trans_state (h : RowStep now s op w w')
    (hstate : w'.state = "active" → w''.state = "active" ∨ op.endsSilently now w = true ∨
      ∀ c ∈ (op.apply now s).frozen.rows, c.workItemId ≠ w.workItemId)
    (hrest : { w'' with state := w'.state }.ledger = w'.ledger) : RowStep now s op w w'' := by
  simp only [WorkItem.ledger, Prod.mk.injEq] at hrest
  obtain ⟨hid, hcost, hres, hparent, hcap, -⟩ := hrest
  refine ⟨hid.trans h.id, h.money.trans_keep hcost hres, ?_, ?_, ?_⟩
  · rw [hparent]
    exact h.parent
  · rw [hcap]
    exact h.cap
  · intro hactive
    rcases h.state hactive with hactive | hends
    · exact hstate hactive
    · exact .inr hends

theorem RowStep.trans_ledger (h : RowStep now s op w w')
    (hrest : w''.ledger = w'.ledger) : RowStep now s op w w'' := by
  have hstate : w''.state = w'.state := by
    simp only [WorkItem.ledger, Prod.mk.injEq] at hrest
    exact hrest.2.2.2.2.2
  refine h.trans_state (fun h => .inl (hstate.trans h)) ?_
  rw [← hstate]
  exact hrest

theorem RowStep.refl (w : WorkItem) : RowStep now s op w w := .of_ledger rfl

theorem rowsKept : List.Forall₂ (RowStep now s op) s.items.rows s.items.rows :=
  List.forall₂_same.mpr fun w _ => .refl w

theorem ItemsStep.of_same (h : (op.apply now s).items = s.items) : ItemsStep now s op := by
  refine .update ?_
  rw [h]
  exact rowsKept

theorem forall₂_rowStep (hrow : ∀ w ∈ s.items.rows, p w = true → RowStep now s op w (f w)) :
    List.Forall₂ (RowStep now s op) s.items.rows (s.items.rows.map fun w => if p w then f w else w) := by
  refine List.forall₂_map_right_iff.mpr (List.forall₂_same.mpr fun w hw => ?_)
  cases hp : p w with
  | true => exact hrow w hw hp
  | false => exact .refl w

theorem ItemsStep.of_update (h : (op.apply now s).items.rows = s.items.rows.map fun w => if p w then f w else w)
    (hrow : ∀ w ∈ s.items.rows, p w = true → RowStep now s op w (f w)) : ItemsStep now s op := by
  refine .update ?_
  rw [h]
  exact forall₂_rowStep hrow

/-- A call that is refused changes nothing. -/
theorem ItemsStep.of_guard {ρ : Type} {r : ρ} {x : Store × ρ} {c : Prop} [Decidable c]
    (h : op.apply now s = (if c then (s, r) else x).1) (hx : ¬c → op.apply now s = x.1 →
      ItemsStep now s op) : ItemsStep now s op := by
  by_cases hc : c
  · exact .of_same (by rw [h, if_pos hc])
  · exact hx hc (by rw [h, if_neg hc])

/-- A call that is refused, or updates the rows that meet a condition. -/
theorem ItemsStep.of_guarded {ρ : Type} {r : ρ} {x : Store × ρ} {c : Prop} [Decidable c]
    (h : op.apply now s = (if c then (s, r) else x).1)
    (hx : x.1.items.rows = s.items.rows.map fun w => if p w then f w else w)
    (hrow : ¬c → ∀ w ∈ s.items.rows, p w = true → RowStep now s op w (f w)) : ItemsStep now s op :=
  .of_guard h fun hc h => .of_update ((congrArg (·.items.rows) h).trans hx) (hrow hc)

theorem ItemsStep.of_setField (h : op.apply now s = (setField id f hf s).1)
    (hrow : ∀ w, w.workItemId = id → RowStep now s op w (f w)) : ItemsStep now s op := by
  unfold setField at h
  split at h
  · exact .of_same (by rw [h])
  · exact .of_update (congrArg (·.items.rows) h) fun w _ hp => hrow w (by simpa using hp)

theorem ItemsStep.of_setFieldChecked (h : op.apply now s = (setFieldChecked id f hf s).1)
    (hrow : ∀ w, w.workItemId = id → RowStep now s op w (f w)) : ItemsStep now s op := by
  unfold setFieldChecked at h
  split at h
  · exact .of_same (by rw [h])
  · split at h
    · exact .of_same (by rw [h])
    · exact .of_update (congrArg (·.items.rows) h) fun w _ hp => hrow w (by simpa using hp)

theorem ItemsStep.of_insertItem (hop : op.inserts now = some w) (hid : w.workItemId ≠ "")
    (h : (op.apply now s).items = ((s.insertItem w).getD s).items) : ItemsStep now s op := by
  cases hinsert : s.insertItem w with
  | none =>
    rw [hinsert] at h
    exact .of_same h
  | some t =>
    rw [hinsert] at h
    obtain ⟨hrows, hnone, hself, -⟩ := Store.items_of_insertItem hinsert
    exact .insert w hop hid hself hnone (by rw [h]; exact hrows)

end Rules

/-! ## The operations, one by one -/

section Ops

attribute [local simp] Op.apply

variable (now : Time) (s : Store)

theorem itemsStep_workItemGateApply (id stage hash newStage state : String) :
    ItemsStep now s (.workItemGateApply id stage hash newStage state) := by
  refine .of_guarded rfl rfl fun _ w _ hp => ?_
  simp only [Bool.and_eq_true, decide_eq_true_eq] at hp
  by_cases hstage : newStage = ""
  · by_cases hstate : state = ""
    · simp only [hstage, hstate, ne_eq, not_true_eq_false, if_false]
      exact .of_ledger rfl
    · simp only [hstage, hstate, ne_eq, not_true_eq_false, not_false_eq_true, if_false, if_true]
      refine .of_state (fun _ => ?_) rfl
      by_cases hactive : state = "active"
      · exact .inl hactive
      · refine .inr (.inl ?_)
        simp [Op.endsSilently, hstate, hactive, hp]
  · simp only [hstage, ne_eq, not_false_eq_true, if_true]
    exact .of_ledger rfl

theorem itemsStep_workItemAbandonChildren (parentId : String) :
    ItemsStep now s (.workItemAbandonChildren parentId) := by
  refine .of_guarded rfl rfl fun hid w _ hp => ?_
  simp only [Bool.and_eq_true, decide_eq_true_eq] at hp
  refine .of_state (fun _ => .inr (.inl ?_)) rfl
  simp [Op.endsSilently, hid, hp]

theorem itemsStep_workItemReapStaleParks (graceSecs : ℤ) :
    ItemsStep now s (.workItemReapStaleParks graceSecs) := by
  refine .of_guarded rfl rfl fun hgrace w _ hp => ?_
  simp only [Bool.and_eq_true, decide_eq_true_eq] at hp
  refine .of_state (fun _ => .inr (.inl ?_)) rfl
  simp [Op.endsSilently, not_le.mp hgrace, hp]

theorem itemsStep_workItemRecordOutcome (id : String) (disposition : Disposition) (cost : ℚ)
    (nodeId kind detail hash : String) :
    ItemsStep now s (.workItemRecordOutcome id disposition cost nodeId kind detail hash) := by
  refine .of_guard rfl fun hid h => ?_
  refine .update ?_
  -- The cost comes first; every later update leaves the money alone.
  have hcharge : List.Forall₂
      (RowStep now s (.workItemRecordOutcome id disposition cost nodeId kind detail hash)) s.items.rows
      (if 0 < cost then s.updateItems (·.workItemId = id)
        (fun w => { w with cumCostUsd := w.cumCostUsd + cost.toNNRat, updatedAt := now }) fun _ => rfl
      else s).items.rows := by
    split
    · refine forall₂_rowStep fun w _ hp => ?_
      have hw : w.workItemId = id := by simpa using hp
      exact .of_money (.spend cost.toNNRat (.inr ⟨disposition, cost, nodeId, kind, detail, hash, by rw [hw]⟩)
        rfl rfl) rfl
    · exact rowsKept
  simp only [Op.apply, workItemRecordOutcome, if_neg hid]
  cases disposition with
  | pause reason stage => exact Table.forall₂_update hcharge fun w w' h _ => h.trans_ledger rfl
  | advance nextStage prRef parkReason =>
    have hmoved := Table.forall₂_update (p := fun w => decide (w.workItemId = id))
      (f := fun w => { w with currentStage := nextStage, contentHash := hash, updatedAt := now })
      hcharge fun w w' h _ => h.trans_ledger rfl
    dsimp only
    split
    · split
      · exact Table.forall₂_update hmoved fun w w' h _ => h.trans_ledger rfl
      · exact hmoved
    · split
      · refine Table.forall₂_update ?_ fun w w' h _ => h.trans_ledger rfl
        exact Table.forall₂_update hmoved fun w w' h _ => h.trans_ledger rfl
      · exact Table.forall₂_update hmoved fun w w' h _ => h.trans_ledger rfl
  | terminal state abandon =>
    have hended : List.Forall₂ (RowStep now s
          (.workItemRecordOutcome id (.terminal state abandon) cost nodeId kind detail hash)) _ _ :=
      Table.forall₂_update (p := fun w => decide (w.workItemId = id))
        (f := fun w => { w with state := state, pauseReason := "", pausedState := "", updatedAt := now })
        hcharge fun w w' h hp => h.trans_state (fun _ => by
          have hw : w.workItemId = id := h.id.symm.trans (by simpa using hp)
          by_cases hactive : state = "active"
          · exact .inl hactive
          · refine .inr (.inl ?_)
            simp [Op.endsSilently, hid, hactive, hw]) rfl
    cases abandon with
    | false => exact hended
    | true =>
      refine Table.forall₂_update hended fun w w' h hp => h.trans_state (fun _ => .inr (.inl ?_)) rfl
      simp only [Bool.and_eq_true, decide_eq_true_eq] at hp
      have hparent : w.parentId = id := by
        rcases h.parent with hparent | ⟨_, hop⟩
        · exact hparent.symm.trans hp.1
        · cases hop
      simp [Op.endsSilently, hid, hparent]

/-- The rows of the table with a key are the row a lookup finds. -/
theorem eq_of_item? {w v : WorkItem} (hv : s.item? id = some v) (hw : w ∈ s.items.rows)
    (hid : w.workItemId = id) : w = v :=
  s.items.eq_of_key hw (Table.mem_of_find? hv) (hid.trans (Table.key_of_find? hv).symm)

theorem loadRunnable_eq_some {held : Reservation} (h : s.loadRunnable id = some held) :
    ∃ w, s.item? id = some w ∧ w.state = "active" ∧ w.pauseReason = "" ∧ w.reservation = held := by
  obtain ⟨w, hw, hheld⟩ := Option.map_eq_some_iff.mp h
  obtain ⟨hitem, hrun⟩ := Option.filter_eq_some_iff.mp hw
  simp only [Bool.and_eq_true, decide_eq_true_eq] at hrun
  exact ⟨w, hitem, hrun.1, hrun.2, hheld⟩

theorem forall₂_reserveExisting (owner : String) (root : WorkItem) {v : WorkItem}
    (hv : s.item? id = some v) (hheld : v.reservation.state ≠ .none) :
    List.Forall₂ (RowStep now s (.wfeBudgetReserve id owner)) s.items.rows
      (reserveExisting now id owner root v.reservation s).1.items.rows := by
  unfold reserveExisting
  dsimp only
  split
  · next hstate =>
    split
    · exact rowsKept
    · split
      · exact rowsKept
      · refine forall₂_rowStep fun w hw hp => ?_
        simp only [Bool.and_eq_true, Bool.or_eq_true, Bool.not_eq_true', decide_eq_true_eq] at hp
        obtain rfl := eq_of_item? s hv hw hp.1
        exact .of_money (.takeOver owner (by rw [hp.1]) hstate hp.2.2 rfl rfl) rfl
  · split
    · next hstate =>
      split
      · exact rowsKept
      · next hlive =>
        split
        · exact rowsKept
        · refine forall₂_rowStep fun w hw hp => ?_
          simp only [Bool.and_eq_true, decide_eq_true_eq] at hp
          obtain rfl := eq_of_item? s hv hw hp.1
          exact .of_money (.steal owner (by rw [hp.1]) hstate.1 (by simpa using hlive) rfl rfl) rfl
    · refine forall₂_rowStep fun w hw hp => ?_
      simp only [Bool.and_eq_true, decide_eq_true_eq] at hp
      obtain rfl := eq_of_item? s hv hw hp.1
      exact .of_money (.extend hheld rfl rfl) rfl

theorem itemsStep_wfeBudgetReserve (id owner : String) : ItemsStep now s (.wfeBudgetReserve id owner) := by
  refine .update ?_
  simp only [Op.apply]
  unfold wfeBudgetReserve
  split
  · exact rowsKept
  · split
    · exact rowsKept
    · split
      · exact rowsKept
      · next root _ _ held hload =>
        obtain ⟨v, hv, -, -, rfl⟩ := loadRunnable_eq_some s hload
        split
        · next hheld => exact forall₂_reserveExisting now s owner root hv hheld
        · next hheld =>
          have hreserve : ∀ amount, ∀ w ∈ s.items.rows, w.workItemId = id →
              RowStep now s (.wfeBudgetReserve id owner) w
                { w with reservation :=
                  { reservedCostUsd := amount, state := .reserved, owner := owner
                    leaseUntil := some (leaseFrom now) } } := by
            intro amount w hw hid
            obtain rfl := eq_of_item? s hv hw hid
            exact .of_money (.reserve owner amount (by rw [hid]) (not_not.mp hheld) rfl rfl) rfl
          dsimp only
          split
          · split
            · exact rowsKept
            · refine forall₂_rowStep fun w hw hp => hreserve _ w hw ?_
              simp only [Bool.and_eq_true, decide_eq_true_eq] at hp
              exact hp.1
          · split
            · exact rowsKept
            · split
              · exact rowsKept
              · refine forall₂_rowStep fun w hw hp => hreserve _ w hw ?_
                simp only [Bool.and_eq_true, decide_eq_true_eq] at hp
                exact hp.1

theorem itemsStep_wfeBudgetReconcile (id owner : String) (actual : ℚ) :
    ItemsStep now s (.wfeBudgetReconcile id owner actual) := by
  refine .update ?_
  simp only [Op.apply]
  unfold wfeBudgetReconcile
  split
  · exact rowsKept
  · split
    · exact rowsKept
    · split
      · exact rowsKept
      · dsimp only
        split_ifs
        · exact rowsKept
        · exact rowsKept
        · exact rowsKept
        · exact rowsKept
        · refine forall₂_rowStep fun w _ hp => ?_
          simp only [Bool.and_eq_true, decide_eq_true_eq] at hp
          exact .of_money (.measure actual.toNNRat (by rw [Op.charged, hp.1]) hp.2.2 rfl rfl) rfl

theorem itemsStep_wfeParkRunnerFailure (id stage owner reason detail : String)
    (dispatched costKnown : Bool) (actual : ℚ) :
    ItemsStep now s (.wfeParkRunnerFailure id stage owner reason detail dispatched costKnown actual) := by
  refine .of_guard rfl fun hargs _ => ?_
  refine .of_update (by simp only [Op.apply, wfeParkRunnerFailure, if_neg hargs]; rfl) fun w hw hp => ?_
  have hid : w.workItemId = id := by simpa using hp
  refine .of_money ?_ rfl
  have hitem : s.item? id = some w := Table.find?_eq_some_iff.mpr ⟨hw, hid⟩
  cases dispatched with
  | false =>
    refine .settle 0 (.inr ⟨by simp [Op.charged], .inl rfl⟩) ?_ ?_
    · simp [runnerFailureMoney]
    · simp [runnerFailureMoney, clearReservation]
  | true =>
    cases costKnown with
    | true =>
      refine .settle actual.toNNRat (.inl (by simp [Op.charged, hid])) ?_ ?_
      · simp [runnerFailureMoney]
      · simp [runnerFailureMoney, clearReservation]
    | false =>
      refine .retain (runnerFailureMoney id owner true false actual s).1
        ⟨stage, owner, reason, detail, actual, by rw [hid]⟩ ?_ ?_ ?_
      · rw [runnerFailureMoney_unknown owner actual hitem]
        split_ifs
        · exact le_rfl
        · exact zero_le
      · simp [runnerFailureMoney_unknown owner actual hitem]
      · simp [runnerFailureMoney_unknown owner actual hitem]

theorem itemsStep_wfeRecoverLostReplay (id stage owner : String) :
    ItemsStep now s (.wfeRecoverLostReplay id stage owner) := by
  refine .update ?_
  simp only [Op.apply]
  unfold wfeRecoverLostReplay
  split
  · exact rowsKept
  · split
    · exact rowsKept
    · split
      · exact rowsKept
      · split
        · refine forall₂_rowStep fun w _ _ => ?_
          exact .of_money (.settle 0 (.inr ⟨rfl, .inl rfl⟩) (add_zero _).symm rfl) rfl
        · refine forall₂_rowStep fun w _ _ => ?_
          exact .of_money (.settle _ (.inr ⟨rfl, .inr rfl⟩) rfl rfl) rfl
        · exact rowsKept
        · exact rowsKept

theorem itemsStep_wfeRecordRequestedChanges (r : ReviewRound) (planStage : String) (cost : ℚ) :
    ItemsStep now s (.wfeRecordRequestedChanges r planStage cost) := by
  refine .update ?_
  simp only [Op.apply]
  unfold wfeRecordRequestedChanges
  split
  · exact rowsKept
  · split
    · exact rowsKept
    · dsimp only
      split_ifs
      all_goals
        refine forall₂_rowStep fun w _ hp => .of_money ?_ rfl
        have hid : w.workItemId = r.workItemId := by simpa using hp
        exact .settle cost.toNNRat (.inl (by rw [Op.charged, hid])) rfl rfl

theorem itemsStep_wfeParkBudgetTree (rootId id : String) (cost : ℚ) :
    ItemsStep now s (.wfeParkBudgetTree rootId id cost) := by
  refine .of_guard rfl fun hroot h => ?_
  refine .update ?_
  simp only [Op.apply, wfeParkBudgetTree, if_neg hroot]
  refine Table.forall₂_update ?_ fun w w' h _ => h.trans_ledger rfl
  split
  · next hcost =>
    refine forall₂_rowStep fun w _ hp => .of_money ?_ rfl
    have hid : w.workItemId = id := by simpa using hp
    exact .settle cost.toNNRat (.inl (by rw [Op.charged, if_pos hcost.1, hid])) rfl rfl
  · exact rowsKept

theorem rows_addTerminalEvents (ids : List String) (detail : String) :
    (s.addTerminalEvents ids detail).items = s.items := by
  unfold Store.addTerminalEvents
  generalize s.items.rows.filter _ = rows
  have hfold : ∀ t : Store, (rows.foldl (fun t w =>
      t.addEvent w.workItemId w.currentStage "terminal" "go-wfe" detail w.contentHash 0) t).items =
      t.items := by
    induction rows with
    | nil => exact fun _ => rfl
    | cons w rows ih => exact fun t => ih _
  exact hfold s

variable {now s} in
theorem ItemsStep.of_endActiveSet {op : Op} {ids : List String} {detail : String}
    (h : op.apply now s = (endActiveSet now ids detail s).1) : ItemsStep now s op := by
  by_cases hended : s.activeIn ids = []
  · exact .of_same (by rw [h, endActiveSet, if_pos hended])
  · have hrun : (endActiveSet now ids detail s).1.items.rows = s.items.rows.map fun w =>
        if w.workItemId ∈ s.activeIn ids && w.state = "active" then
          { w with state := "stopped", pauseReason := "", pausedState := "", updatedAt := now }
        else w := by
      simp only [endActiveSet, if_neg hended, Store.items_deleteFrozen, Store.updateItems, Table.update,
        rows_addTerminalEvents]
    refine .of_update (by rw [h]; exact hrun) fun w _ hp => ?_
    refine .of_state (fun _ => .inr (.inr ?_)) rfl
    simp only [Bool.and_eq_true, decide_eq_true_eq] at hp
    rw [h, endActiveSet, if_neg hended]
    intro c hc hid
    have hkept := (Table.mem_rows_delete.mp hc).2
    simp [hid, hp.1] at hkept

theorem itemsStep_wfeMove (id fromStage toStage kind detail hash : String) (cost : ℚ) :
    ItemsStep now s (.wfeMove id fromStage toStage kind detail hash cost) := by
  refine .of_guard rfl fun hargs h => ?_
  refine .of_guard h fun hrow _ => ?_
  refine .of_update (p := runsIn id fromStage) (f := fun w => { w with
    currentStage := toStage, contentHash := hash, pauseReason := "", pausedState := ""
    cumCostUsd := w.cumCostUsd + cost.toNNRat, reservation := clearReservation, updatedAt := now })
    ?_ fun w _ hp => .of_money ?_ rfl
  · simp only [Op.apply, wfeMove, if_neg hargs, if_neg hrow]
    split <;> rfl
  · simp only [runsIn, Bool.and_eq_true, decide_eq_true_eq] at hp
    exact .settle cost.toNNRat (.inl (by rw [Op.charged, hp.1])) rfl rfl

theorem itemsStep_wfeRecordRetry (id stage toStage detail : String) (maxAttempts : ℤ) (cost : ℚ) :
    ItemsStep now s (.wfeRecordRetry id stage toStage detail maxAttempts cost) := by
  refine .of_guard rfl fun _ h => ?_
  refine .of_guarded h rfl fun _ w _ hp => ?_
  refine .of_money ?_ rfl
  simp only [runsIn, Bool.and_eq_true, decide_eq_true_eq] at hp
  exact .settle cost.toNNRat (.inl (by rw [Op.charged, hp.1])) rfl rfl

theorem itemsStep_wfeParkWithDetail (id stage reason detail : String) (cost : ℚ) :
    ItemsStep now s (.wfeParkWithDetail id stage reason detail cost) := by
  refine .of_guard rfl fun _ h => ?_
  refine .of_guarded h rfl fun _ w _ hp => ?_
  refine .of_money ?_ rfl
  simp only [runsIn, Bool.and_eq_true, decide_eq_true_eq] at hp
  exact .settle cost.toNNRat (.inl (by rw [Op.charged, hp.1])) rfl rfl

theorem itemsStep_wfeFinish (id stage state detail hash : String) (cost : ℚ) :
    ItemsStep now s (.wfeFinish id stage state detail hash cost) := by
  refine .of_guard rfl fun hargs h => ?_
  refine .of_guarded h rfl fun hrow w _ hp => ?_
  simp only [Bool.and_eq_true, decide_eq_true_eq] at hp
  refine ⟨rfl, .settle cost.toNNRat (.inl (by rw [Op.charged, hp.1])) rfl rfl, .inl rfl, .inl rfl,
    fun _ => .inr (.inr ?_)⟩
  simp only [Op.apply, wfeFinish, if_neg hargs, if_neg hrow]
  intro c hc hid
  have hkept := (Table.mem_rows_delete.mp hc).2
  simp [hid, hp.1] at hkept

theorem itemsStep_wfeResume (id : String) : ItemsStep now s (.wfeResume id) := by
  refine .update ?_
  simp only [Op.apply]
  unfold wfeResume
  split
  · exact rowsKept
  · split
    · exact rowsKept
    · split
      · exact rowsKept
      · split
        · exact forall₂_rowStep fun w _ _ => .of_ledger rfl
        · exact forall₂_rowStep fun w _ _ => .of_ledger rfl

theorem items_wfeClaimFrozenCreates (parentId id : String) (creates : List (String × String)) :
    (wfeClaimFrozenCreates parentId id creates s).1.items = s.items := by
  unfold wfeClaimFrozenCreates
  split
  · rfl
  · split
    · rfl
    · split
      · rfl
      · split <;> rfl

theorem itemsStep_workItemSubmitCapped (id repo path name version stage submitter : String)
    (maxActive rateMax rateSecs : ℤ) :
    ItemsStep now s
      (.workItemSubmitCapped id repo path name version stage submitter maxActive rateMax rateSecs) := by
  refine .of_guard rfl fun hargs h => ?_
  refine .of_guard h fun hactive h => ?_
  refine .of_guard h fun hrate h => ?_
  refine .of_insertItem rfl (fun h => hargs (.inl h)) ?_
  simp only [Op.apply, workItemSubmitCapped, if_neg hargs, if_neg hactive, if_neg hrate]
  split
  · next h => rw [h]; rfl
  · next h => rw [h]; rfl

/-- A create request is refused, or its row is inserted and an event is added. -/
theorem wfeCreateWorkItem_cases (r : CreateRequest) :
    (wfeCreateWorkItem now r s).1 = s ∨
      ∃ t, r.workItemId ≠ "" ∧ s.insertItem (r.row now) = some t ∧ (wfeCreateWorkItem now r s).1 =
        t.addEvent r.workItemId r.startStage "create" "go-wfe" r.workflowName "" 0 := by
  unfold wfeCreateWorkItem
  split
  · exact .inl rfl
  · next hargs =>
    split
    · exact .inl rfl
    · split
      · exact .inl rfl
      · split
        · exact .inl rfl
        · next t ht => exact .inr ⟨t, fun h => hargs (.inl h), ht, rfl⟩

theorem itemsStep_wfeCreateWorkItem (r : CreateRequest) : ItemsStep now s (.wfeCreateWorkItem r) := by
  rcases wfeCreateWorkItem_cases now s r with hsame | ⟨t, hid, ht, hcreated⟩
  · exact .of_same (congrArg Store.items hsame)
  · refine .of_insertItem rfl hid ?_
    rw [Op.apply, hcreated, ht]
    rfl

theorem itemsStep_workItemCreate (id repo path name version stage mode : String) :
    ItemsStep now s (.workItemCreate id repo path name version stage mode) := by
  refine .of_guard rfl fun hid h => ?_
  refine .of_insertItem rfl hid ?_
  simp only [Op.apply, workItemCreate, if_neg hid]
  split
  · next h => rw [h]; rfl
  · next h => rw [h]; rfl

theorem itemsStep_workItemSetTerminal (id state : String) : ItemsStep now s (.workItemSetTerminal id state) := by
  refine .of_setField rfl fun w hid => .of_state (fun _ => ?_) rfl
  by_cases hactive : state = "active"
  · exact .inl hactive
  · exact .inr (.inl (by simp [Op.endsSilently, hactive, hid]))

theorem itemsStep_workItemIncOverride (id : String) : ItemsStep now s (.workItemIncOverride id) := by
  refine .of_guard rfl fun hid _ => ?_
  cases hitem : s.item? id with
  | none => exact .of_same (by simp only [Op.apply, workItemIncOverride, if_neg hid, hitem])
  | some v =>
    refine .of_update (by simp only [Op.apply, workItemIncOverride, if_neg hid, hitem]; rfl)
      fun _ _ _ => ?_
    exact .of_ledger rfl

theorem itemsStep_wfeAbandonExhaustedWallCaps (maxResumes graceSecs : ℤ) :
    ItemsStep now s (.wfeAbandonExhaustedWallCaps maxResumes graceSecs) := by
  refine .of_guarded rfl rfl fun _ w _ hp => ?_
  simp only [Bool.and_eq_true, decide_eq_true_eq] at hp
  exact .of_state (fun _ => .inr (.inl (by simp [Op.endsSilently, hp]))) rfl

theorem itemsStep_wfeBudgetHeartbeat (id owner : String) : ItemsStep now s (.wfeBudgetHeartbeat id owner) := by
  refine .of_guarded rfl rfl fun _ w _ hp => ?_
  refine .of_money (.extend (fun hnone => ?_) rfl rfl) rfl
  simp [reservationHeld, hnone] at hp

theorem itemsStep_wfeRejectGate (id stage hash : String) : ItemsStep now s (.wfeRejectGate id stage hash) := by
  refine .of_guard rfl fun _ h => ?_
  refine .of_guarded h rfl fun _ w _ hp => ?_
  simp only [atHumanGate, Bool.and_eq_true, decide_eq_true_eq] at hp
  exact .of_state (fun _ => .inr (.inl (by simp [Op.endsSilently, hp]))) rfl

end Ops

/-! ## Every operation -/

/-- An operation changes rows as `RowStep` lists, inserts one row, or deletes some. -/
theorem itemsStep_apply (now : Time) (s : Store) (op : Op) : ItemsStep now s op := by
  cases op with
  | workItemCreate id repo path name version stage mode =>
    exact itemsStep_workItemCreate now s id repo path name version stage mode
  | workItemSetStage => exact .of_setField rfl fun _ _ => .of_ledger rfl
  | workItemSetPRRef => exact .of_setField rfl fun _ _ => .of_ledger rfl
  | workItemSetWorktree => exact .of_setField rfl fun _ _ => .of_ledger rfl
  | workItemSetSubmitter => exact .of_setFieldChecked rfl fun _ _ => .of_ledger rfl
  | workItemSetParent id parentId =>
    refine .of_guard rfl fun _ h => ?_
    refine .of_setFieldChecked h fun w hid => ?_
    exact ⟨rfl, .keep rfl rfl, .inr ⟨parentId, by rw [hid]⟩, .inl rfl, fun h => .inl h⟩
  | workItemAbandonChildren parentId => exact itemsStep_workItemAbandonChildren now s parentId
  | workItemSubmitCapped id repo path name version stage submitter maxActive rateMax rateSecs =>
    exact itemsStep_workItemSubmitCapped now s id repo path name version stage submitter maxActive
      rateMax rateSecs
  | workItemSetTerminal id state => exact itemsStep_workItemSetTerminal now s id state
  | workItemGateApply id stage hash newStage state =>
    exact itemsStep_workItemGateApply now s id stage hash newStage state
  | workItemSetPause => exact .of_setField rfl fun _ _ => .of_ledger rfl
  | workItemClearPause => exact .of_setField rfl fun _ _ => .of_ledger rfl
  | workItemClearPauseIf => exact .of_guarded rfl rfl fun _ _ _ _ => .of_ledger rfl
  | workItemAddCost id cost =>
    refine .of_guard rfl fun _ h => ?_
    refine .of_setField h fun w hid => ?_
    exact .of_money (.spend cost.toNNRat (.inl ⟨cost, by rw [hid]⟩) rfl rfl) rfl
  | workItemSetCostCap id cap =>
    refine .of_guard rfl fun _ h => ?_
    refine .of_setField h fun w hid => ?_
    exact ⟨rfl, .keep rfl rfl, .inl rfl, .inr ⟨cap, by rw [hid]⟩, fun h => .inl h⟩
  | workItemIncOverride id => exact itemsStep_workItemIncOverride now s id
  | workItemDelete id =>
    refine .of_guard rfl fun hid _ => ?_
    exact .delete (· = id) (.inl ⟨id, rfl, rfl⟩) (by simp only [Op.apply, workItemDelete, if_neg hid])
  | workItemReapStaleParks graceSecs => exact itemsStep_workItemReapStaleParks now s graceSecs
  | lifecycleEventAdd | stageAttemptInc | stageAttemptReset =>
    refine .of_same ?_
    simp only [Op.apply, lifecycleEventAdd, stageAttemptInc, stageAttemptReset]
    split <;> rfl
  | workItemRecordOutcome id disposition cost nodeId kind detail hash =>
    exact itemsStep_workItemRecordOutcome now s id disposition cost nodeId kind detail hash
  | wfeResumeTransient => exact .of_guarded rfl rfl fun _ _ _ _ => .of_ledger rfl
  | wfeResumeWallCaps => exact .of_guarded rfl rfl fun _ _ _ _ => .of_ledger rfl
  | wfeAbandonExhaustedWallCaps maxResumes graceSecs =>
    exact itemsStep_wfeAbandonExhaustedWallCaps now s maxResumes graceSecs
  | wfeResumeReadyParents => exact .of_update rfl fun _ _ _ => .of_ledger rfl
  | wfeBudgetReserve id owner => exact itemsStep_wfeBudgetReserve now s id owner
  | wfeBudgetRelease =>
    exact .of_guarded rfl rfl fun _ _ _ _ =>
      .of_money (.settle 0 (.inr ⟨rfl, .inl rfl⟩) (add_zero _).symm rfl) rfl
  | wfeBudgetHeartbeat id owner => exact itemsStep_wfeBudgetHeartbeat now s id owner
  | wfeBudgetReconcile id owner actual => exact itemsStep_wfeBudgetReconcile now s id owner actual
  | wfeMove id fromStage toStage kind detail hash cost =>
    exact itemsStep_wfeMove now s id fromStage toStage kind detail hash cost
  | wfeRecordRetry id stage toStage detail maxAttempts cost =>
    exact itemsStep_wfeRecordRetry now s id stage toStage detail maxAttempts cost
  | wfeParkWithDetail id stage reason detail cost =>
    exact itemsStep_wfeParkWithDetail now s id stage reason detail cost
  | wfeResume id => exact itemsStep_wfeResume now s id
  | wfeFinish id stage state detail hash cost =>
    exact itemsStep_wfeFinish now s id stage state detail hash cost
  | wfeStopTree | wfeReconcileOrphans => exact .of_guard rfl fun _ h => .of_endActiveSet h
  | wfeParkBudgetTree rootId id cost => exact itemsStep_wfeParkBudgetTree now s rootId id cost
  | wfeDeleteTree id =>
    refine .of_guard rfl fun hid _ => ?_
    exact .delete (· ∈ s.tree id) (.inr ⟨id, rfl, rfl⟩)
      (by simp only [Op.apply, wfeDeleteTree, if_neg hid])
  | wfeResolveGate => exact .of_guard rfl fun _ h => .of_guarded h rfl fun _ _ _ _ => .of_ledger rfl
  | wfeRejectGate id stage hash => exact itemsStep_wfeRejectGate now s id stage hash
  | wfeParkRunnerFailure id stage owner reason detail dispatched costKnown actual =>
    exact itemsStep_wfeParkRunnerFailure now s id stage owner reason detail dispatched costKnown actual
  | wfeRecoverLostReplay id stage owner => exact itemsStep_wfeRecoverLostReplay now s id stage owner
  | wfeRecordRequestedChanges r planStage cost =>
    exact itemsStep_wfeRecordRequestedChanges now s r planStage cost
  | wfeClaimFrozenCreates parentId id creates => exact .of_same (items_wfeClaimFrozenCreates s parentId id creates)
  | wfeCreateWorkItem r => exact itemsStep_wfeCreateWorkItem now s r

/-- A row after an operation comes from a row before it, or the operation inserted it. -/
theorem item?_apply {now : Time} {s : Store} {op : Op} {w' : WorkItem}
    (h : (op.apply now s).item? id = some w') :
    (∃ w, s.item? id = some w ∧ RowStep now s op w w') ∨
      op.inserts now = some w' ∧ id ≠ "" ∧ s.item? id = none := by
  cases itemsStep_apply now s op with
  | update hrows => exact .inl (Table.exists_find?_of_forall₂ (fun _ _ hstep => hstep.id) hrows h)
  | insert w hop hne _ hnone hrows =>
    obtain ⟨hmem, hid⟩ := Table.find?_eq_some_iff.mp h
    rw [hrows, List.mem_append, List.mem_singleton] at hmem
    rcases hmem with hmem | rfl
    · exact .inl ⟨w', Table.find?_eq_some_iff.mpr ⟨hmem, hid⟩, .refl w'⟩
    · exact .inr ⟨hop, hid ▸ hne, hid ▸ hnone⟩
  | delete p hop hrows =>
    rw [Store.item?, hrows, Table.find?_delete] at h
    exact .inl ⟨w', (Option.filter_eq_some_iff.mp h).1, .refl w'⟩

/-- A row that an operation does not delete is there after it. -/
theorem exists_item?_apply {now : Time} {s : Store} {op : Op} {w : WorkItem}
    (hdelete : ∀ id, op ≠ .workItemDelete id ∧ op ≠ .wfeDeleteTree id) (h : s.item? id = some w) :
    ∃ w', (op.apply now s).item? id = some w' ∧ RowStep now s op w w' := by
  cases itemsStep_apply now s op with
  | update hrows =>
    refine Table.exists_find?_of_forall₂ (R := fun w' w => RowStep now s op w w')
      (fun _ _ hstep => hstep.id.symm) hrows.flip h
  | insert v hop _ _ hnone hrows =>
    obtain ⟨hmem, hid⟩ := Table.find?_eq_some_iff.mp h
    refine ⟨w, Table.find?_eq_some_iff.mpr ⟨?_, hid⟩, .refl w⟩
    rw [hrows]
    exact List.mem_append_left _ hmem
  | delete p hop hrows =>
    rcases hop with ⟨id, hop, -⟩ | ⟨id, hop, -⟩
    · exact absurd hop (hdelete id).1
    · exact absurd hop (hdelete id).2

theorem reservation_of_inserts {now : Time} {op : Op} {w : WorkItem} (h : op.inserts now = some w) :
    w.reservation = clearReservation := by
  cases op <;> cases h <;> rfl

/-! ## Rows of reachable stores -/

theorem Reachable.id_ne_empty {s : Store} (h : Reachable s) {w : WorkItem}
    (hw : s.item? id = some w) : id ≠ "" := by
  induction h generalizing id w with
  | empty => cases hw
  | step now op _ ih =>
    rcases item?_apply hw with ⟨v, hv, -⟩ | ⟨-, hid, -⟩
    · exact ih hv
    · exact hid

/-- Without a reservation, its columns have their defaults. -/
theorem MoneyStep.cleared {now : Time} {op : Op} {w w' : WorkItem} (h : MoneyStep now op w w')
    (hw : w.reservation.state = .none → w.reservation = clearReservation)
    (hw' : w'.reservation.state = .none) : w'.reservation = clearReservation := by
  cases h with
  | keep _ hres | spend _ _ _ hres =>
    rw [hres] at hw' ⊢
    exact hw hw'
  | settle _ _ _ hres => exact hres
  | extend hstate _ hres =>
    rw [hres] at hw'
    exact absurd hw' hstate
  | takeOver _ _ hstate _ _ hres =>
    rw [hres] at hw'
    rcases hstate with hstate | hstate <;> exact absurd (hstate.symm.trans hw') (by decide)
  | reserve _ _ _ _ _ hres | steal _ _ _ _ _ hres | measure _ _ _ _ hres | retain _ _ _ _ hres =>
    rw [hres] at hw'
    cases hw'

theorem Reachable.cleared {s : Store} (h : Reachable s) {w : WorkItem}
    (hw : s.item? id = some w) (hstate : w.reservation.state = .none) :
    w.reservation = clearReservation := by
  induction h generalizing id w with
  | empty => cases hw
  | step now op _ ih =>
    rcases item?_apply hw with ⟨v, hv, hstep⟩ | ⟨hop, -⟩
    · exact hstep.money.cleared (ih hv) hstate
    · exact reservation_of_inserts hop

end Workflow
