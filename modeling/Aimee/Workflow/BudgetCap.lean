-- SUMMARY: The cap of a tree bounds what its work items have spent and reserved, along every run that commits within its reservations.
import Mathlib.Algebra.Order.Ring.NNRat
import Mathlib.Algebra.Order.Field.Basic
import Mathlib.Tactic.Linarith
import Aimee.Workflow.Rows

/-!
# The cap of a tree

A share is granted out of what the cap of the root leaves over the spend and the reservations of
its whole tree. Every other operation moves a reservation into the spend, lowers or drops it, as
long as no cost is committed above its reservation. The tree itself grows by the children that are
created under it; a child whose identifier an older row already names as its parent brings that
row's subtree along, with whatever was spent there.
-/

namespace Workflow

/-! ## The tree -/

/-- What a row has spent and reserved. -/
def WorkItem.total (w : WorkItem) : ℚ≥0 := w.cumCostUsd + w.reservation.reservedCostUsd

namespace Store

/-- What a tree has spent and reserved. -/
def treeTotal (s : Store) (rootId : String) : ℚ≥0 := s.treeSpent rootId + s.treeReserved rootId

theorem treeTotal_eq (s : Store) (rootId : String) :
    s.treeTotal rootId = ((s.treeItems rootId).map WorkItem.total).sum := by
  unfold treeTotal treeSpent treeReserved
  induction s.treeItems rootId with
  | nil => simp
  | cons w rows ih =>
    simp only [List.map_cons, List.sum_cons, ← ih, WorkItem.total]
    exact add_add_add_comm _ _ _ _

/-- `w` is the parent row of `v`. -/
def Climb (s : Store) (v w : WorkItem) : Prop := w ∈ s.items.rows ∧ w.workItemId = v.parentId

theorem climb_unique (s : Store) : Relator.RightUnique s.Climb :=
  fun _ _ _ hv hw => s.items.eq_of_key hv.1 hw.1 (hv.2.trans hw.2.symm)

theorem climb_of_mem_tree {s : Store} {rootId : String} {root : WorkItem}
    (hroot : s.item? rootId = some root) {id : String} (h : Relation.ReflTransGen s.ChildOf rootId id) :
    ∃ w, s.item? id = some w ∧ Relation.ReflTransGen s.Climb w root := by
  induction h with
  | refl => exact ⟨root, hroot, .refl⟩
  | tail _ hchild ih =>
    obtain ⟨v, hv, hclimb⟩ := ih
    obtain ⟨w, hw, hparent, rfl⟩ := hchild
    refine ⟨w, Table.find?_of_mem hw, .head ⟨Table.mem_of_find? hv, ?_⟩ hclimb⟩
    rw [hparent, workItemId_of_item? hv]

theorem budgetRoot_of_mem_tree {s : Store} (hids : ∀ w ∈ s.items.rows, w.workItemId ≠ "")
    {rootId id : String} {root : WorkItem} (hroot : s.item? rootId = some root) (hparent : root.parentId = "")
    (hmem : id ∈ s.tree rootId) : s.budgetRoot id = some root := by
  obtain ⟨w, hw, hclimb⟩ := climb_of_mem_tree hroot (mem_tree.mp hmem)
  have htop : ∀ {v : WorkItem}, v.parentId = "" → ∀ {u}, ¬s.Climb v u :=
    fun hv _ hu => hids _ hu.1 (hu.2.trans hv)
  cases hfind : s.budgetRoot id with
  | none =>
    have hmem : root ∈ s.ancestors id := mem_ancestors.mpr ⟨w, hw, hclimb⟩
    exact absurd (decide_eq_true hparent) (List.find?_eq_none.mp hfind root hmem)
  | some v =>
    obtain ⟨w', hw', hclimb'⟩ := mem_ancestors.mp (List.mem_of_find?_eq_some hfind)
    obtain rfl : w' = w := Option.some.inj (hw'.symm.trans hw)
    have hvparent : v.parentId = "" := by simpa using List.find?_some hfind
    -- Both rows end the one climb from the work item.
    rcases Relation.ReflTransGen.total_of_right_unique s.climb_unique hclimb hclimb' with h | h
    · rcases Relation.ReflTransGen.cases_head h with rfl | ⟨_, hstep, -⟩
      · rfl
      · exact absurd hstep (htop hparent)
    · rcases Relation.ReflTransGen.cases_head h with rfl | ⟨_, hstep, -⟩
      · rfl
      · exact absurd hstep (htop hvparent)

/-- The tree depends on the identifiers and the parents of the rows alone. -/
theorem mem_tree_congr {s t : Store}
    (h : List.Forall₂ (fun w w' => w'.workItemId = w.workItemId ∧ w'.parentId = w.parentId)
      s.items.rows t.items.rows) (rootId id : String) : id ∈ t.tree rootId ↔ id ∈ s.tree rootId := by
  have hchild : t.ChildOf = s.ChildOf := by
    funext a b
    refine propext ⟨?_, ?_⟩
    · rintro ⟨w', hw', hparent, hid⟩
      obtain ⟨w, hw, hid', hparent'⟩ := Table.exists_mem_of_forall₂ h hw'
      exact ⟨w, hw, hparent'.symm.trans hparent, hid'.symm.trans hid⟩
    · rintro ⟨w, hw, hparent, hid⟩
      obtain ⟨w', hw', hid', hparent'⟩ := Table.exists_mem_of_forall₂ h.flip hw
      exact ⟨w', hw', hparent'.trans hparent, hid'.trans hid⟩
  rw [mem_tree, mem_tree, hchild]

/-- A new row that no older row names as its parent adds at most itself to a tree. -/
theorem mem_tree_of_insert {s t : Store} {w : WorkItem} (hrows : t.items.rows = s.items.rows ++ [w])
    (hfresh : ∀ v ∈ s.items.rows, v.parentId ≠ w.workItemId)
    {rootId id : String} (hid : id ≠ w.workItemId) : id ∈ t.tree rootId ↔ id ∈ s.tree rootId := by
  rw [mem_tree, mem_tree]
  constructor
  · intro h
    have hcases : id = w.workItemId ∨ Relation.ReflTransGen s.ChildOf rootId id := by
      clear hid
      induction h with
      | refl => exact .inr .refl
      | tail _ hchild ih =>
        obtain ⟨v, hv, hparent, hchildId⟩ := hchild
        rw [hrows, List.mem_append, List.mem_singleton] at hv
        rcases hv with hv | rfl
        · rcases ih with hold | hold
          · exact absurd (hparent.trans hold) (hfresh v hv)
          · exact .inr (hold.tail ⟨v, hv, hparent, hchildId⟩)
        · exact .inl hchildId.symm
    exact hcases.resolve_left hid
  · refine Relation.ReflTransGen.mono ?_ _ _
    rintro a b ⟨v, hv, hv'⟩
    exact ⟨v, by rw [hrows]; exact List.mem_append_left _ hv, hv'⟩

end Store

/-! ## The conditions of a run -/

/-- The operations by which engines share the budget of a tree. -/
def Op.budgeted : Op → Bool
  | .wfeBudgetReserve .. | .wfeBudgetRelease .. | .wfeBudgetHeartbeat .. | .wfeBudgetReconcile ..
  | .wfeMove .. | .wfeRecordRetry .. | .wfeParkWithDetail .. | .wfeFinish .. | .wfeParkRunnerFailure ..
  | .wfeRecoverLostReplay .. | .wfeRecordRequestedChanges .. | .wfeParkBudgetTree .. | .wfeStopTree ..
  | .wfeCreateWorkItem .. => true
  | _ => false

/-- A cost that the operation commits or reconciles is at most what the row has reserved. -/
def Op.withinReserved (now : Time) (op : Op) (s : Store) : Prop :=
  ∀ id d w, op.charged = some (id, d) → s.item? id = some w → (op.apply now s).item? id ≠ some w →
    d ≤ w.reservation.reservedCostUsd

/-- A created work item takes an identifier that no row names as its parent. -/
def Op.freshParent (op : Op) (s : Store) : Prop :=
  ∀ r, op = .wfeCreateWorkItem r → ∀ v ∈ s.items.rows, v.parentId ≠ r.workItemId

theorem Op.withinReserved.of_charged_none {now : Time} {op : Op} {s : Store} (h : op.charged = none) :
    op.withinReserved now s := by
  intro id d w hd
  rw [h] at hd
  cases hd

theorem Op.freshParent.of_not_create {op : Op} {s : Store} (h : ∀ r, op ≠ .wfeCreateWorkItem r) :
    op.freshParent s :=
  fun r hr => absurd hr (h r)

/-- What is left of the cap, divided by the runs that may ask for a share. -/
def Store.budgetShare (s : Store) (root : WorkItem) : ℚ≥0 :=
  ((root.workItemMaxCostUsd - s.treeSpent root.workItemId - s.treeReserved root.workItemId : ℚ) /
    max 1 (s.treeRunnable root.workItemId)).toNNRat

/-! ## One row -/

/-- A step that grants no share does not raise the total of a row. -/
theorem MoneyStep.total_le {now : Time} {op : Op} {w w' : WorkItem} (h : MoneyStep now op w w')
    (hop : op.budgeted)
    (hwithin : ∀ d, op.charged = some (w.workItemId, d) → w' ≠ w → d ≤ w.reservation.reservedCostUsd)
    (hgrant : ∀ owner, op = .wfeBudgetReserve w.workItemId owner → w.reservation.state ≠ .none) :
    w'.total ≤ w.total := by
  by_cases hsame : w' = w
  · rw [hsame]
  unfold WorkItem.total
  cases h with
  | keep hcost hres | extend _ hcost hres | takeOver _ _ _ _ hcost hres | steal _ _ _ _ hcost hres =>
    rw [hcost, hres]
  | spend _ hop' =>
    rcases hop' with ⟨_, rfl⟩ | ⟨_, _, _, _, _, _, rfl⟩ <;> cases hop
  | settle d hd hcost hres =>
    have hle : d ≤ w.reservation.reservedCostUsd := by
      rcases hd with hd | ⟨-, rfl | rfl⟩
      · exact hwithin d hd hsame
      · exact zero_le
      · exact le_rfl
    rw [hcost, hres, add_assoc]
    exact add_le_add_right (by simpa [clearReservation] using hle) _
  | reserve owner _ hop' hstate => exact absurd hstate (hgrant owner hop')
  | measure actual hop' _ hcost hres =>
    rw [hcost, hres]
    exact add_le_add_right (hwithin actual hop' hsame) _
  | retain amount _ hamount hcost hres =>
    rw [hcost, hres]
    exact add_le_add_right hamount _

/-! ## Shares -/

section Shares

variable {now : Time} {s : Store} {id owner : String} {root w : WorkItem}

/-- What is left of the cap. -/
theorem remaining_eq (s : Store) (root : WorkItem) :
    (root.workItemMaxCostUsd - s.treeSpent root.workItemId - s.treeReserved root.workItemId : ℚ) =
      root.workItemMaxCostUsd - s.treeTotal root.workItemId := by
  rw [Store.treeTotal, NNRat.coe_add, sub_sub]

theorem share_le (h : s.treeTotal root.workItemId ≤ root.workItemMaxCostUsd) :
    s.treeTotal root.workItemId + s.budgetShare root ≤ root.workItemMaxCostUsd := by
  have hleft : (0 : ℚ) ≤ root.workItemMaxCostUsd - s.treeTotal root.workItemId :=
    sub_nonneg.mpr (NNRat.coe_le_coe.mpr h)
  have hruns : (1 : ℚ) ≤ max 1 (s.treeRunnable root.workItemId) := by
    exact_mod_cast le_max_left 1 _
  have hshare : (s.budgetShare root : ℚ) ≤ root.workItemMaxCostUsd - s.treeTotal root.workItemId := by
    rw [Store.budgetShare, remaining_eq, Rat.coe_toNNRat _ (div_nonneg hleft (zero_le_one.trans hruns))]
    exact div_le_self hleft hruns
  rw [← NNRat.coe_le_coe, NNRat.coe_add]
  linarith

section

variable (hroot : s.budgetRoot id = some root)
include hroot

/-- Without a reservation, a capped tree refuses or grants a share of what is left. -/
theorem wfeBudgetReserve_capped (hcap : 0 < root.workItemMaxCostUsd)
    (hw : s.item? id = some w) (hnone : w.reservation.state = .none) :
    ((wfeBudgetReserve now id owner s).1 = s ∧
      ∀ reply, (wfeBudgetReserve now id owner s).2 = .ok reply → reply.allowed = false) ∨
    (0 : ℚ) < root.workItemMaxCostUsd - s.treeSpent root.workItemId - s.treeReserved root.workItemId ∧
      (wfeBudgetReserve now id owner s).1.item? id = some { w with reservation :=
        { reservedCostUsd := s.budgetShare root, state := .reserved, owner := owner
          leaseUntil := some (leaseFrom now) } } ∧
      ∀ reply, (wfeBudgetReserve now id owner s).2 = .ok reply → reply.amount = s.budgetShare root := by
  unfold wfeBudgetReserve
  rw [hroot]
  split
  · exact .inl ⟨rfl, nofun⟩
  · dsimp only
    split
    · exact .inl ⟨rfl, nofun⟩
    · next held hload =>
      obtain ⟨v, hv, -, -, rfl⟩ := loadRunnable_eq_some s hload
      obtain rfl : v = w := Option.some.inj (hv.symm.trans hw)
      rw [if_neg (not_not.mpr hnone), if_neg (not_le.mpr hcap)]
      split
      · refine .inl ⟨rfl, ?_⟩
        rintro reply ⟨⟩
        rfl
      · next hleft =>
        split
        · exact .inl ⟨rfl, nofun⟩
        · next hmatched =>
          obtain ⟨u, hu, hhit⟩ := (Table.matched_key_eq_one_iff s.items id _).mp (not_not.mp hmatched)
          obtain rfl : u = v := Option.some.inj (hu.symm.trans hv)
          refine .inr ⟨not_le.mp hleft, ?_, ?_⟩
          · refine Store.item?_updateItems_of_hit hv ?_
            simpa [Store.workItemId_of_item? hv] using hhit
          · rintro reply ⟨⟩
            rfl

/-- A row without a reservation gains at most a share. -/
theorem total_le_share (hcap : 0 < root.workItemMaxCostUsd)
    (hw : s.item? id = some w) (hnone : w.reservation.state = .none) {w' : WorkItem}
    (hw' : (wfeBudgetReserve now id owner s).1.item? id = some w') :
    w'.total ≤ w.total + s.budgetShare root := by
  rcases wfeBudgetReserve_capped hroot hcap hw hnone with ⟨hsame, -⟩ | ⟨-, hrow, -⟩
  · rw [hsame, hw, Option.some_inj] at hw'
    rw [hw']
    exact le_add_of_nonneg_right zero_le
  · rw [hrow, Option.some_inj] at hw'
    rw [← hw', WorkItem.total]
    exact add_le_add_left (le_add_of_nonneg_right zero_le) _

theorem share_pos (hcap : 0 < root.workItemMaxCostUsd)
    (hw : s.item? id = some w) (hnone : w.reservation.state = .none) {reply : BudgetReply}
    (h : (wfeBudgetReserve now id owner s).2 = .ok reply) (hallowed : reply.allowed) : 0 < reply.amount := by
  rcases wfeBudgetReserve_capped hroot hcap hw hnone with ⟨-, hrefused⟩ | ⟨hleft, -, hgranted⟩
  · rw [hrefused reply h] at hallowed
    cases hallowed
  · rw [hgranted reply h, Store.budgetShare, Rat.toNNRat_pos]
    have hruns : (0 : ℚ) < max 1 (s.treeRunnable root.workItemId) := by
      exact_mod_cast lt_max_of_lt_left one_pos
    exact div_pos hleft hruns

end

end Shares

/-! ## One step -/

/-- The total of a tree gains at most what one of its rows gains. -/
theorem treeTotal_le_of_rows {s t : Store} {rootId k : String} {x : ℚ≥0}
    (h : List.Forall₂ (fun w w' => w'.workItemId = w.workItemId ∧ w'.parentId = w.parentId ∧
      (w.workItemId ∈ s.tree rootId → w'.total ≤ w.total + if w.workItemId = k then x else 0))
      s.items.rows t.items.rows) :
    t.treeTotal rootId ≤ s.treeTotal rootId + x := by
  have htree := Store.mem_tree_congr (h.imp fun _ _ h => ⟨h.1, h.2.1⟩) rootId
  rw [s.treeTotal_eq, t.treeTotal_eq, Store.treeItems]
  have hfilter : (t.items.rows.filter fun w => w.workItemId ∈ t.tree rootId) =
      t.items.rows.filter fun w => w.workItemId ∈ s.tree rootId := by
    refine List.filter_congr fun w _ => ?_
    simp only [htree]
  rw [hfilter]
  refine Table.sum_filter_le (k := k) s.items.nodup (fun id => decide (id ∈ s.tree rootId)) WorkItem.total
    zero_le ?_
  exact h.imp fun w w' h => ⟨h.1, fun hmem => h.2.2 (of_decide_eq_true hmem)⟩

/-- The invariant of a run: the root is there with its cap, and the tree keeps within it. -/
structure CappedTree (rootId : String) (cap : ℚ≥0) (s : Store) : Prop where
  reachable : Reachable s
  root : ∃ root, s.item? rootId = some root ∧ root.parentId = "" ∧ root.workItemMaxCostUsd = cap
  total : s.treeTotal rootId ≤ cap

section Step

variable {rootId : String} {cap : ℚ≥0} {now : Time} {s : Store} {op : Op}

theorem budgeted_not_delete (hop : op.budgeted) (id : String) :
    op ≠ .workItemDelete id ∧ op ≠ .wfeDeleteTree id := by
  constructor <;> (rintro rfl; cases hop)

theorem RowStep.parent_of_budgeted {w w' : WorkItem} (h : RowStep now s op w w') (hop : op.budgeted) :
    w'.parentId = w.parentId := by
  rcases h.parent with h | ⟨_, rfl⟩
  · exact h
  · cases hop

theorem CappedTree.root_apply (h : CappedTree rootId cap s) (hop : op.budgeted) :
    ∃ root, (op.apply now s).item? rootId = some root ∧ root.parentId = "" ∧
      root.workItemMaxCostUsd = cap := by
  obtain ⟨root, hroot, hparent, hcap⟩ := h.root
  obtain ⟨root', hroot', hstep⟩ : ∃ root', (op.apply now s).item? rootId = some root' ∧
      RowStep now s op root root' := exists_item?_apply (budgeted_not_delete hop) hroot
  refine ⟨root', hroot', (hstep.parent_of_budgeted hop).trans hparent, ?_⟩
  rcases hstep.cap with h | ⟨_, rfl⟩
  · exact h.trans hcap
  · cases hop

theorem Reachable.budgetRoot (h : Reachable s) {id : String} {root : WorkItem}
    (hroot : s.item? rootId = some root) (hparent : root.parentId = "") (hmem : id ∈ s.tree rootId) :
    s.budgetRoot id = some root :=
  Store.budgetRoot_of_mem_tree (fun _ hw => h.id_ne_empty (Table.find?_of_mem hw)) hroot hparent hmem

/-- The rows of the tree gain a share at most, and that only under a reservation. -/
theorem CappedTree.total_update (h : CappedTree rootId cap s) (hcap : 0 < cap) (hop : op.budgeted)
    (hwithin : op.withinReserved now s)
    (hrows : List.Forall₂ (RowStep now s op) s.items.rows (op.apply now s).items.rows) :
    (op.apply now s).treeTotal rootId ≤ cap := by
  have hrow : ∀ w w', w ∈ s.items.rows → w' ∈ (op.apply now s).items.rows → RowStep now s op w w' →
      (∀ owner, op = .wfeBudgetReserve w.workItemId owner → w.reservation.state ≠ .none) →
      w'.total ≤ w.total := by
    intro w w' hw hw' hstep hgrant
    refine hstep.money.total_le hop (fun d hd hne => ?_) hgrant
    refine hwithin w.workItemId d w hd (Table.find?_of_mem hw) fun hsame => hne ?_
    have hafter : (op.apply now s).item? w.workItemId = some w' :=
      Table.find?_eq_some_iff.mpr ⟨hw', hstep.id⟩
    exact Option.some.inj (hafter.symm.trans hsame)
  by_cases hreserve : ∃ id owner, op = .wfeBudgetReserve id owner
  · obtain ⟨id, owner, rfl⟩ := hreserve
    obtain ⟨root, hroot, hparent, hrootcap⟩ := h.root
    have hrootid := Store.workItemId_of_item? hroot
    have htotal : s.treeTotal root.workItemId ≤ root.workItemMaxCostUsd := by
      rw [hrootid, hrootcap]
      exact h.total
    have hle := share_le htotal
    rw [hrootid, hrootcap] at hle
    refine le_trans (treeTotal_le_of_rows (k := id) ((Table.forall₂_mem hrows).imp ?_)) hle
    rintro w w' ⟨hw, hw', hstep⟩
    refine ⟨hstep.id, hstep.parent_of_budgeted hop, fun hmem => ?_⟩
    by_cases hgrant : w.workItemId = id ∧ w.reservation.state = .none
    · obtain ⟨rfl, hnone⟩ := hgrant
      rw [if_pos rfl]
      exact total_le_share (h.reachable.budgetRoot hroot hparent hmem) (hrootcap ▸ hcap)
        (Table.find?_of_mem hw) hnone (Table.find?_eq_some_iff.mpr ⟨hw', hstep.id⟩)
    · refine le_add_of_le_of_nonneg (hrow w w' hw hw' hstep fun owner' hop' => ?_) zero_le
      rw [Op.wfeBudgetReserve.injEq] at hop'
      exact fun hnone => hgrant ⟨hop'.1.symm, hnone⟩
  · have hle : (op.apply now s).treeTotal rootId ≤ s.treeTotal rootId + 0 := by
      refine treeTotal_le_of_rows (k := "") ((Table.forall₂_mem hrows).imp ?_)
      rintro w w' ⟨hw, hw', hstep⟩
      refine ⟨hstep.id, hstep.parent_of_budgeted hop, fun _ => ?_⟩
      refine le_add_of_le_of_nonneg (hrow w w' hw hw' hstep fun owner hop' => ?_) zero_le
      exact absurd ⟨_, owner, hop'⟩ hreserve
    rw [add_zero] at hle
    exact hle.trans h.total

/-- A created work item brings nothing but itself into the tree. -/
theorem CappedTree.total_insert (h : CappedTree rootId cap s) {w : WorkItem}
    (hrows : (op.apply now s).items.rows = s.items.rows ++ [w]) (hzero : w.total = 0)
    (hnone : s.item? w.workItemId = none) (hfresh : ∀ v ∈ s.items.rows, v.parentId ≠ w.workItemId) :
    (op.apply now s).treeTotal rootId ≤ cap := by
  have hold : (s.items.rows.filter fun v => v.workItemId ∈ (op.apply now s).tree rootId) =
      s.treeItems rootId := by
    refine List.filter_congr fun v hv => ?_
    have hne : v.workItemId ≠ w.workItemId := Table.find?_eq_none_iff.mp hnone v hv
    simp only [Store.mem_tree_of_insert hrows hfresh hne]
  have hsum : (op.apply now s).treeTotal rootId = s.treeTotal rootId := by
    rw [Store.treeTotal_eq, Store.treeTotal_eq, Store.treeItems, hrows, List.filter_append, hold,
      List.map_append, List.sum_append]
    simp only [List.filter_cons, List.filter_nil]
    split <;> simp [hzero]
  rw [hsum]
  exact h.total

theorem CappedTree.apply (h : CappedTree rootId cap s) (hcap : 0 < cap) (hop : op.budgeted)
    (hwithin : op.withinReserved now s) (hfresh : op.freshParent s) :
    CappedTree rootId cap (op.apply now s) := by
  refine ⟨.step now op h.reachable, h.root_apply hop, ?_⟩
  cases itemsStep_apply now s op with
  | update hrows => exact h.total_update hcap hop hwithin hrows
  | insert w hinsert _ _ hnone hrows =>
    cases op with
    | wfeCreateWorkItem r =>
      cases hinsert
      exact h.total_insert hrows (add_zero 0) hnone (hfresh r rfl)
    | _ => cases hinsert <;> cases hop
  | delete p hdelete =>
    rcases hdelete with ⟨id, rfl, -⟩ | ⟨id, rfl, -⟩ <;> cases hop

end Step

/-! ## Runs -/

/-- What the cap promises in a store: the tree keeps within it, and a share granted is positive. -/
structure WithinCap (rootId : String) (cap : ℚ≥0) (s : Store) : Prop where
  total : s.treeSpent rootId + s.treeReserved rootId ≤ cap
  share : ∀ (now : Time) (id owner : String) (w : WorkItem) (reply : BudgetReply), id ∈ s.tree rootId →
    s.item? id = some w → w.reservation.state = .none →
    (wfeBudgetReserve now id owner s).2 = .ok reply → reply.allowed → 0 < reply.amount

theorem CappedTree.withinCap {rootId : String} {cap : ℚ≥0} {s : Store} (h : CappedTree rootId cap s)
    (hcap : 0 < cap) : WithinCap rootId cap s where
  total := h.total
  share now id owner w reply hmem hw hnone hreply hallowed := by
    obtain ⟨root, hroot, hparent, hrootcap⟩ := h.root
    exact share_pos (h.reachable.budgetRoot hroot hparent hmem) (hrootcap ▸ hcap) hw hnone hreply hallowed

theorem AlongRun.imp {P Q : Store → Prop} (h : ∀ s, P s → Q s) {s : Store} {steps : List (Time × Op)}
    (hP : AlongRun P s steps) : AlongRun Q s steps := by
  induction steps generalizing s with
  | nil => exact h s hP
  | cons step steps ih => exact ⟨h s hP.1, ih hP.2⟩

/-- A tree that keeps within the cap of its root does so along every run of the budgeted operations
    that commit within their reservations and whose created work items take fresh identifiers. -/
theorem withinCap_of_steps {s : Store} (hs : Reachable s) {rootId : String} {root : WorkItem}
    (hroot : s.item? rootId = some root) (hparent : root.parentId = "")
    (hcap : 0 < root.workItemMaxCostUsd)
    (htotal : s.treeSpent rootId + s.treeReserved rootId ≤ root.workItemMaxCostUsd)
    {steps : List (Time × Op)}
    (hsteps : StepsMeet (fun now op s => op.budgeted ∧ op.withinReserved now s ∧ op.freshParent s) s steps) :
    AlongRun (WithinCap rootId root.workItemMaxCostUsd) s steps := by
  have hinv : AlongRun (CappedTree rootId root.workItemMaxCostUsd) s steps := by
    refine AlongRun.of_steps ?_ ⟨hs, ⟨root, hroot, hparent, rfl⟩, htotal⟩ hsteps
    rintro now op t ht ⟨hop, hwithin, hfresh⟩
    exact ht.apply hcap hop hwithin hfresh
  exact hinv.imp fun t ht => ht.withinCap hcap

/-- An engine reserves, a slice is created, and the run moves on within its reservation. -/
def movingRun : List (Time × Op) :=
  [(0, .wfeBudgetReserve "item" "first"), (1, .wfeCreateWorkItem sliceRequest),
    (10, .wfeMove "item" "plan" "build" "advance" "" "" 4)]

theorem movingRun_withinCap :
    AlongRun (WithinCap "item" 10) (Store.empty.run [(0, .wfeCreateWorkItem sampleRequest)]) movingRun := by
  have hroot : (Store.empty.run [(0, .wfeCreateWorkItem sampleRequest)]).item? "item" =
      some (sampleRequest.row 0) := by
    decide
  refine withinCap_of_steps (Reachable.empty.run _) hroot rfl (by decide +kernel) (by decide +kernel) ?_
  refine .cons ⟨rfl, .of_charged_none rfl, .of_not_create nofun⟩ ?_
  refine .cons ⟨rfl, .of_charged_none rfl, ?_⟩ (.cons ⟨rfl, ?_, .of_not_create nofun⟩ trivial)
  · intro r hr
    cases hr
    decide +kernel
  · intro id d w hd hw _
    cases hd
    have hitem : (Store.empty.run [(0, .wfeCreateWorkItem sampleRequest),
        (0, .wfeBudgetReserve "item" "first"), (1, .wfeCreateWorkItem sliceRequest)]).item? "item" =
        some w := hw
    have hreserved : ((Store.empty.run [(0, .wfeCreateWorkItem sampleRequest),
        (0, .wfeBudgetReserve "item" "first"), (1, .wfeCreateWorkItem sliceRequest)]).item? "item").map
        (·.reservation.reservedCostUsd) = some 10 := by
      decide +kernel
    rw [hitem, Option.map_some, Option.some_inj] at hreserved
    rw [hreserved]
    decide

/-- A slice of the slice spends twenty, and the slice is deleted without it. -/
def orphanedRun : List (Time × Op) :=
  [(0, .wfeCreateWorkItem sampleRequest), (0, .wfeCreateWorkItem sliceRequest),
    (0, .wfeCreateWorkItem { sliceRequest with
      workItemId := "part", proposalPath := "part.md", parentId := "slice" }),
    (1, .workItemAddCost "part" 20), (2, .workItemDelete "slice")]

/-- The slice is created again, and brings the spend of its old subtree into the capped tree. -/
theorem recreated_slice_exceeds_cap :
    ¬∀ (s : Store) (rootId : String) (root : WorkItem) (steps : List (Time × Op)), Reachable s →
      s.item? rootId = some root → root.parentId = "" → 0 < root.workItemMaxCostUsd →
      s.treeSpent rootId + s.treeReserved rootId ≤ root.workItemMaxCostUsd →
      StepsMeet (fun now op s => op.budgeted ∧ op.withinReserved now s) s steps →
        AlongRun (WithinCap rootId root.workItemMaxCostUsd) s steps := by
  intro h
  have hroot : (Store.empty.run orphanedRun).item? "item" = some (sampleRequest.row 0) := by
    decide
  have hcap := (h (Store.empty.run orphanedRun) "item" (sampleRequest.row 0)
    [(3, .wfeCreateWorkItem sliceRequest)] (Reachable.empty.run _) hroot rfl (by decide)
    (by decide +kernel) (.cons ⟨rfl, .of_charged_none rfl⟩ trivial)).last.total
  revert hcap
  decide +kernel

end Workflow
