-- SUMMARY: What the operations of an engine do to a run that is runnable: the budget leaves it so, and a transition commits.
import Aimee.Workflow.BudgetCap
import Aimee.Workflow.Decisions
import Aimee.Workflow.Dispatch
import Aimee.Workflow.Endings

/-!
# Operations on a runnable run

The budget operations change reservations and nothing else, so a run stays runnable and in its
stage, and the tree stays as it is. A transition in the stage of a runnable run is not refused if
its cost is not negative, and this module says which row it leaves.
-/

namespace Workflow

/-! ## Changes of reservations -/

/-- Reservations are all that differs. -/
structure ReservationsOnly (s t : Store) : Prop where
  rows : ∃ r : WorkItem → Reservation, t.items.rows = s.items.rows.map fun w => { w with reservation := r w }
  attempts : t.attempts = s.attempts

namespace ReservationsOnly

variable {s t u : Store}

theorem refl (s : Store) : ReservationsOnly s s :=
  ⟨⟨(·.reservation), (List.map_id _).symm⟩, rfl⟩

theorem trans (h : ReservationsOnly s t) (h' : ReservationsOnly t u) : ReservationsOnly s u := by
  refine ⟨?_, h'.attempts.trans h.attempts⟩
  obtain ⟨r, hr⟩ := h.rows
  obtain ⟨r', hr'⟩ := h'.rows
  refine ⟨fun w => r' { w with reservation := r w }, ?_⟩
  rw [hr', hr, List.map_map]
  rfl

theorem of_updateItems {p : WorkItem → Bool} {r : WorkItem → Reservation}
    {hf : ∀ w : WorkItem, ({ w with reservation := r w } : WorkItem).workItemId = w.workItemId} :
    ReservationsOnly s (s.updateItems p (fun w => { w with reservation := r w }) hf) := by
  refine ⟨⟨fun w => if p w then r w else w.reservation, List.map_congr_left fun w _ => ?_⟩, rfl⟩
  cases hp : p w with
  | true => simp [hp]
  | false => simp [hp]

theorem item? (h : ReservationsOnly s t) {id : String} {w : WorkItem} (hw : s.item? id = some w) :
    ∃ r, t.item? id = some { w with reservation := r } := by
  obtain ⟨r, hr⟩ := h.rows
  have hid : w.workItemId = id := Store.workItemId_of_item? hw
  refine ⟨r w, Table.find?_eq_some_iff.mpr ⟨?_, hid⟩⟩
  rw [hr]
  exact List.mem_map_of_mem (Table.mem_of_find? hw)

theorem mem_tree (h : ReservationsOnly s t) (rootId id : String) :
    id ∈ t.tree rootId ↔ id ∈ s.tree rootId := by
  obtain ⟨r, hr⟩ := h.rows
  refine Store.mem_tree_congr ?_ rootId id
  rw [hr]
  exact List.forall₂_map_right_iff.mpr (List.forall₂_same.mpr fun _ _ => ⟨rfl, rfl⟩)

theorem isSome_budgetRoot (h : ReservationsOnly s t) {id : String} {root : WorkItem}
    (hroot : s.budgetRoot id = some root) : (t.budgetRoot id).isSome := by
  obtain ⟨w, hw, hclimb⟩ := Store.mem_ancestors.mp (List.mem_of_find?_eq_some hroot)
  obtain ⟨r, hr⟩ := h.rows
  let f : WorkItem → WorkItem := fun w => { w with reservation := r w }
  have hmem : ∀ v, v ∈ s.items.rows → f v ∈ t.items.rows := by
    intro v hv
    rw [hr]
    exact List.mem_map_of_mem hv
  have hid : w.workItemId = id := Store.workItemId_of_item? hw
  have hrow : t.item? id = some (f w) :=
    Table.find?_eq_some_iff.mpr ⟨hmem w (Table.mem_of_find? hw), hid⟩
  have hlift : Relation.ReflTransGen (fun v w => w ∈ t.items.rows ∧ w.workItemId = v.parentId) (f w) (f root) :=
    hclimb.lift f fun a b hab => ⟨hmem b hab.1, hab.2⟩
  have hparent : root.parentId = "" := by simpa using List.find?_some hroot
  refine List.find?_isSome.mpr ⟨f root, Store.mem_ancestors.mpr ⟨f w, hrow, hlift⟩, ?_⟩
  exact decide_eq_true hparent

end ReservationsOnly

theorem mem_rows_of_budgetRoot {s : Store} {id : String} {root : WorkItem}
    (h : s.budgetRoot id = some root) : root ∈ s.items.rows := by
  obtain ⟨w, hw, hclimb⟩ := Store.mem_ancestors.mp (List.mem_of_find?_eq_some h)
  rcases Relation.ReflTransGen.cases_tail hclimb with rfl | ⟨v, -, hstep⟩
  · exact Table.mem_of_find? hw
  · exact hstep.1

theorem mem_tree_of_budgetRoot {s : Store} {id : String} {root : WorkItem}
    (h : s.budgetRoot id = some root) : id ∈ s.tree root.workItemId := by
  obtain ⟨w, hw, hclimb⟩ := Store.mem_ancestors.mp (List.mem_of_find?_eq_some h)
  rw [Store.mem_tree, ← Store.workItemId_of_item? hw]
  have hrow : w ∈ s.items.rows := Table.mem_of_find? hw
  clear hw
  induction hclimb using Relation.ReflTransGen.head_induction_on with
  | refl => exact .refl
  | head hstep _ ih => exact (ih hstep.1).tail ⟨_, hrow, hstep.2.symm, rfl⟩

/-! ## Budget operations -/

section Budget

variable {now : Time} {id owner : String} {s : Store}

theorem reservationsOnly_reserveExisting (root : WorkItem) (held : Reservation) :
    ReservationsOnly s (reserveExisting now id owner root held s).1 := by
  unfold reserveExisting
  dsimp only
  split_ifs
  · exact .refl s
  · exact .refl s
  · exact .of_updateItems
  · exact .refl s
  · exact .refl s
  · exact .of_updateItems
  · exact .of_updateItems

theorem reservationsOnly_wfeBudgetReserve : ReservationsOnly s (wfeBudgetReserve now id owner s).1 := by
  unfold wfeBudgetReserve
  split
  · exact .refl s
  · split
    · exact .refl s
    · split
      · exact .refl s
      · dsimp only
        split
        · exact reservationsOnly_reserveExisting ..
        · split_ifs
          · exact .refl s
          · exact .of_updateItems
          · exact .refl s
          · exact .refl s
          · exact .of_updateItems

theorem reservationsOnly_wfeBudgetHeartbeat : ReservationsOnly s (wfeBudgetHeartbeat now id owner s).1 := by
  unfold wfeBudgetHeartbeat
  split
  · exact .refl s
  · exact .of_updateItems

theorem reservationsOnly_wfeBudgetRelease : ReservationsOnly s (wfeBudgetRelease id owner s).1 := by
  unfold wfeBudgetRelease
  split
  · exact .refl s
  · exact .of_updateItems

theorem reservationsOnly_wfeBudgetReconcile {cost : ℚ} :
    ReservationsOnly s (wfeBudgetReconcile id owner cost s).1 := by
  unfold wfeBudgetReconcile
  split
  · exact .refl s
  · split
    · exact .refl s
    · split
      · exact .refl s
      · dsimp only
        split_ifs
        · exact .refl s
        · exact .refl s
        · exact .refl s
        · exact .refl s
        · exact .of_updateItems

/-- The heartbeats of an invocation. -/
def Beats (steps : List (Time × Op)) : Prop :=
  ∀ step ∈ steps, ∃ id owner, step.2 = .wfeBudgetHeartbeat id owner

theorem Beats.reservationsOnly {steps : List (Time × Op)} (h : Beats steps) :
    ReservationsOnly s (s.run steps) := by
  induction steps generalizing s with
  | nil => exact .refl s
  | cons step steps ih =>
    obtain ⟨id, owner, hstep⟩ := h step List.mem_cons_self
    have hrest := ih (s := step.2.apply step.1 s) fun step' hmem => h step' (List.mem_cons_of_mem _ hmem)
    rw [hstep] at hrest
    rw [Store.run, hstep]
    exact reservationsOnly_wfeBudgetHeartbeat.trans hrest

/-- A heartbeat changes the lease alone. -/
theorem Beats.item? {steps : List (Time × Op)} (h : Beats steps) {w : WorkItem} (hw : s.item? id = some w) :
    ∃ lease, (s.run steps).item? id =
      some { w with reservation := { w.reservation with leaseUntil := lease } } := by
  induction steps generalizing s w with
  | nil => exact ⟨w.reservation.leaseUntil, hw⟩
  | cons step steps ih =>
    obtain ⟨id', owner', hstep⟩ := h step List.mem_cons_self
    have hrest : Beats steps := fun step' hmem => h step' (List.mem_cons_of_mem _ hmem)
    have hbeat : ∃ lease, (step.2.apply step.1 s).item? id =
        some { w with reservation := { w.reservation with leaseUntil := lease } } := by
      rw [hstep, Op.apply, wfeBudgetHeartbeat]
      split
      · exact ⟨w.reservation.leaseUntil, hw⟩
      · rw [Store.item?_updateItems, hw, Option.map_some]
        split
        · exact ⟨_, rfl⟩
        · exact ⟨w.reservation.leaseUntil, rfl⟩
    obtain ⟨lease, hlease⟩ := hbeat
    obtain ⟨lease', hlease'⟩ := ih hrest hlease
    exact ⟨lease', hlease'⟩

/-- The answers to an attempt to reserve: granted to the owner, an amount that was measured
    already being kept, refused because another engine holds it, or denied by the cap. -/
inductive ReserveAnswer (id owner : String) (s t : Store) (w : WorkItem) (reply : BudgetReply) : Prop where
  | granted (w' : WorkItem) (hallowed : reply.allowed = true) (hrow : t.item? id = some w')
      (howner : w'.reservation.owner = owner) (hheld : w'.reservation.state ≠ .none)
      (hactual : w'.reservation.state = .actual → w.reservation.state = .actual ∧
        w'.reservation.reservedCostUsd = w.reservation.reservedCostUsd ∧
        reply.amount = w.reservation.reservedCostUsd)
  | busy (hallowed : reply.allowed = false) (hbusy : reply.busy = true)
  | denied (hallowed : reply.allowed = false) (hstore : t = s) (hnone : w.reservation.state = .none)

theorem reserveAnswer_reserveExisting {root w : WorkItem} {t : Store} {reply : BudgetReply}
    (hw : s.item? id = some w) (hheld : w.reservation.state ≠ .none)
    (h : reserveExisting now id owner root w.reservation s = (t, .ok reply)) :
    reply.rootId = root.workItemId ∧ ReserveAnswer id owner s t w reply := by
  have hid := Store.workItemId_of_item? hw
  unfold reserveExisting at h
  dsimp only at h
  split_ifs at h with hmeasured hlive hmatched hother hlive hmatched
  · cases h
    exact ⟨rfl, .busy rfl rfl⟩
  · cases h
  · cases h
    obtain ⟨v, hv, hhit⟩ := (Table.matched_key_eq_one_iff s.items id _).mp (not_not.mp hmatched)
    obtain rfl : v = w := Option.some.inj (hv.symm.trans hw)
    refine ⟨rfl, .granted _ rfl (Store.item?_updateItems_of_hit hw ?_) rfl hheld fun h => ⟨h, rfl, rfl⟩⟩
    simpa [hid] using hhit
  · cases h
    exact ⟨rfl, .busy rfl rfl⟩
  · cases h
  · cases h
    obtain ⟨v, hv, hhit⟩ := (Table.matched_key_eq_one_iff s.items id _).mp (not_not.mp hmatched)
    obtain rfl : v = w := Option.some.inj (hv.symm.trans hw)
    refine ⟨rfl, .granted _ rfl (Store.item?_updateItems_of_hit hw ?_) rfl (by simp) (by simp)⟩
    simpa [hid] using hhit
  · cases h
    have hreserved : w.reservation.state = .reserved := by
      cases hcase : w.reservation.state with
      | none => exact absurd hcase hheld
      | reserved => rfl
      | actual => exact absurd (.inl hcase) hmeasured
      | unresolved => exact absurd (.inr hcase) hmeasured
    have howner : w.reservation.owner = owner := by
      by_contra hne
      exact hother ⟨hreserved, hne⟩
    refine ⟨rfl, .granted _ rfl (Store.item?_updateItems_of_hit hw ?_) howner hheld fun h => ?_⟩
    · simp [hid, howner]
    · rw [hreserved] at h
      cases h

/-- An attempt that is answered: the run is runnable, it has a root, and the answer is one of the
    three. -/
theorem wfeBudgetReserve_answer {t : Store} {reply : BudgetReply}
    (h : wfeBudgetReserve now id owner s = (t, .ok reply)) :
    ∃ root w, s.budgetRoot id = some root ∧ reply.rootId = root.workItemId ∧ s.item? id = some w ∧
      w.Runnable ∧ id ≠ "" ∧ ReserveAnswer id owner s t w reply := by
  unfold wfeBudgetReserve at h
  split at h
  · cases h
  · next hargs =>
    split at h
    · cases h
    · next root hroot =>
      split at h
      · cases h
      · next held hload =>
        obtain ⟨w, hw, hactive, hpause, rfl⟩ := loadRunnable_eq_some s hload
        have hid := Store.workItemId_of_item? hw
        have hempty : id ≠ "" := fun h => hargs (.inl h)
        suffices hanswer : reply.rootId = root.workItemId ∧ ReserveAnswer id owner s t w reply from
          ⟨root, w, hroot, hanswer.1, hw, ⟨hactive, hpause⟩, hempty, hanswer.2⟩
        dsimp only at h
        split_ifs at h with hheld huncapped hmatched hspent hmatched
        · exact reserveAnswer_reserveExisting hw hheld h
        · cases h
        · cases h
          refine ⟨rfl, .granted _ rfl (Store.item?_updateItems_of_hit hw ?_) rfl (by simp) (by simp)⟩
          simp [hid, hactive, hpause, not_not.mp hheld]
        · cases h
          exact ⟨rfl, .denied rfl rfl (not_not.mp hheld)⟩
        · cases h
        · cases h
          obtain ⟨v, hv, hhit⟩ := (Table.matched_key_eq_one_iff s.items id _).mp (not_not.mp hmatched)
          obtain rfl : v = w := Option.some.inj (hv.symm.trans hw)
          refine ⟨rfl, .granted _ rfl (Store.item?_updateItems_of_hit hw ?_) rfl (by simp) (by simp)⟩
          simpa [hid] using hhit

/-- A cost is reconciled by the owner of a reservation, and a replay with the cost it recorded. -/
theorem wfeBudgetReconcile_isOk {cost : ℚ} {w : WorkItem} (hid : id ≠ "") (hcost : 0 ≤ cost)
    (hroot : (s.budgetRoot id).isSome) (hw : s.item? id = some w) (howner : w.reservation.owner = owner)
    (hheld : w.reservation.state ≠ .none)
    (hactual : w.reservation.state = .actual → (w.reservation.reservedCostUsd : ℚ) = cost) :
    ∃ t allowed, wfeBudgetReconcile id owner cost s = (t, .ok allowed) := by
  obtain ⟨root, hroot⟩ := Option.isSome_iff_exists.mp hroot
  unfold wfeBudgetReconcile
  rw [if_neg (not_or.mpr ⟨hid, not_lt.mpr hcost⟩), hroot, hw]
  dsimp only
  rw [if_neg (not_not.mpr howner), if_neg hheld, if_neg (fun h => h.2 (hactual h.1))]
  split
  · exact ⟨_, _, rfl⟩
  · exact ⟨_, _, rfl⟩

end Budget

/-! ## Transitions in the stage of a runnable run -/

section Transitions

variable (now : Time) {id : String} {s : Store} {w : WorkItem} {cost : ℚ}

theorem WorkItem.Runnable.runsIn (hw : s.item? id = some w) (hrun : w.Runnable) :
    runsIn id w.currentStage w = true := by
  simp [Workflow.runsIn, Store.workItemId_of_item? hw, hrun.1, hrun.2]

theorem matched_runsIn (hw : s.item? id = some w) (hrun : w.Runnable) :
    s.items.matched (runsIn id w.currentStage) = 1 := by
  refine (Table.matched_key_eq_one_iff s.items id _).mpr ⟨w, hw, ?_⟩
  simp [hrun.1, hrun.2]

theorem wfeParkWithDetail_runnable (hid : id ≠ "") (hw : s.item? id = some w) (hrun : w.Runnable)
    (hcost : 0 ≤ cost) (reason detail : String) :
    ∃ t w', wfeParkWithDetail now id w.currentStage reason detail cost s = (t, .ok ()) ∧
      t.item? id = some w' ∧ w'.pauseReason = reason ∧ t.attempts = s.attempts := by
  unfold wfeParkWithDetail
  rw [if_neg (by simp [hid, costIsSane, hcost]), if_neg (not_not.mpr (matched_runsIn hw hrun))]
  exact ⟨_, _, rfl, (Store.item?_addEvent ..).trans (Store.item?_updateItems_of_hit hw (hrun.runsIn hw)),
    rfl, rfl⟩

theorem wfeFinish_runnable (hid : id ≠ "") (hw : s.item? id = some w) (hrun : w.Runnable)
    (hcost : 0 ≤ cost) {state : String} (hstate : state ≠ "") (detail hash : String) :
    ∃ t w', wfeFinish now id w.currentStage state detail hash cost s = (t, .ok ()) ∧
      t.item? id = some w' ∧ w'.state = state ∧ t.attempts = s.attempts := by
  have hmatched : s.items.matched (fun v => v.workItemId = id &&
      (v.currentStage = w.currentStage && v.state = "active" : Bool)) = 1 :=
    (Table.matched_key_eq_one_iff s.items id _).mpr ⟨w, hw, by simp [hrun.1]⟩
  unfold wfeFinish
  rw [if_neg (by simp [hid, hstate, costIsSane, hcost])]
  rw [if_neg (not_not.mpr hmatched)]
  refine ⟨_, _, rfl, (Store.item?_deleteFrozen ..).trans ((Store.item?_addEvent ..).trans
    (Store.item?_updateItems_of_hit hw ?_)), rfl, rfl⟩
  simp [Store.workItemId_of_item? hw, hrun.1]

theorem wfeMove_runnable (hid : id ≠ "") (hw : s.item? id = some w) (hrun : w.Runnable)
    (hcost : 0 ≤ cost) (hstage : w.currentStage ≠ "") {toStage : String} (hto : toStage ≠ "")
    (detail hash : String) :
    ∃ t w', wfeMove now id w.currentStage toStage "advance" detail hash cost s = (t, .ok ()) ∧
      t.item? id = some w' ∧ w'.Runnable ∧ w'.currentStage = toStage ∧
      ∀ stage, stage ≠ w.currentStage → t.attemptsOf id stage = s.attemptsOf id stage := by
  unfold wfeMove
  rw [if_neg (by simp [hid, hstage, hto, costIsSane, hcost]), if_neg (not_not.mpr (matched_runsIn hw hrun))]
  dsimp only
  rw [if_pos (by decide)]
  refine ⟨_, _, rfl, (Store.item?_dropStageAttempts ..).trans ((Store.item?_addEvent ..).trans
    (Store.item?_updateItems_of_hit hw (hrun.runsIn hw))), ⟨hrun.1, rfl⟩, rfl, ?_⟩
  intro stage hne
  rw [Store.attemptsOf_dropStageAttempts, if_neg fun h => hne h.2.symm]
  rfl

theorem attemptsOf_incAttempts_self (s : Store) (id a b : String) :
    (s.incAttempts id a).attemptsOf id b = if b = a then s.attemptsOf id b + 1 else s.attemptsOf id b := by
  rw [Store.attemptsOf_incAttempts]
  by_cases hsame : b = a
  · rw [if_pos ⟨rfl, hsame.symm⟩, if_pos hsame, hsame]
  · rw [if_neg fun h => hsame h.2.symm, if_neg hsame]

theorem wfeRecordRetry_runnable (hid : id ≠ "") (hw : s.item? id = some w) (hrun : w.Runnable)
    (hcost : 0 ≤ cost) (hstage : w.currentStage ≠ "") {toStage : String} (hto : toStage ≠ "")
    (detail : String) {maxAttempts : ℤ} (hmax : 0 < maxAttempts) :
    ∃ t w', wfeRecordRetry now id w.currentStage toStage detail maxAttempts cost s =
        (t, .ok (decide (maxAttempts ≤ s.attemptsOf id w.currentStage + 1))) ∧
      t.item? id = some w' ∧
      (∀ stage, t.attemptsOf id stage =
        if stage = w.currentStage then s.attemptsOf id stage + 1 else s.attemptsOf id stage) ∧
      if maxAttempts ≤ s.attemptsOf id w.currentStage + 1 then ¬w'.Runnable
      else w'.Runnable ∧ w'.currentStage = toStage := by
  have hw' : (s.incAttempts id w.currentStage).item? id = some w := hw
  have hone : ¬maxAttempts < 1 := not_lt.mpr hmax
  unfold wfeRecordRetry
  rw [if_neg (by simp [hid, hstage, costIsSane, hcost, hone])]
  rw [if_neg (not_not.mpr (matched_runsIn hw hrun))]
  refine ⟨_, _, rfl, (Store.item?_addEvent ..).trans
    (Store.item?_updateItems_of_hit hw' (hrun.runsIn hw)), ?_, ?_⟩
  · intro stage
    exact attemptsOf_incAttempts_self s id w.currentStage stage
  · split
    · next hparked =>
      intro hrun'
      have hpause := hrun'.2
      simp [hparked] at hpause
    · next hparked => simp [WorkItem.Runnable, hparked, hto, hrun.1]

/-- A round that does not park is below its limit. -/
theorem ReviewRound.attempts_lt {r : ReviewRound} {s : Store} (h : r.pauseReason s = "") :
    (r.attempts s : ℤ) < r.maxIterations := by
  unfold ReviewRound.pauseReason at h
  split at h
  · exact absurd h (by decide)
  · split at h
    · exact absurd h (by decide)
    · next hlimit => exact not_le.mp hlimit

theorem wfeRecordRequestedChanges_runnable {r : ReviewRound} (hid : r.workItemId ≠ "") (hgate : r.gate ≠ "")
    (hw : s.item? r.workItemId = some w) (hrun : w.Runnable) (hcost : 0 ≤ cost) (planStage : String) :
    ∃ t w' outcome, wfeRecordRequestedChanges now r planStage cost s = (t, .ok outcome) ∧
      t.item? r.workItemId = some w' ∧ outcome.parked = decide (r.pauseReason s ≠ "") ∧
      (∀ stage, t.attemptsOf r.workItemId stage =
        if stage = r.gate then s.attemptsOf r.workItemId stage + 1 else s.attemptsOf r.workItemId stage) ∧
      if r.pauseReason s ≠ "" then ¬w'.Runnable else w'.Runnable ∧ w'.currentStage = planStage := by
  have hw' : (r.observe (s.incAttempts r.workItemId r.gate)).item? r.workItemId = some w := hw
  have hhit : (decide (w.workItemId = r.workItemId)) = true := decide_eq_true (Store.workItemId_of_item? hw)
  have hattempts := attemptsOf_incAttempts_self s r.workItemId r.gate
  unfold wfeRecordRequestedChanges
  rw [if_neg (by simp [hid, hgate, costIsSane, hcost]), hw, Option.filter_some, if_pos (by simp [hrun.1])]
  dsimp only
  split
  · next hparked =>
    refine ⟨_, _, _, rfl, (Store.item?_addEvent ..).trans (Store.item?_updateItems_of_hit hw' hhit), rfl,
      hattempts, ?_⟩
    exact fun hrun' => hparked hrun'.2
  · next hparked =>
    refine ⟨_, _, _, rfl, (Store.item?_addEvent ..).trans (Store.item?_updateItems_of_hit hw' hhit), rfl,
      hattempts, ?_⟩
    exact ⟨⟨hrun.1, not_not.mp hparked⟩, rfl⟩

variable (cost) in
/-- The tree of a runnable run is parked, the run with it if its invocation is over or it holds no
    reservation. -/
theorem wfeParkBudgetTree_runnable {rootId completedId : String} (hroot : rootId ≠ "")
    (hw : s.item? id = some w) (hrun : w.Runnable) (hmem : id ∈ s.tree rootId)
    (hfree : w.reservation.state = .none ∨ completedId = id) :
    ∃ t w', wfeParkBudgetTree now rootId completedId cost s = (t, .ok ()) ∧ t.item? id = some w' ∧
      ¬w'.Runnable ∧ t.attempts = s.attempts := by
  have hid := Store.workItemId_of_item? hw
  -- The charge of the completed run leaves the tree and every state and pause as they are.
  obtain ⟨charged, hcharged⟩ : ∃ charged, charged =
      if 0 < cost ∧ completedId ≠ "" then
        s.updateItems (·.workItemId = completedId)
          (fun w => { w with cumCostUsd := w.cumCostUsd + cost.toNNRat, reservation := clearReservation })
          fun _ => rfl
      else s := ⟨_, rfl⟩
  have hrow : ∃ v, charged.item? id = some v ∧ v.Runnable ∧ v.workItemId = id ∧
      (v.reservation.state = .none ∨ v.workItemId = completedId) := by
    rw [hcharged]
    split
    · by_cases hcompleted : w.workItemId = completedId
      · exact ⟨_, Store.item?_updateItems_of_hit hw (decide_eq_true hcompleted), hrun, hid, .inl rfl⟩
      · refine ⟨w, Store.item?_updateItems_of_miss hw (decide_eq_false hcompleted), hrun, hid, ?_⟩
        exact hfree.imp_right fun h => hid.trans h.symm
    · exact ⟨w, hw, hrun, hid, hfree.imp_right fun h => hid.trans h.symm⟩
  have htree : id ∈ charged.tree rootId := by
    rw [hcharged]
    split
    · refine (Store.mem_tree_congr ?_ rootId id).mpr hmem
      exact Table.forall₂_update (List.forall₂_same.mpr fun _ _ => ⟨rfl, rfl⟩) fun v v' h _ => h
    · exact hmem
  have hattempts : charged.attempts = s.attempts := by
    rw [hcharged]
    split
    · rfl
    · rfl
  unfold wfeParkBudgetTree
  rw [if_neg hroot]
  rw [← hcharged]
  obtain ⟨v, hv, hrun', hvid, hfree'⟩ := hrow
  refine ⟨_, _, rfl, Store.item?_updateItems_of_hit hv ?_, ?_, hattempts⟩
  · simp only [Bool.and_eq_true, Bool.or_eq_true, decide_eq_true_eq]
    exact ⟨⟨⟨hrun'.1, hrun'.2⟩, by rw [hvid]; exact htree⟩, hfree'⟩
  · exact fun h => absurd h.2 (by simp)

end Transitions

end Workflow
