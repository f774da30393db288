-- SUMMARY: Refinement loops end: along every sequence of results fed to the engine, a run of an acyclic workflow stops or parks.
import Aimee.Lib.LoopCounters
import Aimee.Workflow.Escalation
import Aimee.Workflow.Runnable

/-!
# Refinement loops

A run walks its definition: a step that passes follows `next` or `on_pass` and clears the attempts
of the stage it leaves, a step that asks for changes goes back along `on_fail` and costs the stage
an attempt. `advance_cases` says that an advance of a runnable run does one of these, stops the
run, or is refused; a run that is never refused is then a run of loop counters.
-/

namespace Workflow

/-! ## Faults carry a reason -/

/-- Every fault of the computation names its reason. -/
def Named {α : Type} (x : Except Fault α) : Prop := ∀ fault, x = .error fault → fault.1 ≠ ""

section Named

variable {α β : Type}

theorem named_ok (a : α) : Named (.ok a) := fun _ h => by cases h

theorem named_error {reason cause : String} (h : reason ≠ "") :
    Named (.error (reason, cause) : Except Fault α) := by
  intro fault hfault
  cases hfault
  exact h

theorem Named.bind {x : Except Fault α} {f : α → Except Fault β} (hx : Named x) (hf : ∀ a, Named (f a)) :
    Named (x >>= f) := by
  intro fault h
  cases hcase : x with
  | error e =>
    rw [hcase] at h
    cases h
    exact hx _ hcase
  | ok a =>
    rw [hcase] at h
    exact hf a fault h

theorem named_mapError {reason : String} (h : reason ≠ "") (x : Except String α) :
    Named (x.mapError (reason, ·)) := by
  cases x with
  | error cause => exact named_error h
  | ok a => exact named_ok a

theorem Named.mapM {f : α → Except Fault β} (h : ∀ a, Named (f a)) (l : List α) : Named (l.mapM f) := by
  induction l with
  | nil => exact named_ok []
  | cons a l ih =>
    rw [List.mapM_cons]
    exact (h a).bind fun b => ih.bind fun bs => named_ok _

end Named

theorem named_prepareNode (world : World) (definition : Definition) (item : WorkItem) :
    Named (prepareNode world definition item) := by
  unfold prepareNode
  split
  · exact named_ok _
  · exact named_error (by decide)

theorem named_prepareProposal (world : World) (item : WorkItem) : Named (prepareProposal world item) := by
  unfold prepareProposal
  split
  · exact named_ok _
  · split
    · exact named_error (by decide)
    · exact named_mapError (by decide) _

theorem named_prepareInput (world : World) (input : String × String) : Named (prepareInput world input) := by
  unfold prepareInput
  dsimp only
  split
  · exact named_ok _
  · exact named_error (by decide)

theorem named_prepare (world : World) (item : WorkItem) : Named (prepare world item) := by
  refine (named_mapError (by decide) _).bind fun definition => ?_
  refine (named_prepareNode world definition item).bind fun node => ?_
  refine (named_mapError (by decide) _).bind fun _ => ?_
  refine (named_prepareProposal world item).bind fun _ => ?_
  refine (named_mapError (by decide) _).bind fun _ => ?_
  exact (Named.mapM (named_prepareInput world) _).bind fun _ => named_ok _

theorem named_publish (world : World) (node : Node) (step : StepResult) : Named (publish world node step) := by
  have hplan : Named (publishPlan world node step) := by
    unfold publishPlan
    split
    · exact named_ok _
    · split
      · exact named_error (by decide)
      · cases world.putPlan with
        | ok _ => exact named_ok _
        | error cause => exact named_error (by decide)
  unfold publish
  split
  · exact named_ok _
  · exact hplan.bind fun _ => (named_mapError (by decide) _).bind fun _ => named_ok _

/-! ## Decisions -/

theorem exists_of_bind_ok {ε α β : Type} {x : Except ε α} {f : α → Except ε β} {b : β}
    (h : x >>= f = .ok b) : ∃ a, x = .ok a ∧ f a = .ok b := by
  cases x with
  | error e => cases h
  | ok a => exact ⟨a, rfl, h⟩

theorem mapError_eq_ok {α : Type} {x : Except String α} {reason : String} {a : α}
    (h : x.mapError (reason, ·) = .ok a) : x = .ok a := by
  cases x with
  | error e => cases h
  | ok b =>
    cases h
    rfl

theorem node_of_prepare {world : World} {item : WorkItem} {prepared : Prepared}
    (h : prepare world item = .ok prepared) :
    ∃ d, world.loadVersion = .ok d ∧ d.node? item.currentStage = some prepared.node := by
  obtain ⟨d, hload, h⟩ := exists_of_bind_ok h
  obtain ⟨node, hnode, h⟩ := exists_of_bind_ok h
  obtain ⟨_, -, h⟩ := exists_of_bind_ok h
  obtain ⟨_, -, h⟩ := exists_of_bind_ok h
  obtain ⟨_, -, h⟩ := exists_of_bind_ok h
  obtain ⟨inputs, -, h⟩ := exists_of_bind_ok h
  cases h
  refine ⟨d, mapError_eq_ok hload, ?_⟩
  unfold prepareNode at hnode
  split at hnode
  · next hfound =>
    cases hnode
    exact hfound
  · cases hnode

/-- What a decision at a node can be. -/
def Decision.Legal (id : String) (node : Node) (status : StepStatus) : Decision → Prop
  | .fault reason _ => reason ≠ ""
  | .wait reason _ => reason ≠ ""
  | .finish state _ _ => state ≠ "" ∧ state ≠ "active"
  | .move toStage _ _ => status = .advanced ∧ toStage = node.passTarget ∧ toStage ≠ ""
  | .retry toStage _ maxAttempts =>
    status = .changes ∧ toStage = node.onFail ∧ toStage ≠ "" ∧ maxAttempts = node.maxIterations
  | .changes round planStage =>
    status = .changes ∧ planStage = node.onFail ∧ planStage ≠ "" ∧ round.workItemId = id ∧
      round.gate = node.id ∧ round.maxIterations = node.maxIterations

theorem decideAdvanced_legal (world : World) (id : String) (node : Node) (step : StepResult)
    (contentHash : String) : (decideAdvanced world node step contentHash).Legal id node .advanced := by
  unfold decideAdvanced
  dsimp only
  split
  · exact fun h => absurd h (by decide)
  · split
    · exact ⟨by decide, by decide⟩
    · next htarget => exact ⟨rfl, rfl, htarget⟩

theorem decideChanges_legal (world : World) (id : String) (prepared : Prepared) (step : StepResult) :
    (decideChanges world id prepared step).Legal id prepared.node .changes := by
  unfold decideChanges
  dsimp only
  split
  · exact fun h => absurd h (by decide)
  · next hfail =>
    split
    · exact ⟨rfl, rfl, hfail, rfl⟩
    · split
      · exact fun h => absurd h (by decide)
      · split
        · exact fun h => absurd h (by decide)
        · split
          · exact fun h => absurd h (by decide)
          · exact fun h => absurd h (by decide)
          · exact ⟨rfl, rfl, hfail, rfl, rfl, rfl⟩

theorem decidePending_legal (world : World) (id : String) (node : Node) (step : StepResult)
    (status : StepStatus) : (decidePending world step).Legal id node status := by
  change (if step.pauseReason = "" then "runner_pending" else step.pauseReason) ≠ ""
  split
  · decide
  · next hreason => exact hreason

theorem decideStep_legal (world : World) (id : String) (prepared : Prepared) (step : StepResult) :
    (decideStep world id prepared step).Legal id prepared.node step.status := by
  unfold decideStep
  split
  · next reason cause hpublish => exact named_publish _ _ _ _ hpublish
  · split
    · next hstatus =>
      rw [hstatus]
      exact decideAdvanced_legal world id _ step _
    · exact ⟨by decide, by decide⟩
    · next hstatus =>
      rw [hstatus]
      exact decideChanges_legal world id prepared step
    · exact decidePending_legal world id _ step _
    · exact ⟨by decide, by decide⟩
    · exact fun h => absurd h (by decide)

/-! ## What an advance does to a runnable run -/

/-- The call works on the definition, gets a result from its runner, and only heartbeats touch the
    store meanwhile. -/
structure Call.Feeds (c : Call) (d : Definition) (step : StepResult) : Prop where
  pinned : ∀ d', c.world.loadVersion = .ok d' → d' = d
  beats : Beats c.meanwhile
  outcome : c.outcome = .result step

/-- The call gets the run: no other engine holds it. -/
def Call.free (c : Call) (id : String) (s : Store) : Bool :=
  match (wfeBudgetReserve c.reservedAt id (c.owner id) s).2 with
  | .ok budget => !budget.busy
  | _ => false

theorem not_busy_of_free {c : Call} {id : String} {s t : Store} {budget : BudgetReply} (h : c.free id s)
    (hreserve : wfeBudgetReserve c.reservedAt id (c.owner id) s = (t, .ok budget)) :
    ¬budget.busy = true := by
  rw [Call.free, hreserve] at h
  simpa using h

/-- A cost that will be accepted: it is unknown or not negative, and a measured cost that the run
    holds already is reproduced. -/
def StepResult.acceptable (step : StepResult) (w : WorkItem) : Prop :=
  (step.costUnknown = true ∨ 0 ≤ step.costUsd) ∧
    (w.reservation.state = .actual →
      step.costUsd = w.reservation.reservedCostUsd ∨
        step.costUnknown = true ∧ step.costUsd < w.reservation.reservedCostUsd)

/-- A stage was left along its pass edge. -/
def Advanced.passed (a : Advanced) (step : StepResult) (stage : String) : Bool :=
  a.error = none && a.result.stage = stage && a.result.nextStage ≠ "" && step.status = .advanced

/-- A retry or a requested change that did not park. -/
def Advanced.looped (a : Advanced) (step : StepResult) (stage : String) : Bool :=
  a.error = none && a.result.stage = stage && a.result.nextStage ≠ "" && !a.result.parked &&
    step.status = .changes

/-- What one advance makes of a count of the loops at a stage. -/
def Advanced.recount (a : Advanced) (step : StepResult) (stage : String) (k : ℕ) : ℕ :=
  if a.passed step stage then 0 else k + if a.looped step stage then 1 else 0

/-- The ways an advance of a runnable run can go. -/
inductive AdvanceCase (d : Definition) (c : Call) (id : String) (step : StepResult) (s : Store)
    (w : WorkItem) (a : Advanced) : Prop where
  | refused (w' : WorkItem) (hrow : a.store.item? id = some w') (hattempts : a.store.attempts = s.attempts)
      (hnext : a.result.nextStage = "") (hrefused : ¬(c.free id s ∧ step.acceptable w))
  | stopped (w' : WorkItem) (hrow : a.store.item? id = some w') (hstopped : ¬w'.Runnable)
      (hattempts : ∀ stage, s.attemptsOf id stage ≤ a.store.attemptsOf id stage)
      (hnext : a.result.nextStage = "" ∨ a.result.parked = true ∧ step.status = .changes)
  | forward (node : Node) (hnode : d.node? w.currentStage = some node) (w' : WorkItem)
      (hrow : a.store.item? id = some w') (hrun : w'.Runnable) (hstage : w'.currentStage = node.passTarget)
      (htarget : node.passTarget ≠ "")
      (hattempts : ∀ stage, stage ≠ w.currentStage → a.store.attemptsOf id stage = s.attemptsOf id stage)
      (hpassed : a.passed step w.currentStage = true)
  | back (node : Node) (hnode : d.node? w.currentStage = some node) (w' : WorkItem)
      (hrow : a.store.item? id = some w') (hrun : w'.Runnable) (hstage : w'.currentStage = node.onFail)
      (hattempts : ∀ stage, a.store.attemptsOf id stage =
        if stage = w.currentStage then s.attemptsOf id stage + 1 else s.attemptsOf id stage)
      (hlimit : (s.attemptsOf id w.currentStage + 1 : ℤ) < node.maxIterations)
      (hlooped : a.looped step w.currentStage = true)

theorem AdvanceCase.row {d : Definition} {c : Call} {id : String} {step : StepResult} {s : Store}
    {w : WorkItem} {a : Advanced} (h : AdvanceCase d c id step s w a) :
    ∃ w', a.store.item? id = some w' := by
  cases h with
  | refused w' hrow => exact ⟨w', hrow⟩
  | stopped w' hrow => exact ⟨w', hrow⟩
  | forward _ _ w' hrow => exact ⟨w', hrow⟩
  | back _ _ w' hrow => exact ⟨w', hrow⟩

theorem Store.attemptsOf_congr {s t : Store} (h : t.attempts = s.attempts) (id stage : String) :
    t.attemptsOf id stage = s.attemptsOf id stage := by
  rw [Store.attemptsOf, h, Store.attemptsOf]

theorem StepResult.acceptable.charged {step : StepResult} {w v : WorkItem} {budget : BudgetReply}
    (h : step.acceptable w)
    (hactual : v.reservation.state = .actual → w.reservation.state = .actual ∧
      v.reservation.reservedCostUsd = w.reservation.reservedCostUsd ∧
      budget.amount = w.reservation.reservedCostUsd) :
    0 ≤ chargedCost budget step ∧
      (v.reservation.state = .actual → (v.reservation.reservedCostUsd : ℚ) = chargedCost budget step) := by
  unfold chargedCost
  constructor
  · split
    · exact NNRat.coe_nonneg _
    · next hcharge =>
      rcases h.1 with hunknown | hcost
      · exact (NNRat.coe_nonneg budget.amount).trans (not_lt.mp fun hlt => hcharge ⟨hunknown, hlt⟩)
      · exact hcost
  · intro hstate
    obtain ⟨hw, hsame, hamount⟩ := hactual hstate
    rw [hsame, hamount]
    rcases h.2 hw with hcost | hcost
    · rw [if_neg fun hlt => (hlt.2.ne hcost), hcost]
    · rw [if_pos hcost]

section Cases

variable {d : Definition} {c : Call} {id : String} {step : StepResult} {s : Store} {w : WorkItem}

variable {t : Store} {v : WorkItem} {budget : BudgetReply}

theorem le_of_counted {stage : String}
    (h : ∀ b, t.attemptsOf id b = if b = stage then s.attemptsOf id b + 1 else s.attemptsOf id b)
    (b : String) : s.attemptsOf id b ≤ t.attemptsOf id b := by
  rw [h b]
  split
  · exact Nat.le_succ _
  · exact Nat.le_refl _

theorem commit_cases {u : Store} {node : Node} {cost : ℚ} {decision : Decision}
    (hlegal : decision.Legal id node step.status) (hid : id ≠ "") (hcost : 0 ≤ cost)
    (hw : w.workItemId = id) (hv : u.item? id = some v) (hrun : v.Runnable)
    (hstage : v.currentStage = w.currentStage) (hnode : d.node? w.currentStage = some node)
    (hname : node.id ≠ "") (hattempts : u.attempts = s.attempts) :
    AdvanceCase d c id step s w
      (decision.commit c.endedAt c.world w node cost { AdvanceResult.start w with ran := true } u) := by
  have hof : ∀ {t : Store}, t.attempts = u.attempts → ∀ stage, t.attemptsOf id stage = s.attemptsOf id stage := by
    intro t ht stage
    rw [Store.attemptsOf, ht, hattempts, Store.attemptsOf]
  have hnodeId : node.id = v.currentStage := (Definition.mem_of_node? hnode).2.trans hstage.symm
  have hstageName : v.currentStage ≠ "" := hnodeId ▸ hname
  cases decision with
  | fault reason cause =>
    obtain ⟨t, v', hpark, hrow, hreason, ht⟩ := wfeParkWithDetail_runnable c.endedAt hid hv hrun hcost
      reason (reason ++ ": " ++ c.world.safeDiagnostic cause)
    rw [Decision.commit, parkAfterSpend, hw, ← hstage]
    rw [hpark]
    exact .stopped v' hrow (fun h => hlegal (hreason.symm.trans h.2)) (fun stage => (hof ht stage).ge) (.inl rfl)
  | wait reason detail =>
    obtain ⟨t, v', hpark, hrow, hreason, ht⟩ := wfeParkWithDetail_runnable c.endedAt hid hv hrun hcost
      reason detail
    rw [Decision.commit, hw, hnodeId, hpark]
    exact .stopped v' hrow (fun h => hlegal (hreason.symm.trans h.2)) (fun stage => (hof ht stage).ge) (.inl rfl)
  | finish state detail hash =>
    obtain ⟨t, v', hfinish, hrow, hstate, ht⟩ := wfeFinish_runnable c.endedAt hid hv hrun hcost
      hlegal.1 detail hash
    rw [Decision.commit, hw, hnodeId, hfinish]
    exact .stopped v' hrow (fun h => hlegal.2 (hstate.symm.trans h.1)) (fun stage => (hof ht stage).ge) (.inl rfl)
  | move toStage detail hash =>
    obtain ⟨hstatus, rfl, hto⟩ := hlegal
    obtain ⟨t, v', hmove, hrow, hrun', hstage', ht⟩ := wfeMove_runnable c.endedAt hid hv hrun hcost
      hstageName hto detail hash
    rw [Decision.commit, hw, hnodeId, hmove]
    refine .forward node hnode v' hrow hrun' hstage' hto (fun stage hne => ?_) ?_
    · rw [← hof rfl stage]
      exact ht stage (hstage.symm ▸ hne)
    · simp [answered, Advanced.passed, AdvanceResult.start, hstatus, hto]
  | retry toStage detail maxAttempts =>
    obtain ⟨hstatus, rfl, hto, rfl⟩ := hlegal
    obtain ⟨t, v', hretry, hrow, ht, hparked⟩ := wfeRecordRetry_runnable c.endedAt hid hv hrun hcost
      hstageName hto detail node.maxIterations_pos
    rw [Decision.commit, hw, hnodeId, hretry]
    rw [hstage] at ht
    have hcount : ∀ stage, t.attemptsOf id stage =
        if stage = w.currentStage then s.attemptsOf id stage + 1 else s.attemptsOf id stage := by
      intro stage
      rw [ht stage, hof rfl stage]
    rw [hof rfl, hstage] at hparked
    by_cases hlimit : node.maxIterations ≤ s.attemptsOf id w.currentStage + 1
    · rw [if_pos hlimit] at hparked
      exact .stopped v' hrow hparked (le_of_counted hcount)
        (.inr ⟨by simpa [answered, hof rfl, hstage] using hlimit, hstatus⟩)
    · rw [if_neg hlimit] at hparked
      refine .back node hnode v' hrow hparked.1 hparked.2 hcount (not_le.mp hlimit) ?_
      simp [answered, Advanced.looped, AdvanceResult.start, hstatus, hto, hof rfl, hstage, not_le.mp hlimit]
  | changes round planStage =>
    obtain ⟨hstatus, rfl, hto, rfl, hgate, hmax⟩ := hlegal
    have hgateName : round.gate ≠ "" := hgate ▸ hname
    obtain ⟨t, v', outcome, hchanges, hrow, hparked, ht, hstopped⟩ :=
      wfeRecordRequestedChanges_runnable c.endedAt hid hgateName hv hrun hcost node.onFail
    rw [Decision.commit, hchanges]
    rw [hgate, hnodeId, hstage] at ht
    have hcount : ∀ stage, t.attemptsOf round.workItemId stage =
        if stage = w.currentStage then s.attemptsOf round.workItemId stage + 1
        else s.attemptsOf round.workItemId stage := by
      intro stage
      rw [ht stage, hof rfl stage]
    by_cases hpause : round.pauseReason u = ""
    · have hlimit := ReviewRound.attempts_lt hpause
      rw [ReviewRound.attempts, hof rfl, hgate, hnodeId, hstage, hmax] at hlimit
      rw [if_neg (not_not.mpr hpause)] at hstopped
      refine .back node hnode v' hrow hstopped.1 hstopped.2 hcount (by exact_mod_cast hlimit) ?_
      simp [answered, Advanced.looped, AdvanceResult.start, hstatus, hto, hparked, hpause]
    · rw [if_pos hpause] at hstopped
      exact .stopped v' hrow hstopped (le_of_counted hcount)
        (.inr ⟨hparked.trans (decide_eq_true hpause), hstatus⟩)

theorem commitResult_cases {prepared : Prepared}
    (hids : ∀ node ∈ d.nodes, node.id ≠ "") (hid : id ≠ "") (hfeeds : c.Feeds d step)
    (hprepare : prepare c.world w = .ok prepared) (hw : w.workItemId = id) (hv : t.item? id = some v)
    (hrun : v.Runnable) (hstage : v.currentStage = w.currentStage) (hattempts : t.attempts = s.attempts)
    (howner : v.reservation.owner = c.owner id) (hheld : v.reservation.state ≠ .none)
    (hactual : v.reservation.state = .actual → w.reservation.state = .actual ∧
      v.reservation.reservedCostUsd = w.reservation.reservedCostUsd ∧
      budget.amount = w.reservation.reservedCostUsd)
    (hroot : budget.rootId ≠ "") (hmem : id ∈ t.tree budget.rootId) (hbudget : (t.budgetRoot id).isSome) :
    AdvanceCase d c id step s w (commitResult c w (c.owner id) budget prepared step t) := by
  obtain ⟨d', hload, hnode⟩ := node_of_prepare hprepare
  obtain rfl := hfeeds.pinned d' hload
  have hname : prepared.node.id ≠ "" := hids _ (Definition.mem_of_node? hnode).1
  unfold commitResult
  rw [hw]
  dsimp only
  obtain ⟨⟨u, reply⟩, hreconcile⟩ :
      ∃ p, wfeBudgetReconcile id (c.owner id) (chargedCost budget step) t = p := ⟨_, rfl⟩
  have honly : ReservationsOnly t u := by
    have h : ReservationsOnly t (wfeBudgetReconcile id (c.owner id) (chargedCost budget step) t).1 :=
      reservationsOnly_wfeBudgetReconcile
    rw [hreconcile] at h
    exact h
  obtain ⟨r, hu⟩ := honly.item? hv
  rw [hreconcile]
  by_cases hok : ∃ allowed, reply = .ok allowed
  · obtain ⟨allowed, rfl⟩ := hok
    have hcost := (wfeBudgetReconcile_ok hreconcile hv).1
    dsimp only
    split
    · obtain ⟨t', v', hpark, hrow, hstopped, ht⟩ := wfeParkBudgetTree_runnable c.endedAt
        (chargedCost budget step) hroot hu hrun ((honly.mem_tree _ _).mpr hmem) (.inr rfl)
      rw [hpark]
      refine .stopped v' hrow hstopped (fun stage => ?_) (.inl rfl)
      exact (Store.attemptsOf_congr (ht.trans (honly.attempts.trans hattempts)) id stage).ge
    · exact commit_cases (decideStep_legal ..) hid hcost hw hu hrun hstage hnode hname
        (honly.attempts.trans hattempts)
  · have hrefused : ¬step.acceptable w := by
      intro haccept
      obtain ⟨hnonneg, hsame⟩ := haccept.charged hactual
      obtain ⟨u', allowed, hok'⟩ := wfeBudgetReconcile_isOk hid hnonneg hbudget hv howner hheld hsame
      rw [hreconcile] at hok'
      exact hok ⟨allowed, congrArg Prod.snd hok'⟩
    cases reply with
    | ok allowed => exact absurd ⟨allowed, rfl⟩ hok
    | _ =>
      exact .refused _ hu (honly.attempts.trans hattempts) rfl fun h => hrefused h.2

/-- A step that cannot be prepared parks the run, and what was reserved for it is given back. -/
theorem runStep_error {fault : Fault} (hid : id ≠ "")
    (hprepare : prepare c.world w = .error fault) (hw : w.workItemId = id) (hv : t.item? id = some v)
    (hrun : v.Runnable) (hstage : v.currentStage = w.currentStage) (hattempts : t.attempts = s.attempts) :
    AdvanceCase d c id step s w (runStep c w (c.owner id) budget t) := by
  obtain ⟨u, v', hpark, hrow, hreason, hu⟩ := wfeParkWithDetail_runnable c.reservedAt hid hv hrun le_rfl
    fault.1 (fault.1 ++ ": " ++ c.world.safeDiagnostic fault.2)
  have honly : ReservationsOnly u (wfeBudgetRelease id (c.owner id) u).1 := reservationsOnly_wfeBudgetRelease
  obtain ⟨r, hreleased⟩ := honly.item? hrow
  rw [runStep, hprepare]
  dsimp only
  rw [parkAfterSpend, hw, ← hstage, hpark]
  refine .stopped _ hreleased (fun h => ?_) (fun stage => ?_) (.inl rfl)
  · exact named_prepare _ _ _ hprepare (hreason.symm.trans h.2)
  · exact (Store.attemptsOf_congr (honly.attempts.trans (hu.trans hattempts)) id stage).ge

/-- An advance of a runnable run moves it forward or back, stops it, or is refused. -/
theorem advance_cases (hs : Reachable s) (hids : ∀ node ∈ d.nodes, node.id ≠ "") (hfeeds : c.Feeds d step)
    (hw : s.item? id = some w) (hrun : w.Runnable) : AdvanceCase d c id step s w (advance c id s) := by
  have hself := Store.workItemId_of_item? hw
  have hid := hs.id_ne_empty hw
  unfold advance
  rw [hw]
  dsimp only
  rw [if_neg hrun.not_stopped, hself]
  obtain ⟨⟨t, reply⟩, hreserve⟩ : ∃ p, wfeBudgetReserve c.reservedAt id (c.owner id) s = p := ⟨_, rfl⟩
  have honly : ReservationsOnly s t := by
    have h : ReservationsOnly s (wfeBudgetReserve c.reservedAt id (c.owner id) s).1 :=
      reservationsOnly_wfeBudgetReserve
    rw [hreserve] at h
    exact h
  obtain ⟨r, hrow⟩ := honly.item? hw
  rw [hreserve]
  cases reply with
  | ok budget =>
    dsimp only
    obtain ⟨root, w₁, hroot, hrootId, hw₁, -, -, hanswer⟩ := wfeBudgetReserve_answer hreserve
    obtain rfl : w₁ = w := Option.some.inj (hw₁.symm.trans hw)
    have hrootName : budget.rootId ≠ "" :=
      hrootId ▸ hs.id_ne_empty (Table.find?_of_mem (mem_rows_of_budgetRoot hroot))
    have hmem : id ∈ s.tree budget.rootId := hrootId ▸ mem_tree_of_budgetRoot hroot
    cases hanswer with
    | granted v hallowed hv howner hheld hactual =>
      obtain rfl : v = { w₁ with reservation := r } := Option.some.inj (hv.symm.trans hrow)
      rw [if_pos hallowed]
      cases hprepare : prepare c.world w₁ with
      | error fault => exact runStep_error hid hprepare hself hrow hrun rfl honly.attempts
      | ok prepared =>
        obtain ⟨lease, hbeat⟩ := hfeeds.beats.item? hrow
        have honly' := honly.trans (hfeeds.beats.reservationsOnly (s := t))
        rw [runStep, hprepare, hfeeds.outcome]
        exact commitResult_cases hids hid hfeeds hprepare hself hbeat hrun rfl honly'.attempts howner
          hheld hactual hrootName ((honly'.mem_tree _ _).mpr hmem) (honly'.isSome_budgetRoot hroot)
    | busy hallowed hbusy =>
      rw [if_neg (by simp [hallowed]), if_pos hbusy]
      exact .refused _ hrow honly.attempts rfl fun h => not_busy_of_free h.1 hreserve hbusy
    | denied hallowed hstore hnone =>
      subst hstore
      rw [if_neg (by simp [hallowed])]
      split
      · next hbusy => exact .refused _ hrow honly.attempts rfl fun h => not_busy_of_free h.1 hreserve hbusy
      · obtain ⟨u, v, hpark, hparked, hstopped, hu⟩ := wfeParkBudgetTree_runnable c.reservedAt 0
          hrootName hw hrun hmem (.inl hnone)
        rw [hpark]
        exact .stopped v hparked hstopped (fun stage => (Store.attemptsOf_congr hu id stage).ge) (.inl rfl)
  | _ =>
    refine .refused _ hrow honly.attempts rfl fun h => ?_
    have hfree := h.1
    rw [Call.free, hreserve] at hfree
    cases hfree

end Cases

/-! ## Runs -/

section Runs

variable {d : Definition} {calls : ℕ → Call} {results : ℕ → StepResult} {id : String} {s : Store}

/-- The stores of a run that is advanced again and again. -/
def feed (calls : ℕ → Call) (id : String) (s : Store) : ℕ → Store
  | 0 => s
  | n + 1 => (advance (calls n) id (feed calls id s n)).store

/-- The retries and requested changes at a stage that did not park, since the stage was last left
    along its pass edge. -/
def loopsSince (calls : ℕ → Call) (results : ℕ → StepResult) (id : String) (s : Store) (stage : String) :
    ℕ → ℕ
  | 0 => 0
  | n + 1 =>
    (advance (calls n) id (feed calls id s n)).recount (results n) stage
      (loopsSince calls results id s stage n)

theorem reachable_feed (hs : Reachable s) (n : ℕ) : Reachable (feed calls id s n) := by
  induction n with
  | zero => exact hs
  | succ n ih =>
    rw [feed, store_advance]
    exact ih.run _

theorem advance_stopped {c : Call} {w : WorkItem} (hw : s.item? id = some w) (hstopped : ¬w.Runnable) :
    (advance c id s).store = s ∧ (advance c id s).result.nextStage = "" := by
  have hguard : w.state ≠ "active" ∨ w.pauseReason ≠ "" := by
    by_contra h
    obtain ⟨hstate, hpause⟩ := not_or.mp h
    exact hstopped ⟨not_not.mp hstate, not_not.mp hpause⟩
  unfold advance
  rw [hw]
  dsimp only
  rw [if_pos hguard]
  exact ⟨rfl, rfl⟩

theorem feed_stopped {n : ℕ} {w : WorkItem} (hw : (feed calls id s n).item? id = some w)
    (hstopped : ¬w.Runnable) {m : ℕ} (hm : n ≤ m) : feed calls id s m = feed calls id s n := by
  induction hm with
  | refl => rfl
  | step hm ih =>
    rw [← ih] at hw
    rw [feed, (advance_stopped hw hstopped).1, ih]

variable {a : Advanced} {stage : String}

/-- An advance that names no next stage, or one of another stage, is neither counted nor clears. -/
theorem Advanced.quiet (h : a.result.nextStage = "" ∨ a.result.stage ≠ stage) (step : StepResult) :
    a.passed step stage = false ∧ a.looped step stage = false := by
  rcases h with h | h
  · simp [Advanced.passed, Advanced.looped, h]
  · simp [Advanced.passed, Advanced.looped, h]

theorem Advanced.stage_of_passed {step : StepResult}
    (h : a.passed step stage = true) : a.result.stage = stage := by
  simp only [Advanced.passed, Bool.and_eq_true, decide_eq_true_eq] at h
  exact h.1.1.2

theorem Advanced.of_looped {step : StepResult}
    (h : a.looped step stage = true) : a.result.stage = stage ∧ a.passed step stage = false := by
  simp only [Advanced.looped, Bool.and_eq_true, decide_eq_true_eq] at h
  exact ⟨h.1.1.1.2, by simp [Advanced.passed, h.2]⟩

theorem Advanced.recount_quiet {step : StepResult}
    (h : a.passed step stage = false ∧ a.looped step stage = false) (k : ℕ) :
    a.recount step stage k = k := by
  simp [Advanced.recount, h.1, h.2]

/-- A count of loops that the attempts of the stage bound stays so, and below the stage's limit. -/
theorem AdvanceCase.recount {c : Call} {step : StepResult} {w : WorkItem}
    (h : AdvanceCase d c id step s w a) {node : Node} (hnode : d.node? stage = some node)
    {k : ℕ} (hk : k ≤ s.attemptsOf id stage) (hlimit : (k : ℤ) < node.maxIterations) :
    a.recount step stage k ≤ a.store.attemptsOf id stage ∧
      (a.recount step stage k : ℤ) < node.maxIterations := by
  cases h with
  | refused w' hrow hattempts hnext =>
    rw [Advanced.recount_quiet (Advanced.quiet (.inl hnext) step)]
    exact ⟨hk.trans (Store.attemptsOf_congr hattempts id stage).ge, hlimit⟩
  | stopped w' hrow hstopped hattempts hnext =>
    have hquiet : a.passed step stage = false ∧ a.looped step stage = false := by
      rcases hnext with hnext | ⟨hparked, hstatus⟩
      · exact Advanced.quiet (.inl hnext) step
      · simp [Advanced.passed, Advanced.looped, hparked, hstatus]
    rw [Advanced.recount_quiet hquiet]
    exact ⟨hk.trans (hattempts stage), hlimit⟩
  | forward node' hnode' w' hrow hrun hstage htarget hattempts hpassed =>
    by_cases hsame : stage = w.currentStage
    · rw [Advanced.recount, hsame, if_pos hpassed]
      exact ⟨Nat.zero_le _, node.maxIterations_pos⟩
    · have hother : a.result.stage ≠ stage := Advanced.stage_of_passed hpassed ▸ Ne.symm hsame
      rw [Advanced.recount_quiet (Advanced.quiet (.inr hother) step), hattempts stage hsame]
      exact ⟨hk, hlimit⟩
  | back node' hnode' w' hrow hrun hstage hattempts hlimit' hlooped =>
    obtain ⟨hat, hpassed⟩ := Advanced.of_looped hlooped
    by_cases hsame : stage = w.currentStage
    · subst hsame
      obtain rfl : node' = node := Option.some.inj (hnode'.symm.trans hnode)
      rw [Advanced.recount, hpassed, hlooped, hattempts]
      simp only [Bool.false_eq_true, if_false, if_true]
      exact ⟨Nat.succ_le_succ hk, by push_cast; omega⟩
    · rw [Advanced.recount_quiet (Advanced.quiet (.inr (hat ▸ Ne.symm hsame)) step), hattempts stage,
        if_neg hsame]
      exact ⟨hk, hlimit⟩

/-- The stage of the row, as long as there is one. -/
def Store.stageOf (s : Store) (id : String) : String := ((s.item? id).map (·.currentStage)).getD ""

/-- An advance that is not refused and after which the run goes on is a step of the loop counters. -/
theorem AdvanceCase.step {c : Call} {step : StepResult} {w w' : WorkItem}
    (h : AdvanceCase d c id step s w a) (hw : s.item? id = some w) (hw' : a.store.item? id = some w')
    (hrun : w'.Runnable) (hfed : c.free id s ∧ step.acceptable w) :
    (∃ node, d.node? (s.stageOf id) = some node) ∧
      LoopCounters.Step d.Passes (fun stage => ((d.node? stage).elim 0 (·.maxIterations)).toNat)
        (s.stageOf id) (s.attemptsOf id) (a.store.stageOf id) (a.store.attemptsOf id) := by
  have hstage : s.stageOf id = w.currentStage := by rw [Store.stageOf, hw, Option.map_some, Option.getD_some]
  have hstage' : a.store.stageOf id = w'.currentStage := by
    rw [Store.stageOf, hw', Option.map_some, Option.getD_some]
  rw [hstage, hstage']
  cases h with
  | refused v hrow hattempts hnext hrefused => exact absurd hfed hrefused
  | stopped v hrow hstopped =>
    obtain rfl : v = w' := Option.some.inj (hrow.symm.trans hw')
    exact absurd hrun hstopped
  | forward node hnode v hrow hrun' hpass htarget hattempts hpassed =>
    obtain rfl : v = w' := Option.some.inj (hrow.symm.trans hw')
    refine ⟨⟨node, hnode⟩, .forward ⟨node, hnode, hpass ▸ htarget, ?_⟩ hattempts⟩
    rw [hpass, Node.passTarget]
    split
    · exact .inr rfl
    · exact .inl rfl
  | back node hnode v hrow hrun' hpass hattempts hlimit hlooped =>
    refine ⟨⟨node, hnode⟩, .back ?_ ?_ fun stage hne => ?_⟩
    · rw [hattempts, if_pos rfl]
    · rw [hattempts, if_pos rfl, hnode, Option.elim_some]
      omega
    · rw [hattempts, if_neg hne]

theorem loopsSince_lt (hvalid : d.validate = .ok ()) (hs : Reachable s)
    (hfeeds : ∀ n, (calls n).Feeds d (results n)) {w : WorkItem} (hw : s.item? id = some w)
    {node : Node} (hnode : d.node? stage = some node) (n : ℕ) :
    (∃ w', (feed calls id s n).item? id = some w') ∧
      loopsSince calls results id s stage n ≤ (feed calls id s n).attemptsOf id stage ∧
      (loopsSince calls results id s stage n : ℤ) < node.maxIterations := by
  induction n with
  | zero => exact ⟨⟨w, hw⟩, Nat.zero_le _, node.maxIterations_pos⟩
  | succ n ih =>
    obtain ⟨⟨v, hv⟩, hle, hlt⟩ := ih
    rw [feed, loopsSince]
    by_cases hrun : v.Runnable
    · have hcase := advance_cases (reachable_feed hs n) (Definition.id_ne_empty_of_validate hvalid)
        (hfeeds n) hv hrun
      exact ⟨hcase.row, hcase.recount hnode hle hlt⟩
    · obtain ⟨hstore, hnext⟩ := advance_stopped (c := calls n) hv hrun
      rw [Advanced.recount_quiet (Advanced.quiet (.inl hnext) _), hstore]
      exact ⟨⟨v, hv⟩, hle, hlt⟩

/-- Results are fed to a run of an accepted definition without a cycle of pass edges, each to a call
    that gets the run. If each cost is accepted, the run stops or parks; and at each stage fewer
    loops than its bound go by, whatever happens at the others. -/
theorem refinement_loops_end (hvalid : d.validate = .ok ()) (hacyclic : d.Acyclic) (hs : Reachable s)
    {w : WorkItem} (hw : s.item? id = some w) (hfeeds : ∀ n, (calls n).Feeds d (results n))
    (hfree : ∀ n w', (feed calls id s n).item? id = some w' → w'.Runnable →
      (calls n).free id (feed calls id s n))
    (hcosts : ∀ n w', (feed calls id s n).item? id = some w' → w'.Runnable → (results n).acceptable w') :
    (∃ n w', (feed calls id s n).item? id = some w' ∧ ¬w'.Runnable) ∧
      ∀ (n : ℕ) (stage : String) (node : Node), d.node? stage = some node →
        (loopsSince calls results id s stage n : ℤ) < node.maxIterations := by
  refine ⟨?_, fun n stage node hnode => (loopsSince_lt hvalid hs hfeeds hw hnode n).2.2⟩
  by_contra hforever
  have hruns : ∀ n, ∃ v, (feed calls id s n).item? id = some v ∧ v.Runnable := by
    intro n
    induction n with
    | zero => exact ⟨w, hw, by_contra fun h => hforever ⟨0, w, hw, h⟩⟩
    | succ n ih =>
      obtain ⟨v, hv, hrun⟩ := ih
      have hcase := advance_cases (reachable_feed hs n) (Definition.id_ne_empty_of_validate hvalid)
        (hfeeds n) hv hrun
      obtain ⟨v', hv'⟩ := hcase.row
      exact ⟨v', hv', by_contra fun h => hforever ⟨n + 1, v', hv', h⟩⟩
  have hsteps : ∀ n, (∃ node, d.node? ((feed calls id s n).stageOf id) = some node) ∧
      LoopCounters.Step d.Passes (fun stage => ((d.node? stage).elim 0 (·.maxIterations)).toNat)
        ((feed calls id s n).stageOf id) ((feed calls id s n).attemptsOf id)
        ((feed calls id s (n + 1)).stageOf id) ((feed calls id s (n + 1)).attemptsOf id) := by
    intro n
    obtain ⟨v, hv, hrun⟩ := hruns n
    obtain ⟨v', hv', hrun'⟩ := hruns (n + 1)
    have hcase := advance_cases (reachable_feed hs n) (Definition.id_ne_empty_of_validate hvalid)
      (hfeeds n) hv hrun
    exact hcase.step hv hv' hrun' ⟨hfree n v hv hrun, hcosts n v hv hrun⟩
  refine LoopCounters.not_forever (S := {stage | stage ∈ d.nodes.map (·.id)}) (List.finite_toSet _)
    hacyclic (fun n => ?_) fun n => (hsteps n).2
  obtain ⟨node, hnode⟩ := (hsteps n).1
  obtain ⟨hmem, hname⟩ := Definition.mem_of_node? hnode
  exact List.mem_map.mpr ⟨node, hmem, hname⟩

end Runs

/-- A review that asks for changes each time. -/
def changesResult : StepResult := { sampleResult with status := .changes }

def changesCall (n : ℕ) : Call := sampleCall n (.result changesResult)

theorem acyclic_sampleDefinition : sampleDefinition.Acyclic := by
  have hnone : ∀ id target, ¬sampleDefinition.Passes id target := by
    rintro id target ⟨node, hnode, htarget, hedge⟩
    obtain ⟨hmem, -⟩ := Definition.mem_of_node? hnode
    obtain rfl := List.mem_singleton.mp hmem
    rcases hedge with rfl | rfl
    · exact htarget rfl
    · exact htarget rfl
  intro id hcycle
  obtain ⟨target, hedge, -⟩ := Relation.TransGen.head'_iff.mp hcycle
  exact hnone id target hedge

theorem feeds_sampleCall (now : Time) (step : StepResult) :
    (sampleCall now (.result step)).Feeds sampleDefinition step where
  pinned _ h := (Except.ok.inj h).symm
  beats := fun _ h => absurd h List.not_mem_nil
  outcome := rfl

def createdStore : Store := Store.empty.run [(0, .wfeCreateWorkItem sampleRequest)]

/-- The third round parks the run. -/
theorem lt_three_of_runnable {n : ℕ} {w : WorkItem}
    (hw : (feed changesCall "item" createdStore n).item? "item" = some w) (hrun : w.Runnable) : n < 3 := by
  by_contra hn
  have hparked : ((feed changesCall "item" createdStore 3).item? "item").map (decide ·.Runnable) =
      some false := by
    decide +kernel
  obtain ⟨v, hv, hstopped⟩ := Option.map_eq_some_iff.mp hparked
  rw [feed_stopped hv (of_decide_eq_false hstopped) (not_lt.mp hn), hv] at hw
  cases hw
  exact of_decide_eq_false hstopped hrun

theorem unreserved_of_runnable {n : ℕ} {w : WorkItem}
    (hw : (feed changesCall "item" createdStore n).item? "item" = some w) (hn : n < 3) :
    w.reservation.state = .none ∧ (changesCall n).free "item" (feed changesCall "item" createdStore n) := by
  have hstates : ∀ n < 3, ((feed changesCall "item" createdStore n).item? "item").map
      (·.reservation.state) = some .none ∧
        (changesCall n).free "item" (feed changesCall "item" createdStore n) = true := by
    decide +kernel
  obtain ⟨hstate, hfree⟩ := hstates n hn
  rw [hw, Option.map_some, Option.some_inj] at hstate
  exact ⟨hstate, hfree⟩

theorem changes_end :
    (∃ n w', (feed changesCall "item" createdStore n).item? "item" = some w' ∧ ¬w'.Runnable) ∧
      ∀ (n : ℕ) (stage : String) (node : Node), sampleDefinition.node? stage = some node →
        (loopsSince changesCall (fun _ => changesResult) "item" createdStore stage n : ℤ) <
          node.maxIterations := by
  have hrow : createdStore.item? "item" = some (sampleRequest.row 0) := by decide
  refine refinement_loops_end rfl acyclic_sampleDefinition (Reachable.empty.run _) hrow
    (fun n => feeds_sampleCall n changesResult) ?_ ?_
  · intro n w hw hrun
    exact (unreserved_of_runnable hw (lt_three_of_runnable hw hrun)).2
  · intro n w hw hrun
    have hstate := (unreserved_of_runnable hw (lt_three_of_runnable hw hrun)).1
    exact ⟨.inr le_rfl, fun hactual => absurd (hstate.symm.trans hactual) (by decide)⟩

/-! ## A cost that is never accepted -/

/-- A step that passes and reports a negative cost. -/
def refundResult : StepResult := { sampleResult with costUsd := -1 }

/-- Calls a thousand seconds apart, each after the lease of the one before has lapsed. -/
def refundCall (n : ℕ) : Call := sampleCall (1000 * (n + 1)) (.result refundResult)

/-- An unresolved reservation whose lease has lapsed goes to whoever asks for it. -/
theorem wfeBudgetReserve_lapsed (now : Time) {lease : Time} {id owner : String} {s : Store} {w : WorkItem}
    (hid : id ≠ "") (howner : owner ≠ "") (hroot : (s.budgetRoot id).isSome) (hw : s.item? id = some w)
    (hrun : w.Runnable) (hstate : w.reservation.state = .unresolved)
    (hlease : w.reservation.leaseUntil = some lease) (hlapsed : lease ≤ now) :
    ∃ t budget, wfeBudgetReserve now id owner s = (t, .ok budget) ∧ budget.allowed = true ∧
      budget.busy = false ∧ t.item? id = some { w with reservation :=
        { w.reservation with owner := owner, leaseUntil := some (leaseFrom now) } } := by
  obtain ⟨root, hroot⟩ := Option.isSome_iff_exists.mp hroot
  have hself := Store.workItemId_of_item? hw
  have hlive : w.reservation.leaseIsLive now = false := by
    simpa [Reservation.leaseIsLive, hlease] using hlapsed
  have hload : s.loadRunnable id = some w.reservation := by
    simp [Store.loadRunnable, hw, hrun.1, hrun.2]
  have hhit : ∀ v : WorkItem, v = w → (v.workItemId = id && (v.reservation.state = w.reservation.state &&
      v.reservation.owner = w.reservation.owner &&
        (v.reservation.owner = owner || !v.reservation.leaseIsLive now) : Bool)) = true := by
    rintro v rfl
    simp [hself, hlive]
  have hmatched : s.items.matched (fun v => v.workItemId = id &&
      (v.reservation.state = w.reservation.state && v.reservation.owner = w.reservation.owner &&
        (v.reservation.owner = owner || !v.reservation.leaseIsLive now) : Bool)) = 1 :=
    (Table.matched_key_eq_one_iff s.items id _).mpr ⟨w, hw, by simp [hlive]⟩
  unfold wfeBudgetReserve
  rw [if_neg (not_or.mpr ⟨hid, howner⟩), hroot, hload]
  dsimp only
  rw [if_pos (by simp [hstate]), reserveExisting]
  rw [if_pos (.inr hstate), if_neg (fun h => by simp [hlive] at h), if_neg (not_not.mpr hmatched)]
  exact ⟨_, _, rfl, rfl, rfl, Store.item?_updateItems_of_hit hw (hhit w rfl)⟩

/-- Where the run stands before a call: nobody's lease is live. -/
structure Lapsed (s : Store) (n : ℕ) : Prop where
  only : ReservationsOnly (Store.empty.run adoptedRun) s
  row : ∃ r lease, s.item? "item" = some { adoptedItem with reservation := r } ∧ r.state = .unresolved ∧
    r.leaseUntil = some lease ∧ lease ≤ 1000 * (n + 1)

theorem Lapsed.advance {s : Store} {n : ℕ} (h : Lapsed s n) :
    (refundCall n).free "item" s ∧ Lapsed (Workflow.advance (refundCall n) "item" s).store (n + 1) := by
  obtain ⟨r, lease, hw, hstate, hlease, hlapsed⟩ := h.row
  have hroot : ((Store.empty.run adoptedRun).budgetRoot "item").isSome := by decide +kernel
  obtain ⟨root, hroot⟩ := Option.isSome_iff_exists.mp hroot
  have howner : (refundCall n).owner "item" ≠ "" := by simp [Call.owner]
  obtain ⟨t, budget, hreserve, hallowed, hbusy, hrow⟩ := wfeBudgetReserve_lapsed
    (refundCall n).reservedAt (by decide) howner (h.only.isSome_budgetRoot hroot) hw ⟨rfl, rfl⟩
    hstate hlease hlapsed
  have honly : ReservationsOnly s t := by
    have h : ReservationsOnly s
        (wfeBudgetReserve (refundCall n).reservedAt "item" ((refundCall n).owner "item") s).1 :=
      reservationsOnly_wfeBudgetReserve
    rw [hreserve] at h
    exact h
  have hstore : (Workflow.advance (refundCall n) "item" s).store = t := by
    unfold Workflow.advance
    rw [hw]
    dsimp only
    have hself : ({ adoptedItem with reservation := r } : WorkItem).workItemId = "item" := rfl
    rw [hself, hreserve]
    dsimp only
    rw [if_pos hallowed]
    rfl
  constructor
  · rw [Call.free, hreserve]
    simp [hbusy]
  · rw [hstore]
    refine ⟨h.only.trans honly, _, _, hrow, hstate, rfl, ?_⟩
    change (1000 * (n + 1) + 120 : ℤ) ≤ 1000 * ((n + 1 : ℕ) + 1)
    omega

theorem lapsed_feed (n : ℕ) : Lapsed (feed refundCall "item" (Store.empty.run adoptedRun) n) n := by
  induction n with
  | zero => exact ⟨.refl _, _, _, item?_adoptedRun, rfl, rfl, by decide⟩
  | succ n ih => exact ih.advance.2

/-- Every result is refused for its cost, the run is never parked, and each call gets it. -/
theorem negative_cost_never_ends :
    ¬∀ (d : Definition) (calls : ℕ → Call) (results : ℕ → StepResult) (id : String) (s : Store)
      (w : WorkItem), d.validate = .ok () → d.Acyclic → Reachable s → s.item? id = some w →
        (∀ n, (calls n).Feeds d (results n)) →
        (∀ n w', (feed calls id s n).item? id = some w' → w'.Runnable →
          (calls n).free id (feed calls id s n)) →
        (∃ n w', (feed calls id s n).item? id = some w' ∧ ¬w'.Runnable) ∧
          ∀ (n : ℕ) (stage : String) (node : Node), d.node? stage = some node →
            (loopsSince calls results id s stage n : ℤ) < node.maxIterations := by
  intro h
  obtain ⟨⟨n, w, hw, hstopped⟩, -⟩ := h sampleDefinition refundCall (fun _ => refundResult) "item"
    (Store.empty.run adoptedRun) adoptedItem rfl acyclic_sampleDefinition (Reachable.empty.run _)
    item?_adoptedRun (fun n => feeds_sampleCall _ refundResult) fun n _ _ _ => (lapsed_feed n).advance.1
  obtain ⟨r, lease, hrow, -⟩ := (lapsed_feed n).row
  rw [hrow, Option.some_inj] at hw
  subst hw
  exact hstopped ⟨rfl, rfl⟩

end Workflow
