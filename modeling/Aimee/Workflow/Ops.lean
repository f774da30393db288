-- SUMMARY: Every writing operation of the lifecycle family as one step of the store, and runs of them.
import Aimee.Workflow.Tree

/-!
# Runs of the lifecycle family

An operation with its arguments, and the stores reachable by applying operations one after the
other at any readings of the clock.
-/

namespace Workflow

inductive Op where
  | workItemCreate (workItemId repo proposalPath workflowName workflowVersion currentStage mode : String)
  | workItemSetStage (workItemId stage contentHash : String)
  | workItemSetPRRef (workItemId prRef : String)
  | workItemSetWorktree (workItemId worktree : String)
  | workItemSetSubmitter (workItemId submitter : String)
  | workItemSetParent (workItemId parentId : String)
  | workItemAbandonChildren (parentId : String)
  | workItemSubmitCapped (workItemId repo proposalPath workflowName workflowVersion startStage
      submitter : String) (maxActive rateMax rateSecs : ℤ)
  | workItemSetTerminal (workItemId state : String)
  | workItemGateApply (workItemId expectStage expectHash newStage terminalState : String)
  | workItemSetPause (workItemId reason stage : String)
  | workItemClearPause (workItemId : String)
  | workItemClearPauseIf (workItemId reason stage : String)
  | workItemAddCost (workItemId : String) (cost : ℚ)
  | workItemSetCostCap (workItemId : String) (cap : ℚ)
  | workItemIncOverride (workItemId : String)
  | workItemDelete (workItemId : String)
  | workItemReapStaleParks (graceSecs : ℤ)
  | lifecycleEventAdd (workItemId stage kind actor detail contentHash : String) (cost : ℚ)
  | stageAttemptInc (workItemId stage : String)
  | stageAttemptReset (workItemId stage : String)
  | workItemRecordOutcome (workItemId : String) (disposition : Disposition) (cost : ℚ)
      (nodeId eventKind eventDetail eventHash : String)
  | wfeResumeTransient (reason : String) (secs : ℤ)
  | wfeResumeWallCaps (maxResumes : ℤ)
  | wfeAbandonExhaustedWallCaps (maxResumes graceSecs : ℤ)
  | wfeResumeReadyParents
  | wfeBudgetReserve (workItemId owner : String)
  | wfeBudgetRelease (workItemId owner : String)
  | wfeBudgetHeartbeat (workItemId owner : String)
  | wfeBudgetReconcile (workItemId owner : String) (actual : ℚ)
  | wfeMove (workItemId fromStage toStage kind detail contentHash : String) (cost : ℚ)
  | wfeRecordRetry (workItemId stage toStage detail : String) (maxAttempts : ℤ) (cost : ℚ)
  | wfeParkWithDetail (workItemId stage reason detail : String) (cost : ℚ)
  | wfeResume (workItemId : String)
  | wfeFinish (workItemId stage state detail contentHash : String) (cost : ℚ)
  | wfeStopTree (workItemId : String) (limit : ℤ)
  | wfeReconcileOrphans (limit : ℤ)
  | wfeParkBudgetTree (rootId completedId : String) (addedCost : ℚ)
  | wfeDeleteTree (workItemId : String)
  | wfeResolveGate (workItemId fromStage toStage decision contentHash : String)
  | wfeRejectGate (workItemId stage contentHash : String)
  | wfeParkRunnerFailure (workItemId stage owner reason detail : String) (dispatched costKnown : Bool)
      (actual : ℚ)
  | wfeRecoverLostReplay (workItemId stage owner : String)
  | wfeRecordRequestedChanges (round : ReviewRound) (planStage : String) (cost : ℚ)
  | wfeClaimFrozenCreates (parentId workItemId : String) (creates : List (String × String))
  | wfeCreateWorkItem (request : CreateRequest)
  deriving DecidableEq

/-- The store after an operation. -/
def Op.apply (now : Time) (s : Store) : Op → Store
  | .workItemCreate a b c d e f g => (Workflow.workItemCreate now a b c d e f g s).1
  | .workItemSetStage a b c => (Workflow.workItemSetStage now a b c s).1
  | .workItemSetPRRef a b => (Workflow.workItemSetPRRef now a b s).1
  | .workItemSetWorktree a b => (Workflow.workItemSetWorktree now a b s).1
  | .workItemSetSubmitter a b => (Workflow.workItemSetSubmitter now a b s).1
  | .workItemSetParent a b => (Workflow.workItemSetParent now a b s).1
  | .workItemAbandonChildren a => (Workflow.workItemAbandonChildren now a s).1
  | .workItemSubmitCapped a b c d e f g x y z =>
    (Workflow.workItemSubmitCapped now a b c d e f g x y z s).1
  | .workItemSetTerminal a b => (Workflow.workItemSetTerminal now a b s).1
  | .workItemGateApply a b c d e => (Workflow.workItemGateApply now a b c d e s).1
  | .workItemSetPause a b c => (Workflow.workItemSetPause now a b c s).1
  | .workItemClearPause a => (Workflow.workItemClearPause now a s).1
  | .workItemClearPauseIf a b c => (Workflow.workItemClearPauseIf now a b c s).1
  | .workItemAddCost a x => (Workflow.workItemAddCost now a x s).1
  | .workItemSetCostCap a x => (Workflow.workItemSetCostCap now a x s).1
  | .workItemIncOverride a => (Workflow.workItemIncOverride now a s).1
  | .workItemDelete a => (Workflow.workItemDelete a s).1
  | .workItemReapStaleParks x => (Workflow.workItemReapStaleParks now x s).1
  | .lifecycleEventAdd a b c d e f x => (Workflow.lifecycleEventAdd a b c d e f x s).1
  | .stageAttemptInc a b => (Workflow.stageAttemptInc a b s).1
  | .stageAttemptReset a b => (Workflow.stageAttemptReset a b s).1
  | .workItemRecordOutcome a d x b c e f => (Workflow.workItemRecordOutcome now a d x b c e f s).1
  | .wfeResumeTransient a x => (Workflow.wfeResumeTransient now a x s).1
  | .wfeResumeWallCaps x => (Workflow.wfeResumeWallCaps now x s).1
  | .wfeAbandonExhaustedWallCaps x y => (Workflow.wfeAbandonExhaustedWallCaps now x y s).1
  | .wfeResumeReadyParents => (Workflow.wfeResumeReadyParents now s).1
  | .wfeBudgetReserve a b => (Workflow.wfeBudgetReserve now a b s).1
  | .wfeBudgetRelease a b => (Workflow.wfeBudgetRelease a b s).1
  | .wfeBudgetHeartbeat a b => (Workflow.wfeBudgetHeartbeat now a b s).1
  | .wfeBudgetReconcile a b x => (Workflow.wfeBudgetReconcile a b x s).1
  | .wfeMove a b c d e f x => (Workflow.wfeMove now a b c d e f x s).1
  | .wfeRecordRetry a b c d x y => (Workflow.wfeRecordRetry now a b c d x y s).1
  | .wfeParkWithDetail a b c d x => (Workflow.wfeParkWithDetail now a b c d x s).1
  | .wfeResume a => (Workflow.wfeResume now a s).1
  | .wfeFinish a b c d e x => (Workflow.wfeFinish now a b c d e x s).1
  | .wfeStopTree a x => (Workflow.wfeStopTree now a x s).1
  | .wfeReconcileOrphans x => (Workflow.wfeReconcileOrphans now x s).1
  | .wfeParkBudgetTree a b x => (Workflow.wfeParkBudgetTree now a b x s).1
  | .wfeDeleteTree a => (Workflow.wfeDeleteTree a s).1
  | .wfeResolveGate a b c d e => (Workflow.wfeResolveGate now a b c d e s).1
  | .wfeRejectGate a b c => (Workflow.wfeRejectGate now a b c s).1
  | .wfeParkRunnerFailure a b c d e x y z => (Workflow.wfeParkRunnerFailure now a b c d e x y z s).1
  | .wfeRecoverLostReplay a b c => (Workflow.wfeRecoverLostReplay now a b c s).1
  | .wfeRecordRequestedChanges r a x => (Workflow.wfeRecordRequestedChanges now r a x s).1
  | .wfeClaimFrozenCreates a b x => (Workflow.wfeClaimFrozenCreates a b x s).1
  | .wfeCreateWorkItem r => (Workflow.wfeCreateWorkItem now r s).1

/-- The stores that runs of the family reach. -/
inductive Reachable : Store → Prop where
  | empty : Reachable .empty
  | step {s : Store} (now : Time) (op : Op) (h : Reachable s) : Reachable (op.apply now s)

/-- The store after a run. -/
def Store.run (s : Store) : List (Time × Op) → Store
  | [] => s
  | (now, op) :: steps => (op.apply now s).run steps

theorem Store.run_append (s : Store) (steps steps' : List (Time × Op)) :
    s.run (steps ++ steps') = (s.run steps).run steps' := by
  induction steps generalizing s with
  | nil => rfl
  | cons step steps ih => exact ih _

variable {s : Store} {steps : List (Time × Op)} {C : Time → Op → Store → Prop} {P : Store → Prop}

theorem Reachable.run (h : Reachable s) (steps : List (Time × Op)) :
    Reachable (s.run steps) := by
  induction steps generalizing s with
  | nil => exact h
  | cons step steps ih => exact ih (.step step.1 step.2 h)

/-! ## Properties of runs -/

/-- A property of every store of a run, the first and the last included. -/
def AlongRun (P : Store → Prop) : Store → List (Time × Op) → Prop
  | s, [] => P s
  | s, (now, op) :: steps => P s ∧ AlongRun P (op.apply now s) steps

/-- A condition that every step of a run meets, with the store it starts in. -/
def StepsMeet (C : Time → Op → Store → Prop) : Store → List (Time × Op) → Prop
  | _, [] => True
  | s, (now, op) :: steps => C now op s ∧ StepsMeet C (op.apply now s) steps

instance decidableAlongRun (P : Store → Prop) [DecidablePred P] :
    (s : Store) → (steps : List (Time × Op)) → Decidable (AlongRun P s steps)
  | s, [] => inferInstanceAs (Decidable (P s))
  | s, (now, op) :: steps =>
    have := decidableAlongRun P (op.apply now s) steps
    inferInstanceAs (Decidable (P s ∧ AlongRun P (op.apply now s) steps))

instance decidableStepsMeet (C : Time → Op → Store → Prop) [∀ now op s, Decidable (C now op s)] :
    (s : Store) → (steps : List (Time × Op)) → Decidable (StepsMeet C s steps)
  | _, [] => inferInstanceAs (Decidable True)
  | s, (now, op) :: steps =>
    have := decidableStepsMeet C (op.apply now s) steps
    inferInstanceAs (Decidable (C now op s ∧ StepsMeet C (op.apply now s) steps))

theorem StepsMeet.cons {now : Time} {op : Op} (h : C now op s) (h' : StepsMeet C (op.apply now s) steps) :
    StepsMeet C s ((now, op) :: steps) :=
  ⟨h, h'⟩

theorem AlongRun.head (h : AlongRun P s steps) :
    P s := by
  cases steps with
  | nil => exact h
  | cons => exact h.1

theorem AlongRun.last (h : AlongRun P s steps) :
    P (s.run steps) := by
  induction steps generalizing s with
  | nil => exact h
  | cons step steps ih => exact ih h.2

/-- A property that a step preserves under a condition holds along runs that meet it. -/
theorem AlongRun.of_steps (hstep : ∀ now op s, P s → C now op s → P (op.apply now s))
    (hs : P s) (h : StepsMeet C s steps) : AlongRun P s steps := by
  induction steps generalizing s with
  | nil => exact hs
  | cons step steps ih => exact ⟨hs, ih (hstep step.1 step.2 s hs h.1) h.2⟩

/-! ## A run to look at -/

/-- The cap of the request below, as an amount of money. -/
def sampleCap : ℚ≥0 := 10

/-- A request for a root run with a cap of ten. -/
def sampleRequest : CreateRequest where
  workItemId := "item"
  repo := "repo"
  proposalPath := "proposal.md"
  workflowName := "build"
  workflowVersion := "1"
  startStage := "plan"
  mode := ""
  submitter := ""
  parentId := ""
  sourcePath := ""
  maxCostUsd := 10
  rootCap := 0

/-- A request for a slice of that run. -/
def sliceRequest : CreateRequest :=
  { sampleRequest with
    workItemId := "slice", proposalPath := "slice.md", startStage := "review", parentId := "item" }

end Workflow
