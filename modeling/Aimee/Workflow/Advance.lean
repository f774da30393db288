-- SUMMARY: One advance of the workflow engine: reserving, preparing the step, and what each outcome of the runner does to the store.
import Aimee.Workflow.Decisions
import Aimee.Workflow.Definition
import Aimee.Workflow.Endings

/-!
# Advancing a work item

`Engine.Advance` of `engine.go`. The answers of the registry, of the artifact store and of the
runner are inputs; the store is the model of the lifecycle family. While the runner is out,
others may apply operations to the store, the heartbeats of the invocation among them.
-/

namespace Workflow

/-! ## What the engine is given -/

inductive StepStatus where
  | advanced
  | changes
  | pending
  | failed
  | accepted
  | other (status : String)
  deriving DecidableEq

/-- What the engine reads off a review: the number of findings, `unresolvedBlockers`,
    `blockerFingerprintSet`, and the hash of the encoding, if it encodes. -/
structure ReviewFeedback where
  findings : ℕ
  unresolved : String
  blockerSet : String
  encodedHash : Except String String
  deriving DecidableEq

structure StepResult where
  status : StepStatus
  artifact : String
  contentHash : String
  feedback : Option ReviewFeedback
  pauseReason : String
  detail : String
  costUsd : ℚ
  costUnknown : Bool
  deriving DecidableEq

/-- The part of a delegate's error that crosses the billing boundary. -/
structure DelegateExecution where
  dispatched : Bool
  costKnown : Bool
  costUsd : ℚ
  deriving DecidableEq

/-- An error of the runner: its text, and which of the sentinels it wraps. -/
structure RunnerError where
  text : String
  replayUnavailable : Bool
  costLimitUnsupported : Bool
  outputLimit : Bool
  gitIdentityMissing : Bool
  deadlineExceeded : Bool
  execution : Option DelegateExecution
  deriving DecidableEq

inductive Outcome where
  | result (step : StepResult)
  | error (e : RunnerError)
  deriving DecidableEq

/-- The answers of the registry and the artifact store to one advance, with `wfe.Hash`, the
    quotation of a format string and the redactions of `safeDiagnostic`. -/
structure World where
  loadVersion : Except String Definition
  blockVersion : Except String Unit
  proposal : Except String Unit
  importProposal : Except String Unit
  proposalAgain : Except String Unit
  nodeArtifact : String → Except String String
  putPlan : Except String Unit
  putNodeArtifact : Except String Unit
  putFeedback : Except String Unit
  hash : String → String
  quote : String → String
  safeDiagnostic : String → String

/-- One call of the engine. -/
structure Call where
  unixNano : ℤ
  invocationSeq : ℕ
  reservedAt : Time
  meanwhile : List (Time × Op)
  outcome : Outcome
  endedAt : Time
  world : World

def Call.owner (c : Call) (id : String) : String :=
  id ++ ":" ++ toString c.unixNano ++ ":" ++ toString c.invocationSeq

/-! ## Runner failures -/

def maxRunnerFailuresWithoutProgress : ℕ := 8

def maxCapacityWaitsWithoutProgress : ℕ := 240

def containsText (text sub : String) : Bool := sub.toList <:+: text.toList

def RunnerError.isCapacityBackpressure (e : RunnerError) : Bool :=
  containsText e.text "aimee_err=concurrency_limit" || containsText e.text "is rate-limited; retry in"

/-- The reason a failed invocation parks with. -/
def failureReason (e : RunnerError) (id stage : String) (s : Store) : String :=
  let capacity := e.isCapacityBackpressure
  let reason :=
    if e.costLimitUnsupported then "cost_limit_unsupported"
    else if e.outputLimit then "delegate_output_limit"
    else if e.gitIdentityMissing then "git_identity_missing"
    else if capacity then "capacity_backpressure"
    else "runner_unavailable"
  let bound := if capacity then maxCapacityWaitsWithoutProgress else maxRunnerFailuresWithoutProgress
  let counted := if capacity then wfeCapacityWaitsSince id stage s else wfeRunnerFailuresSince id stage s
  -- A stage that keeps failing without ever advancing is not a transient outage.
  let reason := match counted with
    | .ok failures =>
      if bound ≤ failures ∧ !e.costLimitUnsupported ∧ !e.outputLimit then "delegate_failed" else reason
    | _ => reason
  if !e.costLimitUnsupported ∧ !e.outputLimit ∧ e.deadlineExceeded then "wall_cap" else reason

/-! ## What an advance returns -/

structure AdvanceResult where
  ran : Bool
  terminal : Bool
  parked : Bool
  stage : String
  nextStage : String
  state : String
  pauseReason : String
  deriving DecidableEq

inductive EngineError where
  | notFound
  | refused
  | parkFailed (reason : String)
  deriving DecidableEq

structure Advanced where
  store : Store
  result : AdvanceResult
  error : Option EngineError

/-- The result an advance starts from: the row as it was read. -/
def AdvanceResult.start (item : WorkItem) : AdvanceResult where
  ran := false
  terminal := false
  parked := false
  stage := item.currentStage
  nextStage := ""
  state := item.state
  pauseReason := item.pauseReason

/-- A result for an operation that was answered, the error without one. -/
def answered {α : Type} (out : AdvanceResult) (f : α → AdvanceResult) : Store × Reply α → Advanced
  | (s, .ok cells) => { store := s, result := f cells, error := none }
  | (s, _) => { store := s, result := out, error := some .refused }

/-! ## Preparing a step -/

structure Prepared where
  node : Node
  -- The bound inputs, by the hash of their artifact.
  inputs : List (String × String)

/-- A reason to park, with its cause. -/
abbrev Fault := String × String

def prepareNode (world : World) (definition : Definition) (item : WorkItem) : Except Fault Node :=
  match definition.node? item.currentStage with
  | some node => .ok node
  | none => .error ("workflow_stage_missing", "stage " ++ world.quote item.currentStage ++ " is absent")

/-- A proposal that is not in the store is imported from where the row says it is. -/
def prepareProposal (world : World) (item : WorkItem) : Except Fault Unit :=
  match world.proposal with
  | .ok _ => .ok ()
  | .error cause =>
    if item.proposalPath = "" then .error ("proposal_missing", cause)
    else world.importProposal.mapError ("proposal_import_failed", ·)

def prepareInput (world : World) (input : String × String) : Except Fault (String × String) :=
  let producer := (parseBinding input.2).elim "" (·.1)
  match world.nodeArtifact producer with
  | .ok hash => .ok (input.1, hash)
  | .error cause => .error ("input_artifact_missing", input.1 ++ " <- " ++ input.2 ++ ": " ++ cause)

def prepare (world : World) (item : WorkItem) : Except Fault Prepared := do
  let definition ← world.loadVersion.mapError ("workflow_definition_invalid", ·)
  let node ← prepareNode world definition item
  world.blockVersion.mapError ("workflow_block_unavailable", ·)
  prepareProposal world item
  world.proposalAgain.mapError ("proposal_missing", ·)
  let inputs ← node.inputs.mapM (prepareInput world)
  return { node := node, inputs := inputs }

/-! ## What a result of the runner decides -/

/-- The transition a result asks for. A `fault` parks with a cause and is not reported as a park. -/
inductive Decision where
  | fault (reason cause : String)
  | wait (reason detail : String)
  | finish (state detail contentHash : String)
  | move (toStage detail contentHash : String)
  | retry (toStage detail : String) (maxAttempts : ℤ)
  | changes (round : ReviewRound) (planStage : String)

/-- Publishes the plan of a step that authors one. The answer is the content hash. -/
def publishPlan (world : World) (node : Node) (step : StepResult) : Except Fault String :=
  if node.block ≠ "author.plan" then .ok step.contentHash
  else if step.artifact = "" then .error ("plan_missing", "runner returned no plan")
  else (world.putPlan.mapError ("plan_write_failed", ·)).map fun _ => world.hash step.artifact

/-- Publishes the artifact of a step that advanced. The answer is the content hash. -/
def publish (world : World) (node : Node) (step : StepResult) : Except Fault String :=
  if step.status ≠ .advanced then .ok step.contentHash
  else do
    let contentHash ← publishPlan world node step
    world.putNodeArtifact.mapError ("artifact_write_failed", ·)
    return if contentHash = "" then world.hash step.artifact else contentHash

/-- The pass edge of a gate is `on_pass`, not `next`. -/
def Node.passTarget (node : Node) : String := if node.onPass ≠ "" then node.onPass else node.next

def maxNoProgress : ℤ := 3

def convergencePayload (node : Node) (feedback : ReviewFeedback) : ConvergenceField :=
  let mode := (trimmed (node.paramString "blocker_convergence" "observe")).toList.map Char.toLower
  .v1 (if mode = "enforce".toList then "enforce" else "observe") feedback.unresolved feedback.blockerSet

def decideAdvanced (world : World) (node : Node) (step : StepResult) (contentHash : String) : Decision :=
  let written := if step.feedback.any (0 < ·.findings) then world.putFeedback else .ok ()
  match written with
  | .error cause => .fault "feedback_write_failed" cause
  | .ok _ =>
    if node.passTarget = "" then .finish "accepted" step.detail contentHash
    else .move node.passTarget step.detail contentHash

def decideChanges (world : World) (id : String) (prepared : Prepared) (step : StepResult) : Decision :=
  let node := prepared.node
  if node.onFail = "" then .fault "invalid_review_result" "changes requires an on_fail edge" else
  if node.block ≠ "gate.roundtable" ∧ node.block ≠ "review" then
    .retry node.onFail step.detail node.maxIterations
  else match step.feedback with
  | none => .fault "invalid_review_result" "review changes requires structured feedback"
  | some feedback =>
    match prepared.inputs.lookup "src" with
    | none => .fault "review_artifact_missing" "review gate requires an in.src artifact binding"
    | some reviewed =>
      match world.putFeedback, feedback.encodedHash with
      | .error cause, _ => .fault "feedback_write_failed" cause
      | .ok _, .error cause => .fault "feedback_encode_failed" cause
      | .ok _, .ok encoded =>
        .changes
          { workItemId := id, gate := node.id, planHash := reviewed, feedbackHash := encoded
            payload := convergencePayload node feedback
            maxIterations := node.maxIterations, maxIdentical := maxNoProgress }
          node.onFail

def decidePending (world : World) (step : StepResult) : Decision :=
  let reason := if step.pauseReason = "" then "runner_pending" else step.pauseReason
  let detail := trimmed step.detail
  .wait reason (if detail = "" then reason else reason ++ ": " ++ world.safeDiagnostic detail)

def decideStep (world : World) (id : String) (prepared : Prepared) (step : StepResult) : Decision :=
  match publish world prepared.node step with
  | .error (reason, cause) => .fault reason cause
  | .ok contentHash =>
    match step.status with
    | .advanced => decideAdvanced world prepared.node step contentHash
    | .accepted => .finish "accepted" step.detail contentHash
    | .changes => decideChanges world id prepared step
    | .pending => decidePending world step
    | .failed => .finish "rejected" step.detail contentHash
    | .other status => .fault "invalid_runner_result" ("unknown step status " ++ world.quote status)

/-! ## Commits -/

def parkAfterSpend (now : Time) (world : World) (item : WorkItem) (fault : Fault) (cost : ℚ)
    (out : AdvanceResult) (s : Store) : Advanced :=
  let detail := fault.1 ++ ": " ++ world.safeDiagnostic fault.2
  match wfeParkWithDetail now item.workItemId item.currentStage fault.1 detail cost s with
  | (s, .ok _) => { store := s, result := out, error := none }
  | (s, _) => { store := s, result := out, error := some (.parkFailed fault.1) }

def Decision.commit (now : Time) (world : World) (item : WorkItem) (node : Node) (cost : ℚ)
    (out : AdvanceResult) (s : Store) : Decision → Advanced
  | .fault reason cause => parkAfterSpend now world item (reason, cause) cost out s
  | .wait reason detail =>
    answered out (fun _ => { out with parked := true, pauseReason := reason })
      (wfeParkWithDetail now item.workItemId node.id reason detail cost s)
  | .finish state detail contentHash =>
    answered out (fun _ => { out with terminal := true, state := state })
      (wfeFinish now item.workItemId node.id state detail contentHash cost s)
  | .move toStage detail contentHash =>
    answered out (fun _ => { out with nextStage := toStage })
      (wfeMove now item.workItemId node.id toStage "advance" detail contentHash cost s)
  | .retry toStage detail maxAttempts =>
    answered out
      (fun parked => { out with
        nextStage := toStage, parked := parked
        pauseReason := if parked then "retry_limit" else out.pauseReason })
      (wfeRecordRetry now item.workItemId node.id toStage detail maxAttempts cost s)
  | .changes round planStage =>
    answered out
      (fun outcome => { out with
        nextStage := planStage, parked := outcome.parked, pauseReason := outcome.pauseReason })
      (wfeRecordRequestedChanges now round planStage cost s)

/-! ## The advance -/

/-- Unmeasured spend is charged at the authorization the invocation was granted. -/
def chargedCost (budget : BudgetReply) (step : StepResult) : ℚ :=
  if step.costUnknown ∧ step.costUsd < budget.amount then budget.amount else step.costUsd

def commitResult (c : Call) (item : WorkItem) (owner : String) (budget : BudgetReply) (prepared : Prepared)
    (step : StepResult) (s : Store) : Advanced :=
  let out := AdvanceResult.start item
  let cost := chargedCost budget step
  match wfeBudgetReconcile item.workItemId owner cost s with
  | (s, .ok allowed) =>
    if 0 < budget.maxUsd ∧ ((budget.amount : ℚ) < cost ∨ !allowed) then
      answered out (fun _ => { out with parked := true, pauseReason := "budget_cap" })
        (wfeParkBudgetTree c.endedAt budget.rootId item.workItemId cost s)
    else
      (decideStep c.world item.workItemId prepared step).commit c.endedAt c.world item prepared.node cost
        { out with ran := true } s
  | (s, _) => { store := s, result := out, error := some .refused }

def parkFailure (c : Call) (item : WorkItem) (owner : String) (e : RunnerError) (s : Store) : Advanced :=
  let out := AdvanceResult.start item
  if e.replayUnavailable then
    answered out
      (fun redispatch =>
        if redispatch then out else { out with parked := true, pauseReason := "replay_unrecoverable" })
      (wfeRecoverLostReplay c.endedAt item.workItemId item.currentStage owner s)
  else
    let reason := failureReason e item.workItemId item.currentStage s
    let execution := e.execution.getD { dispatched := false, costKnown := false, costUsd := 0 }
    answered out (fun _ => { out with parked := true, pauseReason := reason })
      (wfeParkRunnerFailure c.endedAt item.workItemId item.currentStage owner reason
        (reason ++ ": " ++ c.world.safeDiagnostic e.text)
        execution.dispatched execution.costKnown execution.costUsd s)

/-- An advance whose reservation was granted. -/
def runStep (c : Call) (item : WorkItem) (owner : String) (budget : BudgetReply) (s : Store) : Advanced :=
  match prepare c.world item with
  | .error fault =>
    let parked := parkAfterSpend c.reservedAt c.world item fault 0 (.start item) s
    -- Nothing ran, so the deferred release gives back what the park has not cleared.
    { parked with store := (wfeBudgetRelease item.workItemId owner parked.store).1 }
  | .ok prepared =>
    let s := s.run c.meanwhile
    match c.outcome with
    | .result step => commitResult c item owner budget prepared step s
    | .error e => parkFailure c item owner e s

def advance (c : Call) (id : String) (s : Store) : Advanced :=
  match s.item? id with
  | none =>
    { store := s, error := some .notFound
      result :=
        { ran := false, terminal := false, parked := false, stage := "", nextStage := "", state := ""
          pauseReason := "" } }
  | some item =>
    let out := AdvanceResult.start item
    if item.state ≠ "active" ∨ item.pauseReason ≠ "" then
      { store := s, error := none
        result := { out with terminal := item.state ≠ "active", parked := item.pauseReason ≠ "" } }
    else match wfeBudgetReserve c.reservedAt item.workItemId (c.owner item.workItemId) s with
    | (s, .ok budget) =>
      if budget.allowed then runStep c item (c.owner item.workItemId) budget s
      else if budget.busy then { store := s, result := out, error := none }
      else answered out (fun _ => { out with parked := true, pauseReason := "budget_cap" })
        (wfeParkBudgetTree c.reservedAt budget.rootId "" 0 s)
    | (s, _) => { store := s, result := out, error := some .refused }

/-! ## The operations of an advance -/

/-- The operation a decision commits with. -/
def Decision.op (world : World) (item : WorkItem) (node : Node) (cost : ℚ) : Decision → Op
  | .fault reason cause =>
    .wfeParkWithDetail item.workItemId item.currentStage reason
      (reason ++ ": " ++ world.safeDiagnostic cause) cost
  | .wait reason detail => .wfeParkWithDetail item.workItemId node.id reason detail cost
  | .finish state detail contentHash => .wfeFinish item.workItemId node.id state detail contentHash cost
  | .move toStage detail contentHash =>
    .wfeMove item.workItemId node.id toStage "advance" detail contentHash cost
  | .retry toStage detail maxAttempts =>
    .wfeRecordRetry item.workItemId node.id toStage detail maxAttempts cost
  | .changes round planStage => .wfeRecordRequestedChanges round planStage cost

namespace Call

/-- The operation that records an error of the runner. -/
def failureOp (c : Call) (item : WorkItem) (owner : String) (e : RunnerError) (s : Store) : Op :=
  let reason := failureReason e item.workItemId item.currentStage s
  let execution := e.execution.getD { dispatched := false, costKnown := false, costUsd := 0 }
  if e.replayUnavailable then .wfeRecoverLostReplay item.workItemId item.currentStage owner
  else .wfeParkRunnerFailure item.workItemId item.currentStage owner reason
    (reason ++ ": " ++ c.world.safeDiagnostic e.text)
    execution.dispatched execution.costKnown execution.costUsd

/-- The operations that record the outcome of the runner. -/
def endingOps (c : Call) (item : WorkItem) (owner : String) (budget : BudgetReply) (prepared : Prepared)
    (s : Store) : List (Time × Op) :=
  match c.outcome with
  | .error e => [(c.endedAt, c.failureOp item owner e s)]
  | .result step =>
    let cost := chargedCost budget step
    let closing := match wfeBudgetReconcile item.workItemId owner cost s with
      | (_, .ok allowed) =>
        if 0 < budget.maxUsd ∧ ((budget.amount : ℚ) < cost ∨ !allowed) then
          [(c.endedAt, .wfeParkBudgetTree budget.rootId item.workItemId cost)]
        else
          let decision := decideStep c.world item.workItemId prepared step
          [(c.endedAt, decision.op c.world item prepared.node cost)]
      | _ => []
    (c.endedAt, .wfeBudgetReconcile item.workItemId owner cost) :: closing

def stepOps (c : Call) (item : WorkItem) (owner : String) (budget : BudgetReply) (s : Store) :
    List (Time × Op) :=
  match prepare c.world item with
  | .error fault =>
    [(c.reservedAt, .wfeParkWithDetail item.workItemId item.currentStage fault.1
        (fault.1 ++ ": " ++ c.world.safeDiagnostic fault.2) 0),
      (c.reservedAt, .wfeBudgetRelease item.workItemId owner)]
  | .ok prepared => c.meanwhile ++ c.endingOps item owner budget prepared (s.run c.meanwhile)

/-- Every operation that is applied from the start of an advance to its end. -/
def ops (c : Call) (id : String) (s : Store) : List (Time × Op) :=
  match s.item? id with
  | none => []
  | some item =>
    if item.state ≠ "active" ∨ item.pauseReason ≠ "" then [] else
    let owner := c.owner item.workItemId
    let rest := match wfeBudgetReserve c.reservedAt item.workItemId owner s with
      | (s, .ok budget) =>
        if budget.allowed then c.stepOps item owner budget s
        else if budget.busy then []
        else [(c.reservedAt, .wfeParkBudgetTree budget.rootId "" 0)]
      | _ => []
    (c.reservedAt, .wfeBudgetReserve item.workItemId owner) :: rest

end Call

section Store

variable (c : Call) (item : WorkItem) (s : Store)

@[simp] theorem store_answered {α : Type} (out : AdvanceResult) (f : α → AdvanceResult)
    (p : Store × Reply α) : (answered out f p).store = p.1 := by
  obtain ⟨s, reply⟩ := p
  cases reply <;> rfl

@[simp] theorem store_parkAfterSpend (now : Time) (world : World) (fault : Fault) (cost : ℚ)
    (out : AdvanceResult) :
    (parkAfterSpend now world item fault cost out s).store =
      (Op.wfeParkWithDetail item.workItemId item.currentStage fault.1
        (fault.1 ++ ": " ++ world.safeDiagnostic fault.2) cost).apply now s := by
  unfold parkAfterSpend
  dsimp only [Op.apply]
  split <;> next h => rw [h]

theorem Decision.store_commit (d : Decision) (now : Time) (world : World) (node : Node) (cost : ℚ)
    (out : AdvanceResult) :
    (d.commit now world item node cost out s).store = (d.op world item node cost).apply now s := by
  cases d with
  | fault reason cause => exact store_parkAfterSpend ..
  | _ => exact store_answered ..

theorem store_parkFailure (owner : String) (e : RunnerError) :
    (parkFailure c item owner e s).store = (c.failureOp item owner e s).apply c.endedAt s := by
  unfold parkFailure Call.failureOp
  split
  · exact store_answered ..
  · exact store_answered ..

theorem store_commitResult {step : StepResult} (owner : String) (budget : BudgetReply)
    (prepared : Prepared) (hout : c.outcome = .result step) :
    (commitResult c item owner budget prepared step s).store =
      s.run (c.endingOps item owner budget prepared s) := by
  unfold commitResult Call.endingOps
  rw [hout]
  dsimp only
  rw [Store.run, Op.apply]
  obtain ⟨t, reply⟩ := wfeBudgetReconcile item.workItemId owner (chargedCost budget step) s
  cases reply with
  | ok allowed =>
    dsimp only
    split
    · exact store_answered ..
    · exact Decision.store_commit ..
  | _ => rfl

theorem store_runStep (owner : String) (budget : BudgetReply) :
    (runStep c item owner budget s).store = s.run (c.stepOps item owner budget s) := by
  unfold runStep Call.stepOps
  cases hprepare : prepare c.world item with
  | error fault =>
    dsimp only
    rw [store_parkAfterSpend]
    rfl
  | ok prepared =>
    rw [Store.run_append]
    cases hout : c.outcome with
    | result step => exact store_commitResult c item _ owner budget prepared hout
    | error e =>
      rw [Call.endingOps, hout]
      exact store_parkFailure c item _ owner e

theorem store_advance (id : String) : (advance c id s).store = s.run (c.ops id s) := by
  unfold advance Call.ops
  cases s.item? id with
  | none => rfl
  | some item =>
    dsimp only
    split
    · rfl
    · rw [Store.run, Op.apply]
      obtain ⟨t, reply⟩ := wfeBudgetReserve c.reservedAt item.workItemId (c.owner item.workItemId) s
      cases reply with
      | ok budget =>
        dsimp only
        split
        · exact store_runStep ..
        · split
          · rfl
          · exact store_answered ..
      | _ => rfl

end Store

/-! ## An advance to look at -/

/-- A workflow of one stage that may be repeated three times. -/
def sampleDefinition : Definition where
  name := "build"
  start := "plan"
  nodes := [
    { id := "plan", block := "author.proposal", inputs := [], params := [("max_rounds", .int 3)]
      next := "", onPass := "", onFail := "plan" }]

/-- A registry that serves the definition, and an artifact store that takes everything. -/
def sampleWorld : World where
  loadVersion := .ok sampleDefinition
  blockVersion := .ok ()
  proposal := .ok ()
  importProposal := .ok ()
  proposalAgain := .ok ()
  nodeArtifact := fun _ => .ok "hash"
  putPlan := .ok ()
  putNodeArtifact := .ok ()
  putFeedback := .ok ()
  hash := id
  quote := id
  safeDiagnostic := id

def sampleResult : StepResult where
  status := .advanced
  artifact := "text"
  contentHash := ""
  feedback := none
  pauseReason := ""
  detail := ""
  costUsd := 0
  costUnknown := false

def sampleCall (now : Time) (outcome : Outcome) : Call where
  unixNano := now
  invocationSeq := 1
  reservedAt := now
  meanwhile := []
  outcome := outcome
  endedAt := now
  world := sampleWorld

end Workflow
