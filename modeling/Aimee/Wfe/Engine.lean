-- SUMMARY: One advance of the daemon's workflow engine, and the runs of a work item under it.
import Aimee.Families.Cells
import Aimee.Wfe.Definition
import Aimee.Workflow.Lifecycle

/-!
# The workflow engine of the daemon

`wfe_engine_advance`. What a block executor answers is an input of the step, and so is whether the
two calls into the store go through. The store and the recording of an outcome are those of the
lifecycle family, behind the cells of its wire.
-/

namespace Wfe

open Workflow (Store WorkItem Time Disposition Reply workItemRecordOutcome stageAttemptInc workItemClearPause)

/-! ## Results of a step -/

inductive StepStatus where
  | advanced
  | pending
  | failed
  | looped
  deriving DecidableEq

inductive PauseReason where
  | none
  | pendingHuman
  | panelDegraded
  | budgetExceeded
  | panelUnreachable
  | ciPending
  | mergePending
  | turnCap
  | wallCap
  | slicesRunning
  deriving DecidableEq

/-- `pause_name`. -/
def PauseReason.text : PauseReason → String
  | .none => ""
  | .pendingHuman => "pending_human"
  | .panelDegraded => "panel_degraded"
  | .budgetExceeded => "budget_exceeded"
  | .panelUnreachable => "panel_unreachable"
  | .ciPending => "ci_pending"
  | .mergePending => "merge_pending"
  | .turnCap => "turn_cap_exceeded"
  | .wallCap => "wall_cap_exceeded"
  | .slicesRunning => "slices_running"

def pauseFromName (s : String) : PauseReason :=
  ([.pendingHuman, .panelDegraded, .budgetExceeded, .panelUnreachable, .ciPending, .mergePending, .turnCap,
    .wallCap, .slicesRunning].find? fun r : PauseReason => r.text = s).getD .none

inductive FailureClass where
  | none
  | transient
  | refusal
  | permanent
  | degraded
  | budget
  | forge
  | corruption
  deriving DecidableEq

/-- What an executor answers. -/
structure StepResult where
  status : StepStatus
  pauseReason : PauseReason := .none
  contentHash : String := ""
  costUsd : ℚ := 0
  failureClass : FailureClass := .none
  failureHasNewInput : Bool := false

/-- What an advance answers. -/
structure AdvanceResult where
  lastStatus : StepStatus := .advanced
  stage : String := ""
  nextStage : String := ""
  terminal : Bool := false
  state : String := ""
  pauseReason : PauseReason := .none
  failureClass : FailureClass := .none
  failureHasNewInput : Bool := false

/-! ## The decision -/

def nextStageFor (n : Node) : StepStatus → String
  | .advanced => if n.onPass ≠ "" then n.onPass else n.next
  | .looped => n.onFail
  | _ => ""

/-- The outcome of a step, before it is recorded, and what is answered if it is. -/
structure Decision where
  disposition : Disposition
  eventKind : String
  eventDetail : String
  eventHash : String := ""
  out : AdvanceResult

/-- The end of a run with nobody to ask. -/
def abandon (detail : String) (out : AdvanceResult) : Decision where
  disposition := .terminal "abandoned" true
  eventKind := "terminal"
  eventDetail := detail
  out := { out with terminal := true, state := "abandoned" }

def decidePending (wi : WorkItem) (n : Node) (r : StepResult) (out : AdvanceResult) : Decision :=
  -- An empty reason would read as not parked.
  let reason := if r.pauseReason.text = "" then "unspecified" else r.pauseReason.text
  if r.pauseReason = .pendingHuman ∧ wi.mode = "autonomous" ∧ n.block ≠ .gateHuman then
    abandon "abandoned: autonomous dead-end (no human to escalate to)" out
  else
    { disposition := .pause reason n.id
      eventKind := "pause"
      eventDetail := reason
      eventHash := r.contentHash
      out := { out with pauseReason := r.pauseReason, nextStage := n.id } }

def decideFailed (n : Node) (r : StepResult) (out : AdvanceResult) : Decision :=
  let (reason, detail) := match r.failureClass with
    | .budget => ("budget_exceeded", "budget")
    | .degraded => ("panel_degraded", "degraded")
    | .forge => ("pending_human", "forge")
    | .transient => ("stuck", if r.failureHasNewInput then "retry_expected_looped" else "park_stuck")
    | _ => ("failed", "")
  { disposition := .pause reason n.id, eventKind := "failed", eventDetail := detail, out := out }

/-- A node that has looped as often as it may. -/
def decideCapped (wi : WorkItem) (n : Node) (r : StepResult) (out : AdvanceResult) : Decision :=
  match nodeOnMax n with
  | .fail =>
    { disposition := .terminal "rejected" false
      eventKind := "terminal"
      eventDetail := "rejected: max_iters reached"
      out := { out with terminal := true, state := "rejected" } }
  | .pass =>
    let forward := if n.onPass ≠ "" then n.onPass else n.next
    { disposition := .advance forward "" ""
      eventKind := "forced_pass"
      eventDetail := forward
      eventHash := r.contentHash
      out := { out with lastStatus := .advanced, nextStage := forward } }
  | .human =>
    if wi.mode = "autonomous" then
      abandon "abandoned: max_iters reached (autonomous, no human to escalate to)" out
    else
      { disposition := .pause "pending_human" n.onFail
        eventKind := "pause"
        eventDetail := "max_iters"
        out := { out with lastStatus := .pending, pauseReason := .pendingHuman, nextStage := n.onFail } }

/-- A step along an edge, which parks before the next stage when its own cost crossed the cap. -/
def decideMove (wi : WorkItem) (n : Node) (r : StepResult) (out : AdvanceResult) : Decision :=
  let next := nextStageFor n r.status
  let overBudget : Bool := 0 < wi.workItemMaxCostUsd ∧
    (wi.workItemMaxCostUsd : ℚ) ≤ wi.cumCostUsd + (if 0 < r.costUsd then r.costUsd else 0)
  let prRef := if n.block = .prOpen ∧ r.status = .advanced then r.contentHash else ""
  { disposition := .advance next prRef (if overBudget then "budget_exceeded" else "")
    eventKind := if r.status = .looped then "loop" else "advance"
    eventDetail := next
    eventHash := r.contentHash
    out := if overBudget then
        { out with nextStage := next, lastStatus := .pending, pauseReason := .budgetExceeded }
      else { out with nextStage := next } }

/-- What the engine makes of the answer of an executor; `attempts` is the count of loops with this one. -/
def decideOutcome (wi : WorkItem) (n : Node) (r : StepResult) (attempts : ℤ) (out : AdvanceResult) :
    Except String Decision :=
  match r.status with
  | .pending => .ok (decidePending wi n r out)
  | .failed => .ok (decideFailed n r out)
  | .advanced =>
    if nextStageFor n .advanced = "" then
      .ok
        { disposition := .terminal "accepted" false
          eventKind := "terminal"
          eventDetail := "accepted"
          eventHash := r.contentHash
          out := { out with terminal := true, state := "accepted" } }
    else .ok (decideMove wi n r out)
  | .looped =>
    if n.onFail = "" then .error s!"node '{n.id}' looped with no on_fail edge"
    else if nodeMaxIters n ≤ attempts then .ok (decideCapped wi n r out)
    else .ok (decideMove wi n r out)

/-! ## The advance -/

/-- What a step meets outside the engine: the answer of the executor, none when no executor is registered
    for the block, and whether the count of loops and the outcome are recorded. -/
structure StepInput where
  executor : Option StepResult
  counts : Bool := true
  records : Bool := true

/-- The call that counts a loop back, before its outcome is decided. -/
def countLoop (id : String) (n : Node) (r : StepResult) (counts : Bool) (s : Store) : Store × ℤ :=
  if r.status = .looped ∧ n.onFail ≠ "" ∧ counts then
    match stageAttemptInc id n.id s with
    | (s', .ok count) => (s', count)
    | (s', _) => (s', -1)
  else (s, -1)

/-- What the daemon has around the engine: its workflows, and the `%.17g` of the C library. -/
structure Daemon where
  load : String → Except String Def
  spellG17 : ℚ → String

/-- `Atoi` of `wire.go`. -/
def atoi (cell : String) : Option ℤ := Families.atoi64 (cell.toList.flatMap String.utf8EncodeChar)

/-- `Atof` of `wire.go`, on a cell that spells an integer as that of a disposition does. -/
def atof (cell : String) : Option ℚ := (atoi cell).map fun n => (n : ℚ)

/-- The cells that `db1_work_item_record_outcome` sends, in the order of `operations.json`. -/
def outcomeCells (spellG17 : ℚ → String) (id nodeId : String) (disposition : Disposition) (cost : ℚ)
    (kind detail hash : String) : List String :=
  match disposition with
  | .pause reason stage =>
    [id, nodeId, "0", "", reason, stage, "", "", "0", spellG17 cost, kind, detail, hash, ""]
  | .terminal state abandons =>
    [id, nodeId, "1", state, "", "", "", "", if abandons then "1" else "0", spellG17 cost, kind, detail, hash, ""]
  | .advance next prRef park =>
    [id, nodeId, "2", "", "", "", next, prRef, "0", spellG17 cost, kind, detail, hash, park]

/-- The handler of op 32. It reads the cells in an order of its own: the disposition where the client has the
    node, and `abandon_children` where the client has the park reason. -/
def handleOutcome (now : Time) (s : Store) : List String → Store × Reply Unit
  | [id, disposition, cost, state, pauseReason, pauseStage, nextStage, prRef, parkReason,
      nodeId, kind, detail, hash, abandonChildren] =>
    match atoi disposition, atof cost, atoi abandonChildren with
    | some disposition, some cost, some abandon =>
      if disposition = 0 then
        workItemRecordOutcome now id (.pause pauseReason pauseStage) cost nodeId kind detail hash s
      else if disposition = 1 then
        workItemRecordOutcome now id (.terminal state (abandon ≠ 0)) cost nodeId kind detail hash s
      else if disposition = 2 then
        workItemRecordOutcome now id (.advance nextStage prRef parkReason) cost nodeId kind detail hash s
      else (s, .invalid)
    | _, _, _ => (s, .invalid)
  | _ => (s, .invalid)

variable (daemon : Daemon)

/-- The call that records an outcome. -/
def recordOutcome (now : Time) (id : String) (n : Node) (disposition : Disposition) (cost : ℚ)
    (kind detail hash : String) (records : Bool) (s : Store) : Store × Bool :=
  if records then
    match handleOutcome now s (outcomeCells daemon.spellG17 id n.id disposition cost kind detail hash) with
    | (s', .ok ()) => (s', true)
    | (s', _) => (s', false)
  else (s, false)

/-- The step of a run that is active and not parked, at a node of its workflow. -/
def stepNode (now : Time) (id : String) (wi : WorkItem) (n : Node) (input : StepInput) (s : Store) :
    Store × Except String AdvanceResult :=
  match input.executor with
  | none => (s, .error s!"no executor registered for block '{blockName n.block}'")
  | some r =>
    let out : AdvanceResult := { state := wi.state, stage := n.id }
    if 0 < wi.workItemMaxCostUsd ∧ wi.workItemMaxCostUsd ≤ wi.cumCostUsd then
      -- The executor is not run.
      match recordOutcome daemon now id n (.pause "budget_exceeded" n.id) 0 "pause" "budget_exceeded" ""
        input.records s with
      | (s', true) =>
        (s', .ok { out with lastStatus := .pending, pauseReason := .budgetExceeded, nextStage := n.id })
      | (s', false) => (s', .error "could not record the budget pause")
    else
      let counted := countLoop id n r input.counts s
      match decideOutcome wi n r counted.2 { out with
          lastStatus := r.status, failureClass := r.failureClass, failureHasNewInput := r.failureHasNewInput } with
      | .error text => (counted.1, .error text)
      | .ok decision =>
        match recordOutcome daemon now id n decision.disposition (if 0 < r.costUsd then r.costUsd else 0)
          decision.eventKind decision.eventDetail decision.eventHash input.records counted.1 with
        | (s', true) => (s', .ok decision.out)
        | (s', false) => (s', .error "advance: the step outcome was not recorded; nothing was applied")

/-- `wfe_engine_advance`. -/
def engineAdvance (now : Time) (id : String) (input : StepInput) (s : Store) :
    Store × Except String AdvanceResult :=
  match s.item? id with
  | none => (s, .error s!"unknown work item '{id}'")
  | some wi =>
    if wi.state ≠ "active" then (s, .ok { state := wi.state, terminal := true })
    else if wi.pauseReason ≠ "" then
      (s, .ok
        { state := wi.state, lastStatus := .pending, pauseReason := pauseFromName wi.pauseReason
          stage := wi.currentStage, nextStage := wi.currentStage })
    else
      match daemon.load wi.workflowName with
      | .error text => (s, .error ("load workflow: " ++ text))
      | .ok d =>
        match d.node? wi.currentStage with
        | none => (s, .error s!"current stage '{wi.currentStage}' not in workflow")
        | some n => stepNode daemon now id wi n input s

/-! ## Runs -/

/-- What happens to a run: the engine advances it, or an operator releases its park. -/
inductive Event where
  | advance (now : Time) (input : StepInput)
  | resume (now : Time)

def Event.apply (id : String) (s : Store) : Event → Store
  | .advance now input => (engineAdvance daemon now id input s).1
  | .resume now => (workItemClearPause now id s).1

def run (id : String) (s : Store) (events : List Event) : Store :=
  events.foldl (Event.apply daemon id) s

end Wfe
