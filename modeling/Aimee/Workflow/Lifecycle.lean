-- SUMMARY: The work-item operations of the lifecycle family: creation, setters, human gates, sweeps and recorded outcomes.
import Aimee.Workflow.Store

/-!
# Work-item operations

The operations of `lifecycle.go` that write. The arguments are the decoded cells of a request;
a cell that does not decode is answered with `invalid` before anything is read.
-/

namespace Workflow

/-- The states a work item does not come back from. -/
def terminalWorkItemStates : List String := ["accepted", "rejected", "abandoned"]

/-- The backstop parks a stale-park sweep may abandon. -/
def reapableParkReasons : List String :=
  ["stuck", "wall_cap_exceeded", "turn_cap_exceeded", "budget_exceeded"]

/-- A new row, with the defaults of its columns. -/
def WorkItem.new (now : Time) (workItemId repo proposalPath workflowName workflowVersion
    currentStage mode : String) : WorkItem where
  workItemId := workItemId
  repo := repo
  proposalPath := proposalPath
  workflowName := workflowName
  workflowVersion := workflowVersion
  currentStage := currentStage
  state := "active"
  mode := mode
  pauseReason := ""
  pausedState := ""
  contentHash := ""
  prRef := ""
  worktree := ""
  submitter := ""
  cumCostUsd := 0
  reservation := clearReservation
  workItemMaxCostUsd := 0
  overrideCount := 0
  parentId := ""
  sourcePath := ""
  createdAt := now
  updatedAt := now

def workItemCreate (now : Time) (workItemId repo proposalPath workflowName workflowVersion
    currentStage mode : String) (s : Store) : Store × Reply Unit :=
  if workItemId = "" then (s, .invalid) else
  let workflow := if workflowName = "" then "build" else workflowName
  let mode := if mode = "" then "interactive" else mode
  match s.insertItem (.new now workItemId repo proposalPath workflow workflowVersion currentStage mode) with
  | none => (s, .error)
  | some s => (s, .ok ())

/-! ## Setters -/

/-- An update of one row, whether or not it exists. -/
def setField (workItemId : String) (f : WorkItem → WorkItem)
    (hf : ∀ w, (f w).workItemId = w.workItemId) (s : Store) : Store × Reply Unit :=
  if workItemId = "" then (s, .invalid) else
  (s.updateItems (·.workItemId = workItemId) f hf, .ok ())

/-- An update of one row that answers `failed` without it. -/
def setFieldChecked (workItemId : String) (f : WorkItem → WorkItem)
    (hf : ∀ w, (f w).workItemId = w.workItemId) (s : Store) : Store × Reply Unit :=
  if workItemId = "" then (s, .invalid) else
  if s.items.matched (·.workItemId = workItemId) ≠ 1 then (s, .failed) else
  (s.updateItems (·.workItemId = workItemId) f hf, .ok ())

def workItemSetStage (now : Time) (workItemId stage contentHash : String) :
    Store → Store × Reply Unit :=
  setField workItemId
    (fun w => { w with currentStage := stage, contentHash := contentHash, updatedAt := now })
    fun _ => rfl

def workItemSetPRRef (now : Time) (workItemId prRef : String) : Store → Store × Reply Unit :=
  setField workItemId (fun w => { w with prRef := prRef, updatedAt := now }) fun _ => rfl

def workItemSetWorktree (now : Time) (workItemId worktree : String) : Store → Store × Reply Unit :=
  setField workItemId (fun w => { w with worktree := worktree, updatedAt := now }) fun _ => rfl

def workItemSetSubmitter (now : Time) (workItemId submitter : String) : Store → Store × Reply Unit :=
  setFieldChecked workItemId (fun w => { w with submitter := submitter, updatedAt := now }) fun _ => rfl

/-- Refuses a self-parent before the check of the column does. -/
def workItemSetParent (now : Time) (workItemId parentId : String) (s : Store) : Store × Reply Unit :=
  if workItemId = parentId then (s, .invalid) else
  setFieldChecked workItemId (fun w => { w with parentId := parentId, updatedAt := now })
    (fun _ => rfl) s

def workItemSetTerminal (now : Time) (workItemId state : String) : Store → Store × Reply Unit :=
  setField workItemId
    (fun w => { w with state := state, pauseReason := "", pausedState := "", updatedAt := now })
    fun _ => rfl

def workItemSetPause (now : Time) (workItemId reason stage : String) : Store → Store × Reply Unit :=
  setField workItemId
    (fun w => { w with pauseReason := reason, pausedState := stage, updatedAt := now }) fun _ => rfl

theorem cleared_workItemId (now : Time) (w : WorkItem) :
    ({ w with pauseReason := "", pausedState := "", updatedAt := now } : WorkItem).workItemId = w.workItemId := rfl

def workItemClearPause (now : Time) (workItemId : String) : Store → Store × Reply Unit :=
  setField workItemId (fun w => { w with pauseReason := "", pausedState := "", updatedAt := now })
    (cleared_workItemId now)

/-- Clears the pause only while the row still shows the pause and stage the caller observed. -/
def workItemClearPauseIf (now : Time) (workItemId reason stage : String) (s : Store) :
    Store × Reply Bool :=
  if workItemId = "" then (s, .invalid) else
  let hit := fun w : WorkItem =>
    w.workItemId = workItemId && (w.pauseReason = reason && w.currentStage = stage : Bool)
  (s.updateItems hit (fun w => { w with pauseReason := "", pausedState := "", updatedAt := now })
    (cleared_workItemId now), .ok (s.items.matched hit = 1))

def workItemAddCost (now : Time) (workItemId : String) (cost : ℚ) (s : Store) : Store × Reply Unit :=
  if cost < 0 then (s, .invalid) else
  setField workItemId
    (fun w => { w with cumCostUsd := w.cumCostUsd + cost.toNNRat, updatedAt := now }) (fun _ => rfl) s

def workItemSetCostCap (now : Time) (workItemId : String) (cap : ℚ) (s : Store) : Store × Reply Unit :=
  if cap < 0 then (s, .invalid) else
  setField workItemId (fun w => { w with workItemMaxCostUsd := cap.toNNRat, updatedAt := now })
    (fun _ => rfl) s

def workItemIncOverride (now : Time) (workItemId : String) (s : Store) : Store × Reply ℕ :=
  if workItemId = "" then (s, .invalid) else
  match s.item? workItemId with
  | none => (s, .missing)
  | some w =>
    (s.updateItems (·.workItemId = workItemId)
      (fun w => { w with overrideCount := w.overrideCount + 1, updatedAt := now }) fun _ => rfl,
      .ok (w.overrideCount + 1))

/-! ## Gates, sweeps and deletion -/

/-- The decision of a human on a gate: back to a stage, into a terminal state, or approval. -/
def workItemGateApply (now : Time) (workItemId expectStage expectHash newStage terminalState : String)
    (s : Store) : Store × Reply Bool :=
  if workItemId = "" then (s, .invalid) else
  let hit := fun w : WorkItem =>
    w.workItemId = workItemId && (w.currentStage = expectStage && w.contentHash = expectHash &&
      w.pauseReason = "pending_human" : Bool)
  let decide := fun w : WorkItem =>
    if newStage ≠ "" then { w with currentStage := newStage }
    else if terminalState ≠ "" then { w with state := terminalState }
    else w
  (s.updateItems hit
    (fun w => { decide w with pauseReason := "", pausedState := "", updatedAt := now })
    (fun w => by
      change (decide w).workItemId = w.workItemId
      simp only [decide]
      split_ifs <;> rfl),
    .ok (s.items.matched hit = 1))

theorem abandoned_workItemId (now : Time) (w : WorkItem) :
    ({ w with state := "abandoned", pauseReason := "", pausedState := "", updatedAt := now } : WorkItem).workItemId =
      w.workItemId := rfl

/-- One level: slices are leaf runs. -/
def abandonChildren (now : Time) (parentId : String) (s : Store) : Store :=
  s.updateItems (fun w => w.parentId = parentId && w.state ∉ terminalWorkItemStates)
    (fun w => { w with state := "abandoned", pauseReason := "", pausedState := "", updatedAt := now })
    (abandoned_workItemId now)

def workItemAbandonChildren (now : Time) (parentId : String) (s : Store) : Store × Reply ℕ :=
  if parentId = "" then (s, .invalid) else
  (abandonChildren now parentId s,
    .ok (s.items.matched fun w => w.parentId = parentId && w.state ∉ terminalWorkItemStates))

/-- The row and its history, but neither its convergence record nor its frozen creates. -/
def workItemDelete (workItemId : String) (s : Store) : Store × Reply Unit :=
  if workItemId = "" then (s, .invalid) else
  ({ s with
      events := s.events.filter (·.workItemId ≠ workItemId)
      attempts := s.attempts.delete (·.workItemId = workItemId)
      items := s.items.delete (·.workItemId = workItemId) }, .ok ())

def workItemReapStaleParks (now : Time) (graceSecs : ℤ) (s : Store) : Store × Reply ℕ :=
  if graceSecs ≤ 0 then (s, .ok 0) else
  let hit := fun w : WorkItem =>
    w.state = "active" && w.mode = "autonomous" && w.pauseReason ∈ reapableParkReasons &&
      w.updatedAt < now - graceSecs
  (s.updateItems hit (fun w => { w with state := "abandoned", updatedAt := now }) fun _ => rfl,
    .ok (s.items.matched hit))

/-! ## Submission within caps -/

inductive SubmitOutcome where
  | created
  | concurrencyCap
  | rateCap
  deriving DecidableEq

/-- A row created within the caps of its submitter. -/
def workItemSubmitCapped (now : Time) (workItemId repo proposalPath workflowName workflowVersion
    startStage submitter : String) (maxActive rateMax rateSecs : ℤ) (s : Store) :
    Store × Reply SubmitOutcome :=
  if workItemId = "" ∨ submitter = "" then (s, .invalid) else
  let startStage := if startStage = "" then "intake" else startStage
  let active := s.items.matched fun w => w.submitter = submitter && w.state = "active"
  let recent := s.items.matched fun w => w.submitter = submitter && w.createdAt ≥ now - rateSecs
  if 0 < maxActive ∧ maxActive ≤ active then (s, .ok .concurrencyCap) else
  if 0 < rateMax ∧ 0 < rateSecs ∧ rateMax ≤ recent then (s, .ok .rateCap) else
  let workflow := if workflowName = "" then "build" else workflowName
  match s.insertItem
    { WorkItem.new now workItemId repo proposalPath workflow workflowVersion startStage "autonomous"
      with submitter := submitter } with
  | none => (s, .error)
  | some s =>
    let detail := "submit repo=" ++ repo ++ " proposal=" ++ proposalPath ++ " id=" ++ workItemId
    let s := s.addEvent workItemId startStage "create" submitter workflowName workflowVersion 0
    (s.addEvent workItemId startStage "submit" submitter detail "" 0, .ok .created)

/-! ## Events, attempts and outcomes -/

def lifecycleEventAdd (workItemId stage kind actor detail contentHash : String) (cost : ℚ)
    (s : Store) : Store × Reply Unit :=
  if workItemId = "" then (s, .invalid) else
  (s.addEvent workItemId stage kind actor detail contentHash cost, .ok ())

def stageAttemptInc (workItemId stage : String) (s : Store) : Store × Reply ℕ :=
  if workItemId = "" ∨ stage = "" then (s, .invalid) else
  (s.incAttempts workItemId stage, .ok (s.attemptsOf workItemId stage + 1))

def stageAttemptReset (workItemId stage : String) (s : Store) : Store × Reply Unit :=
  if workItemId = "" ∨ stage = "" then (s, .invalid) else
  (s.dropStageAttempts workItemId stage, .ok ())

/-- The dispositions a recorded outcome may carry, with what each is about. -/
inductive Disposition where
  | pause (reason stage : String)
  | terminal (state : String) (abandonChildren : Bool)
  | advance (nextStage prRef parkReason : String)
  deriving DecidableEq

/-- Everything one step of the daemon's engine decided. -/
def workItemRecordOutcome (now : Time) (workItemId : String) (disposition : Disposition) (cost : ℚ)
    (nodeId eventKind eventDetail eventHash : String) (s : Store) : Store × Reply Unit :=
  if workItemId = "" then (s, .invalid) else
  let row := fun w : WorkItem => (w.workItemId = workItemId : Bool)
  let s := if 0 < cost then
      s.updateItems row
        (fun w => { w with cumCostUsd := w.cumCostUsd + cost.toNNRat, updatedAt := now }) fun _ => rfl
    else s
  let event := fun s : Store =>
    s.addEvent workItemId nodeId eventKind "engine" eventDetail eventHash cost
  match disposition with
  | .terminal state abandon =>
    let s := s.updateItems row
      (fun w => { w with state := state, pauseReason := "", pausedState := "", updatedAt := now })
      fun _ => rfl
    let s := if abandon then abandonChildren now workItemId s else s
    (event s, .ok ())
  | .pause reason stage =>
    let s := s.updateItems row
      (fun w => { w with pauseReason := reason, pausedState := stage, updatedAt := now }) fun _ => rfl
    (event s, .ok ())
  | .advance nextStage prRef parkReason =>
    let s := s.updateItems row
      (fun w => { w with currentStage := nextStage, contentHash := eventHash, updatedAt := now })
      fun _ => rfl
    let s := if prRef ≠ "" then
        s.updateItems row (fun w => { w with prRef := prRef, updatedAt := now }) fun _ => rfl
      else s
    let s := event s
    if parkReason = "" then (s, .ok ()) else
    -- The step advanced and its own cost crossed the cap: it parks before the next stage.
    let s := s.updateItems row
      (fun w => { w with pauseReason := parkReason, pausedState := nextStage, updatedAt := now })
      fun _ => rfl
    (s.addEvent workItemId nextStage "pause" "engine" parkReason "" 0, .ok ())

end Workflow
