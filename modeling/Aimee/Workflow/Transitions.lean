-- SUMMARY: The transitions of a run: moves, retries, parks, gates, failed runners, lost replays, review rounds and frozen creates.
import Aimee.Workflow.Lifecycle
import Aimee.Workflow.Budget

/-!
# Transitions of a run

The operations of `lifecycle_transitions.go`. Each is a guarded update plus its audit event in
one transaction.
-/

namespace Workflow

/-- The pauses a human may release by hand. -/
def operatorResumable : List String :=
  ["manual", "wall_cap", "turn_cap", "retry_limit", "convergence_limit", "convergence_no_progress",
    "budget_cap", "fanout_limit", "workflow_definition_invalid", "workflow_block_unavailable",
    "delegate_failed", "replay_unrecoverable", "base_integration_conflict",
    "request_unimplementable", "cost_limit_unsupported", "delegate_output_limit",
    "conversation_input", "binding_pending"]

/-- A cost is refused at the durable boundary unless it is non-negative. -/
def costIsSane (v : ℚ) : Bool := 0 ≤ v

/-! ## Moves, retries and parks -/

/-- The row of an active run that is in a stage and not paused. -/
def runsIn (workItemId stage : String) (w : WorkItem) : Bool :=
  w.workItemId = workItemId &&
    (w.currentStage = stage && w.state = "active" && w.pauseReason = "" : Bool)

def wfeMove (now : Time) (workItemId fromStage toStage kind detail contentHash : String) (cost : ℚ)
    (s : Store) : Store × Reply Unit :=
  if workItemId = "" ∨ fromStage = "" ∨ toStage = "" ∨ kind = "" ∨ ¬costIsSane cost then (s, .invalid) else
  if s.items.matched (runsIn workItemId fromStage) ≠ 1 then (s, .failed) else
  let s := s.updateItems (runsIn workItemId fromStage)
    (fun w => { w with
      currentStage := toStage, contentHash := contentHash, pauseReason := "", pausedState := ""
      cumCostUsd := w.cumCostUsd + cost.toNNRat, reservation := clearReservation, updatedAt := now })
    fun _ => rfl
  let s := s.addEvent workItemId fromStage kind "go-wfe" detail contentHash cost
  -- The stage being left is cleared, not the one being entered.
  (if kind ≠ "loop" then s.dropStageAttempts workItemId fromStage else s, .ok ())

/-- Another attempt at a stage, or a park if it has run out of them. -/
def wfeRecordRetry (now : Time) (workItemId stage toStage detail : String) (maxAttempts : ℤ) (cost : ℚ)
    (s : Store) : Store × Reply Bool :=
  if workItemId = "" ∨ stage = "" ∨ maxAttempts < 1 ∨ ¬costIsSane cost then (s, .invalid) else
  let parked : Bool := maxAttempts ≤ s.attemptsOf workItemId stage + 1
  if s.items.matched (runsIn workItemId stage) ≠ 1 then (s, .failed) else
  let reason := if parked then "retry_limit" else ""
  let pausedState := if parked then stage else ""
  let target := if parked ∨ toStage = "" then stage else toStage
  let s := s.incAttempts workItemId stage
  let s := s.updateItems (runsIn workItemId stage)
    (fun w => { w with
      currentStage := target, pauseReason := reason, pausedState := pausedState
      cumCostUsd := w.cumCostUsd + cost.toNNRat, reservation := clearReservation, updatedAt := now })
    fun _ => rfl
  (s.addEvent workItemId stage (if parked then "pause" else "loop") "go-wfe" detail "" cost, .ok parked)

def wfeParkWithDetail (now : Time) (workItemId stage reason detail : String) (cost : ℚ) (s : Store) :
    Store × Reply Unit :=
  if workItemId = "" ∨ ¬costIsSane cost then (s, .invalid) else
  if s.items.matched (runsIn workItemId stage) ≠ 1 then (s, .failed) else
  let s := s.updateItems (runsIn workItemId stage)
    (fun w => { w with
      pauseReason := reason, pausedState := stage
      cumCostUsd := w.cumCostUsd + cost.toNNRat, reservation := clearReservation, updatedAt := now })
    fun _ => rfl
  (s.addEvent workItemId stage "pause" "go-wfe" detail "" cost, .ok ())

/-- An operator releases a park by hand. -/
def wfeResume (now : Time) (workItemId : String) (s : Store) : Store × Reply Unit :=
  if workItemId = "" then (s, .invalid) else
  match (s.item? workItemId).filter (·.state = "active") with
  | none => (s, .failed)
  | some w =>
    if w.pauseReason ∉ operatorResumable then (s, .failed) else
    let s := s.updateItems (fun w => w.workItemId = workItemId && w.state = "active")
      (fun w => { w with pauseReason := "", pausedState := "", updatedAt := now }) (cleared_workItemId now)
    -- Only this reason starts the stage over: it asks for another bounded repair cycle.
    let s := if w.pauseReason = "retry_limit" then s.dropStageAttempts workItemId w.currentStage else s
    (s.addEvent workItemId w.currentStage "resume" "operator" w.pauseReason "" 0, .ok ())

/-- Active and in the expected stage, but not unpaused: a run parked for a human is finishable
    by the decision that unparks it. -/
def wfeFinish (now : Time) (workItemId stage state detail contentHash : String) (cost : ℚ) (s : Store) :
    Store × Reply Unit :=
  if workItemId = "" ∨ state = "" ∨ ¬costIsSane cost then (s, .invalid) else
  let hit := fun w : WorkItem =>
    w.workItemId = workItemId && (w.currentStage = stage && w.state = "active" : Bool)
  if s.items.matched hit ≠ 1 then (s, .failed) else
  let s := s.updateItems hit
    (fun w => { w with
      state := state, pauseReason := "", pausedState := "", contentHash := contentHash
      cumCostUsd := w.cumCostUsd + cost.toNNRat, reservation := clearReservation, updatedAt := now })
    fun _ => rfl
  let s := s.addEvent workItemId stage "terminal" "go-wfe" detail contentHash cost
  (s.deleteFrozen (· = workItemId), .ok ())

/-! ## Human gates -/

/-- The row of an active run that waits at a human gate. -/
def atHumanGate (workItemId stage : String) (w : WorkItem) : Bool :=
  w.workItemId = workItemId &&
    (w.currentStage = stage && w.state = "active" && w.pauseReason = "human_gate" : Bool)

def wfeResolveGate (now : Time) (workItemId fromStage toStage decision contentHash : String)
    (s : Store) : Store × Reply Unit :=
  if workItemId = "" ∨ toStage = "" then (s, .invalid) else
  if s.items.matched (atHumanGate workItemId fromStage) ≠ 1 then (s, .failed) else
  let s := s.updateItems (atHumanGate workItemId fromStage)
    (fun w => { w with
      currentStage := toStage, pauseReason := "", pausedState := "", contentHash := contentHash
      updatedAt := now })
    fun _ => rfl
  (s.addEvent workItemId fromStage "gate" "operator" decision contentHash 0, .ok ())

def wfeRejectGate (now : Time) (workItemId stage contentHash : String) (s : Store) :
    Store × Reply Unit :=
  if workItemId = "" then (s, .invalid) else
  if s.items.matched (atHumanGate workItemId stage) ≠ 1 then (s, .failed) else
  let s := s.updateItems (atHumanGate workItemId stage)
    (fun w => { w with
      state := "rejected", pauseReason := "", pausedState := "", contentHash := contentHash
      updatedAt := now })
    fun _ => rfl
  (s.addEvent workItemId stage "terminal" "operator" "rejected" contentHash 0, .ok ())

/-! ## Failed runners and lost replays -/

/-- What a failed invocation leaves behind: the amount that stays authorised, the state of the
    reservation, and the measured cost. -/
def runnerFailureMoney (workItemId owner : String) (dispatched costKnown : Bool) (actual : ℚ)
    (s : Store) : ℚ≥0 × ReservationState × ℚ :=
  if dispatched ∧ costKnown then (0, .none, actual)
  else if dispatched then
    let amount := (s.item? workItemId).elim 0 fun w =>
      if w.reservation.owner = owner ∧ w.reservation.state ∈ reservationReplaceable then
        w.reservation.reservedCostUsd
      else 0
    (amount, .unresolved, 0)
  else (0, .none, 0)

@[simp] theorem runnerFailureMoney_undispatched (id owner : String) (costKnown : Bool) (actual : ℚ)
    (s : Store) : runnerFailureMoney id owner false costKnown actual s = (0, .none, 0) := by
  simp [runnerFailureMoney]

@[simp] theorem runnerFailureMoney_known (id owner : String) (actual : ℚ) (s : Store) :
    runnerFailureMoney id owner true true actual s = (0, .none, actual) := by
  simp [runnerFailureMoney]

theorem runnerFailureMoney_unknown {id : String} (owner : String) (actual : ℚ) {s : Store} {w : WorkItem}
    (hw : s.item? id = some w) :
    runnerFailureMoney id owner true false actual s =
      (if w.reservation.owner = owner ∧ w.reservation.state ∈ reservationReplaceable then
        w.reservation.reservedCostUsd else 0, .unresolved, 0) := by
  simp [runnerFailureMoney, hw]

/-- A runner failed, parked with whatever is known about what it cost. The update is by the work
    item alone: the owner is read only for the amount that stays authorised. -/
def wfeParkRunnerFailure (now : Time) (workItemId stage owner reason detail : String)
    (dispatched costKnown : Bool) (actual : ℚ) (s : Store) : Store × Reply Unit :=
  if workItemId = "" ∨ stage = "" ∨ owner = "" ∨ reason = "" ∨ ¬costIsSane actual then (s, .invalid) else
  let (amount, state, eventCost) := runnerFailureMoney workItemId owner dispatched costKnown actual s
  let s := s.updateItems (·.workItemId = workItemId)
    (fun w =>
      let parks : Bool := w.state = "active" && w.pauseReason = ""
      { w with
        pauseReason := if parks then reason else w.pauseReason
        pausedState := if parks then stage else w.pausedState
        cumCostUsd := w.cumCostUsd + eventCost.toNNRat
        reservation :=
          { reservedCostUsd := amount, state := state
            owner := if state = .none then "" else w.reservation.owner
            leaseUntil := if state = .none then none else w.reservation.leaseUntil }
        updatedAt := now })
    fun _ => rfl
  (s.addEvent workItemId stage "pause" "go-wfe" detail "" eventCost, .ok ())

/-- The replay of an invocation lost its result. The answer says whether the caller may dispatch
    afresh; a cost that was reconciled already parks the run for a human instead. -/
def wfeRecoverLostReplay (now : Time) (workItemId stage owner : String) (s : Store) :
    Store × Reply Bool :=
  if workItemId = "" then (s, .invalid) else
  match s.item? workItemId with
  | none => (s, .failed)
  | some w =>
    if w.reservation.owner ≠ owner then (s, .failed) else
    let hit := fun state => fun w : WorkItem => w.workItemId = workItemId &&
      (w.reservation.owner = owner && w.reservation.state = state : Bool)
    match w.reservation.state with
    | .unresolved =>
      let s := s.updateItems (hit .unresolved)
        (fun w => { w with reservation := clearReservation, updatedAt := now }) fun _ => rfl
      (s.addEvent workItemId stage "redispatch" "go-wfe"
        "replay result lost; re-dispatching fresh" "" 0, .ok true)
    | .actual =>
      let s := s.updateItems (hit .actual)
        (fun w => { w with
          cumCostUsd := w.cumCostUsd + w.reservation.reservedCostUsd
          reservation := clearReservation, pauseReason := "replay_unrecoverable"
          pausedState := w.currentStage, updatedAt := now })
        fun _ => rfl
      (s.addEvent workItemId stage "pause" "go-wfe"
        "replay_unrecoverable: reconciled result lost, parked for human" ""
        w.reservation.reservedCostUsd, .ok false)
    | .none | .reserved => (s, .failed)

/-! ## Review rounds -/

/-- The convergence field of a request: the plain text of old clients, or the versioned payload. -/
inductive ConvergenceField where
  | plain (raw : String)
  | v1 (mode summary blockerSet : String)
  deriving DecidableEq

def isSpace (c : Char) : Bool :=
  c ∈ ['\t', '\n', '\x0b', '\x0c', '\r', ' ', '\u0085', '\u00a0', '\u1680', '\u2028', '\u2029',
    '\u202f', '\u205f', '\u3000'] || ('\u2000' ≤ c && c ≤ '\u200a')

/-- `strings.TrimSpace`, on the characters of a text. -/
def trimSpace (text : List Char) : List Char :=
  ((text.dropWhile isSpace).reverse.dropWhile isSpace).reverse

def isLowerHex (c : Char) : Bool := ('0' ≤ c && c ≤ '9') || ('a' ≤ c && c ≤ 'f')

/-- A strictly increasing list of at most 64 fingerprints, joined by commas. -/
def canonicalBlockerSet (raw : String) : Bool :=
  let parts := raw.splitOn ","
  raw ≠ "" && raw.utf8ByteSize ≤ 4160 && parts.length ≤ 64 &&
    parts.all (fun part => part.utf8ByteSize = 64 && part.toList.all isLowerHex) &&
    parts.Pairwise (· < ·)

/-- The summary, the blocker set and whether it is enforced. -/
def convergenceFields : ConvergenceField → String × String × String
  | .plain raw => (raw, "", "legacy")
  | .v1 mode summary blockerSet =>
    let mode := String.ofList ((trimSpace mode.toList).map Char.toLower)
    (summary, if canonicalBlockerSet blockerSet then blockerSet else "",
      if mode = "enforce" then "enforce" else "observe")

def blockerSetRelationship (previous current : String) : String :=
  let prior := (previous.splitOn ",").dedup
  let present := (current.splitOn ",").dedup
  let currentInsidePrior := present.all (· ∈ prior)
  let priorInsideCurrent := prior.all (· ∈ present)
  if currentInsidePrior && present.length < prior.length then "progress"
  else if currentInsidePrior && priorInsideCurrent then "stalled"
  else if priorInsideCurrent then "regression"
  else "churn"

/-- The arguments of a recorded review round that the convergence record is compared with. -/
structure ReviewRound where
  workItemId : String
  gate : String
  planHash : String
  feedbackHash : String
  payload : ConvergenceField
  maxIterations : ℤ
  maxIdentical : ℤ
  deriving DecidableEq

namespace ReviewRound

/-- How the blockers of the round relate to those of the round before it, `""` if unknown. -/
def relationship (r : ReviewRound) (s : Store) : String :=
  match s.convergence.find? (r.workItemId, r.gate) with
  | none => ""
  | some old =>
    let blockerSet := (convergenceFields r.payload).2.1
    if blockerSet ≠ "" ∧ old.blockerSet ≠ "" then blockerSetRelationship old.blockerSet blockerSet else ""

/-- The rounds without progress, this one included. Structured comparison decides only when it
    is enforced and both rounds have a valid set; otherwise equal hashes do. -/
def repeats (r : ReviewRound) (s : Store) : ℕ :=
  match s.convergence.find? (r.workItemId, r.gate) with
  | none => 1
  | some old =>
    let (_, blockerSet, mode) := convergenceFields r.payload
    if mode = "enforce" ∧ blockerSet ≠ "" ∧ old.blockerSet ≠ "" then
      if r.relationship s ≠ "progress" then old.identicalRepeats + 1 else 1
    else if old.artifactHash = r.planHash ∧ old.feedbackHash = r.feedbackHash then
      old.identicalRepeats + 1
    else 1

/-- The rounds of the gate since it last advanced, this one included. -/
def attempts (r : ReviewRound) (s : Store) : ℕ := s.attemptsOf r.workItemId r.gate + 1

/-- The reason to park after the round, `""` if the loop goes on. -/
def pauseReason (r : ReviewRound) (s : Store) : String :=
  if r.maxIdentical ≤ r.repeats s then "convergence_no_progress"
  else if r.maxIterations ≤ r.attempts s then "convergence_limit"
  else ""

def observe (r : ReviewRound) (s : Store) : Store :=
  { s with
    convergence := s.convergence.upsert
      { workItemId := r.workItemId, gate := r.gate, artifactHash := r.planHash
        feedbackHash := r.feedbackHash, identicalRepeats := r.repeats s
        blockerSet := (convergenceFields r.payload).2.1 } }

end ReviewRound

structure ReviewOutcome where
  attempts : ℕ
  identicalRepeats : ℕ
  parked : Bool
  pauseReason : String
  deriving DecidableEq

/-- A reviewer asked for changes. The run has to be active; the updates are by the work item
    alone. -/
def wfeRecordRequestedChanges (now : Time) (r : ReviewRound) (planStage : String) (cost : ℚ) (s : Store) :
    Store × Reply ReviewOutcome :=
  if r.workItemId = "" ∨ r.gate = "" ∨ ¬costIsSane cost then (s, .invalid) else
  match (s.item? r.workItemId).filter (·.state = "active") with
  | none => (s, .failed)
  | some _ =>
    let (unresolved, blockerSet, mode) := convergenceFields r.payload
    let pauseReason := r.pauseReason s
    let outcome := { attempts := r.attempts s, identicalRepeats := r.repeats s
                     parked := pauseReason ≠ "", pauseReason := pauseReason : ReviewOutcome }
    let t := r.observe (s.incAttempts r.workItemId r.gate)
    let t := t.updateItems (·.workItemId = r.workItemId)
      (fun w => { w with
        currentStage := planStage, pauseReason := pauseReason
        pausedState := if pauseReason = "" then "" else r.gate
        contentHash := r.planHash, cumCostUsd := w.cumCostUsd + cost.toNNRat
        reservation := clearReservation, updatedAt := now })
      fun _ => rfl
    if pauseReason ≠ "" then
      let detail := if unresolved = "" then pauseReason
        else pauseReason ++ " after " ++ toString (r.attempts s) ++ " rounds; still unresolved: " ++ unresolved
      (t.addEvent r.workItemId r.gate "pause" "go-wfe" detail r.planHash cost, .ok outcome)
    else
      let detail := if r.relationship s ≠ "" then
          "requested_changes: blocker_set_" ++ r.relationship s ++ " mode_" ++ mode
        else if blockerSet = "" then "requested_changes: blocker_set_unavailable"
        else "requested_changes"
      (t.addEvent r.workItemId r.gate "loop" "go-wfe" detail r.planHash cost, .ok outcome)

/-! ## Frozen creates -/

/-- The most paths one claim may carry. -/
def frozenMax : ℕ := 64

/-- The least work item that froze the path with other content. -/
def frozenClash (parentId workItemId path hash : String) (frozen : Table FrozenCreate FrozenCreate.key) :
    Option String :=
  ((frozen.rows.filter fun c =>
    c.parentId = parentId && c.path = path && c.workItemId ≠ workItemId && c.contentHash ≠ hash).map
      (·.workItemId)).mergeSort.head?

/-- How the loop over the paths of a claim ends. -/
inductive ClaimOutcome where
  | claimed (frozen : Table FrozenCreate FrozenCreate.key)
  | conflict (path existing : String)
  | invalid

def claimPaths (parentId workItemId : String) :
    List (String × String) → Table FrozenCreate FrozenCreate.key → ClaimOutcome
  | [], frozen => .claimed frozen
  | (path, hash) :: creates, frozen =>
    if path = "" ∨ hash = "" then .invalid else
    match frozenClash parentId workItemId path hash frozen with
    | some existing => .conflict path existing
    | none => claimPaths parentId workItemId creates
        (frozen.upsert { parentId := parentId, path := path, workItemId := workItemId, contentHash := hash })

structure FrozenConflict where
  path : String
  existing : String
  conflicting : String
  deriving DecidableEq

/-- A slice claims the paths it will create. The whole claim rolls back on one clash. -/
def wfeClaimFrozenCreates (parentId workItemId : String) (creates : List (String × String)) (s : Store) :
    Store × Reply (Option FrozenConflict) :=
  if parentId = "" ∨ workItemId = "" ∨ frozenMax < creates.length then (s, .invalid) else
  if creates = [] then (s, .ok none) else
  -- Only an active child of this parent may freeze.
  match (s.item? workItemId).filter fun w => w.parentId = parentId && w.state = "active" with
  | none => (s, .failed)
  | some _ =>
    match claimPaths parentId workItemId creates s.frozen with
    | .invalid => (s, .invalid)
    | .conflict path existing =>
      (s, .ok (some { path := path, existing := existing, conflicting := workItemId }))
    | .claimed frozen => ({ s with frozen := frozen }, .ok none)

/-! ## Creation by the engine -/

inductive CreateOutcome where
  | created
  | admissionFull
  | parentNotActive
  deriving DecidableEq

/-- The cells of a create request. -/
structure CreateRequest where
  workItemId : String
  repo : String
  proposalPath : String
  workflowName : String
  workflowVersion : String
  startStage : String
  mode : String
  submitter : String
  parentId : String
  sourcePath : String
  maxCostUsd : ℚ
  rootCap : ℤ
  deriving DecidableEq

def CreateRequest.row (r : CreateRequest) (now : Time) : WorkItem :=
  { WorkItem.new now r.workItemId r.repo r.proposalPath r.workflowName r.workflowVersion r.startStage
      (if r.mode = "" then "autonomous" else r.mode) with
    submitter := r.submitter, parentId := r.parentId, sourcePath := r.sourcePath
    workItemMaxCostUsd := r.maxCostUsd.toNNRat }

/-- The admission cap, the eligibility of the parent and the create event are in the transaction
    of the insert. -/
def wfeCreateWorkItem (now : Time) (r : CreateRequest) (s : Store) : Store × Reply CreateOutcome :=
  if r.workItemId = "" ∨ r.proposalPath = "" ∨ r.workflowName = "" ∨ r.startStage = "" ∨
      ¬costIsSane r.maxCostUsd then (s, .invalid) else
  if 0 < r.rootCap ∧ r.parentId = "" ∧
      r.rootCap ≤ s.items.matched (fun w => w.parentId = "" && w.state = "active") then
    (s, .ok .admissionFull)
  else if r.parentId ≠ "" ∧
      s.items.matched (fun w => w.workItemId = r.parentId && w.state = "active") ≠ 1 then
    (s, .ok .parentNotActive)
  else match s.insertItem (r.row now) with
    | none => (s, .error)
    | some s => (s.addEvent r.workItemId r.startStage "create" "go-wfe" r.workflowName "" 0, .ok .created)

end Workflow
