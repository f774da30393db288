-- SUMMARY: The exploration accounts of a session: the host operations over its tasks and budget groups.
import Aimee.ExecutionPolicy.Exploration

/-!
# Session exploration

`exploration_session.go`. The session owner keeps one row: a counter for the session, one for every
budget group, and the snapshot of every task. An operation loads the group and session counters into
the snapshot of its task, runs on the ledger, and copies the counters back. The row is kept as the
value its JSON text is read back to, `none` for the empty text. What the operation reads from the
host (the operator policy and its baseline decision, calibrations, the state of a worktree, digests
and readings of JSON texts) is a parameter.
-/

namespace ExecutionPolicy

/-! ## Requests -/

structure OwnerObservation where
  generationOnly : Bool
  status : String
  memoryOwner : String
  planDigest : String
  sourceVersionsDigest : String

def OwnerObservation.current (o : OwnerObservation) (b : ExplorationBinding) : Bool :=
  o.status = "ok" && o.memoryOwner ≠ "" && o.memoryOwner = b.memoryOwner &&
    -- A hook of its own has no source handle: the contract pins the plan.
    if o.generationOnly then b.planDigest ≠ "" && b.sourceVersionsDigest ≠ ""
    else o.planDigest ≠ "" && o.planDigest = b.planDigest && o.sourceVersionsDigest ≠ "" &&
      o.sourceVersionsDigest = b.sourceVersionsDigest

structure IndexObservation where
  generation : String
  httpStatus : ℤ
  body : String

structure ExplorationOffer where
  producerBuild : String
  route : String
  provider : String
  model : String
  limitsDigest : String
  receiptDigest : String
  memoryOwner : String
  planDigest : String
  sourceVersionsDigest : String
  queryClass : String
  coverageComplete : Bool
  confidenceProvenance : String
  indexGeneration : String
  expires : ℤ

inductive ExplorationOperation where
  | checkSession
  | bindSession
  | prepare
  | issue
  | check
  | reserve
  | observeIndexed
  | observeTurn
  | started
  | cancelBeforeDispatch
  | indexedOutcome
  | expand
  | completedTurn
  | inspect
  | other (name : String)
  deriving DecidableEq

structure ExplorationRequest where
  policyCategories : List String := []
  ownerObservation : Option OwnerObservation := none
  indexObservation : Option IndexObservation := none
  turnId : String := ""
  toolResult : String := ""
  unknownOutput : Bool := false
  tool : String := ""
  sideEffect : String := ""
  arguments : String := ""
  path : String := ""
  bytes : ℤ := 0
  tokens : ℤ := 0
  offer : Option ExplorationOffer := none
  operation : ExplorationOperation
  binding : ExplorationBinding
  contract : Option ExplorationContract := none
  attempt : Option ExplorationAttempt := none
  outcome : Option IndexedOutcome := none
  attemptId : String := ""
  outcomeId : String := ""
  reason : String := ""
  gap : String := ""
  turn : UInt64 := 0
  constrained : Bool := false
  unresolved : Bool := false
  indexedFailed : Bool := false
  verifiedProgress : Bool := false

/-! ## The row and the host -/

structure ExplorationSession where
  groups : Table (String × ExplorationUsage) Prod.fst := .empty
  version : ℤ
  principal : String
  session : String
  usage : ExplorationUsage := {}
  tasks : Table (String × ExplorationSnapshot) Prod.fst := .empty

/-- What the operator policy says about exploration. -/
structure ExplorationPolicy where
  adaptiveExploration : ExplorationLimits
  exploration : ExplorationLimits

structure BaselineResponse where
  allowed : Bool
  reason : String
  exploration : Option ExplorationDecision

/-- What an operation reads from the host. -/
structure ExplorationHost where
  /-- `defaultPolicyLoader`: none when there is no policy file. -/
  policy : Except String (Option ExplorationPolicy)
  /-- `evaluate` of a tool, its side effect, its categories and its arguments. -/
  evaluate : String → String → List String → String → BaselineResponse
  calibration : ExplorationContract → ℤ → String
  worktreeGeneration : String → String
  discoveryPath : (tool arguments directory : String) → String
  /-- The digest of an action, none for arguments that are no JSON. -/
  actionDigest : (tool arguments sideEffect : String) → (categories : List String) → Option String
  indexedDigest : (tool arguments : String) → String
  /-- The text fields of an argument object, none for anything else. -/
  argumentFields : String → Option (String → String)
  /-- The status and the project of an index reply without an error. -/
  indexBody : String → Option (String × String)
  /-- The row has a JSON text, within the limit of its size. -/
  encodes : ExplorationSession → Bool

/-- A generation as the index writes it: a positive 64-bit number without leading zeros. -/
def validGeneration (generation : String) : Bool :=
  let digits := generation.toList
  digits ≠ [] && digits.length ≤ 19 && digits.head? ≠ some '0' && digits.all (·.isDigit) &&
    digits.foldl (fun n c => 10 * n + (c.toNat - 48)) 0 < 2 ^ 63

def IndexObservation.current (host : ExplorationHost) (o : IndexObservation) (b : ExplorationBinding) : Bool :=
  o.httpStatus = 200 && o.generation = b.indexGeneration && o.body.utf8ByteSize ≤ 16384 &&
    host.indexBody o.body = some ("ok", b.project) && validGeneration o.generation

section Host

variable (host : ExplorationHost)

/-- `policy.Exploration`, without limits when there is no policy. -/
def ExplorationHost.operator (policy : Option ExplorationPolicy) : ExplorationLimits :=
  (policy.map (·.exploration)).getD {}

def ExplorationRequest.indexCurrent (req : ExplorationRequest) (b : ExplorationBinding) : Bool :=
  req.indexObservation.any (·.current host b)

def ExplorationRequest.ownerCurrent (req : ExplorationRequest) (b : ExplorationBinding) : Bool :=
  req.ownerObservation.any (·.current b)

/-- The binding of an attempt, as the host still observes it. -/
def ExplorationRequest.fresh (req : ExplorationRequest) (b : ExplorationBinding) : ExplorationBinding :=
  let b := { b with indexObservedCurrent := b.indexObservedCurrent && req.indexCurrent host b }
  { b with ownerObservedCurrent := b.ownerObservedCurrent && req.ownerCurrent b }

def gitClean : String := "git-clean:"

/-- A clean worktree is looked at again. -/
def refreshWorktree (b : ExplorationBinding) : ExplorationBinding :=
  if gitClean.toList.isPrefixOf b.worktreeGeneration.toList then
    { b with worktreeGeneration := host.worktreeGeneration b.workingDirectory }
  else b

end Host

inductive ExplorationReply where
  | ok
  | contract (c : ExplorationContract)
  | response (r : BaselineResponse)
  | decision (d : ExplorationDecision)
  | gap (ref outcomeId : String) (expansionAvailable : Bool)
  | binding (b : ExplorationBinding)
  | inspection (c : ExplorationContract) (taskUsage sessionUsage : ExplorationUsage)

/-! ## Preparing a request -/

/-- `check_session` and `bind_session` take the binding of the session's own task. -/
def bindSession (principal session : String) (state : Option ExplorationSession) (req : ExplorationRequest) :
    Except String ExplorationRequest :=
  if req.operation ≠ .checkSession ∧ req.operation ≠ .bindSession then .ok req
  else match state with
  | none => .error "session contract unavailable"
  | some current =>
    if current.version ≠ 1 ∨ current.principal ≠ principal ∨ current.session ≠ session then
      .error "session contract unavailable"
    else match (current.tasks.find? "session-task").bind (·.2.current) with
    | none => .error "session contract unavailable"
    | some c =>
      if req.operation = .checkSession then .ok { req with binding := c.binding, operation := .check }
      else if req.path = "" ∨ req.path ≠ c.binding.workingDirectory then
        .error "execution directory differs from session contract"
      else .ok { req with binding := c.binding }

/-- `prepare` turns a memory offer into a contract to be issued. -/
def prepareOffer (host : ExplorationHost) (now : ℤ) (req : ExplorationRequest) :
    Except String ExplorationRequest :=
  if req.operation ≠ .prepare then .ok req
  else
    let b := { req.binding with
      worktreeGeneration := if req.binding.hostWorktree then
        host.worktreeGeneration req.binding.workingDirectory else "unavailable" }
    let b := { b with indexObservedCurrent := req.indexCurrent host b }
    let b := { b with ownerObservedCurrent := req.ownerCurrent b }
    match req.offer with
    | none => .error "memory offer binding mismatch"
    | some o =>
      if o.memoryOwner ≠ b.memoryOwner ∨ o.indexGeneration ≠ b.indexGeneration then
        .error "memory offer binding mismatch"
      else
        let b := { b with
          route := o.route, provider := o.provider, model := o.model, limitsDigest := o.limitsDigest
          producerBuild := o.producerBuild }
        match host.policy with
        | .error e => .error e
        | .ok policy =>
          .ok { req with
            operation := .issue
            binding := b
            contract := some
              { receiptDigest := o.receiptDigest, id := b.task, revision := 1, binding := b
                planDigest := o.planDigest, sourceVersionsDigest := o.sourceVersionsDigest
                queryClass := o.queryClass, coverageComplete := o.coverageComplete
                confidenceProvenance := o.confidenceProvenance, supportedClasses := [.rawScan]
                created := now, expires := o.expires
                limits := (policy.map (·.adaptiveExploration)).getD {}
                tier := .observe } }

/-! ## The operations on the ledger -/

section Operations

variable (host : ExplorationHost) (now : ℤ) (req : ExplorationRequest) (s : ExplorationSnapshot)

/-- A contract as the next revision of the one in force. -/
def nextRevision (old : Option ExplorationContract) (c : ExplorationContract) : ExplorationContract :=
  match old with
  | some old => { c with id := old.id, revision := old.revision + 1 }
  | none => { c with revision := 1 }

/-- A contract with the receipt of the deployment's approval, if there is one. -/
def approveContract (receipt : String) (c : ExplorationContract) : ExplorationContract :=
  if receipt = "" then { c with calibrationReceipt := receipt }
  else { c with
    calibrationReceipt := receipt
    tier := .enforce
    approvalKind := if "experiment:".toList.isPrefixOf receipt.toList then "experiment" else "calibration" }

/-- A contract as it is issued. -/
def stampContract (old : Option ExplorationContract) (c : ExplorationContract) : ExplorationContract :=
  let c := { nextRevision old c with tier := .observe, approvalKind := "" }
  approveContract (host.calibration c now) c

/-- `issue`: a contract that says nothing new is not issued again. -/
def applyIssue : Except String (ExplorationReply × ExplorationSnapshot) :=
  match req.contract with
  | none => .error "contract binding mismatch"
  | some c =>
    if c.binding ≠ req.binding then .error "contract binding mismatch"
    else
      let repeats := s.current.filter fun old => old.id = c.id && old.planDigest = c.planDigest &&
        old.sourceVersionsDigest = c.sourceVersionsDigest && old.binding = c.binding && old.valid now
      match repeats with
      | some old => .ok (.contract old, s)
      | none =>
        let c := stampContract host now s.current c
        (s.issue c now).map fun s => (.contract c, s)

/-- `l.reserve` with the approval of the contract in force. -/
def reserveApproved (operator : ExplorationLimits) (a : ExplorationAttempt) (s : ExplorationSnapshot) :
    Except String (ExplorationDecision × ExplorationSnapshot) :=
  let approved := (s.current.map (host.calibration · now)).getD ""
  s.reserve a operator (approved ≠ "") (fun _ receipt => receipt = approved) now

/-- The attempt of a `check`, with the binding as the host observes it now. -/
def checkAttempt (req : ExplorationRequest) (digest : String) : ExplorationAttempt :=
  let b := req.fresh host req.binding
  let refreshed := refreshWorktree host b
  let b := if gitClean.toList.isPrefixOf b.worktreeGeneration.toList then
      { refreshed with indexObservedCurrent := req.indexCurrent host refreshed } else b
  { id := req.attemptId, binding := b, class_ := .rawScan
    path := host.discoveryPath req.tool req.arguments b.workingDirectory
    bytes := req.bytes, tokens := req.tokens, actionDigest := digest }

/-- Admission and possible dispatch are committed together. -/
def admitDispatch (operator : ExplorationLimits) (a : ExplorationAttempt) (s : ExplorationSnapshot) :
    Except String (ExplorationDecision × ExplorationSnapshot) := do
  let (decision, s) ← reserveApproved host now operator a s
  if decision.restricted then return (decision, s)
  else return (decision, ← s.start a.id)

/-- `check`: the admission of a dispatch, after the operator policy's own rules. -/
def applyCheck : Except String (ExplorationReply × ExplorationSnapshot) := do
  let policy ← host.policy
  let baseline := host.evaluate req.tool req.sideEffect req.policyCategories req.arguments
  let operator := ExplorationHost.operator policy
  if !baseline.allowed || baseline.exploration.isNone then .ok (.response baseline, s)
  else if req.unknownOutput && (operator.bytes.isSome || operator.tokens.isSome) then
    .error "operator output allowance requires a host-enforced output bound"
  else match host.actionDigest req.tool req.arguments req.sideEffect req.policyCategories with
  | none => .error "invalid arguments"
  | some digest =>
    let (decision, s) ← admitDispatch host now operator (checkAttempt host req digest) s
    return (.response { baseline with
      exploration := some decision
      allowed := !decision.restricted
      reason := if decision.restricted then decision.reason else baseline.reason }, s)

/-- `reserve`. -/
def applyReserve : Except String (ExplorationReply × ExplorationSnapshot) := do
  match req.attempt with
  | none => .error "attempt binding mismatch"
  | some a =>
    if a.binding ≠ req.binding then .error "attempt binding mismatch"
    else
      let policy ← host.policy
      let a := { a with binding := refreshWorktree host (req.fresh host a.binding) }
      let (decision, s) ← reserveApproved host now (ExplorationHost.operator policy) a s
      return (.decision decision, s)

/-- The status of an indexed result: none for one with hits. -/
def indexedStatus (tool symbol : String) (result : List Char) : Option OutcomeStatus :=
  if tool = "code_search" ∧ result = ['[', ']'] ∨
      tool = "find_symbol" ∧ symbol ≠ "" ∧ result = ("No symbol found for '" ++ symbol ++ "'").toList then
    some .empty
  else if "error:".toList.isPrefixOf result then some .failed
  else none

/-- `observe_indexed`: the host saw an indexed tool find nothing or fail. -/
def applyObserveIndexed : Except String (ExplorationReply × ExplorationSnapshot) :=
  if req.tool ≠ "code_search" ∧ req.tool ≠ "find_symbol" then .error "unsupported indexed outcome"
  else match host.argumentFields req.arguments, s.current with
  | none, _ => .error "invalid indexed observation arguments"
  | _, none => .error "invalid task revision history"
  | some field, some c =>
    if field "project" ≠ "" ∧ field "project" ≠ req.binding.project then
      .error "indexed outcome is outside this task project"
    else match indexedStatus req.tool (field "identifier") (trimSpace req.toolResult) with
    | none => .ok (.ok, s)
    | some status =>
      if 4096 < req.toolResult.utf8ByteSize ∨ req.attemptId = "" then
        .error "invalid indexed result observation"
      else
        let gap := "indexed:" ++ host.indexedDigest req.tool req.arguments
        let outcome : IndexedOutcome :=
          { id := req.attemptId, binding := req.binding, contractId := c.id, revision := c.revision
            gap := gap, class_ := .rawScan, path := req.binding.workingDirectory, status := status
            completed := now }
        match s.outcomes.find? req.attemptId with
        | some previous =>
          if previous.binding ≠ outcome.binding ∨ previous.gap ≠ outcome.gap ∨
              previous.status ≠ outcome.status then .error "indexed observation identity changed"
          else .ok (.gap previous.gap previous.id true, s)
        | none => ({ s with unresolvedGap := true }.recordIndexedOutcome outcome now).map fun s =>
          (.gap gap req.attemptId true, s)

/-- `observe_turn`: what the host saw since the last completed turn. -/
def applyObserveTurn : Except String (ExplorationReply × ExplorationSnapshot) :=
  if req.turnId = "" ∨ 256 < req.turnId.utf8ByteSize then .error "invalid completed turn identity"
  else if req.turnId ∈ s.completedTurns then .ok (.ok, s)
  else if 256 ≤ s.completedTurns.length then .error "completed turn history full"
  else
    let constrained := s.attempts.rows.any fun r => s.completedAt < r.reservedAt && r.decision.wouldRestrict
    let failed := s.outcomes.rows.any fun o => s.completedAt < o.completed
    (s.completedTurn (s.lastTurn + 1) constrained s.unresolvedGap failed false).map fun s =>
      (.ok, { s with completedTurns := s.completedTurns ++ [req.turnId], completedAt := now })

/-- The operation of a request on the snapshot of its task. -/
def applyOperation : Except String (ExplorationReply × ExplorationSnapshot) :=
  match req.operation with
  | .issue => applyIssue host now req s
  | .check => applyCheck host now req s
  | .reserve => applyReserve host now req s
  | .observeIndexed => applyObserveIndexed host now req s
  | .observeTurn => applyObserveTurn now req s
  | .started => (s.start req.attemptId).map fun s => (.ok, s)
  | .cancelBeforeDispatch => (s.cancelBeforeDispatch req.attemptId).map fun s => (.ok, s)
  | .indexedOutcome =>
    match req.outcome with
    | none => .error "outcome binding mismatch"
    | some o =>
      if o.binding ≠ req.binding then .error "outcome binding mismatch"
      else (s.recordIndexedOutcome o now).map fun s => (.ok, s)
  | .expand => (s.expand req.reason req.gap req.outcomeId now).map fun s => (.ok, s)
  | .completedTurn => (s.completedTurn req.turn req.constrained req.unresolved req.indexedFailed
      req.verifiedProgress).map fun s => (.ok, s)
  | .bindSession => .ok (.binding req.binding, s)
  | .inspect =>
    match s.current with
    | none => .error "invalid task revision history"
    | some c => .ok (.inspection c s.taskUsage s.sessionUsage, s)
  | .checkSession | .prepare | .other _ => .error "unknown exploration operation"

end Operations

/-! ## The row of a session -/

/-- The usage of a group: nothing when it has no entry. -/
def ExplorationSession.groupUsage (s : ExplorationSession) (group : String) : ExplorationUsage :=
  ((s.groups.find? group).map (·.2)).getD {}

/-- Rows without groups are older: every task counted for itself. -/
def upgradeGroups (s : ExplorationSession) : ExplorationSession :=
  if s.groups.rows ≠ [] then s
  else { s with groups := s.tasks.rows.foldl (fun groups task => groups.upsert (task.1, task.2.taskUsage)) .empty }

/-- The row an operation sees: an empty one for the empty text. -/
def rowOf (principal session : String) (state : Option ExplorationSession) : ExplorationSession :=
  state.getD { version := 1, principal := principal, session := session }

/-- The row an operation starts from, the snapshot of its task and the group it is charged to. -/
def openTask (principal session : String) (state : Option ExplorationSession) (req : ExplorationRequest) :
    Except String (ExplorationSession × ExplorationSnapshot × String) :=
  let s := rowOf principal session state
  if 64 < s.groups.rows.length ∨ 64 < s.tasks.rows.length ∨ s.version ≠ 1 ∨ s.principal ≠ principal ∨
      s.session ≠ session then .error "exploration state identity mismatch"
  else match s.tasks.find? req.binding.task with
  | none =>
    if req.operation ≠ .issue then .error "task contract unavailable"
    else if 64 ≤ s.tasks.rows.length then .error "session task history full"
    else .ok (upgradeGroups s, {}, req.binding.group)
  | some (_, snapshot) =>
    match snapshot.current with
    | none => .error "invalid task revision history"
    | some c =>
      if 128 < snapshot.revisions.length then .error "invalid task revision history"
      else if req.operation ≠ .issue ∧ req.operation ≠ .check ∧ req.operation ≠ .reserve ∧
          c.binding ≠ req.binding then .error "task binding changed; refresh required"
      else .ok (upgradeGroups s, snapshot, c.binding.group)

/-- The row with the counters of a ledger copied back and its snapshot kept. -/
def ExplorationSession.store (s : ExplorationSession) (task group : String) (next : ExplorationSnapshot) :
    ExplorationSession :=
  { s with
    usage := next.sessionUsage
    groups := s.groups.upsert (group, next.taskUsage)
    tasks := s.tasks.upsert (task, { next with sessionUsage := {} }) }

/-- The operation of a request whose binding was authenticated. -/
def performRequest (host : ExplorationHost) (now : ℤ) (principal session : String)
    (state : Option ExplorationSession) (req : ExplorationRequest) :
    Except String (ExplorationReply × ExplorationSession) := do
  let (s, snapshot, group) ← openTask principal session state req
  let (reply, next) ← applyOperation host now req
    { snapshot with taskUsage := s.groupUsage group, sessionUsage := s.usage }
  if host.encodes (s.store req.binding.task group next) then
    return (reply, s.store req.binding.task group next)
  else .error "session exploration state capacity exceeded"

/-- `sessionExploration` of a request, none for a text that is no request. -/
def sessionExploration (host : ExplorationHost) (now : ℤ) (principal session : String)
    (state : Option ExplorationSession) (req : Option ExplorationRequest) :
    Except String (ExplorationReply × ExplorationSession) :=
  match req with
  | none => .error "invalid host exploration request"
  | some req =>
    if principal = "" ∨ session = "" ∨ 160 ≤ principal.utf8ByteSize ∨ 128 < session.utf8ByteSize then
      .error "invalid host exploration request"
    else do
      let req ← bindSession principal session state req
      if !req.binding.valid ∨ req.binding.principal ≠ principal ∨ req.binding.session ≠ session then
        .error "invalid authenticated task binding"
      else
        let req ← prepareOffer host now req
        performRequest host now principal session state req

end ExecutionPolicy
