-- SUMMARY: Governed actions: host intents, the durable journal of their receipts, and the reducer over its six operations.
import Aimee.Lib.Table

/-!
# Governed actions

`action_intent.go` and `action_journal.go`. A journal is kept as the value its JSON text is read
back to, and the empty state is `none`. Texts are Unicode strings: every caller has them from JSON.
A time is in nanoseconds since the zero time. The digests of JSON texts and the length of a journal's
text are parameters.
-/

namespace ExecutionPolicy

/-! ## Data -/

inductive ActionClass where
  | readOnly
  | sensitiveRead
  | fileWrite
  | externalPublish
  | privilegeElevation
  | privilegedUse
  | other (name : String)
  deriving DecidableEq

def ActionClass.text : ActionClass → String
  | readOnly => "read_only"
  | sensitiveRead => "sensitive_read"
  | fileWrite => "file_write"
  | externalPublish => "external_publish"
  | privilegeElevation => "privilege_elevation"
  | privilegedUse => "privileged_use"
  | other name => name

/-- The classes that only read. -/
def ActionClass.reads : ActionClass → Bool
  | readOnly => true
  | sensitiveRead => true
  | _ => false

inductive ActionState where
  | prepared
  | admitted
  | dispatching
  | acknowledged
  | effectConfirmed
  | outcomeUnknown
  | failedBeforeEffect
  | other (name : String)
  deriving DecidableEq

structure ActionIntent where
  turnSession : String
  turn : String
  schemaVersion : ℤ
  id : String
  request : String
  task : String
  attempt : String
  principal : String
  root : String
  tool : String
  actionClass : ActionClass
  destination : String
  payloadDigest : String
  purpose : String
  evidenceDigest : String
  contextReceipt : String
  policyGeneration : String
  revocationGeneration : String
  idempotencyKey : String
  workUnits : String
  expires : ℤ
  deriving DecidableEq

structure ActionFreshness where
  intentDigest : String
  evidenceDigest : String
  contextReceipt : String
  policyGeneration : String
  revocationGeneration : String
  memoryGuard : String
  checked : ℤ
  expires : ℤ
  authorized : Bool
  memoryRequired : Bool

structure ActionOutcome where
  state : ActionState
  evidenceRef : String
  destination : String
  payloadDigest : String
  objectVersion : String

structure ActionReceipt where
  intent : ActionIntent
  digest : String
  state : ActionState
  sequence : ℕ
  at_ : ℤ
  outcome : Option ActionOutcome
  freshness : Option ActionFreshness

structure ActionAuditEntry where
  sequence : ℕ
  action : String
  state : ActionState
  at_ : ℤ
  evidenceRef : String

structure ActionJournal where
  schemaVersion : ℤ
  principal : String
  root : String
  actions : Table (String × ActionReceipt) Prod.fst
  audit : List ActionAuditEntry
  reservedCalls : ℕ
  reservedWork : ℕ
  sensitiveRead : Bool
  privilegeElevated : Bool
  sequence : ℕ

structure ActionCompositionPolicy where
  maxCalls : Option ℕ
  maxWork : Option ℕ
  forbidSensitivePublish : Bool
  forbidElevatedUse : Bool

structure ActionDecision where
  allowed : Bool := false
  dispatchAllowed : Bool := false
  reason : String := ""
  remediation : String := ""
  receipt : Option ActionReceipt := none

inductive ActionError where
  | owner
  | journal
  | inconsistent
  | capacity
  | auditCapacity
  | byteCapacity
  | marshal
  | unsupported (operation : String)
  deriving DecidableEq

/-- The digests `actionDigest` takes, and the length of a journal's JSON text, none when a time in
    it has no such text. -/
structure Codec where
  intentDigest : ActionIntent → String
  outcomeDigest : ActionOutcome → String
  guardDigest : String → String
  textLength : ActionJournal → Option ℕ

/-! ## Checks -/

def maxUint64 : ℕ := 2 ^ 64 - 1

def actionHash (s : String) : Bool :=
  s.toList.length = 64 && s.toList.all fun c => c.isDigit || 'a' ≤ c && c ≤ 'f'

/-- A decimal below `2 ^ 63` without leading zeros. -/
def actionUnits (s : String) : Option ℕ :=
  let digits := s.toList
  let n := digits.foldl (fun n c => 10 * n + (c.toNat - '0'.toNat)) 0
  if digits ≠ [] ∧ digits.all Char.isDigit ∧ (digits.head? ≠ some '0' ∨ digits.length = 1) ∧ n < 2 ^ 63 then some n
  else none

def second : ℤ := 1000000000

/-- A name that may stand in an intent. -/
def validIdentity (s : String) : Bool :=
  s ≠ "" && s.utf8ByteSize ≤ 1024 && s.toList.all fun c => c ≠ '\x00' && c ≠ '\r' && c ≠ '\n'

def ActionIntent.identities (i : ActionIntent) : List String :=
  [i.id, i.request, i.task, i.attempt, i.principal, i.root, i.tool, i.actionClass.text, i.destination,
    i.purpose, i.policyGeneration, i.revocationGeneration, i.idempotencyKey]

def ActionIntent.validate (i : ActionIntent) (now : ℤ) : Bool :=
  i.schemaVersion = 1 && actionHash i.payloadDigest && now < i.expires && i.expires ≤ now + 15 * 60 * second &&
    i.identities.all validIdentity && (actionUnits i.workUnits).isSome &&
    ((i.evidenceDigest = "" && i.contextReceipt = "") ||
      actionHash i.evidenceDigest && actionHash i.contextReceipt) &&
    match i.actionClass with
    | .other _ => false
    | _ => true

def ActionFreshness.current (codec : Codec) (f : ActionFreshness) (i : ActionIntent) (now : ℤ) : Bool :=
  f.authorized && f.intentDigest = codec.intentDigest i && f.policyGeneration = i.policyGeneration &&
    f.revocationGeneration = i.revocationGeneration && f.evidenceDigest = i.evidenceDigest &&
    f.contextReceipt = i.contextReceipt && f.checked ≤ now && now < f.expires &&
    f.expires - f.checked ≤ 2 * second && f.checked ≠ 0 && (i.evidenceDigest = "" || f.memoryRequired) &&
    (!f.memoryRequired || f.memoryGuard ≠ "" && i.evidenceDigest ≠ "" && i.contextReceipt ≠ "")

/-! ## The journal -/

namespace ActionJournal

def start (principal root : String) : ActionJournal where
  schemaVersion := 1
  principal := principal
  root := root
  actions := .empty
  audit := []
  reservedCalls := 0
  reservedWork := 0
  sensitiveRead := false
  privilegeElevated := false
  sequence := 0

/-- The receipt under a key. -/
def receipt? (j : ActionJournal) (key : String) : Option ActionReceipt := (j.actions.find? key).map (·.2)

/-- The intent of the action with an id. -/
def intent? (j : ActionJournal) (id : String) : Option ActionIntent :=
  (j.actions.rows.find? fun e => e.2.intent.id = id).map (·.2.intent)

/-- What `validate` keeps while it replays the audit. -/
structure Replay where
  latest : String → Option ActionAuditEntry := fun _ => none
  reserved : String → Bool := fun _ => false
  calls : ℕ := 0
  work : ℕ := 0
  sensitive : Bool := false
  elevated : Bool := false

/-- The transitions the audit may hold. -/
def follows (prior : Option ActionState) (state : ActionState) : Bool :=
  match state with
  | .prepared => prior = none
  | .admitted => prior = some .prepared
  | .dispatching => prior = some .admitted
  | .failedBeforeEffect =>
    prior = some .dispatching || prior = some .outcomeUnknown || prior = some .prepared ||
      prior = some .admitted
  | .acknowledged | .effectConfirmed | .outcomeUnknown =>
    prior = some .dispatching || prior = some .outcomeUnknown || prior = some .acknowledged
  | .other _ => false

/-- The replay after an entry that may follow. -/
def Replay.put (r : Replay) (event : ActionAuditEntry) : Replay :=
  { r with latest := Function.update r.latest event.action (some event) }

/-- The reservation an admission makes, unless a counter would wrap. -/
def Replay.reserve (r : Replay) (intent : ActionIntent) : Option Replay :=
  match actionUnits intent.workUnits with
  | none => none
  | some units =>
    if r.calls = maxUint64 ∨ maxUint64 - r.work < units then none
    else some { r with
      reserved := Function.update r.reserved intent.id true
      calls := r.calls + 1
      work := r.work + units
      sensitive := r.sensitive || intent.actionClass = .sensitiveRead
      elevated := r.elevated || intent.actionClass = .privilegeElevation }

/-- One entry of the audit; `n` is its place. -/
def replayStep (j : ActionJournal) (r : Replay) (entry : ActionAuditEntry × ℕ) : Option Replay :=
  let (event, n) := entry
  match j.intent? event.action with
  | none => none
  | some intent =>
    if event.sequence ≠ n + 1 ∨ event.at_ = 0 then none
    else if !follows ((r.latest event.action).map (·.state)) event.state then none
    else if event.state = .admitted then (r.reserve intent).map (·.put event)
    else some (r.put event)

def replay (j : ActionJournal) : Option Replay := j.audit.zipIdx.foldlM (replayStep j) {}

/-- A receipt stands under its own key, with the digest of its intent and its owner. -/
def bound (codec : Codec) (j : ActionJournal) (e : String × ActionReceipt) : Bool :=
  e.1 ≠ "" && e.1 = e.2.intent.idempotencyKey && e.2.digest = codec.intentDigest e.2.intent &&
    e.2.intent.principal = j.principal && e.2.intent.root = j.root && e.2.intent.id ≠ ""

/-- A receipt says what the last entry of its action says. -/
def settled (r : Replay) (receipt : ActionReceipt) : Bool :=
  match r.latest receipt.intent.id with
  | none => false
  | some e =>
    receipt.state = e.state && receipt.sequence = e.sequence && receipt.at_ = e.at_ &&
      (!r.reserved receipt.intent.id || receipt.freshness.isSome) &&
      receipt.outcome.all fun o =>
        o.state = receipt.state && o.destination = receipt.intent.destination &&
          o.payloadDigest = receipt.intent.payloadDigest && o.evidenceRef = e.evidenceRef

def validate (codec : Codec) (j : ActionJournal) : Bool :=
  j.schemaVersion = 1 && j.principal ≠ "" && j.root ≠ "" && j.audit.length = j.sequence &&
    j.actions.rows.all (j.bound codec) && (j.actions.rows.map (·.2.intent.id)).Nodup &&
    match j.replay with
    | none => false
    | some r =>
      r.calls = j.reservedCalls && r.work = j.reservedWork && r.sensitive = j.sensitiveRead &&
        r.elevated = j.privilegeElevated && j.actions.rows.all fun e => settled r e.2

end ActionJournal

/-! ## The reducer -/

inductive Operation where
  | prepare
  | admitAction
  | dispatch
  | cancel
  | outcome
  | reconcile
  | other (name : String)
  deriving DecidableEq

/-- The arguments of `GovernedAction` but the state. -/
structure ActionCall where
  principal : String
  root : String
  operation : Operation
  intent : ActionIntent
  registryClass : ActionClass
  freshness : ActionFreshness
  outcome : Option ActionOutcome
  policy : ActionCompositionPolicy
  now : ℤ

/-- What a call answers: the state to commit and the decision, or an error and nothing to commit. -/
abbrev Answer := Except ActionError (Option ActionJournal × ActionDecision)

def maxStateBytes : ℕ := 4 * 2 ^ 20

def maxActions : ℕ := 1024

def maxAudit : ℕ := 4096

def deny (state : Option ActionJournal) (reason remediation : String) : Answer :=
  .ok (state, { reason := reason, remediation := remediation })

/-- A receipt with the place and the time of its record. -/
def stamped (call : ActionCall) (j : ActionJournal) (receipt : ActionReceipt) : ActionReceipt :=
  { receipt with sequence := j.sequence + 1, at_ := call.now }

/-- The journal with the receipt under the intent's key, and an audit entry. -/
def recorded (call : ActionCall) (j : ActionJournal) (receipt : ActionReceipt) (evidence : String) :
    ActionJournal :=
  { j with
    sequence := j.sequence + 1
    actions := j.actions.upsert (call.intent.idempotencyKey, stamped call j receipt)
    audit := j.audit ++ [{ sequence := j.sequence + 1, action := call.intent.id, state := receipt.state
                           at_ := call.now, evidenceRef := evidence }] }

def record (codec : Codec) (call : ActionCall) (j : ActionJournal) (receipt : ActionReceipt)
    (evidence : String) : Answer :=
  if maxAudit ≤ j.audit.length then .error .auditCapacity else
  match codec.textLength (recorded call j receipt evidence) with
  | none => .error .marshal
  | some length =>
    if maxStateBytes < length then .error .byteCapacity
    else .ok (some (recorded call j receipt evidence),
      { allowed := true, dispatchAllowed := call.operation = .dispatch, receipt := some (stamped call j receipt) })

/-- The answer that points to a receipt and records nothing. -/
def existing (state : Option ActionJournal) (allowed : Bool) (prior : ActionReceipt) : Answer :=
  .ok (state, { allowed := allowed, reason := "existing_receipt", receipt := some prior })

def prepare (codec : Codec) (state : Option ActionJournal) (call : ActionCall) (j : ActionJournal) : Answer :=
  match j.receipt? call.intent.idempotencyKey with
  | some prior => existing state true prior
  | none =>
    if maxActions ≤ j.actions.rows.length then
      deny state "action_history_full" "retain the journal and request an operator decision"
    else if !call.intent.validate call.now then deny state "invalid_intent" "issue a current host intent"
    else record codec call j
      { intent := call.intent, digest := codec.intentDigest call.intent, state := .prepared, sequence := 0
        at_ := 0, outcome := none, freshness := none } ""

/-- The other action stands in the way of an admission at the destination. -/
def unresolvedAt (intent : ActionIntent) (e : String × ActionReceipt) : Bool :=
  !intent.actionClass.reads && e.1 ≠ intent.idempotencyKey && e.2.intent.destination = intent.destination &&
    !e.2.intent.actionClass.reads &&
    (e.2.state = .dispatching || e.2.state = .outcomeUnknown ||
      e.2.state = .acknowledged && e.2.intent.actionClass = .externalPublish)

/-- A reservation passes a ceiling or wraps a counter. -/
def overCeiling (policy : ActionCompositionPolicy) (j : ActionJournal) (units : ℕ) : Bool :=
  (policy.maxCalls.any fun n => n ≤ j.reservedCalls) || j.reservedCalls = maxUint64 ||
    maxUint64 - j.reservedWork < units ||
    policy.maxWork.any fun n => n < j.reservedWork || n - j.reservedWork < units

/-- What is kept of the freshness: the guard's commitment only. -/
def proofOf (codec : Codec) (f : ActionFreshness) : ActionFreshness :=
  if f.memoryGuard = "" then f else { f with memoryGuard := codec.guardDigest f.memoryGuard }

/-- The journal with a reservation; it counts for composition from now on, whatever comes of the
    action. -/
def reserve (j : ActionJournal) (intent : ActionIntent) (units : ℕ) : ActionJournal :=
  { j with
    reservedCalls := j.reservedCalls + 1
    reservedWork := j.reservedWork + units
    sensitiveRead := j.sensitiveRead || intent.actionClass = .sensitiveRead
    privilegeElevated := j.privilegeElevated || intent.actionClass = .privilegeElevation }

def admitAction (codec : Codec) (state : Option ActionJournal) (call : ActionCall) (j : ActionJournal)
    (prior : ActionReceipt) : Answer :=
  let intent := call.intent
  let units := (actionUnits intent.workUnits).getD 0
  if j.actions.rows.any (unresolvedAt intent) then
    deny state "destination_outcome_unresolved" "reconcile the existing action before changing its attempt or key"
  else if overCeiling call.policy j units then
    deny state "task_resource_ceiling" "request an operator budget revision for the same lineage"
  else if call.policy.forbidSensitivePublish && j.sensitiveRead && intent.actionClass = .externalPublish then
    deny state "composition_restricted" "request an authorized review without exposing protected history"
  else if call.policy.forbidElevatedUse && j.privilegeElevated && intent.actionClass = .privilegedUse then
    deny state "composition_restricted" "request an authorized privilege review"
  else record codec call (reserve j intent units)
    { prior with state := .admitted, freshness := some (proofOf codec call.freshness) } ""

def dispatch (codec : Codec) (call : ActionCall) (j : ActionJournal) (prior : ActionReceipt) : Answer :=
  record codec call j { prior with state := .dispatching, freshness := some (proofOf codec call.freshness) } ""

/-- `admitAction` and `dispatch`, behind what they check alike. -/
def advance (codec : Codec) (state : Option ActionJournal) (call : ActionCall) (j : ActionJournal)
    (required : ActionState) (next : ActionReceipt → Answer) : Answer :=
  match j.receipt? call.intent.idempotencyKey with
  | none => deny state "intent_unavailable" "prepare an exact host intent"
  | some prior =>
    if prior.state ≠ required then
      if prior.state = .dispatching ∨ prior.state = .outcomeUnknown then
        .ok (state, { reason := "outcome_unknown", remediation := "reconcile the exact destination before any retry"
                      receipt := some prior })
      else existing state (prior.state ≠ .failedBeforeEffect) prior
    else if !(call.intent.validate call.now && call.freshness.current codec call.intent call.now) then
      deny state "freshness_or_authority_unavailable"
        "refresh evidence and authorization; do not replay an old permit"
    else next prior

def hostCancel (intent : ActionIntent) : String := "host_cancel:" ++ intent.id

def cancel (codec : Codec) (state : Option ActionJournal) (call : ActionCall) (j : ActionJournal) : Answer :=
  match j.receipt? call.intent.idempotencyKey with
  | none => deny state "intent_unavailable" "inspect an existing owned action"
  | some prior =>
    if prior.state = .failedBeforeEffect ∧ prior.outcome.any (·.evidenceRef = hostCancel call.intent) then
      existing state true prior
    else if prior.state ≠ .prepared ∧ prior.state ≠ .admitted then
      .ok (state, { reason := "cancellation_requires_reconciliation"
                    remediation := "a started effect cannot be cancelled by relabeling its receipt"
                    receipt := some prior })
    else record codec call j
      { prior with
        state := .failedBeforeEffect
        outcome := some
          { state := .failedBeforeEffect, evidenceRef := hostCancel call.intent
            destination := call.intent.destination, payloadDigest := call.intent.payloadDigest
            objectVersion := "" } } (hostCancel call.intent)

/-- The refusal of an outcome's state, if any. -/
def outcomeRefusal (operation : Operation) (prior : ActionState) (outcome : ActionOutcome) :
    Option (String × String) :=
  match outcome.state with
  | .acknowledged | .outcomeUnknown => none
  | .effectConfirmed =>
    if outcome.objectVersion = "" then
      some ("verification_required", "obtain an owner verification of the exact object")
    else none
  | .failedBeforeEffect =>
    if operation ≠ .reconcile ∧ prior = .outcomeUnknown then
      some ("reconciliation_required", "verify absence of the effect before retry")
    else if prior = .acknowledged then
      some ("outcome_conflict", "an acknowledgement cannot be relabeled as no dispatch")
    else none
  | _ => some ("invalid_outcome_state", "use an explicit durable outcome state")

/-- An outcome names evidence and the exact object and material of the intent. -/
def outcomeBound (intent : ActionIntent) (o : ActionOutcome) : Bool :=
  o.evidenceRef ≠ "" && o.evidenceRef.utf8ByteSize ≤ 1024 && o.destination = intent.destination &&
    o.payloadDigest = intent.payloadDigest

/-- `outcome` and `reconcile`. -/
def settle (codec : Codec) (state : Option ActionJournal) (call : ActionCall) (j : ActionJournal) : Answer :=
  match j.receipt? call.intent.idempotencyKey, call.outcome.filter (outcomeBound call.intent) with
  | some prior, some outcome =>
    if prior.outcome.any fun o => codec.outcomeDigest o = codec.outcomeDigest outcome then
      existing state true prior
    else if prior.state ≠ .dispatching ∧ prior.state ≠ .outcomeUnknown ∧
        ¬(call.operation = .reconcile ∧ prior.state = .acknowledged) then
      deny state "outcome_conflict" "retain the original receipt and reconcile conflicting evidence"
    else match outcomeRefusal call.operation prior.state outcome with
      | some (reason, remediation) => deny state reason remediation
      | none => record codec call j { prior with state := outcome.state, outcome := some outcome } outcome.evidenceRef
  | _, _ => deny state "invalid_outcome_binding" "verify the intended object and exact approved material"

/-- The operation, on a journal that was read and an intent that is bound to it. -/
def operate (codec : Codec) (state : Option ActionJournal) (call : ActionCall) (j : ActionJournal) : Answer :=
  match call.operation with
  | .prepare => prepare codec state call j
  | .admitAction => advance codec state call j .prepared (admitAction codec state call j)
  | .dispatch => advance codec state call j .admitted (dispatch codec call j)
  | .cancel => cancel codec state call j
  | .outcome => settle codec state call j
  | .reconcile => settle codec state call j
  | .other name => .error (.unsupported name)

/-- The journal a state holds, for an owner. -/
def readJournal (call : ActionCall) : Option ActionJournal → Except ActionError ActionJournal
  | none => .ok (.start call.principal call.root)
  | some j =>
    if j.schemaVersion ≠ 1 ∨ j.principal ≠ call.principal ∨ j.root ≠ call.root then .error .journal else .ok j

def governedAction (codec : Codec) (state : Option ActionJournal) (call : ActionCall) : Answer :=
  let intent := call.intent
  if call.principal = "" ∨ call.root = "" ∨
      state.any (fun j => (codec.textLength j).any (maxStateBytes < ·)) then .error .owner
  else match readJournal call state with
  | .error e => .error e
  | .ok j =>
    if !j.validate codec then .error .inconsistent
    else if maxActions < j.actions.rows.length ∨ maxAudit < j.audit.length then .error .capacity
    else if j.actions.rows.any fun e => e.2.intent.id = intent.id && e.1 ≠ intent.idempotencyKey then
      deny state "action_identity_conflict" "retain the original action identity"
    else if (j.receipt? intent.idempotencyKey).any fun prior => prior.digest ≠ codec.intentDigest intent then
      deny state "idempotency_conflict" "issue a new authorized intent for changed material"
    else if intent.principal ≠ call.principal ∨ intent.root ≠ call.root ∨
        intent.actionClass ≠ call.registryClass then
      deny state "untrusted_action_binding" "resolve the tool and resource through the host registry"
    else operate codec state call j

end ExecutionPolicy
