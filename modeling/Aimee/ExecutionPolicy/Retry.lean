-- SUMMARY: Clean retries: the retry journal, its load check, and the reducer over begin, send, finish and inspect.
import Aimee.ExecutionPolicy.Actions
import Mathlib.Data.List.Sort

/-!
# Clean retries

`clean_retry.go`. A journal is kept as the value its JSON text is read back to, and the empty state
is `none`. Counters are 64-bit words. Digests and the length of a journal's text are parameters.
-/

namespace ExecutionPolicy

/-! ## Data -/

structure RetryPolicy where
  enabled : Bool
  maxAttempts : UInt64
  maxRepeatedFailures : UInt64
  maxWallSeconds : UInt64
  maxProviderBytes : UInt64
  nanodollarsPerByte : UInt64
  maxNanodollars : UInt64
  maxTokens : Option UInt64
  retainInputSeconds : UInt64

inductive FailureClass where
  | completed
  | providerFailure
  | contextRefused
  | executionFailure
  | interrupted
  | other (name : String)
  deriving DecidableEq

def FailureClass.text : FailureClass → String
  | completed => "completed"
  | providerFailure => "provider_failure"
  | contextRefused => "context_refused"
  | executionFailure => "execution_failure"
  | interrupted => "interrupted"
  | other name => name

inductive AttemptState where
  | running
  | failed
  | completed
  | other (name : String)
  deriving DecidableEq

def AttemptState.text : AttemptState → String
  | running => "running"
  | failed => "failed"
  | completed => "completed"
  | other name => name

structure RetryCall where
  id : String
  bytes : UInt64
  cost : UInt64
  rate : UInt64
  payload : String
  receipt : String
  sourceHandle : String
  deriving DecidableEq

structure RetryAttempt where
  id : String
  request : String
  parent : String
  input : String
  inputDigest : String
  inputExpires : ℤ
  policy : String
  projection : String
  renderer : String
  plan : String
  started : ℤ
  state : AttemptState
  failure : FailureClass
  calls : List RetryCall
  deriving DecidableEq

structure RetryJournal where
  schema : ℤ
  principal : String
  root : String
  started : ℤ
  attempts : List RetryAttempt
  bytes : UInt64
  cost : UInt64
  deriving DecidableEq

inductive RetryOperation where
  | begin_
  | send
  | finish
  | inspect
  | other (name : String)
  deriving DecidableEq

structure RetryRequest where
  operation : RetryOperation
  request : String
  attempt : String
  previous : String
  input : String
  replaceConstraints : Bool
  projection : String
  failure : FailureClass
  call : RetryCall

structure RetryDecision where
  allowed : Bool := false
  reason : String := "retry_disabled"
  attempt : String := ""
  plan : String := ""
  summary : String := ""
  remainingAttempts : UInt64 := 0
  remainingBytes : UInt64 := 0
  remainingNanodollars : UInt64 := 0
  workspaceRestored : Bool := false
  freshAssemblyRequired : Bool := true

inductive RetryError where
  | unavailable
  | corrupt
  | parent
  | reservations
  | counters
  | marshal
  deriving DecidableEq

/-- The digests of a retained input and of an attempt's identity, which are never empty, and the
    length of a journal's JSON text, none when a time in it has no such text. -/
structure RetryCodec where
  actions : Codec
  inputDigest : String → String
  inputDigest_ne : ∀ input, inputDigest input ≠ ""
  attemptId : (principal root request : String) → String
  attemptId_ne : ∀ principal root request, attemptId principal root request ≠ ""
  textLength : RetryJournal → Option ℕ

/-- The arguments of `CleanRetry` but the journal. -/
structure RetryArgs where
  principal : String
  root : String
  actions : Option ActionJournal
  request : RetryRequest
  policy : RetryPolicy
  generation : String
  now : ℤ

/-! ## Loading -/

def maxAttempts : ℕ := 32

def maxCalls : ℕ := 1024

/-- `^uint64(0)`. -/
def maxWord : UInt64 := 0xFFFFFFFFFFFFFFFF

/-- The sums while the calls of one attempt are read. -/
structure CallLoad where
  ids : List String := []
  bytes : UInt64
  cost : UInt64

def loadCall (s : CallLoad) (c : RetryCall) : Except RetryError CallLoad :=
  if c.id = "" ∨ c.id ∈ s.ids ∨ !actionHash c.payload ∨ c.bytes = 0 ∨ c.rate = 0 ∨ maxWord / c.rate < c.bytes ∨
      c.cost ≠ c.bytes * c.rate ∨ maxWord - s.bytes < c.bytes ∨ maxWord - s.cost < c.cost then
    .error .reservations
  else .ok { ids := c.id :: s.ids, bytes := s.bytes + c.bytes, cost := s.cost + c.cost }

/-- The sums while the attempts are read. -/
structure AttemptLoad where
  ids : List String := []
  bytes : UInt64 := 0
  cost : UInt64 := 0

def validAttemptState : AttemptState → Bool
  | .other _ => false
  | _ => true

def loadAttempt (codec : RetryCodec) (s : AttemptLoad) (a : RetryAttempt) : Except RetryError AttemptLoad :=
  if a.id = "" ∨ a.id ∈ s.ids ∨ a.inputDigest = "" ∨ a.started = 0 ∨ !validAttemptState a.state ∨
      (a.input ≠ "" ∧ codec.inputDigest a.input ≠ a.inputDigest) ∨ maxCalls < a.calls.length then
    .error .corrupt
  else if a.parent ≠ "" ∧ a.parent ∉ a.id :: s.ids then .error .parent
  else (a.calls.foldlM loadCall { bytes := s.bytes, cost := s.cost }).map fun calls =>
    { ids := a.id :: s.ids, bytes := calls.bytes, cost := calls.cost }

def retryLoad (codec : RetryCodec) (principal root : String) : Option RetryJournal → Except RetryError RetryJournal
  | none => .ok
      { schema := 1, principal := principal, root := root, started := 0, attempts := [], bytes := 0, cost := 0 }
  | some j =>
    if (codec.textLength j).any (maxStateBytes < ·) ∨ j.schema ≠ 1 ∨ j.principal ≠ principal ∨ j.root ≠ root ∨
        maxAttempts < j.attempts.length then .error .unavailable
    else match j.attempts.foldlM (loadAttempt codec) {} with
      | .error e => .error e
      | .ok s => if s.bytes ≠ j.bytes ∨ s.cost ≠ j.cost then .error .counters else .ok j

/-! ## The action summary -/

def completionClaim : ActionState → String
  | .effectConfirmed => "effect_confirmed"
  | .acknowledged => "provider_acknowledged"
  | .failedBeforeEffect => "failed_before_effect"
  | .dispatching | .outcomeUnknown => "outcome_unknown"
  | _ => "not_dispatched"

def summaryLine (r : ActionReceipt) : String :=
  "Action " ++ r.intent.id ++ ": " ++ completionClaim r.state ++ "; object " ++ r.intent.destination ++
    "; payload " ++ r.intent.payloadDigest ++
    match r.outcome with
    | some o => if o.objectVersion = "" then "" else "; observed version " ++ o.objectVersion
    | none => ""

/-- An effect that may have happened and was not verified. -/
def unverified (r : ActionReceipt) : Bool :=
  !r.intent.actionClass.reads &&
    (r.state = .dispatching || r.state = .outcomeUnknown || r.state = .acknowledged)

/-- The lines of the summary, none when they pass the bound. -/
def summaryText : String → List ActionReceipt → Option String
  | text, [] => some text
  | text, r :: rest =>
    if r.state = .prepared ∨ r.state = .admitted then summaryText text rest
    else if 8192 < text.utf8ByteSize + (summaryLine r).utf8ByteSize + 1 then none
    else summaryText (text ++ summaryLine r ++ "\n") rest

/-- `ActionRetrySummary`: the text and whether an effect is unknown, or none for an error. -/
def actionRetrySummary (codec : Codec) (principal root : String) :
    Option ActionJournal → Option (String × Bool)
  | none => some ("No governed actions recorded. This is not a workspace restore.", false)
  | some j =>
    if (codec.textLength j).any (maxStateBytes < ·) ∨ j.principal ≠ principal ∨ j.root ≠ root ∨
        !j.validate codec then none
    else
      let rows := (j.actions.rows.map (·.2)).mergeSort fun r r' => r.sequence ≤ r'.sequence
      (summaryText
        "Host action journal; filesystem effects were not rolled back. Inspect receipts before repeating work.\n"
        rows).map fun text => (text, rows.any unverified)

/-! ## The reducer -/

/-- `time.Duration(s) * time.Second`: a signed 64-bit product. -/
def duration (seconds : UInt64) : ℤ := (seconds.toNat * second).bmod (2 ^ 64)

/-- What an operation leaves: the journal and the decision's fields it sets. -/
structure RetryChange where
  journal : RetryJournal
  attempt : String
  plan : String := ""
  summary : String := ""
  reason : String := "retry_disabled"

/-- The attempt with an id. -/
def RetryJournal.attempt? (j : RetryJournal) (id : String) : Option RetryAttempt :=
  j.attempts.find? fun a => a.id = id

/-- The first attempt with an id, changed. -/
def changeAttempt (id : String) (f : RetryAttempt → RetryAttempt) : List RetryAttempt → List RetryAttempt
  | [] => []
  | a :: rest => if a.id = id then f a :: rest else a :: changeAttempt id f rest

def failureSummary (prior : RetryAttempt) (actions : String) : String :=
  "Bounded host failure summary (non-authoritative lessons): prior attempt " ++ prior.id ++ " failed: " ++
    prior.failure.text ++ ". Failed speculative reasoning is omitted. Current supplied instructions replace " ++
    "prior user constraints.\n" ++ actions

/-- The summary a retry of a prior attempt starts with, or why it may not start. -/
def retrySummary (codec : RetryCodec) (args : RetryArgs) (j : RetryJournal) : Except String String :=
  if args.request.previous = "" then .ok ""
  else match j.attempt? args.request.previous with
  | none => .error "baseline_unavailable_fresh_plan_required"
  | some prior =>
    if prior.state ≠ .failed then .error "attempt_not_failed"
    else if prior.input = "" ∨ prior.inputExpires ≤ args.now ∨ codec.inputDigest prior.input ≠ prior.inputDigest then
      .error "baseline_unavailable_fresh_plan_required"
    else if !args.request.replaceConstraints then .error "current_complete_constraints_required"
    else match actionRetrySummary codec.actions args.principal args.root args.actions with
    | none => .error "action_reconstruction_gap"
    | some (summary, unknown) =>
      if unknown then .error "unknown_effect_reconciliation_required"
      else if args.policy.maxRepeatedFailures ≤
          UInt64.ofNat (j.attempts.countP fun a => a.state = .failed && a.failure = prior.failure) then
        .error "repeated_failure_ceiling"
      else .ok (failureSummary prior summary)

/-- The attempt a `begin` records. -/
def newAttempt (codec : RetryCodec) (args : RetryArgs) : RetryAttempt :=
  let id := codec.attemptId args.principal args.root args.request.request
  let retained := 0 < args.policy.retainInputSeconds
  { id := id, request := args.request.request, parent := args.request.previous
    input := if retained then args.request.input else ""
    inputDigest := codec.inputDigest args.request.input
    inputExpires := if retained then args.now + duration args.policy.retainInputSeconds else 0
    policy := args.generation, projection := args.request.projection, renderer := "clean-retry-v1"
    plan := id ++ ":plan:1", started := args.now, state := .running, failure := .other "", calls := [] }

def beginAttempt (codec : RetryCodec) (args : RetryArgs) (j : RetryJournal) : Except String RetryChange :=
  let r := args.request
  let p := args.policy
  let next := newAttempt codec args
  if r.request = "" ∨ 128 < r.request.utf8ByteSize ∨ r.input = "" ∨ 32768 < r.input.utf8ByteSize ∨
      128 < r.projection.utf8ByteSize then .error "invalid_retry_input"
  else if j.attempts.any (·.id = next.id) then .error "attempt_already_admitted"
  else if p.maxAttempts ≤ UInt64.ofNat j.attempts.length then .error "task_attempt_ceiling"
  else if j.started ≠ 0 ∧ j.started + duration p.maxWallSeconds ≤ args.now then .error "task_wall_ceiling"
  else (retrySummary codec args j).map fun summary =>
    { journal := { j with started := if j.started = 0 then args.now else j.started, attempts := j.attempts ++ [next] }
      attempt := next.id, plan := next.plan, summary := summary }

/-- The call a `send` records, at the policy's rate. -/
def priced (p : RetryPolicy) (c : RetryCall) : RetryCall :=
  { c with rate := p.nanodollarsPerByte, cost := c.bytes * p.nanodollarsPerByte }

def RetryAttempt.addCall (a : RetryAttempt) (c : RetryCall) : RetryAttempt := { a with calls := a.calls ++ [c] }

def sendCall (args : RetryArgs) (j : RetryJournal) : Except String RetryChange :=
  let c := args.request.call
  let p := args.policy
  match (j.attempt? args.request.attempt).filter (·.state = .running) with
  | none => .error "attempt_not_running"
  | some a =>
    if j.started + duration p.maxWallSeconds ≤ args.now then .error "task_wall_ceiling"
    else if c.id = "" ∨ 128 < c.id.utf8ByteSize ∨ c.bytes = 0 ∨ !actionHash c.payload ∨
        128 < c.receipt.utf8ByteSize ∨ 128 < c.sourceHandle.utf8ByteSize then
      .error "invalid_provider_reservation"
    else if a.calls.any (·.id = c.id) then .error "provider_attempt_already_reserved"
    else if maxCalls ≤ a.calls.length ∨ p.maxProviderBytes < j.bytes ∨ p.maxProviderBytes - j.bytes < c.bytes then
      .error "task_provider_byte_ceiling"
    else if maxWord / p.nanodollarsPerByte < c.bytes then .error "task_cost_ceiling"
    else if p.maxNanodollars < j.cost ∨ p.maxNanodollars - j.cost < (priced p c).cost then
      .error "task_cost_ceiling"
    else .ok
      { journal := { j with
          attempts := changeAttempt a.id (·.addCall (priced p c)) j.attempts
          bytes := j.bytes + c.bytes
          cost := j.cost + (priced p c).cost }
        attempt := a.id }

/-- The state a failure class ends an attempt in. -/
def FailureClass.ends : FailureClass → Option AttemptState
  | completed => some .completed
  | other _ => none
  | _ => some .failed

def finishAttempt (args : RetryArgs) (j : RetryJournal) : Except String RetryChange :=
  match j.attempt? args.request.attempt, args.request.failure.ends with
  | none, _ => .error "attempt_unavailable"
  | some _, none => .error "invalid_host_failure_class"
  | some a, some state =>
    if a.state ≠ .running ∧ (a.state ≠ state ∨ a.failure ≠ args.request.failure) then
      .error "attempt_outcome_conflict"
    else .ok
      { journal := { j with
          attempts := changeAttempt a.id (fun a =>
            { a with state := state, failure := args.request.failure }) j.attempts }
        attempt := a.id }

def inspectAttempt (args : RetryArgs) (j : RetryJournal) : Except String RetryChange :=
  match j.attempt? args.request.attempt with
  | none => .error "attempt_unavailable"
  | some a => .ok { journal := j, attempt := a.id, plan := a.plan, reason := a.state.text }

def retryOperation (codec : RetryCodec) (args : RetryArgs) (j : RetryJournal) : Except String RetryChange :=
  match args.request.operation with
  | .begin_ => beginAttempt codec args j
  | .send => sendCall args j
  | .finish => finishAttempt args j
  | .inspect => inspectAttempt args j
  | .other _ => .error "invalid_retry_operation"

/-- The operations that spend. -/
def RetryOperation.spends : RetryOperation → Bool
  | begin_ => true
  | send => true
  | _ => false

/-- Inputs that have expired are dropped. -/
def RetryJournal.expire (j : RetryJournal) (now : ℤ) : RetryJournal :=
  { j with attempts := j.attempts.map fun a => if a.inputExpires ≤ now then { a with input := "" } else a }

/-- What is left; a ceiling that is reached leaves the field as it was. -/
def remaining (p : RetryPolicy) (j : RetryJournal) (d : RetryDecision) : RetryDecision :=
  { d with
    remainingAttempts :=
      if UInt64.ofNat j.attempts.length < p.maxAttempts then p.maxAttempts - UInt64.ofNat j.attempts.length
      else d.remainingAttempts
    remainingBytes := if j.bytes < p.maxProviderBytes then p.maxProviderBytes - j.bytes else d.remainingBytes
    remainingNanodollars := if j.cost < p.maxNanodollars then p.maxNanodollars - j.cost else d.remainingNanodollars }

/-- The refusals before the operation. -/
def earlyRefusal (args : RetryArgs) (j : RetryJournal) : Option String :=
  let p := args.policy
  let spends := args.request.operation.spends
  if !p.enabled ∧ spends then some "retry_disabled"
  else if spends ∧ (p.nanodollarsPerByte = 0 ∨ p.maxAttempts = 0 ∨ 32 < p.maxAttempts) then
    some "retry_policy_invalid"
  else if j.started ≠ 0 ∧ args.now < j.started then some "retry_clock_regressed"
  else if p.maxTokens.isSome ∧ spends then some "exact_token_counter_unavailable"
  else none

/-- What a call answers: the journal to commit and the decision, or an error. -/
abbrev RetryAnswer := Except RetryError (Option RetryJournal × RetryDecision)

/-- `CleanRetry`. The last refusal finds the decision marked as allowed. -/
def cleanRetry (codec : RetryCodec) (raw : Option RetryJournal) (args : RetryArgs) : RetryAnswer :=
  match retryLoad codec args.principal args.root raw with
  | .error e => .error e
  | .ok j =>
    match earlyRefusal args j with
    | some reason => .ok (raw, { reason := reason })
    | none =>
      let d := remaining args.policy j {}
      match retryOperation codec args j with
      | .error reason => .ok (raw, { d with reason := reason })
      | .ok change =>
        let next := change.journal.expire args.now
        let d := remaining args.policy next
          { d with attempt := change.attempt, plan := change.plan, summary := change.summary }
        let d := { d with
          allowed := true
          reason := if change.reason = "retry_disabled" then "admitted" else change.reason }
        match codec.textLength next with
        | none => .error .marshal
        | some length =>
          if maxStateBytes < length then .ok (raw, { d with reason := "retry_journal_full" })
          else .ok (some next, d)

end ExecutionPolicy
