-- SUMMARY: Provider receipts: making room, preparing, observing, storing and starting an attempt.
import Aimee.Memory.ReleaseState

/-!
# Provider receipts

`provider_receipt.go`. Each operation runs under the owner mutex, at one reading of the clock.
-/

namespace SourceRelease

variable {Ref : Type}

/-! ## Making room -/

/-- The earlier of two stored receipts, by the time of their confirmation and then by attempt. -/
def older (best : Option (Time × String)) (id : String) (r : Receipt) : Option (Time × String) :=
  match r.persistedAt, best with
  | none, best => best
  | some t, none => some (t, id)
  | some t, some (at_, oldest) => if t < at_ ∨ t = at_ ∧ id < oldest then some (t, id) else some (at_, oldest)

/-- The receipt that is evicted first. -/
def oldestStored (receipts : KeyMap String Receipt) : Option String :=
  (receipts.rows.foldl (fun best row => older best row.1 row.2) none).map Prod.snd

/-- A receipt taken out of the cache. -/
def evict (s : State Ref) (id : String) (r : Receipt) : State Ref :=
  { s with receipts := s.receipts.erase id, receiptBytes := s.receiptBytes - r.size }

/-- The loop of `receiptRoom`. Each round evicts a receipt, so a round more than there are
    receipts is never reached. -/
def makeRoom : ℕ → State Ref → ℕ → ℕ → State Ref × Bool
  | 0, s, _, _ => (s, false)
  | rounds + 1, s, entries, bytes =>
    if s.receipts.size + entries > sourceReleaseMaxEntries ∨ s.receiptBytes + bytes > sourceReleaseMaxBytes then
      match oldestStored s.receipts with
      | none => (s, false)
      | some id =>
        match s.receipts.get? id with
        | none => (s, false)
        | some r => makeRoom rounds (evict s id r) entries bytes
    else (s, true)

def receiptRoom (s : State Ref) (entries bytes : ℕ) : State Ref × Bool :=
  makeRoom (s.receipts.size + 1) s entries bytes

/-! ## Preparing -/

/-- `strconv.ParseUint` of a decimal text, before the test of its width. -/
def parseDecimal (value : String) : Option ℕ :=
  let digits := value.toList
  if digits ≠ [] ∧ digits.all Char.isDigit then some (digits.foldl (fun n c => 10 * n + (c.toNat - 48)) 0) else none

def receiptByteCount (value : String) : Bool :=
  match parseDecimal value with
  | none => false
  | some n => n < 2 ^ 63 && toString n = value

/-- The tests of the arguments of a receipt plan. -/
def receiptArgsValid (args : Args) : Bool :=
  receiptDigestValid (args.payloadSha256.orElse "") && receiptByteCount (args.payloadBytes.orElse "") &&
    (args.route.orElse "" = "openai_chat" || args.route.orElse "" = "openai_responses" ||
      args.route.orElse "" = "anthropic_messages") &&
    len (args.requestId.orElse "") ≤ 256 && len (args.provider.orElse "") ≤ 1024 && len (args.model.orElse "") ≤ 1024 &&
    len (args.turnId.orElse "") ≤ 128 && len (args.producerBuild.orElse "") ≤ 128 &&
    receiptDigestValid (args.callerLimitsSha256.orElse "") && receiptDigestValid (args.operatorLimitsSha256.orElse "")

section Plan

variable (P : Platform Ref)

/-- The binding of an attempt before ownership and retention. -/
def baseBinding (args : Args) (entry : Entry Ref) (check coverage attempt producer : String) : ReceiptBinding where
  turnId := args.turnId.orElse ""
  producerBuild := args.producerBuild.orElse ""
  callerLimitsDigest := args.callerLimitsSha256.orElse ""
  operatorLimitsDigest := args.operatorLimitsSha256.orElse ""
  attemptId := attempt
  producerId := producer
  requestId := args.requestId.orElse ""
  requestBinding := entry.binding
  workspace := entry.workspace
  project := entry.project
  sourceCoverage := coverage
  sources := P.sourcesText entry
  configuredTests := if entry.executionGrades = "" then "" else P.compact entry.executionGrades
  sourcesDigest := entry.digest
  sourceCheckId := check
  route := args.route.orElse ""
  provider := args.provider.orElse ""
  model := args.model.orElse ""
  payloadDigest := args.payloadSha256.orElse ""
  payloadBytes := args.payloadBytes.orElse ""

/-- The binding with the dispatch owner of the request, none if the owner is no token. -/
def ownedBinding (args : Args) (entry : Entry Ref) (b : ReceiptBinding) : Option ReceiptBinding :=
  let owner := args.dispatchOwner.orElse ""
  if owner = "" then some b
  else if !releaseTokenValid owner then none
  else some
    { b with
      schemaVersion := 2
      dispatchOwner := owner
      rendererVersion := "go-memory-projection-v1"
      policyVersion := "source-fence-v1/task-recovery-v2"
      assemblyDigest :=
        if entry.assemblyDigest = "" then P.releaseDigest (.arr [.str "unavailable_assembly", .str entry.digest])
        else entry.assemblyDigest }

/-- The binding with the retention of the request, or why it is refused. -/
def retainedBinding (args : Args) (now : Time) (b : ReceiptBinding) : Except String ReceiptBinding :=
  let retention := args.receiptRetention.orElse "commitment_only"
  if retention ≠ "commitment_only" ∧ retention ≠ "replayable" then .error "unsupported receipt retention mode"
  else if retention = "replayable" then
    if b.schemaVersion ≠ 2 ∨ (parseDecimal b.payloadBytes).getD 0 > 49152 then
      .error "replayable receipt requires owned dispatch and at most 49152 payload bytes"
    else .ok { b with retention, replayExpiresAt := P.formatTime (now + 60 * 60 * 1000000000) }
  else .ok b

/-- The assembly events of an attempt. -/
def assemblyEvents (metadata attempt at_ digest : String) : List ReceiptEvent :=
  if metadata = "" then []
  else ["retrieved", "assembled"].map fun stage =>
    { stage, attemptId := attempt, at_, bindingDigest := digest, projection := metadata,
      reason := "assembly_observed_before_preparation" }

def unavailable (message : String) : Reply Ref := .error "unavailable" message

/-- The receipt of an attempt, without the handle of its turn. -/
def newReceipt (entry : Entry Ref) (now : Time) (attempt : String) (binding : ReceiptBinding) : Receipt :=
  let at_ := P.formatTime now
  let digest := P.releaseDigest binding.json
  { binding := entry.binding
    digest
    attempt
    prepared := { stage := "prepared", attemptId := attempt, at_, bindingDigest := digest, binding := some binding }
    admitted := { stage := "dispatch_admitted", attemptId := attempt, at_, bindingDigest := digest }
    at_
    expires := now + sourceReleaseTTL }

def addReceipt (s : State Ref) (attempt : String) (r : Receipt) : State Ref :=
  { s with
    receipts := s.receipts.put attempt r
    receiptBytes := s.receiptBytes + (r.prepared.length + r.admitted.length : ℕ) }

/-- The entry of a receipt, once the receipt was added. -/
def linkAttempt (s : State Ref) (slot : Option Slot) (attempt : String) : State Ref :=
  match slot with
  | none => s
  | some slot => s.alter slot fun e => e.link attempt

/-- The end of a receipt plan: the receipt of the attempt, and its assembly events. -/
def receiptCommit (s : State Ref) (args : Args) (slot : Option Slot) (entry : Entry Ref) (now : Time) (attempt : String)
    (binding : ReceiptBinding) : State Ref × Reply Ref :=
  let r := newReceipt P entry now attempt binding
  if !receiptEventJSON r.prepared then (s, unavailable "provider receipt exceeds durable row capacity")
  else if !receiptEventJSON r.admitted then (s, unavailable "provider receipt capacity unavailable")
  else
    match receiptRoom s 1 (r.prepared.length + r.admitted.length) with
    | (s, false) => (s, unavailable "provider receipt capacity unavailable")
    | (s, true) =>
      let (metadata, handle) := P.receiptMetadata { entry with healthAttempt := attempt } args binding r.digest now
      let s := linkAttempt (addReceipt s attempt { r with healthTurnHandle := handle }) slot attempt
      let prelude := assemblyEvents metadata attempt r.at_ r.digest
      if !prelude.all receiptEventJSON then (s, unavailable "assembly receipt exceeds bound")
      else (s, .receipt
        { healthTurnHandle := handle, attemptId := attempt, at_ := r.at_, assemblyEvents := prelude,
          preparedDetail := r.prepared, admittedDetail := r.admitted, replayStore := binding.retention = "replayable" })

/-- A receipt plan after the admission of its entry was taken. -/
def receiptPrepare (s : State Ref) (args : Args) (slot : Option Slot) (entry : Entry Ref)
    (check coverage : String) (now : Time) (draws : Draws) : State Ref × Reply Ref :=
  let coverage := if entry.executionGrades = "" then coverage else "retained_inputs_with_configured_tests"
  if !receiptArgsValid args then (s, unavailable "provider receipt binding unavailable")
  else
    match draws.attempt with
    | none => (s, unavailable "provider attempt identity unavailable")
    | some attempt =>
      match if s.receiptProducer = "" then draws.producer else some s.receiptProducer with
      | none => (s, unavailable "provider producer identity unavailable")
      | some producer =>
        let s := { s with receiptProducer := producer }
        match ownedBinding P args entry (baseBinding P args entry check coverage attempt producer) with
        | none => (s, unavailable "dispatch ownership unavailable")
        | some binding =>
          match retainedBinding P args now binding with
          | .error message => (s, unavailable message)
          | .ok binding => receiptCommit P s args slot entry now attempt binding

/-- `receiptPlan`, for an entry and where it is held, or for no entry. -/
def receiptPlan (s : State Ref) (args : Args) (held : Option (Slot × Entry Ref)) (now : Time) (draws : Draws) :
    State Ref × Reply Ref :=
  match held with
  | some (slot, entry) =>
    let s := s.alter slot Entry.take
    if entry.admitted = "" then (s, unavailable "provider receipt requires fresh source admission")
    else receiptPrepare P s args (some slot) entry.take entry.admitted "retained_versioned_inputs" now draws
  | none =>
    receiptPrepare P s args none { binding := P.releaseBinding args, digest := P.releaseDigest (P.refsJson []) } ""
      "no_versioned_source_handle" now draws

/-! ## Observing -/

/-- The event of an observation. -/
def observationEvent (r : Receipt) (now : Time) (status : ℤ) (digest count representation : String) : ReceiptEvent :=
  let event : ReceiptEvent :=
    { stage := "acknowledged", attemptId := r.attempt, at_ := P.formatTime now, bindingDigest := r.digest,
      httpStatus := status, responseDigest := digest, responseBytes := count, responseRepresentation := representation }
  if status = -1 then
    { event with stage := "outcome_unknown", httpStatus := 0, reason := "transport_outcome_unresolved" }
  else event

def receiptObservation (s : State Ref) (args : Args) (now : Time) : State Ref × Reply Ref :=
  let id := args.attemptId.orElse ""
  match s.receipts.get? id with
  | none => (s, unavailable "provider receipt observation unavailable")
  | some r =>
    if r.binding ≠ P.releaseBinding args then (s, unavailable "provider receipt observation unavailable")
    else
      match args.httpStatus with
      | none => (s, unavailable "provider transport observation invalid")
      | some status =>
        if status ≠ -1 ∧ (status < 100 ∨ 599 < status) then (s, unavailable "provider transport observation invalid")
        else if args.responseRepresentation.present ∧ args.responseRepresentation.value? = none then
          (s, unavailable "provider response representation invalid")
        else
          let digest := args.responseSha256.orElse ""
          let count := args.responseBytes.orElse ""
          let representation := args.responseRepresentation.orElse "host_buffered_response_string"
          if !receiptDigestValid digest || !receiptByteCount count ||
              (representation ≠ "host_buffered_response_string" && representation ≠ "provider_stream_bytes") then
            (s, unavailable "provider response commitment invalid")
          else
            let input := P.releaseDigest (.arr [.num status, .str digest, .str count, .str representation])
            match r.observation with
            | some event =>
              if input ≠ r.observationInput then
                (s, unavailable "provider observation conflicts with previous observation")
              else (s, .observation r.attempt (some event))
            | none =>
              let event := observationEvent P r now status digest count representation
              if !receiptEventJSON event then (s, unavailable "provider observation capacity unavailable")
              else
                match receiptRoom s 0 event.length with
                | (s, false) => (s, unavailable "provider observation capacity unavailable")
                | (s, true) =>
                  ({ s with
                      receipts := s.receipts.alter id fun r =>
                        { r with observation := some event, observationInput := input }
                      receiptBytes := s.receiptBytes + event.length },
                    .observation r.attempt (some event))

def receiptStored (s : State Ref) (args : Args) (now : Time) : State Ref × Reply Ref :=
  let id := args.attemptId.orElse ""
  let digest := args.observationSha256.orElse ""
  match s.receipts.get? id with
  | none => (s, unavailable "durable observation confirmation unavailable")
  | some r =>
    match r.observation with
    | none => (s, unavailable "durable observation confirmation unavailable")
    | some event =>
      if r.binding ≠ P.releaseBinding args ∨ !receiptDigestValid digest ∨ digest ≠ P.releaseDigest event.json then
        (s, unavailable "durable observation confirmation unavailable")
      else if r.persistedAt = none then
        ({ s with receipts := s.receipts.alter id fun r => { r with persistedAt := some now } }, .stored)
      else (s, .stored)

/-! ## Starting -/

/-- The event of a dispatch that was started. -/
def startedEvent (r : Receipt) (now : Time) (health : Option HealthRelease) : ReceiptEvent :=
  { stage := "dispatch_started", attemptId := r.attempt, at_ := P.formatTime now, bindingDigest := r.digest,
    reason := "request_write_returned", healthRelease := health }

/-- The record of a start, once room was made for it. The receipt is written through a pointer
    that was read before. -/
def recordStarted (s : State Ref) (id : String) (event : ReceiptEvent) : State Ref × Reply Ref :=
  if !receiptEventJSON event then (s, unavailable "provider observation exceeds bound")
  else
    match receiptRoom s 0 event.length with
    | (s, false) => (s, unavailable "provider observation exceeds bound")
    | (s, true) =>
      ({ s with
          receipts := s.receipts.alter id fun r => { r with started := some event }
          receiptBytes := s.receiptBytes + event.length },
        .started (some event))

def receiptStarted (s : State Ref) (args : Args) (now : Time) : State Ref × Reply Ref :=
  let id := args.attemptId.orElse ""
  match s.receipts.get? id with
  | none => (s, unavailable "provider attempt unavailable")
  | some r =>
    if r.binding ≠ P.releaseBinding args then (s, unavailable "provider attempt unavailable")
    else
      match r.started with
      | some event => (s, .started (some event))
      | none =>
        let event := startedEvent P r now r.healthRelease
        if r.healthRelease.isSome then
          -- Optional health gives way when the record with it does not fit.
          if !receiptEventJSON event then recordStarted s id (startedEvent P r now none)
          else
            match receiptRoom s 0 event.length with
            | (s, false) => recordStarted s id (startedEvent P r now none)
            | (s, true) => recordStarted s id event
        else recordStarted s id event

end Plan

end SourceRelease
