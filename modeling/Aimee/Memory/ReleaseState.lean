-- SUMMARY: Source releases of the memory owner: encoded values, release entries, forks, receipts, and the state that holds them.
import Aimee.Lib.GoText
import Aimee.Lib.Hash
import Aimee.Lib.KeyMap

/-!
# Source releases

The data of `source_release.go`, `source_release_fork.go` and `provider_receipt.go`. Every string
of a request was decoded from JSON, so it is a sequence of Unicode scalar values and its `len` is
the size of its UTF-8 encoding. A `json.RawMessage` is the text it holds.
-/

namespace SourceRelease

open GoText

/-- Nanoseconds since the epoch. -/
abbrev Time := ℕ

/-- `len` of a string. -/
def len (s : String) : ℕ := s.utf8ByteSize

/-! ## Encoding -/

def hexText (bytes : List UInt8) : String :=
  String.ofList (bytes.flatMap fun b => [hexDigit (b.toNat / 16), hexDigit b.toNat])

/-- `releaseTokenValid` and `receiptDigestValid`: a number of lower-case hexadecimal digits. -/
def lowerHex (count : ℕ) (s : String) : Bool :=
  len s = count && s.toList.all fun c => ('0' ≤ c && c ≤ '9') || ('a' ≤ c && c ≤ 'f')

def releaseTokenValid (s : String) : Bool := lowerHex 32 s

def receiptDigestValid (s : String) : Bool := lowerHex 64 s

/-! ## Requests -/

/-- An argument of a request: its key is absent, its value does not decode, or it decodes. -/
inductive Arg (α : Type) where
  | absent
  | malformed
  | value (a : α)
  deriving DecidableEq

namespace Arg

variable {α : Type}

/-- `stringValue`. -/
def value? : Arg α → Option α
  | value a => some a
  | _ => none

/-- `stringOr`. -/
def orElse (a : Arg α) (fallback : α) : α := a.value?.getD fallback

def present : Arg α → Bool
  | absent => false
  | _ => true

end Arg

inductive Operation where
  | explorationOwnerGeneration
  | explorationOwnerObserve
  | healthTurnFinish
  | actionEvidence
  | providerReceiptPlan
  | providerReceiptStarted
  | providerReceiptObserve
  | providerReceiptStored
  | sourceReleasePlan
  | sourceReleaseResult
  | sourceReleaseFinish
  | sourceReleaseDiscard
  | sourceReleaseForkPlan
  | sourceReleaseForkResult
  | other
  deriving DecidableEq

/-- The answer of a source owner, as far as the fence reads it. -/
structure OwnerReply where
  status : String := ""
  eligible : Bool := false
  checkId : String := ""
  sourcesDigest : String := ""
  sendGuard : String := ""
  leaseMillis : ℤ := 0
  guardSchemaVersion : ℤ := 0
  deriving DecidableEq

/-- `commandArgs`, the arguments the modelled operations read. An owner's answer that does not
    decode is `none`. -/
structure Args where
  operation : Operation := .other
  requestId : Arg String := .absent
  principal : Arg String := .absent
  callerSubject : Arg String := .absent
  workspace : Arg String := .absent
  project : Arg String := .absent
  sourceReleaseTicket : Arg String := .absent
  sendGuard : Arg Bool := .absent
  localResponse : Option OwnerReply := none
  ownerResponse : Option OwnerReply := none
  executionGradeResponse : String := ""
  newRequestId : Arg String := .absent
  forkTicket : Arg String := .absent
  attemptId : Arg String := .absent
  payloadSha256 : Arg String := .absent
  payloadBytes : Arg String := .absent
  route : Arg String := .absent
  provider : Arg String := .absent
  model : Arg String := .absent
  turnId : Arg String := .absent
  producerBuild : Arg String := .absent
  callerLimitsSha256 : Arg String := .absent
  operatorLimitsSha256 : Arg String := .absent
  dispatchOwner : Arg String := .absent
  receiptRetention : Arg String := .absent
  httpStatus : Option ℤ := none
  responseSha256 : Arg String := .absent
  responseBytes : Arg String := .absent
  responseRepresentation : Arg String := .absent
  observationSha256 : Arg String := .absent

/-! ## Entries -/

/-- `sourceReleasePart`. -/
structure Part where
  selectionPolicy : String := ""
  selectionPolicyDigest : String := ""
  unsatisfiedTypes : String := ""
  indexGeneration : String := ""
  native : Bool := false
  digest : String := ""
  coverageStatus : String := ""
  requirementDigest : String := ""
  deriving DecidableEq

def Part.json (p : Part) : Json :=
  .obj (omitempty "selection_policy" p.selectionPolicy ++ omitempty "selection_policy_digest" p.selectionPolicyDigest ++
    omitempty "unsatisfied_types" p.unsatisfiedTypes ++ omitempty "index_generation" p.indexGeneration ++
    [("native", .bool p.native), ("digest", .str p.digest)] ++ omitempty "coverage_status" p.coverageStatus ++
    omitempty "requirement_digest" p.requirementDigest)

/-- `sourceReleaseEntry`. The sources are the references its raw array holds. -/
structure Entry (Ref : Type) where
  executionGrades : String := ""
  healthAttempt : String := ""
  guardedAdmission : String := ""
  guardedAdmissionAt : Option Time := none
  assemblyParts : List Part := []
  assemblyDigest : String := ""
  assemblyMetadata : String := ""
  healthMetadata : String := ""
  sources : List Ref := []
  workspace : String := ""
  project : String := ""
  binding : String := ""
  digest : String := ""
  pending : String := ""
  admitted : String := ""
  pendingLocalDigest : String := ""
  pendingSharedDigest : String := ""
  pendingGuard : Bool := false
  previous : String := ""
  expires : Time := 0
  deriving DecidableEq

namespace Entry

variable {Ref : Type}

def healthSize (e : Entry Ref) : ℤ := len e.healthMetadata

/-- The entry without its admission. -/
def unadmit (e : Entry Ref) : Entry Ref := { e with admitted := "", guardedAdmission := "", guardedAdmissionAt := none }

/-- The entry after its earlier handles were dropped. -/
def unlink (e : Entry Ref) : Entry Ref := { e with previous := "" }

/-- The entry with a check that is pending. -/
def ask (e : Entry Ref) (check : String) : Entry Ref := { e with pending := check }

/-- The entry before the digests of its sources are set. -/
def askGuard (e : Entry Ref) (guarded : Bool) : Entry Ref :=
  { e with pendingGuard := guarded, pendingLocalDigest := "", pendingSharedDigest := "" }

/-- The entry with the digests its owners have to echo. -/
def expect (e : Entry Ref) (localDigest sharedDigest : String) : Entry Ref :=
  { e with pendingLocalDigest := localDigest, pendingSharedDigest := sharedDigest }

/-- The entry after an answer set: the challenge is used up. -/
def answered (e : Entry Ref) : Entry Ref :=
  { e.unadmit with pending := "", pendingGuard := false, pendingLocalDigest := "", pendingSharedDigest := "" }

def setAdmitted (e : Entry Ref) (check : String) : Entry Ref := { e with admitted := check }

def guard (e : Entry Ref) (check : String) (now : Time) : Entry Ref :=
  { e with guardedAdmission := check, guardedAdmissionAt := some now }

/-- The entry after a receipt took its admission. -/
def take (e : Entry Ref) : Entry Ref := { e with admitted := "" }

/-- The entry of a receipt. -/
def link (e : Entry Ref) (attempt : String) : Entry Ref :=
  { e with healthAttempt := attempt, guardedAdmission := "", guardedAdmissionAt := none }

end Entry

/-- `sourceReleaseFork`. -/
structure Fork (Ref : Type) where
  parent : String
  oldBinding : String
  newRequest : String
  binding : String
  entry : Entry Ref
  deriving DecidableEq

/-- `executionGradeSnapshot`. -/
structure GradeSnapshot where
  checkId : String := ""
  schema : ℤ := 0
  principal : String := ""
  scopeKind : String := ""
  scopeId : String := ""
  coverage : String := ""
  items : List String := []
  deriving DecidableEq

/-! ## Receipts -/

/-- `healthReleaseCheck`. -/
structure HealthRelease where
  guardCheck : String
  binding : String
  check : String
  sources : String
  observedAt : String
  verifier : String
  deriving DecidableEq

def HealthRelease.json (h : HealthRelease) : Json :=
  .obj (omitempty "guard_check_id" h.guardCheck ++
    [("receipt_binding_sha256", .str h.binding), ("source_check_id", .str h.check), ("sources_digest", .str h.sources),
      ("observed_at", .str h.observedAt), ("verifier", .str h.verifier)])

/-- `providerReceiptBinding`. -/
structure ReceiptBinding where
  replayExpiresAt : String := ""
  dispatchOwner : String := ""
  rendererVersion : String := ""
  policyVersion : String := ""
  assemblyDigest : String := ""
  turnId : String
  producerBuild : String
  callerLimitsDigest : String
  operatorLimitsDigest : String
  schemaVersion : ℤ := 1
  attemptId : String
  producerId : String
  requestId : String
  requestBinding : String
  workspace : String
  project : String
  retention : String := "commitment_only"
  sourceCoverage : String
  sources : String
  configuredTests : String
  sourcesDigest : String
  sourceCheckId : String
  route : String
  provider : String
  model : String
  payloadDigest : String
  payloadBytes : String
  countProvenance : String := "host_final_provider_bytes"
  deriving DecidableEq

def ReceiptBinding.json (b : ReceiptBinding) : Json :=
  .obj (omitempty "replay_expires_at" b.replayExpiresAt ++ omitempty "dispatch_owner" b.dispatchOwner ++
    omitempty "renderer_version" b.rendererVersion ++ omitempty "policy_version" b.policyVersion ++
    omitempty "assembly_sha256" b.assemblyDigest ++
    [("turn_id", .str b.turnId), ("producer_build", .str b.producerBuild),
      ("caller_limits_sha256", .str b.callerLimitsDigest), ("operator_limits_sha256", .str b.operatorLimitsDigest),
      ("schema_version", .num b.schemaVersion), ("attempt_id", .str b.attemptId), ("producer_id", .str b.producerId),
      ("request_id", .str b.requestId), ("request_binding", .str b.requestBinding), ("workspace", .str b.workspace),
      ("project", .str b.project), ("retention_mode", .str b.retention), ("source_coverage", .str b.sourceCoverage),
      ("sources", .raw b.sources)] ++
    (if b.configuredTests = "" then [] else [("configured_test_receipts", .raw b.configuredTests)]) ++
    [("sources_digest", .str b.sourcesDigest), ("source_check_id", .str b.sourceCheckId), ("route", .str b.route),
      ("provider", .str b.provider), ("model", .str b.model), ("payload_sha256", .str b.payloadDigest),
      ("payload_bytes", .str b.payloadBytes), ("count_provenance", .str b.countProvenance), ("token_count", .null)])

/-- `providerReceiptEvent`. -/
structure ReceiptEvent where
  healthRelease : Option HealthRelease := none
  projection : String := ""
  responseRepresentation : String := ""
  stage : String
  attemptId : String
  at_ : String
  bindingDigest : String
  binding : Option ReceiptBinding := none
  httpStatus : ℤ := 0
  responseDigest : String := ""
  responseBytes : String := ""
  reason : String := ""
  deriving DecidableEq

def ReceiptEvent.json (e : ReceiptEvent) : Json :=
  .obj ((e.healthRelease.toList.map fun h => ("health_release", h.json)) ++
    (if e.projection = "" then [] else [("projection", .raw e.projection)]) ++
    omitempty "response_representation" e.responseRepresentation ++
    [("schema_version", .num 1), ("stage", .str e.stage), ("attempt_id", .str e.attemptId), ("at", .str e.at_),
      ("binding_sha256", .str e.bindingDigest)] ++
    (e.binding.toList.map fun b => ("binding", b.json)) ++
    (if e.httpStatus = 0 then [] else [("http_status", .num e.httpStatus)]) ++
    omitempty "response_sha256" e.responseDigest ++ omitempty "response_bytes" e.responseBytes ++
    omitempty "reason" e.reason)

/-- The length of the text of an event. -/
def ReceiptEvent.length (e : ReceiptEvent) : ℕ := len (marshal e.json)

def providerReceiptDetailMax : ℕ := 16000

/-- `receiptEventJSON`: whether the text of an event fits a durable row. -/
def receiptEventJSON (e : ReceiptEvent) : Bool := e.length ≤ providerReceiptDetailMax

/-- `providerReceiptEntry`. Each detail is kept as the event it is the text of, and a detail
    that is still empty is `none`. -/
structure Receipt where
  healthRelease : Option HealthRelease := none
  healthTurnHandle : String := ""
  binding : String
  digest : String
  attempt : String
  prepared : ReceiptEvent
  admitted : ReceiptEvent
  at_ : String
  observation : Option ReceiptEvent := none
  observationInput : String := ""
  started : Option ReceiptEvent := none
  expires : Time
  persistedAt : Option Time := none
  deriving DecidableEq

/-- The bytes a receipt accounts for. -/
def Receipt.size (r : Receipt) : ℤ :=
  r.prepared.length + r.admitted.length + ((r.observation.map ReceiptEvent.length).getD 0 : ℕ) +
    ((r.started.map ReceiptEvent.length).getD 0 : ℕ)

/-! ## The state -/

/-- `sourceReleaseState`, without the health turns. -/
structure State (Ref : Type) where
  entries : KeyMap String (Entry Ref) := KeyMap.empty
  forks : KeyMap String (Fork Ref) := KeyMap.empty
  forkBindings : KeyMap String Time := KeyMap.empty
  bytes : ℤ := 0
  healthBytes : ℤ := 0
  receipts : KeyMap String Receipt := KeyMap.empty
  receiptBytes : ℤ := 0
  receiptProducer : String := ""

/-- Fifteen minutes. -/
def sourceReleaseTTL : Time := 15 * 60 * 1000000000

def sourceReleaseMaxBytes : ℤ := 16 * 2 ^ 20

def sourceReleaseMaxEntries : ℕ := 1024

def sourceReleaseHealthMaxBytes : ℤ := 2 ^ 20

def maxReleaseSources : ℕ := 512

def maxDataBody : ℕ := 2 ^ 20

/-- Where an entry is held: under a release ticket, or in a pending fork. -/
inductive Slot where
  | entry (ticket : String)
  | fork (ticket : String)
  deriving DecidableEq

namespace State

variable {Ref : Type}

def at? (s : State Ref) : Slot → Option (Entry Ref)
  | .entry ticket => s.entries.get? ticket
  | .fork ticket => (s.forks.get? ticket).map Fork.entry

/-- A change through a pointer to an entry. The map is unaffected when it no longer holds the
    entry. -/
def alter (s : State Ref) (slot : Slot) (f : Entry Ref → Entry Ref) : State Ref :=
  match slot with
  | .entry ticket => { s with entries := s.entries.alter ticket f }
  | .fork ticket => { s with forks := s.forks.alter ticket fun k => { k with entry := f k.entry } }

end State

/-! ## Replies -/

/-- `sourceRevalidation`. -/
structure Revalidation (Ref : Type) where
  checkId : String
  sendGuard : String := ""
  sources : List Ref
  deriving DecidableEq

/-- The requests a plan hands to the source owners. -/
structure Challenge (Ref : Type) where
  executionGradeRequest : Option GradeSnapshot := none
  localRequest : Option (Revalidation Ref) := none
  localReleaseRequest : Option (Revalidation Ref) := none
  request : Option (Revalidation Ref) := none
  releaseRequest : Option (Revalidation Ref) := none
  deriving DecidableEq

/-- The answer to a receipt plan. -/
structure ReceiptReply where
  healthTurnHandle : String
  attemptId : String
  at_ : String
  assemblyEvents : List ReceiptEvent
  preparedDetail : ReceiptEvent
  admittedDetail : ReceiptEvent
  replayStore : Bool
  deriving DecidableEq

inductive Reply (Ref : Type) where
  | error (kind message : String)
  | ok
  | generation (memoryOwner : String)
  | observed (memoryOwner planDigest sourceVersionsDigest : String)
  | evidence (evidenceSha256 contextReceipt revocationGeneration memoryGuard : String)
  | challenge (c : Challenge Ref)
  | admitted
  | forkChallenge (forkTicket newRequestId : String) (c : Challenge Ref)
  | forkAdmitted (sourceReleaseTicket newRequestId : String)
  | receipt (r : ReceiptReply)
  | observation (attemptId : String) (detail : Option ReceiptEvent)
  | started (detail : Option ReceiptEvent)
  | stored
  /-- The reply of `healthTurnFinish`, whose turns are not part of the state. -/
  | healthTurn
  deriving DecidableEq

/-- The tokens `releaseToken` returns during a call, by what they are for; `none` is an error. -/
structure Draws where
  ticket : Option String := none
  check : Option String := none
  attempt : Option String := none
  producer : Option String := none
  deriving DecidableEq

/-! ## What the owner is given -/

/-- The selection report of a typed projection. -/
structure SelectionReport where
  version : String
  artifactDigest : String
  unsatisfiedFloors : List String

/-- The assembly of a request, as far as `prepare` reads it. The lists are the retained items of
    the projections that are present. -/
structure Assembly (Ref : Type) where
  executionTestGrades : String := ""
  factsProjection : Option (List Ref) := none
  typedProjection : Option (List Ref) := none
  memoryProjection : Option (List Ref) := none
  nativeProjection : Option (List Ref) := none
  appendNativeSources : Bool := false
  /-- `healthIndependentAssemblyDigest`. -/
  digest : String := ""
  /-- The project and the generation of the indexed context. -/
  indexedContext : Option (String × String) := none
  selectionPolicy : Option SelectionReport := none
  /-- The status and the requirement digest of the evidence coverage. -/
  evidenceCoverage : Option (String × String) := none
  packingDispositions : Json := .null
  contextAccounting : Json := .null

/-- The libraries the owner rests on, and the parts of the memory module it calls. -/
structure Platform (Ref : Type) where
  /-- `sha256.Sum256`. -/
  hash : HashFn
  /-- The text of a time in `RFC3339Nano`. -/
  formatTime : Time → String
  /-- `json.Marshal` of a raw message. -/
  compact : String → String
  /-- `json.Unmarshal` into an `executionGradeSnapshot`. -/
  decodeGrades : String → Option GradeSnapshot
  /-- `json.Unmarshal` into `any`, and `releaseDigest` of the value. -/
  itemDigest : String → Option String
  /-- Whether a reference has a source version. -/
  versioned : Ref → Bool
  channel : Ref → String
  /-- The record kind of the source version. -/
  kind : Ref → String
  refJson : Ref → Json
  /-- The test `sourceRevalidation.valid` makes of each source. -/
  admissible : Ref → Bool
  /-- `rankingArtifactDigest(true)`. -/
  rankingArtifactDigest : String
  /-- Whether `AIMEE_MEMORY_HEALTH_ENABLED` is `1`. -/
  healthEnabled : Bool
  /-- The health members of an assembly, given its predecessor and its sources. -/
  healthFields : Option (Entry Ref) → Assembly Ref → List Ref → List (String × Json)
  /-- `receiptMetadataWithExecution`, `receiptMetadataWithRelease` and `healthExecutionTurn`: the
      metadata of the assembly events and the handle of the turn. -/
  receiptMetadata : Entry Ref → Args → ReceiptBinding → String → Time → String × String

namespace Platform

variable {Ref : Type} (P : Platform Ref)

def releaseDigest (value : Json) : String := hexText (P.hash (marshal value).toUTF8.toList).val

def releaseBinding (args : Args) : String :=
  P.releaseDigest (.arr [.str (args.requestId.orElse ""), .str (args.principal.orElse ""),
    .str (args.callerSubject.orElse "")])

def refsJson (refs : List Ref) : Json := .arr (refs.map P.refJson)

/-- The raw sources of an entry. -/
def sourcesText (e : Entry Ref) : String := marshal (P.refsJson e.sources)

def sourceReleaseBytes (e : Entry Ref) : ℤ :=
  len (P.sourcesText e) + len e.executionGrades + len e.assemblyMetadata

/-- The sources whose owner is the local one. -/
def localSources (refs : List Ref) : List Ref :=
  refs.filter fun r => P.kind r = "user_memory_record" || P.kind r = "user_memory_collection"

def sharedSources (refs : List Ref) : List Ref :=
  refs.filter fun r => !(P.kind r = "user_memory_record" || P.kind r = "user_memory_collection")

end Platform

end SourceRelease
