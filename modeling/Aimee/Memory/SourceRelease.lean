-- SUMMARY: The source release handler: expiry, preparation of an entry, the challenge of its sources and the answer to it.
import Aimee.Memory.ProviderReceipt

/-!
# The release handler

`source_release.go`, with the grade comparisons of `execution_grade_release.go` and the guard
observation of `retrieval_health_release.go`. A call runs under the owner mutex, at one reading of
the clock.
-/

namespace SourceRelease

open GoText

variable {Ref : Type}

section Release

variable (P : Platform Ref)

/-! ## Expiry -/

/-- What of a map has expired at a time, and what has not. -/
def live {α : Type} (expires : α → Time) (now : Time) (m : KeyMap String α) : KeyMap String α :=
  m.keep fun a => now < expires a

def lapsed {α : Type} (expires : α → Time) (now : Time) (m : KeyMap String α) : KeyMap String α :=
  m.keep fun a => !(now < expires a)

def expireForks (s : State Ref) (now : Time) : State Ref :=
  let gone := lapsed (fun k : Fork Ref => k.entry.expires) now s.forks
  { s with
    forks := live (fun k : Fork Ref => k.entry.expires) now s.forks
    forkBindings := live id now s.forkBindings
    bytes := s.bytes - gone.total fun k => P.sourceReleaseBytes k.entry
    healthBytes := s.healthBytes - gone.total fun k => k.entry.healthSize }

def expire (s : State Ref) (now : Time) : State Ref :=
  let s := expireForks P s now
  let gone := lapsed Entry.expires now s.entries
  { s with
    receipts := live Receipt.expires now s.receipts
    receiptBytes := s.receiptBytes - (lapsed Receipt.expires now s.receipts).total Receipt.size
    entries := live Entry.expires now s.entries
    bytes := s.bytes - gone.total P.sourceReleaseBytes
    healthBytes := s.healthBytes - gone.total Entry.healthSize }

/-! ## Dropping -/

/-- The loop of `drop`. Each round deletes an entry, so a round more than there are entries is
    never reached. -/
def dropChain : ℕ → State Ref → String → String → Bool → State Ref
  | 0, s, _, _, _ => s
  | rounds + 1, s, token, binding, ancestors =>
    if token = "" then s
    else
      match s.entries.get? token with
      | none => s
      | some entry =>
        if entry.binding ≠ binding then s
        else
          let s :=
            { s with
              entries := s.entries.erase token
              bytes := s.bytes - P.sourceReleaseBytes entry
              healthBytes := s.healthBytes - entry.healthSize }
          if ancestors then dropChain rounds s entry.previous binding ancestors else s

def drop (s : State Ref) (token binding : String) (ancestors : Bool) : State Ref :=
  dropChain P (s.entries.size + 1) s token binding ancestors

/-! ## Grades -/

def GradeSnapshot.json (P : Platform Ref) (g : GradeSnapshot) : Json :=
  .obj (omitempty "check_id" g.checkId ++
    [("schema_version", .num g.schema), ("principal", .str g.principal), ("scope_kind", .str g.scopeKind),
      ("scope_id", .str g.scopeId), ("coverage", .str g.coverage),
        ("items", .arr (g.items.map fun i => .raw (P.compact i)))])

/-- The items with a new digest, in their order; none if one does not decode. -/
def mergeItems : List String → List String → Option (List String)
  | _, [] => some []
  | seen, raw :: rest => do
      let digest ← P.itemDigest raw
      if digest ∈ seen then mergeItems seen rest
      else return raw :: (← mergeItems (digest :: seen) rest)

def mergeExecutionGradeSources (previous current : String) : Except String String :=
  if current = "" then .ok previous
  else if previous = "" then .ok current
  else
    match P.decodeGrades previous, P.decodeGrades current with
    | some a, some b =>
      if a.principal ≠ b.principal ∨ a.scopeId ≠ b.scopeId then .error "test receipt audience changed"
      else
        match mergeItems P [] (a.items ++ b.items) with
        | none => .error "invalid test receipt"
        | some items =>
          let raw := marshal (GradeSnapshot.json P { a with items })
          if len raw > 60 * 1024 ∨ items.length > 64 then .error "test receipt source capacity" else .ok raw
    | _, _ => .error "test receipt audience changed"

def executionGradeSourcesEqual (a b : String) : Bool :=
  match P.decodeGrades a, P.decodeGrades b with
  | some x, some y =>
    if x.schema ≠ y.schema ∨ x.principal ≠ y.principal ∨ x.scopeKind ≠ y.scopeKind ∨ x.scopeId ≠ y.scopeId ∨
        x.coverage ≠ y.coverage ∨ x.items.length ≠ y.items.length then false
    else
      match x.items.mapM P.itemDigest with
      | none => false
      | some values =>
        values.dedup.length = x.items.length && y.items.all fun raw => (P.itemDigest raw).any (· ∈ values)
  | _, _ => false

/-! ## Preparing an entry -/

/-- The references of the projections that carry a source version. -/
def versionedRefs (assembly : Assembly Ref) : List Ref :=
  ([assembly.factsProjection, assembly.typedProjection, assembly.memoryProjection, assembly.nativeProjection].flatMap
    fun projection => projection.getD []).filter P.versioned

/-- The first reference of each digest. -/
def uniqueRefs : List String → List Ref → List Ref
  | _, [] => []
  | seen, ref :: rest =>
    let key := P.releaseDigest (P.refJson ref)
    if key ∈ seen then uniqueRefs seen rest else ref :: uniqueRefs (key :: seen) rest

def typedSelectionPolicyVersion : String := "typed-diversity-rankwindow3-v2"

def typedChannelOrder : List String :=
  ["current_assertions", "historical_assertions", "episodes", "summaries", "observations", "approved_procedures",
    "working_context"]

/-- The part an assembly adds to an entry. -/
def assemblyPart (assembly : Assembly Ref) (project : String) : Part :=
  let part : Part :=
    { native := assembly.nativeProjection.isSome
      digest := assembly.digest
      indexGeneration :=
        match assembly.indexedContext with
        | some (p, generation) => if p = project then generation else ""
        | none => "" }
  if assembly.typedProjection.isNone then part
  else
    let part :=
      match assembly.selectionPolicy with
      | some policy =>
        if policy.version = typedSelectionPolicyVersion ∧ policy.artifactDigest = P.rankingArtifactDigest then
          { part with
            selectionPolicy := policy.version
            selectionPolicyDigest := policy.artifactDigest
            unsatisfiedTypes := String.intercalate "," (typedChannelOrder.filter (· ∈ policy.unsatisfiedFloors)) }
        else part
      | none => part
    match assembly.evidenceCoverage with
    | some (status, requirement) => { part with coverageStatus := status, requirementDigest := requirement }
    | none => part

/-- The metadata members of an assembly, around the health members. -/
def metadataMembers (assembly : Assembly Ref) (assemblyDigest : String) (parts : List Part)
    (health : List (String × Json)) :
    List (String × Json) :=
  [("context_accounting", assembly.contextAccounting)] ++ health ++
    [("packing_dispositions", assembly.packingDispositions), ("projection_commitment", .str assemblyDigest),
      ("projection_parts", .arr (parts.map Part.json))]

/-- The metadata of an assembly, cut down when it is too long. -/
def assemblyMetadata (assembly : Assembly Ref) (assemblyDigest : String) (parts : List Part) : String :=
  let metadata := marshal (.obj (metadataMembers assembly assemblyDigest parts []))
  if len metadata > 12000 then
    marshal (.obj [("projection_commitment", .str assemblyDigest), ("reason", .str "assembly_metadata_limit"),
      ("truncated", .bool true)])
  else metadata

/-- The health metadata of an assembly, empty when it does not fit. -/
def healthMetadata (s : State Ref) (prior : Option (Entry Ref)) (assembly : Assembly Ref) (refs : List Ref)
    (assemblyDigest : String) (parts : List Part) : String :=
  let fields := if P.healthEnabled then P.healthFields prior assembly refs else []
  if fields.isEmpty then ""
  else
    let metadata := marshal (.obj fields)
    if len (marshal (.obj (metadataMembers assembly assemblyDigest parts fields))) > 12000 ∨
        s.healthBytes + len metadata > sourceReleaseHealthMaxBytes then ""
    else metadata

/-- The entry a preparation makes for the references it retains, and the answer to it. -/
def retain (s : State Ref) (assembly : Assembly Ref) (prior : Option (Entry Ref)) (refs : List Ref) (grades : String)
    (replaceNative : Bool) (token previous workspace project binding : String) (now : Time) :
    State Ref × Except String String :=
  let part := assemblyPart P assembly project
  match prior with
  | some old =>
    if marshal (P.refsJson refs) = P.sourcesText old ∧ grades = old.executionGrades ∧
      old.assemblyParts.getLast? = some part then
      (s, .ok previous)
    else commit part (old.assemblyParts.filter fun p => !replaceNative || !p.native)
  | none => commit part []
where
  commit (part : Part) (kept : List Part) : State Ref × Except String String :=
    if kept.length ≥ 128 then (s, .error "source assembly history capacity")
    else
      let parts := kept ++ [part]
      let assemblyDigest := P.releaseDigest (.arr (parts.map Part.json))
      let entry : Entry Ref :=
        { executionGrades := grades
          assemblyParts := parts
          assemblyDigest
          assemblyMetadata := assemblyMetadata assembly assemblyDigest parts
          healthMetadata := healthMetadata P s prior assembly refs assemblyDigest parts
          sources := refs
          workspace, project, binding
          digest := P.releaseDigest (P.refsJson refs)
          previous
          expires := now + sourceReleaseTTL }
      if s.entries.size + s.forks.size ≥ sourceReleaseMaxEntries ∨
          s.bytes + P.sourceReleaseBytes entry > sourceReleaseMaxBytes ∨
            len (P.sourcesText entry) > maxDataBody / 2 then
        (s, .error "source release capacity")
      else
        ({ s with
            entries := s.entries.put token entry
            bytes := s.bytes + P.sourceReleaseBytes entry
            healthBytes := s.healthBytes + entry.healthSize },
          .ok token)

/-- The references and grades of a preparation joined to those of its predecessor. -/
def joinPrior (prior : Option (Entry Ref)) (refs : List Ref) (grades : String) (replaceNative : Bool) :
    Except String (List Ref × String) :=
  match prior with
  | none => .ok (refs, grades)
  | some old =>
    let kept := if replaceNative then old.sources.filter fun r => !(P.channel r).startsWith "native_" else old.sources
    (mergeExecutionGradeSources P old.executionGrades grades).map fun merged => (kept ++ refs, merged)

/-- A preparation under the owner mutex, after the expiry. -/
def prepareLocked (s : State Ref) (args : Args) (assembly : Assembly Ref) (replaceNative : Bool)
    (token : String) (now : Time) :
    State Ref × Except String String :=
  let previous := args.sourceReleaseTicket.orElse ""
  let workspace := args.workspace.orElse ""
  let project := args.project.orElse ""
  let binding := P.releaseBinding args
  let prior := if previous = "" then none else s.entries.get? previous
  if previous ≠ "" ∧ prior.all (fun old => old.binding ≠ binding ∨ old.workspace ≠ workspace ∨
    old.project ≠ project) then
    (s, .error "previous source release unavailable")
  else
    match joinPrior P prior (versionedRefs P assembly) assembly.executionTestGrades replaceNative with
    | .error message => (s, .error message)
    | .ok (refs, grades) =>
      let unique := uniqueRefs P [] refs
      if unique.isEmpty ∧ grades = "" then (s, .ok "")
      else if !unique.isEmpty ∧
          (!releaseTokenValid token ∨ unique.length > maxReleaseSources ∨ !unique.all P.admissible) then
        (s, .error "unavailable source contract")
      else retain P s assembly prior unique grades replaceNative token previous workspace project binding now

def prepare (s : State Ref) (args : Args) (assembly : Assembly Ref) (now : Time) (draws : Draws) :
    State Ref × Except String String :=
  let replaceNative := assembly.nativeProjection.isSome && !assembly.appendNativeSources
  if (versionedRefs P assembly).isEmpty ∧ assembly.executionTestGrades = "" ∧ replaceNative = false then
    (s, .ok (args.sourceReleaseTicket.orElse ""))
  else
    match draws.ticket with
    | none => (s, .error "token")
    | some token =>
      if len (args.workspace.orElse "") > 1024 ∨ len (args.project.orElse "") > 1024 then (s, .error "scope too large")
      else prepareLocked P (expire P s now) args assembly replaceNative token now

/-- `explorationOffer`, as far as it changes the state. -/
def explorationOffer (s : State Ref) (ticket : String) (draws : Draws) : State Ref :=
  match s.entries.get? ticket with
  | none => s
  | some _ => if s.receiptProducer = "" then { s with receiptProducer := draws.producer.getD "" } else s

/-! ## The challenge -/

def revalidation (check : String) (guarded : Bool) (refs : List Ref) : Revalidation Ref :=
  { checkId := check, sendGuard := if guarded then "acquire" else "", sources := refs }

def guardRelease (check : String) : Revalidation Ref := { checkId := check, sendGuard := "release", sources := [] }

/-- A request to an owner, none when the entry has no source of it. -/
def ownerRequest (check : String) (guarded : Bool) (refs : List Ref) : Option (Revalidation Ref) :=
  if refs.isEmpty then none else some (revalidation check guarded refs)

def ownerRelease (check : String) (guarded : Bool) (refs : List Ref) : Option (Revalidation Ref) :=
  if refs.isEmpty ∨ guarded = false then none else some (guardRelease check)

/-- The digest an owner has to echo, empty when the entry has no source of it. -/
def ownerDigest (refs : List Ref) : String := if refs.isEmpty then "" else P.releaseDigest (P.refsJson refs)

/-- A pending receipt of an entry loses its health release when the entry is planned again. -/
def forgetHealthRelease (s : State Ref) (attempt : String) : State Ref :=
  { s with receipts := s.receipts.alter attempt fun r =>
      if r.started.isNone then { r with healthRelease := none } else r }

/-- A plan reaches the fence: the entry loses its admission, and its earlier handles are dropped. -/
def reachFence (s : State Ref) (slot : Slot) (entry : Entry Ref) : State Ref :=
  let s := (forgetHealthRelease s entry.healthAttempt).alter slot Entry.unadmit
  (drop P s entry.previous entry.binding true).alter slot Entry.unlink

/-- The branch `source-release-plan`. -/
def sourceReleasePlan (s : State Ref) (args : Args) (slot : Slot) (entry : Entry Ref) (draws : Draws) :
    State Ref × Reply Ref :=
  let s := reachFence P s slot entry
  match draws.check with
  | none => (s, unavailable "source check unavailable")
  | some check =>
    let s := s.alter slot fun e => e.ask check
    if args.sendGuard = .malformed then (s, .error "invalid_argument" "invalid send guard")
    else
      let guarded := args.sendGuard.orElse false
      let s := s.alter slot fun e => e.askGuard guarded
      let grades := P.decodeGrades entry.executionGrades
      if entry.executionGrades ≠ "" ∧ grades = none then (s, unavailable "test receipt source unavailable")
      else
        let localRefs := P.localSources entry.sources
        let sharedRefs := P.sharedSources entry.sources
        (s.alter slot fun e => e.expect (ownerDigest P localRefs) (ownerDigest P sharedRefs),
          .challenge
            { executionGradeRequest :=
                if entry.executionGrades = "" then none else grades.map fun g => { g with checkId := check }
              localRequest := ownerRequest check guarded localRefs
              localReleaseRequest := ownerRelease check guarded localRefs
              request := ownerRequest check guarded sharedRefs
              releaseRequest := ownerRelease check guarded sharedRefs })

/-! ## The answer -/

/-- Whether the answer of one owner can be used. -/
def ownerAnswers (check digest : String) (guarded : Bool) (reply : Option OwnerReply) : Bool :=
  match reply with
  | none => false
  | some r =>
    r.status = "ok" && r.checkId = check && r.sourcesDigest = digest &&
      !(guarded && r.eligible && (r.sendGuard ≠ "acquired" || r.leaseMillis ≠ 5000 || r.guardSchemaVersion ≠ 2))

/-- Whether the grades of an entry were answered for. -/
def gradesAnswered (entry : Entry Ref) (args : Args) (check : String) : Bool :=
  if entry.executionGrades = "" then true
  else
    (P.decodeGrades args.executionGradeResponse).any (fun g => g.checkId = check) &&
      executionGradeSourcesEqual P entry.executionGrades args.executionGradeResponse

inductive Verdict where
  | unavailable
  | stale
  | admitted
  deriving DecidableEq

/-- What an answer set decides for the challenge that is pending. -/
def answerVerdict (entry : Entry Ref) (args : Args) : Verdict :=
  let check := entry.pending
  if check = "" ∨
      (entry.pendingLocalDigest = "" ∧ entry.pendingSharedDigest = "" ∧ entry.executionGrades = "") then
    .unavailable
  else
    let parts := [(entry.pendingLocalDigest, args.localResponse),
      (entry.pendingSharedDigest, args.ownerResponse)].filter
      fun part => part.1 ≠ ""
    if !parts.all (fun part => ownerAnswers check part.1 entry.pendingGuard part.2) then .unavailable
    else if gradesAnswered P entry args check && parts.all (fun part => part.2.any OwnerReply.eligible) then .admitted
    else .stale

/-- The receipt of an entry with the guard that was observed for it. -/
def observeGuard (entry : Entry Ref) (check : String) (now : Time) (r : Receipt) : Receipt :=
  match r.prepared.binding with
  | none => r
  | some b =>
    if r.binding = entry.binding ∧ r.started = none ∧ b.sourcesDigest = entry.digest then
      let proof : HealthRelease :=
        { binding := r.digest, check := b.sourceCheckId, guardCheck := check, sources := entry.digest,
          observedAt := P.formatTime now, verifier := "source_owner_guard_v2" }
      { r with healthRelease := some proof }
    else r

def healthGuardObserved (s : State Ref) (entry : Entry Ref) (check : String) (now : Time) : State Ref :=
  if !P.healthEnabled then s
  else
    { s with receipts := s.receipts.alter entry.healthAttempt (observeGuard P entry check now) }

/-- An answer set is accepted. -/
def admitAnswer (s : State Ref) (slot : Slot) (entry : Entry Ref) (now : Time) : State Ref :=
  let s := s.alter slot fun e => e.setAdmitted entry.pending
  if entry.pendingGuard then
    healthGuardObserved P (s.alter slot fun e => e.guard entry.pending now) entry entry.pending now
  else s

/-- The branch of an answer set, which an operation without a branch of its own takes as well. -/
def sourceReleaseResult (s : State Ref) (args : Args) (slot : Slot) (entry : Entry Ref) (now : Time) :
    State Ref × Reply Ref :=
  let s := s.alter slot Entry.answered
  match answerVerdict P entry args with
  | .unavailable => (s, unavailable "source owner answer unavailable")
  | .stale => (s, .error "stale_context" "retained memory source changed or is no longer visible")
  | .admitted => (admitAnswer P s slot entry now, .admitted)

/-! ## The handler -/

def actionEvidence (s : State Ref) (entry : Entry Ref) (now : Time) : Reply Ref :=
  let refused := unavailable "current guarded action evidence unavailable"
  match entry.guardedAdmissionAt, s.receipts.get? entry.healthAttempt with
  | some observedAt, some r =>
    if entry.guardedAdmission = "" ∨ now - observedAt > 1000000000 ∨ now < observedAt ∨
      r.binding ≠ entry.binding ∨ r.started = none then
      refused
    else
      match r.prepared.binding, r.observation with
      | some b, some event =>
        if event.stage ≠ "acknowledged" ∨ event.httpStatus < 200 ∨ 300 ≤ event.httpStatus ∨
            r.prepared.bindingDigest ≠ r.digest ∨ event.bindingDigest ≠ r.digest ∨ P.releaseDigest b.json ≠ r.digest ∨
            P.releaseDigest (.raw b.sources) ≠ P.releaseDigest (.raw (P.sourcesText entry)) then
          refused
        else
          .evidence (P.releaseDigest (.raw (P.sourcesText entry))) r.digest entry.digest entry.guardedAdmission
      | _, _ => refused
  | _, _ => refused

/-- The branches of an entry whose binding is that of the request. -/
def handleEntry (s : State Ref) (args : Args) (slot : Slot) (entry : Entry Ref) (now : Time)
    (draws : Draws) : State Ref × Reply Ref :=
  match args.operation with
  | .actionEvidence => (s, actionEvidence P s entry now)
  | .explorationOwnerObserve =>
    (s, .observed s.receiptProducer entry.assemblyDigest (P.releaseDigest (.raw (P.sourcesText entry))))
  | .providerReceiptPlan => receiptPlan P s args (some (slot, entry)) now draws
  | .sourceReleasePlan => sourceReleasePlan P s args slot entry draws
  | _ => sourceReleaseResult P s args slot entry now

/-- `source-release-finish` and `source-release-discard`, for a request that owns the entry or names
    none. -/
def dropTicket (s : State Ref) (args : Args) (ticket : String) (ancestors : Bool) : State Ref × Reply Ref :=
  (drop P s ticket (P.releaseBinding args) ancestors, .ok)

/-- The part of the handler that needs an entry. -/
def handleTicket (s : State Ref) (args : Args) (slot : Slot) (now : Time) (draws : Draws) : State Ref × Reply Ref :=
  let ticket := args.sourceReleaseTicket.orElse ""
  let owned := (s.at? slot).all fun e => e.binding = P.releaseBinding args
  if args.operation = .sourceReleaseFinish ∧ owned then dropTicket P s args ticket true
  else if args.operation = .sourceReleaseDiscard ∧ owned then dropTicket P s args ticket false
  else
    match s.at? slot with
    | none => (s, unavailable "source release handle unavailable")
    | some entry =>
      if entry.binding ≠ P.releaseBinding args then (s, unavailable "source release handle unavailable")
      else handleEntry P s args slot entry now draws

/-- `handleSourceReleaseLocked`, for the entry of the ticket or for the candidate of a fork. -/
def handleSourceReleaseLocked (s : State Ref) (args : Args) (candidate : Option Slot) (now : Time) (draws : Draws) :
    State Ref × Reply Ref :=
  let ticket := args.sourceReleaseTicket.orElse ""
  match args.operation with
  | .explorationOwnerGeneration =>
    if s.receiptProducer = "" then (s, unavailable "memory producer unavailable") else
      (s, .generation s.receiptProducer)
  | .healthTurnFinish => (s, .healthTurn)
  | .providerReceiptStarted => receiptStarted P s args now
  | .providerReceiptObserve => receiptObservation P s args now
  | .providerReceiptStored => receiptStored P s args now
  | .providerReceiptPlan =>
    if ticket = "" then
      if args.sourceReleaseTicket.present ∧ args.sourceReleaseTicket.value? = none then
        (s, unavailable "invalid source release handle")
      else receiptPlan P s args none now draws
    else handleTicket P s args (candidate.getD (.entry ticket)) now draws
  | _ => handleTicket P s args (candidate.getD (.entry ticket)) now draws

def handleSourceRelease (s : State Ref) (args : Args) (now : Time) (draws : Draws) : State Ref × Reply Ref :=
  handleSourceReleaseLocked P (expire P s now) args none now draws

end Release

end SourceRelease
