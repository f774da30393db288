-- SUMMARY: The exploration ledger of one task: contracts, attempts and fallbacks, and the usage they are charged to.
import Aimee.Lib.Table

/-!
# The exploration ledger

`exploration.go` and `exploration_recovery.go`. A ledger is the snapshot of one task; the session
that owns it commits every snapshot, so `save` is the new snapshot. Times are nanoseconds, counters
of 64 bits that are checked before they grow are integers, and a map is a table of its entries.
-/

namespace ExecutionPolicy

/-! ## Limits and bindings -/

structure ExplorationLimits where
  starvationTurns : UInt64 := 0
  enabled : Bool := false
  rawScans : Option ℤ := none
  files : Option ℤ := none
  graph : Option ℤ := none
  bytes : Option ℤ := none
  tokens : Option ℤ := none
  deriving DecidableEq

def ExplorationLimits.valid (l : ExplorationLimits) : Bool :=
  l.starvationTurns ≤ 64 && [l.rawScans, l.files, l.graph, l.bytes, l.tokens].all fun n => n.all (0 ≤ ·)

structure ExplorationBinding where
  hostWorktree : Bool := false
  producerBuild : String := ""
  route : String := ""
  indexObservedCurrent : Bool := false
  ownerObservedCurrent : Bool := false
  provider : String := ""
  model : String := ""
  limitsDigest : String := ""
  budgetTask : String := ""
  workingDirectory : String := ""
  planDigest : String := ""
  sourceVersionsDigest : String := ""
  workspace : String := ""
  principal : String
  session : String
  task : String
  project : String
  worktreeGeneration : String
  indexGeneration : String
  memoryOwner : String
  deriving DecidableEq

def ExplorationBinding.valid (b : ExplorationBinding) : Bool :=
  b.budgetTask.utf8ByteSize ≤ 128 &&
    [b.principal, b.session, b.task, b.project, b.worktreeGeneration, b.indexGeneration, b.memoryOwner].all (· ≠ "")

/-- `budgetTask`: the key of the budget group a task belongs to. -/
def ExplorationBinding.group (b : ExplorationBinding) : String :=
  if b.budgetTask ≠ "" then b.budgetTask else b.task

/-! ## Contracts -/

inductive DiscoveryClass where
  | rawScan
  | fileRead
  | graphExpand
  | other (name : String)
  deriving DecidableEq

inductive ContractTier where
  | observe
  | enforce
  | other (name : String)
  deriving DecidableEq

structure ExplorationContract where
  receiptDigest : String := ""
  id : String
  revision : UInt64
  binding : ExplorationBinding
  planDigest : String
  sourceVersionsDigest : String
  queryClass : String
  coverageComplete : Bool
  confidenceProvenance : String
  approvalKind : String := ""
  calibrationReceipt : String := ""
  supportedClasses : List DiscoveryClass
  created : ℤ
  expires : ℤ
  limits : ExplorationLimits
  tier : ContractTier

def ExplorationContract.valid (c : ExplorationContract) (now : ℤ) : Bool :=
  (c.binding.planDigest = "" || c.binding.planDigest = c.planDigest) &&
    (c.binding.sourceVersionsDigest = "" || c.binding.sourceVersionsDigest = c.sourceVersionsDigest) &&
    c.id ≠ "" && c.revision ≠ 0 && c.binding.valid && c.planDigest ≠ "" && c.sourceVersionsDigest ≠ "" &&
    c.queryClass ≠ "" && c.confidenceProvenance ≠ "" && c.limits.valid && c.created ≤ now && now < c.expires &&
    c.created < c.expires && (c.tier = .observe || c.tier = .enforce) &&
    c.supportedClasses ≠ [] && c.supportedClasses.length ≤ 5 &&
    c.supportedClasses.all fun class_ => class_ = .rawScan || class_ = .fileRead || class_ = .graphExpand

inductive DecisionMode where
  | observe
  | enforce
  deriving DecidableEq

structure ExplorationDecision where
  accountingRequired : Bool := false
  mode : DecisionMode
  reason : String
  wouldRestrict : Bool := false
  restricted : Bool := false
  alternatives : List String := []

def explorationAlternatives : List String :=
  ["find_symbol", "code_search", "aimee index span <file> <start> <end>", "context_contract_expand"]

/-! ## Usage -/

/-- The counters of a task, a group or a session, and the reads of each file. -/
structure ExplorationUsage where
  rawScans : ℤ := 0
  graph : ℤ := 0
  bytes : ℤ := 0
  tokens : ℤ := 0
  files : Table (String × ℤ) Prod.fst := .empty

/-- The reads of one file: 0 when the map has none. -/
def ExplorationUsage.reads (u : ExplorationUsage) (file : String) : ℤ := ((u.files.find? file).map (·.2)).getD 0

/-- `u.Files[file] = n`. -/
def ExplorationUsage.setReads (u : ExplorationUsage) (file : String) (n : ℤ) : ExplorationUsage :=
  { u with files := u.files.upsert (file, n) }

structure ExplorationAttempt where
  actionDigest : String
  path : String
  id : String
  binding : ExplorationBinding
  class_ : DiscoveryClass
  file : String := ""
  bytes : ℤ
  tokens : ℤ
  deriving DecidableEq

def exceeds (n : ℤ) (ceiling : Option ℤ) : Bool := ceiling.any (· < n)

def ExplorationUsage.exceeds (u : ExplorationUsage) (l : ExplorationLimits) : Bool :=
  ExecutionPolicy.exceeds u.rawScans l.rawScans || ExecutionPolicy.exceeds u.files.rows.length l.files ||
    ExecutionPolicy.exceeds u.graph l.graph || ExecutionPolicy.exceeds u.bytes l.bytes ||
    ExecutionPolicy.exceeds u.tokens l.tokens

def maxInt64 : ℤ := 2 ^ 63 - 1

def addUsage (u : ExplorationUsage) (a : ExplorationAttempt) : Except String ExplorationUsage :=
  if a.bytes < 0 ∨ a.tokens < 0 ∨ maxInt64 - a.bytes < u.bytes ∨ maxInt64 - a.tokens < u.tokens ∨
      u.rawScans = maxInt64 ∨ u.graph = maxInt64 then .error "invalid exploration cost"
  else
    let u := { u with bytes := u.bytes + a.bytes, tokens := u.tokens + a.tokens }
    match a.class_ with
    | .rawScan => .ok { u with rawScans := u.rawScans + 1 }
    | .graphExpand => .ok { u with graph := u.graph + 1 }
    | .fileRead =>
      if a.file = "" then .error "missing canonical file identity"
      else .ok (u.setReads a.file (u.reads a.file + 1))
    | .other _ => .error "unsupported exploration class"

def refundUsage (u : ExplorationUsage) (a : ExplorationAttempt) : ExplorationUsage :=
  let u := { u with bytes := u.bytes - a.bytes, tokens := u.tokens - a.tokens }
  match a.class_ with
  | .rawScan => { u with rawScans := u.rawScans - 1 }
  | .graphExpand => { u with graph := u.graph - 1 }
  | .fileRead =>
    if u.reads a.file - 1 = 0 then { u with files := u.files.delete (·.1 = a.file) }
    else u.setReads a.file (u.reads a.file - 1)
  | .other _ => u

/-! ## Snapshots -/

structure ExplorationReservation where
  reservedAt : ℤ
  attempt : ExplorationAttempt
  decision : ExplorationDecision
  charged : Bool
  started : Bool := false
  refunded : Bool := false

inductive OutcomeStatus where
  | empty
  | failed
  | other (name : String)
  deriving DecidableEq

structure IndexedOutcome where
  id : String
  binding : ExplorationBinding
  contractId : String
  revision : UInt64
  gap : String
  class_ : DiscoveryClass
  path : String
  status : OutcomeStatus
  completed : ℤ
  deriving DecidableEq

structure ExplorationFallback where
  outcome : IndexedOutcome
  expires : ℤ
  remaining : ℤ

/-- The zero `time.Time`: the first of January of the year 1. -/
def zeroTime : ℤ := -62135596800 * 10 ^ 9

def minute : ℤ := 60 * 10 ^ 9

structure ExplorationSnapshot where
  completedTurns : List String := []
  completedAt : ℤ := zeroTime
  unresolvedGap : Bool := false
  outcomes : Table IndexedOutcome (·.id) := .empty
  fallbacks : List ExplorationFallback := []
  revisions : List ExplorationContract := []
  taskUsage : ExplorationUsage := {}
  sessionUsage : ExplorationUsage := {}
  attempts : Table ExplorationReservation (·.attempt.id) := .empty
  lastTurn : UInt64 := 0
  starvedTurns : UInt64 := 0

/-- `Revisions[len(Revisions)-1]`: the contract in force. -/
def ExplorationSnapshot.current (s : ExplorationSnapshot) : Option ExplorationContract := s.revisions.getLast?

/-! ## Paths -/

/-- `canonicalDiscoveryPath`: an absolute path that cleaning leaves as it is. -/
def canonicalDiscoveryPath (p : String) : Bool :=
  p = "/" || match p.toList with
    | '/' :: rest => (rest.splitOn '/').all fun part => part ≠ [] && part ≠ ['.'] && part ≠ ['.', '.']
    | _ => false

/-- A path is a directory or lies in it. -/
def withinDirectory (directory path : String) : Bool :=
  let dir := directory.toList
  let stem := if dir.getLast? = some '/' then dir.dropLast else dir
  path = directory || (stem ++ ['/']).isPrefixOf path.toList

/-! ## The operations -/

def ExplorationSnapshot.issue (s : ExplorationSnapshot) (c : ExplorationContract) (now : ℤ) :
    Except String ExplorationSnapshot :=
  if !c.valid now then .error "invalid exploration contract"
  else if 128 ≤ s.revisions.length then .error "exploration revision history full"
  else if s.current.any fun old => c.id ≠ old.id || c.revision ≠ old.revision + 1 ||
      c.binding.principal ≠ old.binding.principal || c.binding.session ≠ old.binding.session ||
      c.binding.task ≠ old.binding.task || c.binding.group ≠ old.binding.group then
    .error "contract revision cannot transfer task or session"
  else .ok { s with revisions := s.revisions ++ [c] }

def ExplorationFallback.permits (f : ExplorationFallback) (c : ExplorationContract) (a : ExplorationAttempt)
    (now : ℤ) : Bool :=
  0 < f.remaining && now < f.expires && f.outcome.completed ≤ now && f.outcome.binding = a.binding &&
    f.outcome.contractId = c.id && f.outcome.revision = c.revision && f.outcome.class_ = a.class_ &&
    canonicalDiscoveryPath a.path && withinDirectory f.outcome.path a.path

/-- The contract that an attempt falls under, and the reason when there is none. -/
def ExplorationSnapshot.adaptive (s : ExplorationSnapshot) (a : ExplorationAttempt) (now : ℤ) :
    Option ExplorationContract × String :=
  match s.current with
  | none => (none, "authenticated_contract_unavailable")
  | some c =>
    if c.binding ≠ a.binding || !c.valid now then (none, "contract_invalidated")
    else if !c.supportedClasses.contains a.class_ then (none, "unsupported_discovery_class")
    else if c.binding.workingDirectory ≠ "" &&
        !(canonicalDiscoveryPath a.path && withinDirectory c.binding.workingDirectory a.path) then
      (none, "adaptive_scope_unavailable")
    else (some c, "within_exploration_budget")

/-- The fallbacks with one use of the one at a place spent. -/
def spendFallback (fallbacks : List ExplorationFallback) : Option ℕ → List ExplorationFallback
  | none => fallbacks
  | some i => fallbacks.modify i fun f => { f with remaining := f.remaining - 1 }

/-- The decision on an attempt that would bring the usage of the task and of the session to these, and
    the place of the fallback it uses. -/
def ExplorationSnapshot.weigh (s : ExplorationSnapshot) (a : ExplorationAttempt) (tu su : ExplorationUsage)
    (operator : ExplorationLimits) (optIn : Bool) (calibrated : String → String → Bool) (now : ℤ) :
    ExplorationDecision × Option ℕ :=
  let (active, reason) := s.adaptive a now
  let enforce := active.any fun c => optIn && c.limits.enabled && c.tier = .enforce && c.coverageComplete &&
    calibrated c.queryClass c.calibrationReceipt
  let wouldRestrict := active.any fun c => c.limits.enabled && tu.exceeds c.limits
  let spent := su.exceeds operator
  -- A fallback lifts a restriction of the contract, never one of the operator.
  let fallback := active.bind fun c =>
    if wouldRestrict && enforce && !spent then s.fallbacks.findIdx? (·.permits c a now) else none
  ({ mode := if enforce then .enforce else .observe
     reason := if spent then "operator_exploration_budget_exhausted"
       else if fallback.isSome then "host_recorded_indexed_fallback"
       else if wouldRestrict then "adaptive_exploration_budget_exhausted" else reason
     wouldRestrict := wouldRestrict
     restricted := spent || wouldRestrict && enforce && fallback.isNone
     alternatives := explorationAlternatives }, fallback)

/-- The snapshot with an attempt and its decision, charged unless it is restricted. -/
def ExplorationSnapshot.enter (s : ExplorationSnapshot) (a : ExplorationAttempt) (tu su : ExplorationUsage)
    (d : ExplorationDecision) (fallback : Option ℕ) (now : ℤ) : ExplorationSnapshot :=
  let attempts := s.attempts.upsert { reservedAt := now, attempt := a, decision := d, charged := !d.restricted }
  if d.restricted then { s with attempts := attempts }
  else { s with attempts := attempts, fallbacks := spendFallback s.fallbacks fallback
                taskUsage := tu, sessionUsage := su }

/-- An attempt that the ledger does not know yet. -/
def ExplorationSnapshot.admitAttempt (s : ExplorationSnapshot) (a : ExplorationAttempt) (operator : ExplorationLimits)
    (optIn : Bool) (calibrated : String → String → Bool) (now : ℤ) :
    Except String (ExplorationDecision × ExplorationSnapshot) :=
  if 4096 ≤ s.attempts.rows.length then .error "exploration attempt history full"
  else do
    let tu ← addUsage s.taskUsage a
    let su ← addUsage s.sessionUsage a
    let (d, fallback) := s.weigh a tu su operator optIn calibrated now
    return (d, s.enter a tu su d fallback now)

def ExplorationSnapshot.reserve (s : ExplorationSnapshot) (a : ExplorationAttempt) (operator : ExplorationLimits)
    (optIn : Bool) (calibrated : String → String → Bool) (now : ℤ) :
    Except String (ExplorationDecision × ExplorationSnapshot) :=
  if a.id = "" ∨ !a.binding.valid ∨ !operator.valid then .error "invalid host exploration context"
  else match s.attempts.find? a.id with
  | some old =>
    if old.attempt ≠ a then .error "attempt identity reused with different action"
    else if old.refunded then .error "cancelled attempt cannot be redispatched"
    else .ok (old.decision, s)
  | none => s.admitAttempt a operator optIn calibrated now

/-- `started`. -/
def ExplorationSnapshot.start (s : ExplorationSnapshot) (id : String) : Except String ExplorationSnapshot :=
  match s.attempts.find? id with
  | none => .error "attempt was not admitted"
  | some r =>
    if !r.charged || r.refunded then .error "attempt was not admitted"
    else .ok { s with attempts := s.attempts.upsert { r with started := true } }

def ExplorationSnapshot.cancelBeforeDispatch (s : ExplorationSnapshot) (id : String) :
    Except String ExplorationSnapshot :=
  match s.attempts.find? id with
  | none => .error "cannot refund a possibly dispatched attempt"
  | some r =>
    if r.started then .error "cannot refund a possibly dispatched attempt"
    else if r.refunded then .ok s
    else
      let s := if r.charged then
          { s with taskUsage := refundUsage s.taskUsage r.attempt
                   sessionUsage := refundUsage s.sessionUsage r.attempt }
        else s
      .ok { s with attempts := s.attempts.upsert { r with refunded := true } }

/-- How many starved turns a contract bears. -/
def ExplorationLimits.threshold (l : ExplorationLimits) : UInt64 :=
  if 0 < l.starvationTurns then l.starvationTurns else 2

/-- Enough starved turns put the contract in force back to observing. -/
def ExplorationSnapshot.relax (s : ExplorationSnapshot) : Except String ExplorationSnapshot :=
  match s.current with
  | none => .ok s
  | some c =>
    if s.starvedTurns < c.limits.threshold ∨ c.tier = .observe then .ok s
    else if 128 ≤ s.revisions.length then .error "exploration revision history full"
    else .ok { s with revisions := s.revisions ++ [{ c with revision := c.revision + 1, tier := .observe }] }

def ExplorationSnapshot.completedTurn (s : ExplorationSnapshot) (turn : UInt64)
    (constrained unresolved indexedFailed verifiedProgress : Bool) : Except String ExplorationSnapshot :=
  if turn ≤ s.lastTurn then .ok s
  else { s with
    lastTurn := turn
    starvedTurns := if verifiedProgress || !unresolved then 0
      else if constrained && indexedFailed then s.starvedTurns + 1 else s.starvedTurns }.relax

def ExplorationSnapshot.recordIndexedOutcome (s : ExplorationSnapshot) (o : IndexedOutcome) (now : ℤ) :
    Except String ExplorationSnapshot :=
  match s.current with
  | none => .error "no host contract"
  | some c =>
    if !c.valid now || o.binding ≠ c.binding || o.contractId ≠ c.id || o.revision ≠ c.revision || o.id = "" ||
        256 < o.id.utf8ByteSize || o.gap = "" || 256 < o.gap.utf8ByteSize || o.class_ ≠ .rawScan ||
        !canonicalDiscoveryPath o.path || 4096 < o.path.utf8ByteSize || now < o.completed ||
        10 * minute < now - o.completed || (o.status ≠ .empty && o.status ≠ .failed) then
      .error "invalid host indexed outcome"
    else match s.outcomes.find? o.id with
    | some old => if old ≠ o then .error "indexed attempt identity changed" else .ok s
    | none =>
      if 128 ≤ s.outcomes.rows.length then .error "indexed outcome history full"
      else .ok { s with outcomes := s.outcomes.upsert o }

/-- `unicode.IsSpace`. -/
def isSpaceRune (c : Char) : Bool :=
  ('\t' ≤ c && c ≤ '\r') || c = ' ' || c.toNat = 0x85 || c.toNat = 0xA0 || c.toNat = 0x1680 ||
    (0x2000 ≤ c.toNat && c.toNat ≤ 0x200A) || c.toNat = 0x2028 || c.toNat = 0x2029 || c.toNat = 0x202F ||
    c.toNat = 0x205F || c.toNat = 0x3000

def trimSpace (text : String) : List Char :=
  ((text.toList.dropWhile isSpaceRune).reverse.dropWhile isSpaceRune).reverse

def ExplorationSnapshot.expand (s : ExplorationSnapshot) (reason gap outcomeId : String) (now : ℤ) :
    Except String ExplorationSnapshot :=
  match s.current with
  | none => .error "expansion requires a reason and host contract"
  | some c =>
    if trimSpace reason = [] ∨ 1024 < reason.utf8ByteSize then
      .error "expansion requires a reason and host contract"
    else match s.outcomes.find? outcomeId with
    | none => .error "expansion requires a recent matching indexed outcome"
    | some o =>
      if o.gap ≠ gap || o.binding ≠ c.binding || o.contractId ≠ c.id || !c.valid now || now < o.completed ||
          10 * minute < now - o.completed then
        .error "expansion requires a recent matching indexed outcome"
      else match s.fallbacks.find? (·.outcome.id = outcomeId) with
      | some f =>
        if f.outcome.revision ≠ c.revision then .error "fallback belongs to a superseded revision" else .ok s
      | none =>
        if o.revision ≠ c.revision then .error "indexed outcome belongs to a superseded revision"
        else if 64 ≤ s.fallbacks.length ∨ 128 ≤ s.revisions.length then .error "expansion history full"
        else
          let c := { c with revision := c.revision + 1 }
          -- The capability binds the new revision; the outcome stays as it was recorded.
          .ok { s with revisions := s.revisions ++ [c]
                       fallbacks := s.fallbacks ++ [{ outcome := { o with revision := c.revision }
                                                      expires := min (now + minute) c.expires
                                                      remaining := 1 }] }

end ExecutionPolicy
