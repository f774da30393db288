-- SUMMARY: The reseal orchestrator: the rewrap row and its wraps, the custody of the key, and the driver with every call it makes.
import Aimee.Lib.CrashRuns
import Aimee.Lib.Table
import Aimee.Vault.FileStore
import Aimee.Vault.ResealReceipt

/-!
# The reseal of the vault

`vault_reseal_orchestrator.c`. The driver moves the key of the vault from one custody generation to the
next: it wraps every secret anew under the new key beside the wraps in use, has custody install the key,
and only then puts the new wraps in the place of the old. The database and custody are other components
that answer its calls, or fail to; `Fate` is how one call goes, and a run can be cut off at any of them.

A transaction works on a copy of the tables that a commit puts in their place. The fence, the seal epoch,
the digests and the identity columns that the driver hands from one call to the next are left out: an
edge that would find them changed fails, as any edge may here.
-/

namespace VaultReseal

open VaultStore (Kek Dek WrappedDek Crypto kekCheckSentinel)

/-- `kb_store_vault_rewrap_state_t`. -/
inductive RewrapState where
  | preparing
  | custodyPrepared
  | wrapsStaged
  | resealCommitting
  | resealed
  | promoted
  | completed
  | aborted
  | recoveryRequired
  deriving DecidableEq

/-- `kb_store_vault_rewrap_result_t`. -/
inductive RewrapResult where
  | ok
  | notFound
  | busy
  | conflict
  | invalid
  | transient
  | integrity
  | error
  deriving DecidableEq

/-- `vault_tpm2_reseal_status_t`. -/
inductive ResealStatus where
  | absent
  | prepared
  | nvAdvanced
  | installed
  | cleaned
  | conflict
  | corrupt
  deriving DecidableEq

/-- `vault_tpm2_reseal_result_t`. -/
inductive ResealResult where
  | ok
  | err
  | notBuilt
  | busy
  | integrity
  deriving DecidableEq

inductive MaintenanceResult where
  | ok
  | error
  | busy
  | sealed
  | epoch
  | invalid
  | wrongOwner
  deriving DecidableEq

/-- `vault_reseal_orchestrator_result_t`. -/
inductive Result where
  | completed
  | safeRetry
  | busy
  | aborted
  | recoveryRequired
  | integrity
  | invalid
  | unsupported
  | error
  deriving DecidableEq

def dbResult : RewrapResult → Result
  | .ok => .completed
  | .busy => .busy
  | .conflict => .safeRetry
  | .transient => .safeRetry
  | .integrity => .integrity
  | .invalid => .invalid
  | .notFound => .error
  | .error => .error

def custodyResult : ResealResult → Result
  | .notBuilt => .unsupported
  | .busy => .busy
  | .integrity => .integrity
  | .ok => .safeRetry
  | .err => .safeRetry

def guardCallbackResult (guardResult : MaintenanceResult) (callbackResult : Result) : Result :=
  if guardResult = .ok then callbackResult
  else if callbackResult ≠ .completed ∧ callbackResult ≠ .error then callbackResult
  else if guardResult = .busy then .busy
  else .safeRetry

def guardOperationResult : MaintenanceResult → Result
  | .busy => .busy
  | .epoch => .integrity
  | .invalid => .integrity
  | .wrongOwner => .integrity
  | _ => .safeRetry

/-! ## The database -/

structure SecretRow where
  sourceId : ℤ
  wrappedDek : WrappedDek

/-- A check is empty where the principal never had one. -/
structure CheckRow where
  principal : List UInt8
  kekCheck : Option WrappedDek

/-- The row of the operation. -/
structure Row where
  state : RewrapState
  oldGeneration : UInt64
  newGeneration : UInt64
  receipt : Option (List UInt8)
  /-- the numbers of secrets and of checks -/
  inventory : Option (ℕ × ℕ)
  failureClass : String

abbrev Secrets := Table SecretRow SecretRow.sourceId
abbrev Checks := Table CheckRow CheckRow.principal

structure Db where
  row : Option Row
  /-- the wraps in use -/
  secrets : Secrets
  checks : Checks
  /-- the wraps that were staged -/
  dekStage : Secrets
  checkStage : Checks

/-- `KB_STORE_VAULT_REWRAP_PAGE_MAX` -/
def pageMax : ℕ := 128

namespace Db

/-- The operation is in this state. -/
def At (db : Db) (state : RewrapState) : Prop := db.row.map Row.state = some state

instance (db : Db) (state : RewrapState) : Decidable (db.At state) := inferInstanceAs (Decidable (_ = _))

def setRow (db : Db) (f : Row → Row) : Db := { db with row := db.row.map f }

def move (db : Db) (state : RewrapState) : Db := db.setRow fun r => { r with state := state }

/-- `org_vault_rewrap_begin`, also of an operation that was begun. -/
def begin (oldGeneration newGeneration : UInt64) (db : Db) : Option Db :=
  match db.row with
  | none => some { db with row := some ⟨.preparing, oldGeneration, newGeneration, none, none, ""⟩ }
  | some r => if r.oldGeneration = oldGeneration ∧ r.newGeneration = newGeneration then some db else none

/-- `org_vault_rewrap_record_prepared`. -/
def recordPrepared (receipt : List UInt8) (db : Db) : Option Db :=
  if db.At .preparing then some (db.setRow fun r => { r with state := .custodyPrepared, receipt := some receipt })
  else if (db.row.bind Row.receipt) = some receipt then some db
  else none

/-- `org_vault_rewrap_secret_page`. -/
def secretPage (after : ℤ) (limit : ℕ) (db : Db) : Option (List SecretRow) :=
  if db.At .custodyPrepared then
    some (((db.secrets.rows.filter fun r => after < r.sourceId).mergeSort fun a b =>
      a.sourceId ≤ b.sourceId).take limit)
  else none

/-- `org_vault_rewrap_check_page`, with the cursor behind its last row. -/
def checkPage (after : List UInt8) (limit : ℕ) (db : Db) : Option (List CheckRow × List UInt8) :=
  if db.At .custodyPrepared then
    let page := ((db.checks.rows.filter fun r => after < r.principal).mergeSort fun a b =>
      a.principal ≤ b.principal).take limit
    some (page, (page.getLast?.map CheckRow.principal).getD after)
  else none

/-- `org_vault_rewrap_stage_dek`. -/
def stageDek (source : SecretRow) (new : WrappedDek) (db : Db) : Option Db :=
  match db.dekStage.find? source.sourceId with
  | some x => if x.wrappedDek = new then some db else none
  | none =>
    if db.At .custodyPrepared ∧ (db.secrets.find? source.sourceId).any fun s =>
      s.wrappedDek = source.wrappedDek ∧ new ≠ s.wrappedDek then
      (db.dekStage.insert ⟨source.sourceId, new⟩).map fun t => { db with dekStage := t }
    else none

/-- `org_vault_rewrap_stage_check`. -/
def stageCheck (source : CheckRow) (new : Option WrappedDek) (db : Db) : Option Db :=
  match db.checkStage.find? source.principal with
  | some x => if x.kekCheck = new then some db else none
  | none =>
    if db.At .custodyPrepared ∧ (db.checks.find? source.principal).any fun s =>
        s.kekCheck = source.kekCheck ∧ s.kekCheck.isSome = new.isSome ∧ (s.kekCheck.isSome → new ≠ s.kekCheck) then
      (db.checkStage.insert ⟨source.principal, new⟩).map fun t => { db with checkStage := t }
    else none

/-- `org_vault_rewrap_inventory_summary`. -/
def inventorySummary (db : Db) : Option (ℕ × ℕ) :=
  if db.At .custodyPrepared then some (db.secrets.rows.length, db.checks.rows.length) else none

/-- Every secret and every check has a staged wrap, and nothing else has. -/
def FullyStaged (db : Db) : Prop :=
  (∀ s ∈ db.secrets.rows, (db.dekStage.find? s.sourceId).isSome) ∧
    (∀ x ∈ db.dekStage.rows, (db.secrets.find? x.sourceId).isSome) ∧
    (∀ s ∈ db.checks.rows, (db.checkStage.find? s.principal).any fun x => x.kekCheck.isSome = s.kekCheck.isSome) ∧
      ∀ x ∈ db.checkStage.rows, (db.checks.find? x.principal).isSome

instance (db : Db) : Decidable db.FullyStaged := inferInstanceAs (Decidable (_ ∧ _))

/-- `org_vault_rewrap_stage_finish`. -/
def stageFinish (expected : ℕ × ℕ) (db : Db) : Option Db :=
  if db.At .custodyPrepared ∧ db.FullyStaged ∧ expected = (db.secrets.rows.length, db.checks.rows.length) then
    some (db.setRow fun r => { r with state := .wrapsStaged, inventory := some expected })
  else none

/-- `org_vault_rewrap_mark_committing` and `org_vault_rewrap_mark_resealed`. -/
def markCommitting (db : Db) : Option Db := if db.At .wrapsStaged then some (db.move .resealCommitting) else none

def markResealed (db : Db) : Option Db := if db.At .resealCommitting then some (db.move .resealed) else none

/-- A secret with its staged wrap. -/
def promoteSecret (stage : Secrets) (s : SecretRow) : SecretRow :=
  match stage.find? s.sourceId with
  | some x => { s with wrappedDek := x.wrappedDek }
  | none => s

def promoteCheck (stage : Checks) (s : CheckRow) : CheckRow :=
  match stage.find? s.principal with
  | some x => { s with kekCheck := x.kekCheck }
  | none => s

theorem sourceId_promoteSecret (stage : Secrets) (s : SecretRow) : (promoteSecret stage s).sourceId = s.sourceId := by
  unfold promoteSecret
  split <;> rfl

theorem principal_promoteCheck (stage : Checks) (s : CheckRow) : (promoteCheck stage s).principal = s.principal := by
  unfold promoteCheck
  split <;> rfl

/-- `org_vault_rewrap_promote`: the staged wraps become the ones in use. -/
def promote (db : Db) : Option Db :=
  if db.At .resealed ∧ db.FullyStaged then
    some { db.move .promoted with
      secrets := db.secrets.update (fun _ => true) (promoteSecret db.dekStage) (sourceId_promoteSecret db.dekStage)
      checks := db.checks.update (fun _ => true) (promoteCheck db.checkStage) (principal_promoteCheck db.checkStage) }
  else none

/-- `org_vault_rewrap_verify_summary`. -/
def verifySummary (db : Db) : Option (ℕ × ℕ) :=
  if db.At .promoted ∧ db.FullyStaged then db.row.bind Row.inventory else none

/-- `org_vault_rewrap_verify_secret_page`: the secrets that hold their staged wrap. -/
def verifySecretPage (after : ℤ) (limit : ℕ) (db : Db) : Option (List SecretRow) :=
  if db.At .promoted then
    some (((db.secrets.rows.filter fun r => after < r.sourceId ∧
      (db.dekStage.find? r.sourceId).any fun x => x.wrappedDek = r.wrappedDek).mergeSort fun a b =>
        a.sourceId ≤ b.sourceId).take limit)
  else none

/-- `org_vault_rewrap_verify_check_page`. -/
def verifyCheckPage (after : List UInt8) (limit : ℕ) (db : Db) : Option (List CheckRow × List UInt8) :=
  if db.At .promoted then
    let page := ((db.checks.rows.filter fun r => after < r.principal ∧
      (db.checkStage.find? r.principal).any fun x => x.kekCheck = r.kekCheck).mergeSort fun a b =>
        a.principal ≤ b.principal).take limit
    some (page, (page.getLast?.map CheckRow.principal).getD after)
  else none

/-- `org_vault_rewrap_complete`. -/
def complete (db : Db) : Option Db :=
  if db.At .completed then some db
  else if db.At .promoted then some (db.move .completed)
  else none

/-- `org_vault_rewrap_abort`: what was staged is deleted. -/
def abort (failure : String) (db : Db) : Option Db :=
  if db.At .preparing ∨ db.At .custodyPrepared ∨ db.At .wrapsStaged then
    some { db.setRow (fun r => { r with state := .aborted, failureClass := failure }) with
      dekStage := Table.empty, checkStage := Table.empty }
  else if db.At .aborted ∧ db.row.map Row.failureClass = some failure then some db
  else none

/-- `org_vault_rewrap_recovery_required`. -/
def recoveryRequired (failure : String) (db : Db) : Option Db :=
  if db.At .completed ∨ db.At .aborted then none
  else if db.At .recoveryRequired then (if db.row.map Row.failureClass = some failure then some db else none)
  else some (db.setRow fun r => { r with state := .recoveryRequired, failureClass := failure })

end Db

/-! ## Custody -/

/-- What was prepared: a receipt, and the one key it stands for. -/
structure Bundle where
  receipt : Receipt
  kek : Kek

/-- How far custody got with it. With the generation advanced, the old blob is stale and opens no more; the
    new one is in the bundle. -/
inductive Artifact where
  | absent
  | prepared (bundle : Bundle)
  | nvAdvanced (bundle : Bundle)
  | installed (bundle : Bundle)

structure Custody where
  /-- of the blob that was active before -/
  generation : UInt64
  oldKek : Kek
  artifact : Artifact
  /-- the key it holds in memory while it is unsealed -/
  opened : Option Kek

namespace Custody

/-- The key custody can recover as the active one. -/
def currentKek (c : Custody) : Kek :=
  match c.artifact with
  | .absent => c.oldKek
  | .prepared _ => c.oldKek
  | .nvAdvanced b => b.kek
  | .installed b => b.kek

/-- What an unseal of the blob on disk gives. -/
def unsealed (c : Custody) : Option Kek :=
  match c.artifact with
  | .absent => some c.oldKek
  | .prepared _ => some c.oldKek
  | .nvAdvanced _ => none
  | .installed b => some b.kek

def bundle : Artifact → Option Bundle
  | .absent => none
  | .prepared b => some b
  | .nvAdvanced b => some b
  | .installed b => some b

def statusOf : Artifact → ResealStatus
  | .absent => .absent
  | .prepared _ => .prepared
  | .nvAdvanced _ => .nvAdvanced
  | .installed _ => .installed

/-- `reseal_status_locked`. -/
def status (receipt : Receipt) (c : Custody) : ResealResult × ResealStatus :=
  match bundle c.artifact with
  | none => if receipt.oldGeneration = c.generation then (.ok, .absent) else (.integrity, .conflict)
  | some b => if receipt = b.receipt then (.ok, statusOf c.artifact) else (.integrity, .conflict)

def nvGeneration (c : Custody) : UInt64 :=
  match c.artifact with
  | .absent => c.generation
  | .prepared _ => c.generation
  | .nvAdvanced _ => c.generation + 1
  | .installed _ => c.generation + 1

/-- `vault_custody_tpm2_reseal_discover`. -/
def discover (operationId : Block 16) (oldGeneration : UInt64) (c : Custody) :
    ResealResult × ResealStatus × Option Receipt :=
  match bundle c.artifact with
  | none => (.ok, .absent, none)
  | some b =>
    if b.receipt.oldGeneration = oldGeneration ∧ b.receipt.newGeneration = oldGeneration + 1 ∧
      b.receipt.operationId = operationId then
      (.ok, statusOf c.artifact, some b.receipt)
    else (.integrity, .conflict, none)

/-- `vault_custody_tpm2_reseal_prepare`: what it leaves, and the receipt it gives. -/
def prepare (fresh : Receipt) (operationId : Block 16) (oldGeneration : UInt64) (kek : Kek) (c : Custody) :
    Except ResealResult (Receipt × Artifact) :=
  match c.artifact with
  | .absent =>
    let receipt := { fresh with
      operationId := operationId, oldGeneration := oldGeneration, newGeneration := oldGeneration + 1 }
    if c.generation = oldGeneration then .ok (receipt, .prepared ⟨receipt, kek⟩) else .error .err
  | .prepared b =>
    if b.receipt.oldGeneration = oldGeneration ∧ b.receipt.operationId = operationId ∧
      b.kek = kek then .ok (b.receipt, .prepared b)
    else .error .integrity
  | .nvAdvanced _ => .error .integrity
  | .installed _ => .error .integrity

/-- `vault_custody_tpm2_reseal_recover_kek`. -/
def recoverKek (receipt : Receipt) (c : Custody) : Except ResealResult Kek :=
  match c.artifact with
  | .prepared b => if receipt = b.receipt then .ok b.kek else .error .integrity
  | _ => .error .integrity

/-- What `vault_custody_tpm2_reseal_commit` goes through. -/
inductive Reach where
  | nothing
  | nvAdvanced
  | installed
  deriving DecidableEq

/-- `vault_custody_tpm2_reseal_commit`, as far as it gets. -/
def commit (reach : Reach) (receipt : Receipt) (c : Custody) : Artifact :=
  match c.artifact with
  | .absent => .absent
  | .prepared b =>
    if receipt ≠ b.receipt then c.artifact
    else
      match reach with
      | .nothing => .prepared b
      | .nvAdvanced => .nvAdvanced b
      | .installed => .installed b
  | .nvAdvanced b => if receipt = b.receipt ∧ reach = .installed then .installed b else .nvAdvanced b
  | .installed b => .installed b

/-- `vault_custody_tpm2_reseal_abort`. -/
def abort (receipt : Receipt) (c : Custody) : Except ResealResult Artifact :=
  match c.artifact with
  | .absent => .ok .absent
  | .prepared b => if receipt = b.receipt then .ok .absent else .error .err
  | .nvAdvanced _ => .error .err
  | .installed _ => .error .err

end Custody

/-! ## Calls -/

/-- How one call goes: the answer of each component, which is the call's own where it is `ok`, and what
    becomes of a call that answers with a failure. -/
structure Fate where
  db : RewrapResult
  custody : ResealResult
  maintenance : MaintenanceResult
  /-- it took effect all the same -/
  took : Bool
  /-- how far a failing commit of custody got -/
  reach : Custody.Reach
  /-- whether the budget, an allocation or a primitive goes through -/
  yes : Bool
  /-- what is drawn -/
  kek : Kek
  receipt : Receipt

inductive Event where
  | snapshot (state : RewrapState)
  | custodyCommit
  deriving DecidableEq

structure World where
  db : Db
  custody : Custody
  log : List Event

abbrev Run (α : Type) := Prog Fate World α

/-- A piece of a transaction. What it throws rolls the transaction back. -/
abbrev Tx (α : Type) := ExceptT RewrapResult (Prog Fate World) α

/-- The budget, an allocation or a primitive. -/
def ask : Run Bool := Prog.call fun fate w => (fate.yes, w)

def random : Run (Option Kek) := Prog.call fun fate w => (if fate.yes then some fate.kek else none, w)

def snapshot : Run (Except RewrapResult Row) := Prog.call fun fate w =>
  match fate.db, w.db.row with
  | .ok, some r => (.ok r, { w with log := w.log ++ [.snapshot r.state] })
  | .ok, none => (.error .notFound, w)
  | e, _ => (.error e, w)

def txBegin : Tx Db := ExceptT.mk (Prog.call fun fate w => if fate.db = .ok then (.ok w.db, w) else (.error fate.db, w))

/-- An edge of the state machine, or a read, in a transaction. -/
def txCall {α : Type} (f : Db → Option α) (tx : Db) : Tx α := ExceptT.mk (Prog.call fun fate w =>
  if fate.db = .ok then
    match f tx with
    | some a => (.ok a, w)
    | none => (.error .conflict, w)
  else (.error fate.db, w))

def txCommit (tx : Db) : Run RewrapResult := Prog.call fun fate w =>
  if fate.db = .ok ∨ fate.took then (fate.db, { w with db := tx }) else (fate.db, w)

/-- `tx_finish`, with the transaction before it. -/
def txFinish (body : Tx Db) : Run Result := do
  match ← body.run with
  | .error e => return dbResult e
  | .ok tx =>
    let committed ← txCommit tx
    return dbResult committed

/-- Each call on the reseal leaves custody sealed. -/
def Custody.sealed (c : Custody) : Custody := { c with opened := none }

def World.withCustody (w : World) (f : Custody → Custody) : World := { w with custody := f w.custody.sealed }

def custodyNvGeneration : Run (Except ResealResult UInt64) := Prog.call fun fate w =>
  if fate.custody = .ok then (.ok w.custody.nvGeneration, w) else (.error fate.custody, w)

def custodyDiscover (operationId : Block 16) (oldGeneration : UInt64) :
    Run (ResealResult × ResealStatus × Option Receipt) :=
  Prog.call fun fate w =>
    (if fate.custody = .ok then w.custody.discover operationId oldGeneration else
      (fate.custody, .corrupt, none), w.withCustody id)

def custodyStatus (receipt : Receipt) : Run (ResealResult × ResealStatus) := Prog.call fun fate w =>
  (if fate.custody = .ok then w.custody.status receipt else (fate.custody, .corrupt), w.withCustody id)

def custodyPrepare (operationId : Block 16) (oldGeneration : UInt64) (kek : Kek) :
    Run (Except ResealResult Receipt) := Prog.call fun fate w =>
  match w.custody.prepare fate.receipt operationId oldGeneration kek with
  | .error e => (.error (if fate.custody = .ok then e else fate.custody), w.withCustody id)
  | .ok (receipt, artifact) =>
    if fate.custody = .ok then (.ok receipt, w.withCustody fun c => { c with artifact := artifact })
    else (.error fate.custody, w.withCustody fun c => if fate.took then { c with artifact := artifact } else c)

def custodyRecoverKek (receipt : Receipt) : Run (Except ResealResult Kek) := Prog.call fun fate w =>
  (if fate.custody = .ok then w.custody.recoverKek receipt else .error fate.custody, w.withCustody id)

def custodyCommit (receipt : Receipt) : Run (ResealResult × ResealStatus) := Prog.call fun fate w =>
  let reach := if fate.custody = .ok then Custody.Reach.installed else fate.reach
  let done := World.withCustody { w with log := w.log ++ [Event.custodyCommit] } fun c =>
    { c with artifact := c.commit reach receipt }
  (if fate.custody = .ok then done.custody.status receipt else (fate.custody, .corrupt), done)

def custodyAbort (receipt : Receipt) : Run ResealResult := Prog.call fun fate w =>
  match w.custody.abort receipt with
  | .error e => (if fate.custody = .ok then e else fate.custody, w.withCustody id)
  | .ok artifact =>
    (fate.custody, w.withCustody fun c => if fate.custody = .ok ∨ fate.took then { c with artifact := artifact } else c)

/-- The guard steps that touch no key. -/
def guardCall : Run MaintenanceResult := Prog.call fun fate w => (fate.maintenance, w)

def guardSeal : Run MaintenanceResult := Prog.call fun fate w =>
  (fate.maintenance, if fate.maintenance = .ok ∨ fate.took then w.withCustody id else w)

def guardUnseal : Run MaintenanceResult := Prog.call fun fate w =>
  if fate.maintenance ≠ .ok then (fate.maintenance, w)
  else
    match w.custody.unsealed with
    | none => (.error, w)
    | some kek => (.ok, { w with custody := { w.custody with opened := some kek } })

def activeKek : Run (Except MaintenanceResult (Option Kek)) := Prog.call fun fate w =>
  if fate.maintenance = .ok then (.ok w.custody.opened, w) else (.error fate.maintenance, w)

/-- `vault_maintenance_guard_with_active_kek`, and the result its callback left. -/
def guardWithActiveKek (callback : Kek → Run Result) : Run (MaintenanceResult × Result) := do
  match ← activeKek with
  | .error e => return (e, .error)
  | .ok none => return (.sealed, .error)
  | .ok (some kek) =>
    let result ← callback kek
    return (if result = .completed then .ok else .error, result)

/-! ## The driver -/

inductive Mode where
  | start
  | resume
  deriving DecidableEq

structure Request where
  mode : Mode
  operationId : Block 16
  actor : CString
  requestId : CString
  providerSecret : List UInt8

/-- `VAULT_RESEAL_ORCHESTRATOR_SECRET_MAX` and `VAULT_RESEAL_ORCHESTRATOR_EDGE_MAX` -/
def secretMax : ℕ := 4096
def edgeMax : ℕ := 16

def requestValid (r : Request) : Bool :=
  r.providerSecret ≠ [] && r.providerSecret.length ≤ secretMax &&
    (1 ≤ r.actor.val.length && r.actor.val.length ≤ 575) &&
    (1 ≤ r.requestId.val.length && r.requestId.val.length ≤ 200) && !r.providerSecret.contains 0

def receiptFromSnapshot (s : Row) : Option Receipt := s.receipt.bind receiptDecode

def cursorAdvances (before after : List UInt8) : Bool := before.length ≤ 640 && after.length ≤ 640 && before < after

def terminalEdge (failure : String) (aborting : Bool) : Run Result :=
  txFinish do
    let tx ← txBegin
    txCall (if aborting then Db.abort failure else Db.recoveryRequired failure) tx

def simpleEdge (edge : Db → Option Db) : Run Result :=
  txFinish do
    let tx ← txBegin
    txCall edge tx

/-- `budget_advance` and `vault_mutation_budget_bind_inventory`, in a transaction. -/
def txAsk (refusal : RewrapResult) : Tx Unit := do
  if ¬(← ExceptT.lift ask) then throw refusal

section

variable (C : Crypto)

/-- The rows of one page of secrets: the last of them, how many there were, and the transaction. -/
def stageSecrets (oldKek newKek : Kek) (expected : ℕ) : List SecretRow → ℤ × ℕ × Db → Tx (ℤ × ℕ × Db)
  | [], done => pure done
  | row :: rest, (after, seen, tx) => do
      if row.sourceId ≤ after then throw .integrity
      match C.unwrap oldKek row.wrappedDek with
      | none => throw .integrity
      | some dek =>
        txAsk .integrity  -- `dek_wrap`
        let tx ← txCall (Db.stageDek row (C.wrap newKek dek)) tx
        if expected < seen + 1 then throw .integrity
        txAsk .integrity
        stageSecrets oldKek newKek expected rest (row.sourceId, seen + 1, tx)

def checkVerify (kek : Kek) (check : WrappedDek) : Bool := C.unwrap kek check = some kekCheckSentinel

def stageChecks (oldKek newKek : Kek) (expected : ℕ) : List CheckRow → ℕ × Db → Tx (ℕ × Db)
  | [], done => pure done
  | row :: rest, (seen, tx) => do
      if ¬row.kekCheck.all (checkVerify C oldKek) then throw .integrity
      txAsk .integrity  -- `check_wrap`
      let tx ← txCall (Db.stageCheck row (row.kekCheck.map fun _ => C.wrap newKek kekCheckSentinel)) tx
      if expected < seen + 1 then throw .integrity
      txAsk .integrity
      stageChecks oldKek newKek expected rest (seen + 1, tx)

/-- The two page loops of `stage_callback`. -/
def stageSecretPages (oldKek newKek : Kek) (expected : ℕ) : ℤ × ℕ × Db → Tx (ℕ × Db) :=
  Prog.iterateExcept fun (after, seen, tx) => do
    let page ← txCall (Db.secretPage after pageMax) tx
    if page = [] then return .inr (seen, tx)
    let done ← stageSecrets C oldKek newKek expected page (after, seen, tx)
    return .inl done

def stageCheckPages (oldKek newKek : Kek) (expected : ℕ) : List UInt8 × ℕ × Db → Tx (ℕ × Db) :=
  Prog.iterateExcept fun (cursor, seen, tx) => do
    let (page, next) ← txCall (Db.checkPage cursor pageMax) tx
    if page = [] then return .inr (seen, tx)
    if ¬cursorAdvances cursor next then throw .integrity
    let (seen, tx) ← stageChecks C oldKek newKek expected page (seen, tx)
    return .inl (next, seen, tx)

def stageCallback (newKek oldKek : Kek) : Run Result :=
  txFinish do
    txAsk .error  -- the two pages are allocated
    let tx ← txBegin
    let inventory ← txCall Db.inventorySummary tx
    txAsk .integrity
    let (seenSecrets, tx) ← stageSecretPages C oldKek newKek inventory.1 (0, 0, tx)
    let (seenChecks, tx) ← stageCheckPages C oldKek newKek inventory.2 ([], 0, tx)
    if seenSecrets ≠ inventory.1 ∨ seenChecks ≠ inventory.2 then throw .integrity
    let tx ← txCall (Db.stageFinish inventory) tx
    txAsk .transient
    return tx

def verifySecrets (newKek : Kek) : List SecretRow → ℤ → Tx ℤ
  | [], after => pure after
  | row :: rest, after => do
      if row.sourceId ≤ after ∨ (C.unwrap newKek row.wrappedDek).isNone then throw .integrity
      verifySecrets newKek rest row.sourceId

def verifySecretPages (newKek : Kek) (total : ℕ) (tx : Db) : ℤ × ℕ → Tx ℤ :=
  Prog.iterateExcept fun (after, seen) => do
    if total ≤ seen then return .inr after
    let limit := min (total - seen) pageMax
    let page ← txCall (Db.verifySecretPage after limit) tx
    if page = [] ∨ limit < page.length then throw .integrity
    let after ← verifySecrets C newKek page after
    txAsk .transient
    return .inl (after, seen + page.length)

def verifyCheckPages (newKek : Kek) (total : ℕ) (tx : Db) : List UInt8 × ℕ → Tx (List UInt8) :=
  Prog.iterateExcept fun (cursor, seen) => do
    if total ≤ seen then return .inr cursor
    let limit := min (total - seen) pageMax
    let (page, next) ← txCall (Db.verifyCheckPage cursor limit) tx
    if page = [] ∨ limit < page.length ∨ ¬cursorAdvances cursor next then throw .integrity
    if ¬page.all (fun row => row.kekCheck.all (checkVerify C newKek)) then throw .integrity
    txAsk .transient
    return .inl (next, seen + page.length)

def verifyCallback (newKek : Kek) : Run Result :=
  txFinish do
    txAsk .error
    let tx ← txBegin
    let sum ← txCall Db.verifySummary tx
    txAsk .integrity
    let after ← verifySecretPages C newKek sum.1 tx (0, 0)
    let page ← txCall (Db.verifySecretPage after 1) tx
    if page ≠ [] then throw .integrity
    let cursor ← verifyCheckPages C newKek sum.2 tx ([], 0)
    let (page, next) ← txCall (Db.verifyCheckPage cursor 1) tx
    if page ≠ [] ∨ next ≠ cursor then throw .integrity
    let tx ← txCall some tx  -- `verify_crypto_ack`
    let tx ← txCall Db.complete tx
    txAsk .transient
    return tx

end

/-! ## One state after the other -/

/-- What the loop carries: `starting`, the workspace, `last_state`, the output and the result. -/
structure Loop where
  starting : Bool
  newKek : Option Kek
  lastState : Option RewrapState
  out : Option Row
  result : Result

/-- `begin` in a transaction of its own. -/
def beginEdge (oldGeneration newGeneration : UInt64) : Run Result := do
  let begun ← ExceptT.run do
    let tx ← txBegin
    txCall (Db.begin oldGeneration newGeneration) tx
  match begun with
  | .error e => return if e = .conflict ∨ e = .integrity ∨ e = .invalid then .integrity else dbResult e
  | .ok tx =>
    let committed ← txCommit tx
    return dbResult committed

/-- A result that is one of the two is settled by the row. -/
def orRecovery (failure : String) (result : Result) : Run Result :=
  if result = .integrity ∨ result = .invalid then terminalEdge failure false else return result

/-- Only an integrity failure is. -/
def integrityRecovery (failure : String) (result : Result) : Run Result :=
  if result = .integrity then terminalEdge failure false else return result

/-- The receipt of a row that has none. -/
def zeroBlock (n : ℕ) : Block n := ⟨List.replicate n 0, List.length_replicate⟩

def noReceipt : Receipt := ⟨zeroBlock 16, 0, 0, zeroBlock 32, zeroBlock 32, zeroBlock 32, zeroBlock 32, zeroBlock 32⟩

/-- The status of custody for the row, with the receipt it was asked for. -/
def custodyFor (r : Request) (s : Row) : Run (ResealResult × ResealStatus × Receipt) :=
  if s.state = .preparing ∨ (s.state = .aborted ∧ s.receipt = none) then do
    let (cr, status, found) ← custodyDiscover r.operationId s.oldGeneration
    return (cr, status, found.getD noReceipt)
  else
    match receiptFromSnapshot s with
    | some receipt => do
        let (cr, status) ← custodyStatus receipt
        return (cr, status, receipt)
    | none => return (.integrity, .corrupt, noReceipt)

/-- How `PREPARING` comes by a receipt. `settled` is `goto iteration_done`. -/
inductive Acquired where
  | receipt (receipt : Receipt)
  | failed (result : Result)
  | settled (result : Result)

/-- The key of a receipt, into the workspace. -/
def recoverInto (receipt : Receipt) : Run (Option Kek × Acquired) := do
  match ← custodyRecoverKek receipt with
  | .ok kek => return (some kek, .receipt receipt)
  | .error cr => return (none, .failed (custodyResult cr))

/-- After a `prepare` that failed or lost its answer: what custody has is looked at again, and only the key of
    the receipt that is found is taken. -/
def rediscover (r : Request) (s : Row) (kek : Kek) (cr : ResealResult) : Run (Option Kek × Acquired) := do
  let (dc, ds, found) ← custodyDiscover r.operationId s.oldGeneration
  if dc ≠ .ok then return (some kek, .failed (custodyResult dc))
  if ds = .prepared then recoverInto (found.getD noReceipt)
  else if ds = .absent then return (some kek, .failed (custodyResult cr))
  else
    let result ← terminalEdge "generation_conflict" false
    return (some kek, .settled result)

def acquire (r : Request) (s : Row) (status : ResealStatus) (receipt : Receipt) (newKek : Option Kek) :
    Run (Option Kek × Acquired) := do
  if status = .prepared then recoverInto receipt
  else
    match ← random with
    | none => return (newKek, .failed .error)
    | some kek =>
      match ← custodyPrepare r.operationId s.oldGeneration kek with
      | .ok receipt => return (some kek, .receipt receipt)
      | .error cr => rediscover r s kek cr

/-- The receipt is recorded. -/
def record : Acquired → Run Result
  | .settled result => return result
  | .failed result => orRecovery "receipt_mismatch" result
  | .receipt receipt => do
      let result ← match receiptEncode receipt with
        | none => terminalEdge "receipt_mismatch" false
        | some wire => simpleEdge (Db.recordPrepared wire)
      orRecovery "receipt_mismatch" result

/-- `PREPARING`. -/
def prepareState (r : Request) (s : Row) (status : ResealStatus) (receipt : Receipt) (newKek : Option Kek) :
    Run (Option Kek × Result) := do
  let (newKek, acquired) ← acquire r s status receipt newKek
  let result ← record acquired
  return (newKek, result)

section

variable (C : Crypto)

/-- `CUSTODY_PREPARED`, with the key in the workspace. -/
def stageUnder (newKek : Kek) : Run Result := do
  let unsealed ← guardUnseal
  if unsealed ≠ .ok then return guardOperationResult unsealed
  let (cb, result) ← guardWithActiveKek (stageCallback C newKek)
  integrityRecovery "source_integrity" (guardCallbackResult cb result)

def stageState (receipt : Receipt) : Option Kek → Run (Option Kek × Result)
  | some newKek => do
      let result ← stageUnder C newKek
      return (some newKek, result)
  | none => do
      match ← custodyRecoverKek receipt with
      | .error cr =>
        let result ← integrityRecovery "custody_integrity" (custodyResult cr)
        return (none, result)
      | .ok newKek =>
        let result ← stageUnder C newKek
        return (some newKek, result)

/-- `CUSTODY_PREPARED` and `WRAPS_STAGED`, where custody has nothing: the operation is given up. -/
def abandonState (r : Request) (s : Row) (receipt : Receipt) : Run Result := do
  let ar ← custodyAbort receipt
  if ar ≠ .ok then return custodyResult ar
  let (dr, afterAbort, _) ← custodyDiscover r.operationId s.oldGeneration
  if dr = .ok ∧ afterAbort = .absent then
    match ← custodyNvGeneration with
    | .error nr => return custodyResult nr
    | .ok gen => if gen ≠ s.oldGeneration then terminalEdge "generation_conflict" false else
        terminalEdge "prepared_missing" true
  else if dr = .ok ∨ dr = .integrity then terminalEdge "custody_integrity" false
  else return custodyResult dr

/-- `RESEAL_COMMITTING`. -/
def commitState (receipt : Receipt) : Run Result := do
  let (cr, reached) ← custodyCommit receipt
  if cr ≠ .ok then integrityRecovery "custody_integrity" (custodyResult cr)
  else if reached ≠ .installed then terminalEdge "custody_integrity" false
  else
    let result ← simpleEdge Db.markResealed
    orRecovery "receipt_mismatch" result

/-- `PROMOTED`. -/
def verifyState : Run Result := do
  let closed ← guardSeal
  if closed ≠ .ok then return guardOperationResult closed
  let unsealed ← guardUnseal
  if unsealed ≠ .ok then return guardOperationResult unsealed
  let (cb, result) ← guardWithActiveKek (verifyCallback C)
  integrityRecovery "verification_integrity" (guardCallbackResult cb result)

/-- What an iteration does in a state, once custody has said how it stands. -/
def advance (r : Request) (s : Row) (status : ResealStatus) (receipt : Receipt) (newKek : Option Kek) :
    Run (Option Kek × Result) :=
  let keep (run : Run Result) : Run (Option Kek × Result) := do
    let result ← run
    return (newKek, result)
  match s.state, status with
  | .aborted, status => return (newKek, if status = .absent then .aborted else .integrity)
  | .completed, status => return (newKek, if status = .installed ∨ status = .cleaned then .completed else .integrity)
  | .preparing, .absent => prepareState r s .absent receipt newKek
  | .preparing, .prepared => prepareState r s .prepared receipt newKek
  | .custodyPrepared, .prepared => stageState C receipt newKek
  | .custodyPrepared, .absent => keep (abandonState r s receipt)
  | .wrapsStaged, .absent => keep (abandonState r s receipt)
  | .wrapsStaged, .prepared => keep do
      let result ← simpleEdge Db.markCommitting
      orRecovery "commit_intent_integrity" result
  | .resealCommitting, .prepared => keep (commitState receipt)
  | .resealCommitting, .nvAdvanced => keep (commitState receipt)
  | .resealCommitting, .installed => keep (commitState receipt)
  | .resealed, .installed => keep do
      let result ← simpleEdge Db.promote
      orRecovery "promotion_integrity" result
  | .promoted, .installed => keep (verifyState C)
  | _, _ => keep (terminalEdge "generation_conflict" false)

def Row.Ended (s : Row) : Prop := s.state = .completed ∨ s.state = .aborted

instance (s : Row) : Decidable s.Ended := inferInstanceAs (Decidable (_ ∨ _))

/-- `guard_sync_epoch`, while the operation is open. -/
def syncEpoch (s : Row) : Run MaintenanceResult := if s.Ended then return .ok else guardCall

/-- Custody did not answer. -/
def custodyFailed (s : Row) (cr : ResealResult) : Run Result :=
  if s.Ended then return custodyResult cr else integrityRecovery "custody_integrity" (custodyResult cr)

/-- An iteration from the snapshot on that the output shows: whether there is another, and what it starts with. -/
def drive (r : Request) (s : Row) (l : Loop) : Run (Bool × Loop) := do
  if s.state = .recoveryRequired then return (false, { l with result := .recoveryRequired })
  let synced ← syncEpoch s
  if synced ≠ .ok then return (false, { l with result := guardOperationResult synced })
  let (cr, status, receipt) ← custodyFor r s
  if cr ≠ .ok then
    let result ← custodyFailed s cr
    if result = .completed then return (true, { l with result := .safeRetry })
    else return (false, { l with result := result })
  else
    let (newKek, result) ← advance C r s status receipt l.newKek
    if result ≠ .completed ∨ s.state = .completed then return (false, { l with newKek := newKek, result := result })
    else return (true, { l with newKek := newKek, result := .safeRetry })

/-- `vault_mutation_budget_bind_inventory`. -/
def bindInventory (s : Row) : Run Bool := if s.inventory.isSome then ask else return true

/-- `budget_advance`, once for each state. -/
def budgetAdvance (lastState : Option RewrapState) (s : Row) :
    Run Bool := if lastState = some s.state then return true else ask

def iteration (r : Request) (l : Loop) : Run (Bool × Loop) := do
  match ← snapshot with
  | .error e =>
    if e = .notFound ∧ l.starting then
      match ← custodyNvGeneration with
      | .error cr => return (false, { l with result := custodyResult cr })
      | .ok gen =>
        if 2 ^ 63 - 1 ≤ gen.toNat then return (false, { l with result := .integrity })
        else
          let result ← beginEdge gen (gen + 1)
          return (result = .completed, { l with starting := false, result := result })
    else return (false, { l with result := if e = .notFound then .invalid else dbResult e })
  | .ok s =>
    let bound ← bindInventory s
    if ¬bound then return (false, { l with result := .integrity })
    let advanced ← budgetAdvance l.lastState s
    if ¬advanced then return (false, { l with result := .safeRetry })
    let l := { l with lastState := some s.state }
    if l.starting then
      let result ← beginEdge s.oldGeneration s.newGeneration
      return (result = .completed, { l with starting := false, result := result })
    else drive C r s { l with out := some s }

def loop (r : Request) : ℕ → Loop → Run Loop
  | 0, l => return l
  | edges + 1, l => do
      let (more, l) ← iteration C r l
      if more then loop r edges l else return l

/-- The driver between `guard_begin` and `guard_end`. -/
def underGuard (r : Request) : Run (Result × Option Row) := do
  let l ← loop C r edgeMax ⟨r.mode = .start, none, none, none, .error⟩
  let cleaning ← ask  -- `vault_mutation_budget_begin_cleanup`
  let closed ← guardSeal
  let ended ← guardCall
  return (if cleaning ∧ closed = .ok ∧ ended = .ok then l.result else .error, l.out)

/-- Between `vault_mutation_budget_enter` and `vault_mutation_budget_leave`. -/
def underBudget (r : Request) : Run (Result × Option Row) := do
  let arenas ← ask
  if ¬arenas then return (.error, none)
  let guarded ← guardCall
  if guarded ≠ .ok then return (if guarded = .busy then .busy else .error, none)
  underGuard C r

def vaultResealOrchestratorRun (r : Request) : Run (Result × Option Row) := do
  if ¬requestValid r then return (.invalid, none)
  let supported ← ask
  if ¬supported then return (.unsupported, none)
  let entered ← ask
  if ¬entered then return (.invalid, none)
  let (result, out) ← underBudget C r
  let left ← ask
  return (if left then result else .error, out)

end

end VaultReseal
