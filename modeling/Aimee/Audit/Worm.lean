-- SUMMARY: The WORM audit store: rows, the SQLite table, the append and checkpoint writers, and the chain verifier.
import Aimee.Audit.WormChain
import Mathlib.Data.List.Sort

/-!
# The WORM audit store

`audit_worm.c`. A store is the `audit_event` table read in `seq` order. A writer runs
as one transaction under the store mutex, so an operation takes the table to the next
one; a step of SQLite that fails rolls the transaction back. Which steps fail, and what
the clock shows, are inputs.

Text columns are the C strings that `sqlite3_column_text` hands out. The schema declares
every column `NOT NULL`, so the fallbacks of the verifier for a `NULL` column are not
reached. Integer columns and sequence numbers are unbounded: a table of `2 ^ 63` rows is
far beyond the size limit of a database file.
-/

namespace AuditWorm

/-- A row of `audit_event`. -/
structure AuditEvent where
  seq : Int
  ts : CString
  hashVersion : CString
  actorRole : CString
  actorPrincipal : CString
  actorIssuer : CString
  actorSubject : CString
  transportCn : CString
  teamId : Int
  selectedDefaultFrom : CString
  action : CString
  subject : CString
  verdict : CString
  detail : CString
  keyId : CString
  eventId : CString
  prevHash : CString
  rowHash : CString
  deriving DecidableEq

/-- The table, in `seq` order. -/
abbrev Store := List AuditEvent

/-- The label of rows whose hash covers every column. -/
def fullVersion : CString := .ofAscii "v2-full"

/-- The action the verifier takes for a checkpoint. -/
def checkpointAction : CString := .ofAscii "chain.checkpoint"

/-- The steps of a transaction that SQLite reports as failed. -/
structure Faults where
  openStore : Bool := false
  beginTxn : Bool := false
  lookup : Bool := false
  readHead : Bool := false
  insert : Bool := false
  commit : Bool := false
  deriving DecidableEq

/-- `INSERT`: the primary key on `seq` and the unique index on the non-empty `event_id`
    refuse a row; otherwise it takes its place in `seq` order. -/
def insertRow (rows : Store) (row : AuditEvent) : Option Store :=
  if rows.any (·.seq = row.seq) then none
  else if row.eventId ≠ .empty ∧ rows.any (·.eventId = row.eventId) then none
  else some (rows.orderedInsert (fun a b => a.seq ≤ b.seq) row)

/-- `SELECT seq, row_hash ... ORDER BY seq DESC LIMIT 1`: the sequence number and the
    predecessor of the next row. A query that fails is taken for an empty table. -/
def nextLink (readFails : Bool) (rows : Store) : Int × CString :=
  if readFails then (1, genesisPrev)
  else
    match rows.getLast? with
    | some last => (last.seq + 1, last.rowHash.truncate 64)
    | none => (1, genesisPrev)

/-- `INSERT` and `COMMIT` of a new row. -/
def commitRow (fx : Faults) (rows : Store) (row : AuditEvent) : Option Int × Store :=
  if fx.insert then (none, rows)
  else
    match insertRow rows row with
    | none => (none, rows)
    | some rows' => if fx.commit then (none, rows) else (some row.seq, rows')

/-! ## Appending -/

/-- Detail over the cap keeps its first `AUDIT_WORM_DETAIL_MAX` bytes and a marker with
    the number of bytes cut off. The marker always fits the 96 spare bytes of the buffer. -/
def capDetail (detail : CString) : CString :=
  if detail.val.length > detailMax then
    .concat [detail.truncate detailMax, .ofAscii "\"[worm-truncated ",
      .decimal (detail.val.length - detailMax), .ofAscii " bytes]\""]
  else detail

/-- The arguments of `worm_append`; `none` is a null pointer. -/
structure AppendArgs where
  eventId : Option CString
  ts : Option CString
  actorRole : Option CString
  actorPrincipal : Option CString
  action : Option CString
  subject : Option CString
  verdict : Option CString
  detail : Option CString

/-- `worm_text_equal`, for the seven columns a repeated event is compared on. -/
def sameEvidence (row : AuditEvent) (ts : Option CString)
    (actorRole actorPrincipal action subject verdict detail : CString) : Bool :=
  row.ts = ts.getD .empty ∧ row.actorRole = actorRole ∧ row.actorPrincipal = actorPrincipal ∧
    row.action = action ∧ row.subject = subject ∧ row.verdict = verdict ∧ row.detail = detail

variable (H : HashFn)

/-- The row `worm_append` inserts behind the link it read. -/
def appendRow (link : Int × CString) (ts eventId actorRole actorPrincipal action subject verdict
    detail : CString) : AuditEvent where
  seq := link.1
  ts := ts
  hashVersion := fullVersion
  actorRole := actorRole
  actorPrincipal := actorPrincipal
  actorIssuer := .empty
  actorSubject := .empty
  transportCn := .empty
  teamId := 0
  selectedDefaultFrom := .empty
  action := action
  subject := subject
  verdict := verdict
  detail := detail
  keyId := .empty
  eventId := eventId
  prevHash := link.2
  rowHash := rowHashV2 H link.1 ts actorRole actorPrincipal .empty .empty .empty 0 .empty action
    subject verdict eventId detail link.2

/-- `worm_append`. The reply is the value of `seq_out` on success. -/
def wormAppend (fx : Faults) (now : CString) (args : AppendArgs) (rows : Store) :
    Option Int × Store :=
  match args.action, args.subject, args.verdict with
  | some action, some subject, some verdict =>
    let actorRole := args.actorRole.getD .empty
    let actorPrincipal := args.actorPrincipal.getD .empty
    let eventId := args.eventId.getD .empty
    let detail := capDetail (args.detail.getD .empty)
    let ts := if args.ts.getD .empty = .empty then now else args.ts.getD .empty
    let insertNew :=
      commitRow fx rows (appendRow H (nextLink fx.readHead rows) ts eventId actorRole
        actorPrincipal action subject verdict detail)
    if fx.openStore ∨ fx.beginTxn then (none, rows)
    else if eventId ≠ .empty then
      if fx.lookup then (none, rows)
      else
        match rows.find? (·.eventId = eventId) with
        | some row =>
          if sameEvidence row args.ts actorRole actorPrincipal action subject verdict detail
          then (some row.seq, rows)
          else (none, rows)
        | none => insertNew
    else insertNew
  | _, _, _ => (none, rows)

def auditWormAppend (fx : Faults) (now : CString)
    (actorRole actorPrincipal action subject verdict detail : Option CString) (rows : Store) :
    Option Int × Store :=
  wormAppend H fx now
    { eventId := some .empty, ts := none, actorRole, actorPrincipal, action, subject, verdict,
      detail } rows

def auditWormAppendIdempotent (fx : Faults) (now : CString) (args : AppendArgs) (rows : Store) :
    Option Int × Store :=
  if args.eventId.getD .empty = .empty ∨ args.ts.getD .empty = .empty then (none, rows)
  else wormAppend H fx now args rows

/-! ## Checkpoints and metric snapshots -/

/-- The `detail` text of a checkpoint row, written into a buffer of 256 bytes. -/
def checkpointDetail (keyId mac : CString) : CString :=
  (CString.concat [.ofAscii "\x7b\"key_id\":\"", keyId, .ofAscii "\",\"mac\":\"", mac,
    .ofAscii "\"\x7d"]).truncate 255

/-- The row `audit_worm_checkpoint` inserts: it attests the row before it. -/
def checkpointRow (ck : ChainKey) (link : Int × CString) (ts : CString) : AuditEvent :=
  let mac := ckptMac H ck.key link.2 (link.1 - 1) ck.keyId
  let detail := checkpointDetail ck.keyId mac
  { seq := link.1
    ts := ts
    hashVersion := fullVersion
    actorRole := .ofAscii "system"
    actorPrincipal := .empty
    actorIssuer := .empty
    actorSubject := .empty
    transportCn := .empty
    teamId := 0
    selectedDefaultFrom := .empty
    action := checkpointAction
    subject := .empty
    verdict := .ofAscii "ok"
    detail := detail
    keyId := ck.keyId
    eventId := .empty
    prevHash := link.2
    rowHash := rowHashV2 H link.1 ts (.ofAscii "system") .empty .empty .empty .empty 0 .empty
      checkpointAction .empty (.ofAscii "ok") ck.keyId detail link.2 }

/-- `audit_worm_checkpoint`. The chain key is what `audit_worm_chain_key_load` returned. -/
def auditWormCheckpoint (ckey : Option ChainKey) (fx : Faults) (now : CString) (rows : Store) :
    Option Int × Store :=
  match ckey with
  | none => (none, rows)
  | some ck =>
    if fx.openStore ∨ fx.beginTxn then (none, rows)
    else commitRow fx rows (checkpointRow H ck (nextLink fx.readHead rows) now)

/-- The `detail` text of a metric snapshot, written into a buffer of 320 bytes. -/
def metricDetail (rows : Store) : CString :=
  let count (verdict : String) := CString.decimal (rows.countP (·.verdict = .ofAscii verdict))
  (CString.concat [.ofAscii "\x7b\"total\":", .decimal rows.length,
    .ofAscii ",\"allow\":", count "allow", .ofAscii ",\"block\":", count "block",
    .ofAscii ",\"rewrite\":", count "rewrite",
    .ofAscii ",\"approval_required\":", count "approval_required", .ofAscii "\x7d"]).truncate 319

/-- `audit_worm_metric_snapshot`. A summary query that fails counts nothing. -/
def auditWormMetricSnapshot (fx : Faults) (now : CString) (rows : Store) : Option Int × Store :=
  if fx.openStore then (none, rows)
  else
    let counted := if fx.lookup then [] else rows
    auditWormAppend H fx now (some (.ofAscii "system")) (some .empty)
      (some (.ofAscii "metric.snapshot")) (some .empty) (some (.ofAscii "ok"))
      (some (metricDetail counted)) rows

/-! ## Verification -/

/-- `worm_ckpt_extract_mac`. -/
def ckptExtractMac (detail wantKeyId : CString) : Option CString := do
  let root ← CJson.parse detail
  let mac ← (root.getObjectItemCaseSensitive (.ofAscii "mac")).bind CJson.stringValue?
  let kid ← (root.getObjectItemCaseSensitive (.ofAscii "key_id")).bind CJson.stringValue?
  if kid = wantKeyId then return mac.truncate 64 else none

/-- The reasons `worm_verify_db` gives. -/
inductive VerifyError where
  | seqGap (expected got : Int)
  | prevHashBreak (seq : Int)
  | rowHashMismatch (seq : Int)
  | keyUnavailable (seq : Int)
  | checkpointKey (seq : Int)
  | checkpointMac (seq : Int)
  deriving DecidableEq

/-- The value of the key-id slot of a row hash: the event ID, or else the key ID. -/
def AuditEvent.binding (r : AuditEvent) : CString :=
  if r.eventId ≠ .empty then r.eventId else r.keyId

/-- The bytes the verifier hashes for a row that follows `prev`. -/
def AuditEvent.preimage (r : AuditEvent) (prev : CString) : List UInt8 :=
  if r.hashVersion = fullVersion then
    rowPreimageV2 r.seq r.ts r.actorRole r.actorPrincipal r.actorIssuer r.actorSubject
      r.transportCn r.teamId r.selectedDefaultFrom r.action r.subject r.verdict r.binding r.detail
      prev
  else
    rowPreimage r.seq r.actorRole r.actorPrincipal r.action r.subject r.verdict r.binding r.detail
      prev

/-- The MAC of a checkpoint row, over the head it attests. -/
def verifyCheckpoint (ckey : Option ChainKey) (prev : CString) (r : AuditEvent) :
    Except VerifyError Unit :=
  match ckey with
  | none => .error (.keyUnavailable r.seq)
  | some ck =>
    if r.keyId ≠ ck.keyId then .error (.checkpointKey r.seq)
    else
      match ckptExtractMac r.detail ck.keyId with
      | none => .error (.checkpointKey r.seq)
      | some want =>
        if ckptMac H ck.key prev (r.seq - 1) ck.keyId ≠ want then
          .error (.checkpointMac r.seq)
        else .ok ()

/-- The checks `worm_verify_db` makes on one row. -/
def verifyRow (ckey : Option ChainKey) (prev : CString) (expect : Int) (r : AuditEvent) :
    Except VerifyError Unit :=
  if r.seq ≠ expect then .error (.seqGap expect r.seq)
  else if r.prevHash ≠ prev then .error (.prevHashBreak r.seq)
  else if hex32 (H (r.preimage prev)) ≠ r.rowHash then .error (.rowHashMismatch r.seq)
  else if r.action = checkpointAction then verifyCheckpoint H ckey prev r
  else .ok ()

/-- The row loop of `worm_verify_db`. -/
def verifyRows (ckey : Option ChainKey) : CString → Int → Store → Except VerifyError Unit
  | _, _, [] => .ok ()
  | prev, expect, r :: rest =>
    match verifyRow H ckey prev expect r with
    | .error e => .error e
    | .ok () => verifyRows ckey (r.rowHash.truncate 64) (r.seq + 1) rest

/-- `worm_verify_db`, on the rows its query returned. -/
def wormVerifyDb (ckey : Option ChainKey) (rows : Store) : Except VerifyError Unit :=
  verifyRows H ckey genesisPrev 1 rows

end AuditWorm
