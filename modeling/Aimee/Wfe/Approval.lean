-- SUMMARY: Signed approvals of human gates: the message, the row it is stored in, and the search for a valid one in the event log.
import Aimee.Audit.WormChain

/-!
# Signed approvals

`wfe_approval.c`. The hash function is a parameter, and the operator's key is one that may be missing. A
row of the event log is read back through fixed buffers: a reply that does not fit one of them is no reply,
and at most 512 rows of a work item are read, the oldest first.
-/

namespace Wfe

open AuditWorm (hex32)

/-! ## Signatures -/

/-- The key of 32 bytes, padded to a block and combined with a constant byte. -/
def hmacPad (key : Block 32) (byte : UInt8) : List UInt8 :=
  (key.val ++ List.replicate 32 0).map (· ^^^ byte)

/-- `hmac_sha256`, with the bound on its stack buffer. -/
def hmacSha256 (H : HashFn) (key : Block 32) (msg : List UInt8) : Digest :=
  let inner := H (hmacPad key 0x36 ++ msg.take 2048)
  H (hmacPad key 0x5c ++ inner.val)

/-- The separator `|` of the fields of a message. -/
def bar : UInt8 := 124

/-- `approval_msg`, into the buffer of `wfe_approval_sign`. -/
def approvalMsg (wi gate hash actor ts : CString) : List UInt8 :=
  ([bar].intercalate [ascii "v1", wi.val, gate.val, hash.val, actor.val, ts.val]).take 2047

/-- `wfe_approval_sign`: none without the key. -/
def approvalSign (H : HashFn) (key : Option (Block 32)) (wi gate hash actor ts : CString) : Option CString :=
  key.map fun key => hex32 (hmacSha256 H key (approvalMsg wi gate hash actor ts))

def approvalVerify (H : HashFn) (key : Option (Block 32)) (wi gate hash actor ts sig : CString) : Bool :=
  match approvalSign H key wi gate hash actor ts with
  | none => false
  | some expect => sig.val.length = 64 && expect = sig

/-! ## The event log -/

structure LogRow where
  workItemId : CString
  stage : CString
  kind : CString
  actor : CString
  detail : CString
  contentHash : CString
  deriving DecidableEq

/-- The cells of a row fit the buffers of `db1_lifecycle_event_t`. -/
def LogRow.fits (row : LogRow) : Bool :=
  row.stage.val.length < 64 && row.kind.val.length < 24 && row.actor.val.length < 64 &&
    row.detail.val.length < 512 && row.contentHash.val.length < 72

/-- `db1_lifecycle_event_list`: none when the call fails. -/
def lifecycleEventList (log : List LogRow) (wi : CString) : Option (List LogRow) :=
  let rows := (log.filter (·.workItemId = wi)).take 512
  if wi ≠ CString.empty ∧ rows.all (·.fits) then some rows else none

def approveKind : CString := .ofAscii "approve"

/-- `wfe_approval_record`: the row it writes. No actor is the actor `user`. -/
def approvalRow (H : HashFn) (key : Block 32) (wi gate hash : CString) (actor : Option CString) : LogRow :=
  let ts := hash.truncate 39
  let act := actor.getD (.ofAscii "user")
  let sig := hex32 (hmacSha256 H key (approvalMsg wi gate hash act ts))
  { workItemId := wi
    stage := gate
    kind := approveKind
    actor := act
    detail := (CString.concat
      [.ofAscii "\x7b\"ts\":\"", ts, .ofAscii "\",\"sig\":\"", sig, .ofAscii "\"\x7d"]).truncate 255
    contentHash := hash }

/-- `wfe_approval_record`: the log after it, and whether it succeeds. The store may refuse the row. -/
def approvalRecord (H : HashFn) (key : Option (Block 32)) (wi gate hash : CString) (actor : Option CString)
    (stored : Bool) (log : List LogRow) : List LogRow × Bool :=
  match key with
  | none => (log, false)
  | some key =>
    if wi ≠ CString.empty ∧ stored then (log ++ [approvalRow H key wi gate hash actor], true) else (log, false)

/-- The time stamp and the signature in the detail of a row, if they are there as strings. -/
def LogRow.stamp? (row : LogRow) : Option (CString × CString) :=
  (CJson.parse row.detail).bind fun d =>
    ((d.getObjectItemCaseSensitive (.ofAscii "ts")).bind CJson.stringValue?).bind fun ts =>
      ((d.getObjectItemCaseSensitive (.ofAscii "sig")).bind CJson.stringValue?).map fun sig => (ts, sig)

/-- The signature of a row is valid for what stands in the row. -/
def LogRow.valid (H : HashFn) (key : Option (Block 32)) (row : LogRow) : Bool :=
  row.stamp?.any fun (ts, sig) => approvalVerify H key row.workItemId row.stage row.contentHash row.actor ts sig

/-- `wfe_approval_present`. -/
def approvalPresent (H : HashFn) (key : Option (Block 32)) (log : List LogRow) (wi gate hash : CString) : Bool :=
  match lifecycleEventList log wi with
  | none => false
  | some rows => rows.any fun row =>
    row.kind = approveKind && row.stage = gate && row.contentHash = hash && row.valid H key

/-! ## Runs -/

/-- What happens to the log: an approval is recorded, anyone appends a row, or rows are deleted. -/
inductive LogStep where
  | record (wi gate hash : CString) (actor : Option CString) (stored : Bool)
  | append (row : LogRow)
  | delete (keep : LogRow → Bool)

/-- An approval asked for, with the actor as it is signed. -/
structure ApprovalCall where
  workItemId : CString
  gate : CString
  contentHash : CString
  actor : CString

def LogStep.call? : LogStep → Option ApprovalCall
  | .record wi gate hash actor _ => some ⟨wi, gate, hash, actor.getD (.ofAscii "user")⟩
  | _ => none

/-- The approvals asked for in a run. -/
def approvalCalls (steps : List LogStep) : List ApprovalCall := steps.filterMap LogStep.call?

/-- The message a call signs. -/
def ApprovalCall.message (c : ApprovalCall) : List UInt8 :=
  approvalMsg c.workItemId c.gate c.contentHash c.actor (c.contentHash.truncate 39)

section Runs

variable (H : HashFn) (key : Block 32)

def LogStep.apply (log : List LogRow) : LogStep → List LogRow
  | .record wi gate hash actor stored => (approvalRecord H (some key) wi gate hash actor stored log).1
  | .append row => log ++ [row]
  | .delete keep => log.filter keep

def logRun (steps : List LogStep) : List LogRow := steps.foldl (LogStep.apply H key) []

/-- The key is secret: a row that someone appends is valid only with a signature made for its message. -/
def Unforged (steps : List LogStep) : Prop :=
  ∀ before row, before ++ [.append row] <+: steps → ∀ ts sig, row.stamp? = some (ts, sig) →
    hex32 (hmacSha256 H key (approvalMsg row.workItemId row.stage row.contentHash row.actor ts)) = sig →
    ∃ c ∈ approvalCalls before,
      approvalMsg row.workItemId row.stage row.contentHash row.actor ts = c.message

/-- Approvals are neither forged nor lost. -/
structure ApprovalsHold (steps : List LogStep) : Prop where
  genuine : ∀ before, before <+: steps → ∀ wi gate hash,
    approvalPresent H (some key) (logRun H key before) wi gate hash = true →
      ∃ row ∈ logRun H key before, row.workItemId = wi ∧ row.stage = gate ∧ row.contentHash = hash ∧
        row.kind = approveKind ∧ row.valid H (some key) = true ∧
        ∃ c ∈ approvalCalls before, c = ⟨wi, gate, hash, row.actor⟩
  complete : ∀ before, before <+: steps → ∀ wi gate hash actor, .record wi gate hash actor true ∈ before →
    wi ≠ CString.empty → approvalRow H key wi gate hash actor ∈ logRun H key before →
    approvalPresent H (some key) (logRun H key before) wi gate hash = true

/-- The strings of a call survive the message, the detail and the cells they are written into. -/
structure ApprovalCall.Legible (c : ApprovalCall) : Prop where
  bars : ∀ s ∈ [c.workItemId, c.gate, c.contentHash, c.actor], bar ∉ s.val
  plain : ∀ b ∈ c.contentHash.val.take 39, CJson.Plain b
  short : c.workItemId.val.length + c.gate.val.length + c.contentHash.val.length + c.actor.val.length < 2001
  cells : c.gate.val.length < 64 ∧ c.actor.val.length < 64 ∧ c.contentHash.val.length < 72

/-- Every string fits where it is written, and no work item has more rows than are read. -/
structure Legible (steps : List LogStep) : Prop where
  calls : ∀ c ∈ approvalCalls steps, c.Legible
  rows : ∀ row, .append row ∈ steps → row.fits = true
  few : ∀ before, before <+: steps → ∀ wi, ((logRun H key before).filter (·.workItemId = wi)).length ≤ 512

end Runs

end Wfe
