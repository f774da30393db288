-- SUMMARY: The offline verifier of a captured export stream: frame loop, record and checkpoint phases, proofs and snapshots.
import Aimee.Lib.SortCollapse
import Aimee.Vault.WitnessExport
import Aimee.Vault.WitnessVerify

/-!
# The offline verifier

`vault_witness_offline.c`. The offset into the stream is the list of bytes behind it, and the
report is passed from phase to phase. Allocation does not fail, and a stream is shorter than
`SIZE_MAX`. The order in which `qsort` leaves equal elements is that of a parameter.
-/

namespace VaultWitness

open SortCollapse

def offlineMaxItems : Nat := 2 ^ 20

/-- `snap_t`. -/
structure Snapshot where
  seq : UInt64
  bytes : List UInt8
  deriving DecidableEq

/-- `vault_witness_offline_report_t`. The kinds of frames that a parse accepts are all known,
    so `unknown_frames` stays 0. -/
structure Report where
  frames : Nat := 0
  records : Nat := 0
  checkpoints : Nat := 0
  proofs : Nat := 0
  unknownFrames : Nat := 0
  shardsOk : Nat := 0
  shardsBroken : Nat := 0
  recordsDuplicate : Nat := 0
  recordsConflict : Nat := 0
  checkpointsOk : Nat := 0
  checkpointsBadSig : Nat := 0
  checkpointsUnknownKey : Nat := 0
  checkpointsRevoked : Nat := 0
  checkpointsDuplicate : Nat := 0
  checkpointsConflict : Nat := 0
  continuity : Continuity := .ok
  proofsOk : Nat := 0
  proofsUnmatched : Nat := 0
  proofsBad : Nat := 0
  snapshots : Nat := 0
  snapshotsOk : Nat := 0
  snapshotsUnmatched : Nat := 0
  snapshotsBad : Nat := 0
  snapshotsRootMismatch : Nat := 0
  malformed : Bool := false
  anyTamper : Bool := false
  deriving DecidableEq

/-! ## The frame loop -/

/-- The four vectors of items, and the report so far. -/
structure Collected where
  recs : List Record := []
  cps : List Checkpoint := []
  pfs : List Proof := []
  sns : List Snapshot := []
  report : Report := {}

/-- A frame or a payload that does not parse. -/
def Collected.reject (c : Collected) : Collected :=
  { c with report.malformed := true, report.anyTamper := true }

/-- The capacity of a vector doubles from 32 or 64 up to `OFFLINE_MAX_ITEMS`, where a push
    fails. -/
def push {α : Type} (v : List α) (x : α) : Option (List α) :=
  if v.length < offlineMaxItems then some (v ++ [x]) else none

/-- `rec_push`, `cp_push`, `pf_push` and `sn_push`. -/
def recPush : List Record → Record → Option (List Record) := push
def cpPush : List Checkpoint → Checkpoint → Option (List Checkpoint) := push
def pfPush : List Proof → Proof → Option (List Proof) := push
def snPush : List Snapshot → Snapshot → Option (List Snapshot) := push

/-- What a frame may carry. -/
inductive Item where
  | record (r : Record)
  | checkpoint (cp : Checkpoint)
  | proof (p : Proof)
  | snapshot (sn : Snapshot)
  deriving DecidableEq

variable (H : HashFn)

/-- The item of a frame that parses and whose payload decodes. -/
def frameItem (frame : List UInt8) : Option Item :=
  match exportParse frame with
  | .malformed => none
  | .versionMismatch => none
  | .ok .record payload => (recordDecode H payload).map .record
  | .ok .checkpoint payload => (checkpointDecode payload).map .checkpoint
  | .ok .proof payload => (proofDecode payload).map .proof
  | .ok .snapshot payload =>
    if payload.length < 8 then none
    else some (.snapshot ⟨Wire.getU64 (payload.take 8), payload.drop 8⟩)

/-- Push an item onto its vector and count it. -/
def Collected.add (c : Collected) : Item → Option Collected
  | .record r =>
    (recPush c.recs r).map fun recs => { c with recs, report.records := c.report.records + 1 }
  | .checkpoint cp =>
    (cpPush c.cps cp).map fun cps =>
      { c with cps, report.checkpoints := c.report.checkpoints + 1 }
  | .proof p =>
    (pfPush c.pfs p).map fun pfs => { c with pfs, report.proofs := c.report.proofs + 1 }
  | .snapshot sn =>
    (snPush c.sns sn).map fun sns => { c with sns, report.snapshots := c.report.snapshots + 1 }

/-- The body of the loop, on a frame that the stream holds all of. -/
def collectFrame (c : Collected) (frame : List UInt8) : Collected :=
  let c := { c with report.frames := c.report.frames + 1 }
  match (frameItem H frame).bind c.add with
  | some c => c
  | none => c.reject

/-- Behind the loop: bytes are left over where `off != stream_len`. -/
def endOfStream (rest : List UInt8) (c : Collected) : Collected :=
  if rest = [] then c else c.reject

/-- The loop over the frames of a stream, from the bytes behind the offset. Each round
    consumes a header at least, so the length of the stream is fuel enough. -/
def frameLoop : Nat → List UInt8 → Collected → Collected
  | 0, rest, c => endOfStream rest c
  | fuel + 1, rest, c =>
    if rest.length < exportHeaderLen then endOfStream rest c
    else
      let len := exportHeaderLen + payloadLen rest
      if rest.length < len then endOfStream rest c.reject
      else frameLoop fuel (rest.drop len) (collectFrame H c (rest.take len))

/-! ## Records -/

def recSortCmp (x y : Record) : Ordering :=
  (CString.strcmp x.tenant y.tenant).then
    ((CString.strcmp x.provider y.provider).then (compare x.shardSeq y.shardSeq))

/-- Two records of one shard. -/
def sameShard (a b : Record) : Bool := a.tenant = b.tenant ∧ a.provider = b.provider

/-- Two records at one place of one shard. -/
def samePlace (a b : Record) : Bool := sameShard a b ∧ a.shardSeq = b.shardSeq

/-- Two records with one digest. -/
def sameRecord (a b : Record) : Bool :=
  match recordDigest H a, recordDigest H b with
  | some da, some db => da = db
  | _, _ => false

/-- The records of a stream, sorted and without repeats. -/
def collapseRecords (q : Qsort) (recs : List Record) : Collapsed Record :=
  sortCollapse samePlace (sameRecord H) q recSortCmp recs

/-- The verdict on one shard. -/
def verifyShard (report : Report) (shard : List Record) : Report :=
  if (verifyChain H shard).1 = .ok then { report with shardsOk := report.shardsOk + 1 }
  else { report with shardsBroken := report.shardsBroken + 1, anyTamper := true }

def verifyRecords (recs : Collapsed Record) (report : Report) : Report :=
  (groups sameShard recs.kept).foldl (verifyShard H)
    { report with
      recordsDuplicate := report.recordsDuplicate + recs.duplicates
      recordsConflict := report.recordsConflict + recs.conflicts
      anyTamper := report.anyTamper || recs.conflicts ≠ 0 }

/-! ## Checkpoints -/

def cpSortCmp (x y : Checkpoint) : Ordering := compare x.seq y.seq

def sameSeq (a b : Checkpoint) : Bool := a.seq = b.seq

/-- Two checkpoints with one digest. -/
def sameCheckpoint (a b : Checkpoint) : Bool :=
  match checkpointDigest H a, checkpointDigest H b with
  | some da, some db => da = db
  | _, _ => false

/-- The checkpoints of a stream, sorted and without repeats. -/
def collapseCheckpoints (q : Qsort) (cps : List Checkpoint) : Collapsed Checkpoint :=
  sortCollapse sameSeq (sameCheckpoint H) q cpSortCmp cps

/-- The verdict on one checkpoint. -/
def countVerdict (ed25519Verify : Ed25519Verify) (anchors : List Anchor) (report : Report)
    (cp : Checkpoint) : Report :=
  match checkpointVerify ed25519Verify anchors cp with
  | .ok => { report with checkpointsOk := report.checkpointsOk + 1 }
  | .badSig =>
    { report with checkpointsBadSig := report.checkpointsBadSig + 1, anyTamper := true }
  | .unknownKey =>
    { report with checkpointsUnknownKey := report.checkpointsUnknownKey + 1, anyTamper := true }
  | .revokedKey =>
    { report with checkpointsRevoked := report.checkpointsRevoked + 1, anyTamper := true }
  | .malformed => { report with anyTamper := true }

/-- The run of checkpoints, behind their signatures. A gap is no tampering. -/
def verifyContinuity (cps : List Checkpoint) (report : Report) : Report :=
  let continuity := (verifyCheckpointRun H cps).1
  { report with continuity, anyTamper := report.anyTamper || continuity = .broken }

def verifyCheckpoints (ed25519Verify : Ed25519Verify) (anchors : List Anchor)
    (cps : Collapsed Checkpoint) (report : Report) : Report :=
  verifyContinuity H cps.kept (cps.kept.foldl (countVerdict ed25519Verify anchors)
    { report with
      checkpointsDuplicate := report.checkpointsDuplicate + cps.duplicates
      checkpointsConflict := report.checkpointsConflict + cps.conflicts
      anyTamper := report.anyTamper || cps.conflicts ≠ 0 })

/-! ## Proofs and snapshots -/

/-- A proof against the root of its checkpoint. -/
def verifyProof (cps : List Checkpoint) (report : Report) (p : Proof) : Report :=
  match cps.find? (·.seq = p.checkpointSeq) with
  | none => { report with proofsUnmatched := report.proofsUnmatched + 1 }
  | some cp =>
    if proofVerify H p cp.root then { report with proofsOk := report.proofsOk + 1 }
    else { report with proofsBad := report.proofsBad + 1, anyTamper := true }

/-- One leaf of a snapshot. The names are copied into buffers with a terminator behind them,
    so they end at their first NUL. -/
def readSnapshotLeaf : Reader Leaf := do
  let tl ← Reader.u16
  Reader.check (tl.toNat ≤ tenantMax)
  let tenant ← Reader.block tl.toNat
  let pl ← Reader.u16
  Reader.check (pl.toNat ≤ providerMax)
  let provider ← Reader.block pl.toNat
  let seq ← Reader.u64
  let head ← Reader.block 32
  let tenant := CString.ofBytes tenant.val
  let provider := CString.ofBytes provider.val
  let key ← (shardKeyHash H tenant provider : Option (Block 8))
  let hash ← (leafHash H tenant provider seq head : Option Digest)
  return { key, hash }

def readSnapshotLeaves : Nat → Reader (List Leaf)
  | 0 => pure []
  | n + 1 => do
      let leaf ← readSnapshotLeaf H
      let rest ← readSnapshotLeaves n
      return leaf :: rest

def readSnapshot : Reader (List Leaf) := do
  let count ← Reader.u32
  Reader.check (count ≠ 0 ∧ count.toNat ≤ shardCeiling)
  readSnapshotLeaves H count.toNat

/-- `snapshot_rebuilds_root`. It is `none` where the source returns -1. -/
def snapshotRebuildsRoot (bytes : List UInt8) (wantRoot : Digest) : Option Bool :=
  match Reader.exactly (readSnapshot H) bytes with
  | none => none
  | some leaves => (merkleRoot H leaves).map (· = wantRoot)

/-- A snapshot against the digest and the root of its checkpoint. -/
def verifySnapshot (cps : List Checkpoint) (report : Report) (sn : Snapshot) : Report :=
  match cps.find? (·.seq = sn.seq) with
  | none => { report with snapshotsUnmatched := report.snapshotsUnmatched + 1 }
  | some cp =>
    if H sn.bytes ≠ cp.leafSnapshotDigest then
      { report with snapshotsBad := report.snapshotsBad + 1, anyTamper := true }
    else if snapshotRebuildsRoot H sn.bytes cp.root = some true then
      { report with snapshotsOk := report.snapshotsOk + 1 }
    else { report with snapshotsRootMismatch := report.snapshotsRootMismatch + 1, anyTamper := true }

/-- `vault_witness_offline_verify`. The phases do nothing on empty vectors, as the source
    skips them. -/
def offlineVerify (ed25519Verify : Ed25519Verify) (q : Qsort) (stream : List UInt8)
    (anchors : List Anchor) : Report :=
  let c := frameLoop H stream.length stream {}
  let cps := collapseCheckpoints H q c.cps
  let report := verifyRecords H (collapseRecords H q c.recs) c.report
  let report := verifyCheckpoints H ed25519Verify anchors cps report
  let report := c.pfs.foldl (verifyProof H cps.kept) report
  c.sns.foldl (verifySnapshot H cps.kept) report

end VaultWitness
