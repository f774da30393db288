-- SUMMARY: Vault witness checkpoints: the signed body, its digest, the wire codec, and signature and continuity verdicts.
import Aimee.Vault.WitnessRecord

/-!
# Witness checkpoints

`vault_witness_checkpoint.c`. The signature is no part of the body that is signed and
hashed. `ed25519Verify` stands for the call of OpenSSL that checks an Ed25519 signature, on
the public key, the message and the signature. The buffers of 512 and 640 bytes have room
for every valid checkpoint, so a body or an encoding fails for an invalid one only.
-/

namespace VaultWitness

/-- `VAULT_WITNESS_CHECKPOINT_LABEL`. -/
def checkpointLabel : List UInt8 := ascii "aimee-vault-witness-checkpoint-v1"

/-- `VAULT_WITNESS_CP_CREATED_AT_MAX` and `VAULT_WITNESS_SIG_ED25519`. -/
def createdAtMax : Nat := 40
def sigEd25519 : UInt16 := 1

/-- `vault_witness_checkpoint_t`. -/
structure Checkpoint where
  version : UInt16
  seq : UInt64
  root : Digest
  hasPredecessor : Bool
  predecessorDigest : Digest
  shardCount : UInt64
  leafSnapshotDigest : Digest
  signerKeyId : Block 16
  sigAlg : UInt16
  sigVersion : UInt16
  createdAt : CString
  signature : Block 64
  deriving DecidableEq

def checkpointValid (cp : Checkpoint) : Bool :=
  cp.version = 1 ∧ cp.sigAlg = sigEd25519 ∧
    (cp.hasPredecessor = false → allZero cp.predecessorDigest.val) ∧
    1 ≤ cp.createdAt.val.length ∧ cp.createdAt.val.length ≤ createdAtMax

/-- The bytes of the body. -/
def checkpointBody (cp : Checkpoint) : List UInt8 :=
  Wire.packText checkpointLabel ++ Wire.putU16 cp.version ++ Wire.putU64 cp.seq ++ cp.root.val ++
    (if cp.hasPredecessor then 1 else 0) :: cp.predecessorDigest.val ++
    Wire.putU64 cp.shardCount ++ cp.leafSnapshotDigest.val ++ cp.signerKeyId.val ++
    Wire.putU16 cp.sigAlg ++ Wire.putU16 cp.sigVersion ++ Wire.packText cp.createdAt.val

/-- `vault_witness_checkpoint_signable`. -/
def checkpointSignable (cp : Checkpoint) : Option (List UInt8) :=
  if checkpointValid cp then some (checkpointBody cp) else none

/-- `vault_witness_checkpoint_digest`. -/
def checkpointDigest (H : HashFn) (cp : Checkpoint) : Option Digest :=
  (checkpointSignable cp).map H

/-- `vault_witness_checkpoint_encode`. -/
def checkpointEncode (cp : Checkpoint) : Option (List UInt8) :=
  (checkpointSignable cp).map (· ++ cp.signature.val)

/-! ## Decoding -/

/-- The fields of a checkpoint, in wire order. -/
def readCheckpoint : Reader Checkpoint := do
  let labelLen ← Reader.u32
  Reader.check (labelLen.toNat = checkpointLabel.length)
  let label ← Reader.block checkpointLabel.length
  Reader.check (label.val = checkpointLabel)
  let version ← Reader.u16
  let seq ← Reader.u64
  let root ← Reader.block 32
  let hasPredecessor ← Reader.u8
  let predecessorDigest ← Reader.block 32
  let shardCount ← Reader.u64
  let leafSnapshotDigest ← Reader.block 32
  let signerKeyId ← Reader.block 16
  let sigAlg ← Reader.u16
  let sigVersion ← Reader.u16
  let createdAtLen ← Reader.u32
  Reader.check (createdAtLen.toNat ≤ createdAtMax)
  let createdAt ← Reader.text createdAtLen.toNat
  let signature ← Reader.block 64
  return { version, seq, root, hasPredecessor := hasPredecessor ≠ 0, predecessorDigest, shardCount,
           leafSnapshotDigest, signerKeyId, sigAlg, sigVersion, createdAt, signature }

/-- `vault_witness_checkpoint_decode`: what was read has to encode to the input again. -/
def checkpointDecode (wire : List UInt8) : Option Checkpoint :=
  match Reader.exactly readCheckpoint wire with
  | some cp => if checkpointEncode cp = some wire then some cp else none
  | none => none

/-! ## Verdicts -/

/-- `vault_witness_anchor_t`. -/
structure Anchor where
  keyId : Block 16
  ed25519Pub : Block 32
  revoked : Bool

/-- `vault_witness_cp_verdict_t`. -/
inductive CpVerdict where
  | ok
  | malformed
  | unknownKey
  | revokedKey
  | badSig
  deriving DecidableEq

/-- `vault_witness_continuity_t`. -/
inductive Continuity where
  | ok
  | unproven
  | broken
  deriving DecidableEq

/-- The signature check of OpenSSL. -/
abbrev Ed25519Verify := Block 32 → List UInt8 → Block 64 → Bool

/-- `vault_witness_checkpoint_verify`. -/
def checkpointVerify (ed25519Verify : Ed25519Verify) (anchors : List Anchor) (cp : Checkpoint) :
    CpVerdict :=
  if ¬ checkpointValid cp then .malformed
  else
    match anchors.find? (·.keyId = cp.signerKeyId) with
    | none => .unknownKey
    | some anchor =>
      if anchor.revoked then .revokedKey
      else
        match checkpointSignable cp with
        | none => .malformed
        | some body =>
          if ed25519Verify anchor.ed25519Pub body cp.signature then .ok else .badSig

/-- `vault_witness_checkpoint_continuity`. -/
def checkpointContinuity (cp : Checkpoint) (expectedPredecessor : Option Digest) : Continuity :=
  match expectedPredecessor with
  | none => .unproven
  | some expected =>
    if ¬ cp.hasPredecessor then .broken
    else if cp.predecessorDigest = expected then .ok
    else .broken

/-! ## What a digest binds -/

variable {H : HashFn}

variable {cp : Checkpoint} {wire : List UInt8} {a b : Checkpoint}

theorem checkpointDecode_encode (h : checkpointDecode wire = some cp) : checkpointEncode cp = some wire := by
  unfold checkpointDecode at h
  split at h
  · split at h
    · rename_i hencode
      cases h
      exact hencode
    · cases h
  · cases h

theorem checkpointDecode_valid (h : checkpointDecode wire = some cp) : checkpointValid cp := by
  have hencode := checkpointDecode_encode h
  by_contra hvalid
  simp [checkpointEncode, checkpointSignable, hvalid] at hencode

theorem checkpointDigest_of_valid (h : checkpointValid cp) :
    checkpointDigest H cp = some (H (checkpointBody cp)) := by
  simp [checkpointDigest, checkpointSignable, h]

/-- Everything but the signature. -/
structure SameBody (a b : Checkpoint) : Prop where
  version : a.version = b.version
  seq : a.seq = b.seq
  root : a.root = b.root
  hasPredecessor : a.hasPredecessor = b.hasPredecessor
  predecessorDigest : a.predecessorDigest = b.predecessorDigest
  shardCount : a.shardCount = b.shardCount
  leafSnapshotDigest : a.leafSnapshotDigest = b.leafSnapshotDigest
  signerKeyId : a.signerKeyId = b.signerKeyId
  sigAlg : a.sigAlg = b.sigAlg
  sigVersion : a.sigVersion = b.sigVersion
  createdAt : a.createdAt = b.createdAt

theorem SameBody.body_eq (h : SameBody a b) : checkpointBody a = checkpointBody b := by
  simp only [checkpointBody, h.version, h.seq, h.root, h.hasPredecessor, h.predecessorDigest,
    h.shardCount, h.leafSnapshotDigest, h.signerKeyId, h.sigAlg, h.sigVersion, h.createdAt]

theorem SameBody.eq (h : SameBody a b) (hsig : a.signature = b.signature) :
    a = b := by
  cases a
  cases b
  simp only [Checkpoint.mk.injEq]
  exact ⟨h.version, h.seq, h.root, h.hasPredecessor, h.predecessorDigest, h.shardCount,
    h.leafSnapshotDigest, h.signerKeyId, h.sigAlg, h.sigVersion, h.createdAt, hsig⟩

/-- The body determines every field but the signature. -/
theorem checkpointBody_inj (ha : checkpointValid a) (hb : checkpointValid b)
    (h : checkpointBody a = checkpointBody b) : SameBody a b := by
  have hlen : ∀ cp : Checkpoint, checkpointValid cp → cp.createdAt.val.length < 2 ^ 32 :=
    fun cp hcp => Nat.lt_of_le_of_lt (of_decide_eq_true hcp).2.2.2.2 (by decide)
  simp only [checkpointBody, List.append_assoc, List.cons_append] at h
  obtain ⟨hversion, h⟩ := Wire.putU16_append_inj (List.append_cancel_left h)
  obtain ⟨hseq, h⟩ := Wire.putU64_append_inj h
  obtain ⟨hroot, h⟩ := Block.append_inj h
  obtain ⟨hflag, h⟩ := List.cons.inj h
  obtain ⟨hpred, h⟩ := Block.append_inj h
  obtain ⟨hshardCount, h⟩ := Wire.putU64_append_inj h
  obtain ⟨hsnapshot, h⟩ := Block.append_inj h
  obtain ⟨hsigner, h⟩ := Block.append_inj h
  obtain ⟨hsigAlg, h⟩ := Wire.putU16_append_inj h
  obtain ⟨hsigVersion, h⟩ := Wire.putU16_append_inj h
  have hcreatedAt : a.createdAt = b.createdAt := by
    rw [← List.append_nil (Wire.packText a.createdAt.val),
      ← List.append_nil (Wire.packText b.createdAt.val)] at h
    exact Subtype.ext (Wire.packText_append_inj (hlen a ha) (hlen b hb) h).1
  have hhasPredecessor : a.hasPredecessor = b.hasPredecessor := by
    cases ha' : a.hasPredecessor <;> cases hb' : b.hasPredecessor <;> simp [ha', hb'] at hflag ⊢
  exact ⟨hversion, hseq, hroot, hhasPredecessor, hpred, hshardCount, hsnapshot, hsigner, hsigAlg,
    hsigVersion, hcreatedAt⟩

end VaultWitness
