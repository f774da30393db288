-- SUMMARY: The sparse Merkle tree over shard heads: leaf, node and empty hashes, roots, proofs, and the proof wire format.
import Aimee.Vault.WitnessRecord

/-!
# The sparse Merkle tree of a checkpoint

`vault_witness_merkle.c` and `vault_witness_proof.c`. The recursion over a slice of the leaf
array is a recursion over the list of its leaves, and the proof array that it writes into is
passed along.
-/

namespace VaultWitness

/-- `VAULT_WITNESS_SMT_DEPTH` and `VAULT_WITNESS_SHARD_CEILING`. -/
def smtDepth : Nat := 64
def shardCeiling : Nat := 2 ^ 20

/-- `VAULT_WITNESS_SMT_LEAF_LABEL`, `..._NODE_LABEL` and `..._EMPTY_LABEL`. -/
def smtLeafLabel : List UInt8 := ascii "aimee-vault-witness-smt-leaf-v1"
def smtNodeLabel : List UInt8 := ascii "aimee-vault-witness-smt-node-v1"
def smtEmptyLabel : List UInt8 := ascii "aimee-vault-witness-smt-empty-v1"

/-- `vault_witness_leaf_t`. -/
structure Leaf where
  key : Block 8
  hash : Digest
  deriving DecidableEq

/-- The sibling digests of a proof, root first. -/
abbrev Path := { path : List Digest // path.length = smtDepth }

/-- `key_bit`. Bit 0 is the most significant bit of the first byte. -/
def keyBit (key : Block 8) (i : Nat) : Bool := (key.val.getD (i / 8) 0).toNat.testBit (7 - i % 8)

variable (H : HashFn)

/-- The input of `node_hash`. -/
def nodeInput (pair : Digest × Digest) : List UInt8 := smtNodeLabel ++ pair.1.val ++ pair.2.val

def nodeHash (left right : Digest) : Digest := H (nodeInput (left, right))

/-- `compute_empty`, entry by entry. -/
def emptyHash : Nat → Digest
  | 0 => H smtEmptyLabel
  | level + 1 => nodeHash H (emptyHash level) (emptyHash level)

def leavesOk (leaves : List Leaf) : Prop :=
  leaves.IsChain fun a b => compare a.key.val b.key.val = .lt

instance (leaves : List Leaf) : Decidable (leavesOk leaves) :=
  inferInstanceAs (Decidable (leaves.IsChain _))

/-- `root_rec`. The leaves are the slice of the node, and `level` bits of their keys are left
    below it. -/
def rootRec : Nat → List Leaf → Option (Block 8) → List Digest → Digest × List Digest
  | level, [], _, proof => (emptyHash H level, proof)
  | 0, leaf :: _, _, proof => (leaf.hash, proof)
  | level + 1, leaf :: slice, target, proof =>
    let disc := smtDepth - (level + 1)
    let below := (leaf :: slice).takeWhile fun l => keyBit l.key disc = false
    let above := (leaf :: slice).dropWhile fun l => keyBit l.key disc = false
    let ltarget := target.filter fun key => keyBit key disc = false
    let rtarget := target.filter fun key => keyBit key disc = true
    let (lroot, proof) := rootRec level below ltarget proof
    let (rroot, proof) := rootRec level above rtarget proof
    let proof :=
      match target with
      | none => proof
      | some key => proof.set disc (if keyBit key disc = false then rroot else lroot)
    (nodeHash H lroot rroot, proof)

theorem length_rootRec (level : Nat) (slice : List Leaf) (target : Option (Block 8))
    (proof : List Digest) : (rootRec H level slice target proof).2.length = proof.length := by
  induction level generalizing slice target proof with
  | zero => cases slice <;> rfl
  | succ level ih =>
    cases slice with
    | nil => rfl
    | cons leaf slice =>
      rw [rootRec]
      cases target with
      | none => simp only [ih]
      | some key => simp only [List.length_set, ih]

/-- The bytes that `vault_witness_leaf_hash` hashes. -/
def leafPreimage (tenant provider : CString) (sequence : UInt64) (headHash : Digest) : List UInt8 :=
  smtLeafLabel ++ Wire.packText tenant.val ++ Wire.packText provider.val ++ Wire.putU64 sequence ++
    headHash.val

/-- `vault_witness_leaf_hash`. -/
def leafHash (tenant provider : CString) (sequence : UInt64) (headHash : Digest) : Option Digest :=
  if tenant.val.length = 0 ∨ provider.val.length = 0 ∨ 128 < tenant.val.length ∨
      128 < provider.val.length then none
  else some (H (leafPreimage tenant provider sequence headHash))

/-- `vault_witness_merkle_root`. -/
def merkleRoot (leaves : List Leaf) : Option Digest :=
  if shardCeiling < leaves.length ∨ ¬ leavesOk leaves then none
  else some (rootRec H smtDepth leaves none []).1

def zeroDigest : Digest := ⟨List.replicate 32 0, by simp⟩

/-- `vault_witness_merkle_proof`. The proof array starts as zero bytes. -/
def merkleProof (leaves : List Leaf) (index : Nat) : Option Path :=
  match leaves[index]? with
  | none => none
  | some leaf =>
    if shardCeiling < leaves.length ∨ ¬ leavesOk leaves then none
    else
      some ⟨(rootRec H smtDepth leaves (some leaf.key) (List.replicate smtDepth zeroDigest)).2, by
        rw [length_rootRec, List.length_replicate]⟩

/-- `vault_witness_merkle_verify`. The loop runs from bit 63 down to bit 0. -/
def merkleVerify (key : Block 8) (leaf : Digest) (proof : Path) (root : Digest) : Bool :=
  let acc := (List.range smtDepth).foldr (fun b acc =>
    if keyBit key b = false then nodeHash H acc (proof.val.getD b zeroDigest)
    else nodeHash H (proof.val.getD b zeroDigest) acc) leaf
  acc = root

/-! ## Proofs on the wire -/

/-- `vault_witness_proof_t`. -/
structure Proof where
  checkpointSeq : UInt64
  tenant : CString
  provider : CString
  sequence : UInt64
  headHash : Digest
  path : Path
  deriving DecidableEq

def proofMagic : List UInt8 := ascii "AIMWPRF1"

def proofValid (p : Proof) : Bool :=
  p.sequence ≠ 0 ∧ strOk p.tenant tenantMax 1 ∧ strOk p.provider providerMax 1

/-- A text field of a proof: its length is checked before the bytes are read. -/
def readProofText (cap : Nat) : Reader CString := do
  let len ← Reader.u16
  Reader.check (1 ≤ len.toNat ∧ len.toNat ≤ cap)
  Reader.text len.toNat

/-- A run of `n` digests. -/
def readDigests : (n : Nat) → Reader { path : List Digest // path.length = n }
  | 0 => pure ⟨[], rfl⟩
  | n + 1 => do
      let digest ← Reader.block 32
      let rest ← readDigests n
      return ⟨digest :: rest.val, by rw [List.length_cons, rest.property]⟩

def readProof : Reader Proof := do
  let magic ← Reader.block 8
  Reader.check (magic.val = proofMagic)
  let version ← Reader.u16
  Reader.check (version = 1)
  let checkpointSeq ← Reader.u64
  let tenant ← readProofText tenantMax
  let provider ← readProofText providerMax
  let sequence ← Reader.u64
  let headHash ← Reader.block 32
  let path ← readDigests smtDepth
  return { checkpointSeq, tenant, provider, sequence, headHash, path }

/-- `vault_witness_proof_decode`. -/
def proofDecode (wire : List UInt8) : Option Proof :=
  match Reader.exactly readProof wire with
  | some p => if proofValid p then some p else none
  | none => none

/-- `vault_witness_proof_verify`. -/
def proofVerify (p : Proof) (root : Digest) : Bool :=
  if ¬ proofValid p then false
  else
    match shardKeyHash H p.tenant p.provider, leafHash H p.tenant p.provider p.sequence p.headHash with
    | some key, some leaf => merkleVerify H key leaf p.path root
    | _, _ => false

end VaultWitness
