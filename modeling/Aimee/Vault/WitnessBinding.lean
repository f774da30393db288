-- SUMMARY: A verified Merkle path or proof binds the leaf of the checkpointed tree at its position.
import Aimee.Vault.WitnessTree

/-!
# What a verified proof binds

A path that verifies against the root of an accepted list of leaves, however it was made,
starts at the digest the full tree holds at the position of its key. The hypothesis about the
node hash is `SparseMerkle.PathCollisionFree`: level by level, the node input of the tree and
the node input of the path do not collide.
-/

namespace VaultWitness

variable {H : HashFn}

variable (H) in
/-- At no level does the node that the path hashes collide with the node of the tree. -/
def PathFree (leaves : List Leaf) (key : Block 8) (hash : Digest) (proof : Path) : Prop :=
  SparseMerkle.PathCollisionFree (nodeHash H) (keyBits key) (fullTree H leaves) proof.val hash

/-- The bytes of a leaf commitment determine what it commits to. -/
theorem leafPreimage_inj {t t' p p' : CString} {sequence sequence' : UInt64} {head head' : Digest}
    {d d' : Digest} (hleaf : leafHash H t p sequence head = some d)
    (hleaf' : leafHash H t' p' sequence' head' = some d')
    (h : leafPreimage t p sequence head = leafPreimage t' p' sequence' head') :
    t = t' ∧ p = p' ∧ sequence = sequence' ∧ head = head' := by
  have hshort : ∀ {t p : CString} {sequence : UInt64} {head d : Digest},
      leafHash H t p sequence head = some d →
        t.val.length < 2 ^ 32 ∧ p.val.length < 2 ^ 32 := by
    intro t p sequence head d h
    unfold leafHash at h
    split at h
    · cases h
    · rename_i hlen
      omega
  obtain ⟨ht, hp⟩ := hshort hleaf
  obtain ⟨ht', hp'⟩ := hshort hleaf'
  simp only [leafPreimage, List.append_assoc] at h
  obtain ⟨htenant, h⟩ := Wire.packText_append_inj ht ht' (List.append_cancel_left h)
  obtain ⟨hprovider, h⟩ := Wire.packText_append_inj hp hp' h
  obtain ⟨hsequence, h⟩ := Wire.putU64_append_inj h
  exact ⟨Subtype.ext htenant, Subtype.ext hprovider, hsequence, Subtype.ext h⟩

theorem leafHash_eq_some {t p : CString} {sequence : UInt64} {head d : Digest}
    (h : leafHash H t p sequence head = some d) : H (leafPreimage t p sequence head) = d := by
  unfold leafHash at h
  split at h
  · cases h
  · exact Option.some.inj h

variable {root : Digest} {leaves : List Leaf} {key : Block 8} {hash : Digest} {proof : Path}

/-- A path that verifies starts at the digest of its position. -/
theorem merkleVerify_eq_fullTree (hroot : merkleRoot H leaves = some root)
    (hfree : PathFree H leaves key hash proof) (h : merkleVerify H key hash proof root = true) :
    hash = fullTree H leaves (keyBits key) := by
  obtain ⟨-, -, hroot⟩ := merkleRoot_eq_some_iff.mp hroot
  have hlen : (keyBits key).length = smtDepth := length_lowBits key smtDepth
  refine SparseMerkle.eq_of_climb_eq_root (proof.property.trans hlen.symm) hfree ?_
  rw [hlen, hroot]
  exact merkleVerify_iff.mp h

theorem leaf_of_merkleVerify (hroot : merkleRoot H leaves = some root)
    (hfree : PathFree H leaves key hash proof) (h : merkleVerify H key hash proof root = true) :
    (∃ leaf ∈ leaves, leaf.key = key ∧ leaf.hash = hash) ∨
      ((∀ leaf ∈ leaves, leaf.key ≠ key) ∧ hash = emptyHash H 0) := by
  have hhash := merkleVerify_eq_fullTree hroot hfree h
  obtain ⟨-, hok, -⟩ := merkleRoot_eq_some_iff.mp hroot
  by_cases hmem : ∃ leaf ∈ leaves, leaf.key = key
  · obtain ⟨leaf, hleaf, rfl⟩ := hmem
    exact .inl ⟨leaf, hleaf, rfl, (fullTree_keyBits hok hleaf).symm.trans hhash.symm⟩
  · have hnone : ∀ leaf ∈ leaves, leaf.key ≠ key := fun leaf hleaf hkey => hmem ⟨leaf, hleaf, hkey⟩
    exact .inr ⟨hnone, hhash.trans (fullTree_of_not_mem hnone)⟩

/-- What `vault_witness_proof_verify` checks. -/
theorem proofVerify_iff {p : Proof} :
    proofVerify H p root = true ↔
      proofValid p = true ∧ ∃ key hash, shardKeyHash H p.tenant p.provider = some key ∧
        leafHash H p.tenant p.provider p.sequence p.headHash = some hash ∧
        merkleVerify H key hash p.path root = true := by
  unfold proofVerify
  split
  · rename_i hvalid
    simp [hvalid]
  · rename_i hvalid
    rw [not_not] at hvalid
    split
    · rename_i key hash hkey hhash
      constructor
      · intro h
        exact ⟨hvalid, key, hash, hkey, hhash, h⟩
      · rintro ⟨-, key', hash', hkey', hhash', h⟩
        cases hkey.symm.trans hkey'
        cases hhash.symm.trans hhash'
        exact h
    · rename_i hnone
      constructor
      · intro h
        cases h
      · rintro ⟨-, key, hash, hkey, hhash, -⟩
        exact absurd hhash (hnone key hash hkey)

/-- For every accepted list of leaves: a path that verifies against its root holds the leaf of
    its key, or the empty leaf where no leaf has that key; and a proof that verifies names the
    shard, the sequence number and the head that the leaf at its position commits to. -/
theorem merkleVerify_binds {leaves : List Leaf} {root : Digest}
    (hroot : merkleRoot H leaves = some root) :
    (∀ key hash proof, PathFree H leaves key hash proof →
      merkleVerify H key hash proof root = true →
      (∃ leaf ∈ leaves, leaf.key = key ∧ leaf.hash = hash) ∨
        ((∀ leaf ∈ leaves, leaf.key ≠ key) ∧ hash = emptyHash H 0)) ∧
    ∀ (p : Proof) key hash leaf tenant provider sequence head,
      shardKeyHash H p.tenant p.provider = some key →
      leafHash H p.tenant p.provider p.sequence p.headHash = some hash →
      PathFree H leaves key hash p.path →
      CollisionFree H [leafPreimage p.tenant p.provider p.sequence p.headHash,
        leafPreimage tenant provider sequence head] →
      leaf ∈ leaves → leaf.key = key →
      leafHash H tenant provider sequence head = some leaf.hash →
      proofVerify H p root = true →
      tenant = p.tenant ∧ provider = p.provider ∧ sequence = p.sequence ∧ head = p.headHash := by
  refine ⟨fun key hash proof => leaf_of_merkleVerify hroot, ?_⟩
  intro p key hash leaf tenant provider sequence head hkey hhash hfree hcf hleaf hat hstored h
  obtain ⟨-, key', hash', hkey', hhash', hverify⟩ := proofVerify_iff.mp h
  cases hkey.symm.trans hkey'
  cases hhash.symm.trans hhash'
  have heq : hash = leaf.hash := by
    obtain ⟨-, hok, -⟩ := merkleRoot_eq_some_iff.mp hroot
    rw [merkleVerify_eq_fullTree hroot hfree hverify, ← hat, fullTree_keyBits hok hleaf]
  have hdigest : H (leafPreimage tenant provider sequence head) =
      H (leafPreimage p.tenant p.provider p.sequence p.headHash) := by
    rw [leafHash_eq_some hstored, leafHash_eq_some hhash, heq]
  exact leafPreimage_inj hstored hhash (hcf _ (by simp) _ (by simp) hdigest)

/-! ## A tree with one shard -/

section Sample

/-- The commitment of one shard, and the proof of it. -/
def sampleLeaf : Leaf where
  key := (shardKeyHash sha256 (.ofAscii "acme") (.ofAscii "openai")).getD
    ⟨List.replicate 8 0, by simp⟩
  hash := (leafHash sha256 (.ofAscii "acme") (.ofAscii "openai") 1 zeroDigest).getD zeroDigest

def sampleProof : Proof where
  checkpointSeq := 1
  tenant := .ofAscii "acme"
  provider := .ofAscii "openai"
  sequence := 1
  headHash := zeroDigest
  path := ⟨SparseMerkle.siblings (nodeHash sha256) (keyBits sampleLeaf.key)
    (fullTree sha256 [sampleLeaf]), by rw [SparseMerkle.length_siblings]; exact length_lowBits _ _⟩

private theorem sampleLeaf_ok : leavesOk [sampleLeaf] := .singleton _

private theorem sampleProof_free :
    PathFree sha256 [sampleLeaf] sampleLeaf.key sampleLeaf.hash sampleProof.path := by
  have hfree := SparseMerkle.pathCollisionFree_siblings (nodeHash sha256) (keyBits sampleLeaf.key)
    (fullTree sha256 [sampleLeaf])
  exact hfree

private theorem sampleProof_verifies : merkleVerify sha256 sampleLeaf.key sampleLeaf.hash
    sampleProof.path (SparseMerkle.root (nodeHash sha256) smtDepth (fullTree sha256 [sampleLeaf])) =
      true := by
  have hclimb := SparseMerkle.climb_siblings (nodeHash sha256) (keyBits sampleLeaf.key)
    (fullTree sha256 [sampleLeaf])
  exact merkleVerify_iff.mpr hclimb

theorem sampleProof_bound :
    ∃ root, merkleRoot sha256 [sampleLeaf] = some root ∧ proofVerify sha256 sampleProof root = true ∧
      ((∃ leaf ∈ [sampleLeaf], leaf.key = sampleLeaf.key ∧ leaf.hash = sampleLeaf.hash) ∨
        ((∀ leaf ∈ [sampleLeaf], leaf.key ≠ sampleLeaf.key) ∧
          sampleLeaf.hash = emptyHash sha256 0)) ∧
      CString.ofAscii "acme" = sampleProof.tenant ∧ CString.ofAscii "openai" = sampleProof.provider ∧
      1 = sampleProof.sequence ∧ zeroDigest = sampleProof.headHash := by
  have hkey : shardKeyHash sha256 (.ofAscii "acme") (.ofAscii "openai") = some sampleLeaf.key := by
    decide
  have hhash : leafHash sha256 (.ofAscii "acme") (.ofAscii "openai") 1 zeroDigest =
      some sampleLeaf.hash := by
    decide +kernel
  have hroot : merkleRoot sha256 [sampleLeaf] =
      some (SparseMerkle.root (nodeHash sha256) smtDepth (fullTree sha256 [sampleLeaf])) :=
    merkleRoot_eq_some_iff.mpr ⟨by decide, sampleLeaf_ok, rfl⟩
  have hproof := proofVerify_iff.mpr
    ⟨(by decide : proofValid sampleProof = true), _, _, hkey, hhash, sampleProof_verifies⟩
  refine ⟨_, hroot, hproof, ?_, ?_⟩
  · exact (merkleVerify_binds hroot).1 _ _ _ sampleProof_free sampleProof_verifies
  · exact (merkleVerify_binds hroot).2 sampleProof _ _ sampleLeaf _ _ _ _ hkey hhash sampleProof_free
      (fun x hx y hy _ => by simp_all [sampleProof]) (by simp) rfl hhash hproof

end Sample

end VaultWitness
