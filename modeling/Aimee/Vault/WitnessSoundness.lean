-- SUMMARY: What a report without tampering proves about the records, proofs, snapshots and checkpoints of a stream.
import Aimee.Vault.WitnessCollapse

/-!
# Soundness of the offline verifier

A clear tamper flag is a statement about every item of the stream, not only about those that
were kept: a record that was dropped is equal to one that was kept, and a checkpoint that was
dropped has the signed body of one that was kept. Its signature is no part of that body and
nothing checks it.
-/

namespace VaultWitness

open SortCollapse

variable {H : HashFn} {ed25519Verify : Ed25519Verify} {q : Qsort} {anchors : List Anchor}

/-! ## Records, proofs and snapshots -/

variable (H) in
/-- The byte strings whose digests the verifier compares. -/
def digestInputs (frames : List (List UInt8)) : List (List UInt8) :=
  (recordsOf H frames).map recordPreimage ++ (checkpointsOf H frames).map checkpointBody

variable (H) in
/-- The records of one shard. -/
def shardRecords (frames : List (List UInt8)) (tenant provider : CString) : List Record :=
  (recordsOf H frames).filter (·.shard = (tenant, provider))

/-- The records of a shard form a chain from its genesis on, with one digest at each place. -/
structure ShardChain (H : HashFn) (tenant provider : CString) (records : List Record) : Prop where
  digests : ∀ a ∈ records, ∀ b ∈ records, a.shardSeq = b.shardSeq →
    ∃ d, recordDigest H a = some d ∧ recordDigest H b = some d
  seqs : ∃ k, ∀ n, (∃ r ∈ records, r.shardSeq.toNat = n) ↔ 1 ≤ n ∧ n ≤ k
  genesis : ∀ r ∈ records, r.shardSeq = 1 →
    genesisSentinel H tenant provider = some r.witnessPredHash
  links : ∀ p ∈ records, ∀ r ∈ records, r.shardSeq.toNat = p.shardSeq.toNat + 1 →
    recordDigest H p = some r.witnessPredHash

/-- What a report without tampering says about everything but the checkpoints. -/
structure StreamSound (H : HashFn) (frames : List (List UInt8)) : Prop where
  wellFormed : ∀ frame ∈ frames, (∃ kind payload, exportParse frame = .ok kind payload) ∧
    ∃ item, frameItem H frame = some item
  shards : ∀ tenant provider, ShardChain H tenant provider (shardRecords H frames tenant provider)
  proofs : ∀ p ∈ proofsOf H frames, ∀ cp ∈ checkpointsOf H frames, cp.seq = p.checkpointSeq →
    proofVerify H p cp.root
  snapshots : ∀ sn ∈ snapshotsOf H frames, ∀ cp ∈ checkpointsOf H frames, cp.seq = sn.seq →
    H sn.bytes = cp.leafSnapshotDigest ∧ snapshotRebuildsRoot H sn.bytes cp.root = some true

variable {provider tenant : CString} {cp : Checkpoint}

section Clean

variable {frames : List (List UInt8)}

/-- A chain that was accepted, read as a set of records. -/
private theorem shardChain_of_verifyChain {chain records : List Record}
    (hok : (verifyChain H chain).1 = .ok) (hmem : ∀ r, r ∈ records ↔ r ∈ chain)
    (hshard : ∀ r ∈ records, r.shard = (tenant, provider)) : ShardChain H tenant provider records := by
  have hvalid : ∀ r ∈ records, RecordValid H r := fun r hr =>
    (verifyChain_ok_iff.mp hok).1 r ((hmem r).mp hr)
  have hchain := verifyChain_isChain hok
  refine ⟨?_, ⟨chain.length, fun n => ?_⟩, ?_, ?_⟩
  · intro a ha b hb hseq
    have hpos : (recordLinks H).position a = (recordLinks H).position b := congrArg UInt64.toNat hseq
    obtain rfl := hchain.eq_of_position ((hmem a).mp ha) ((hmem b).mp hb) hpos
    have hd := recordDigest_eq_some_iff.mpr ⟨hvalid a ha, rfl⟩
    exact ⟨_, hd, hd⟩
  · rw [← hchain.exists_position_iff]
    exact exists_congr fun r => and_congr_left fun _ => hmem r
  · intro r hr hseq
    obtain ⟨rfl, rfl⟩ := Prod.mk.inj (hshard r hr)
    exact (hvalid r hr).genesis_of_first hseq
  · intro p hp r hr hseq
    exact (hchain.follows ((hmem p).mp hp) ((hmem r).mp hr) hseq).2.symm

private theorem shardChain_nil : ShardChain H tenant provider [] := by
  refine ⟨fun a ha => ?_, ⟨0, fun n => ?_⟩, fun r hr => ?_, fun p hp => ?_⟩
  · cases ha
  · refine iff_of_false ?_ fun h => absurd (h.1.trans h.2) (by decide)
    rintro ⟨r, hr, -⟩
    cases hr
  · cases hr
  · cases hp

section

variable (h : Clean H ed25519Verify q anchors frames)
include h

theorem Clean.shards_sound
    (hcf : CollisionFree H ((recordsOf H frames).map recordPreimage)) (tenant provider : CString) :
    ShardChain H tenant provider (shardRecords H frames tenant provider) := by
  have hkept : ∀ {r}, r ∈ (collapseRecords H q (recordsOf H frames)).kept ↔ r ∈ recordsOf H frames :=
    mem_collapseRecords_iff (fun _ => recordsOf_valid) hcf h.recordConflicts
  have hshard : ∀ r ∈ shardRecords H frames tenant provider, r.shard = (tenant, provider) :=
    fun r hr => of_decide_eq_true (List.mem_filter.mp hr).2
  cases hrecords : shardRecords H frames tenant provider with
  | nil => exact shardChain_nil
  | cons first rest =>
    have hfirst : first ∈ shardRecords H frames tenant provider := hrecords ▸ List.mem_cons_self
    have hgroup := h.shards _ (mem_groups_collapseRecords.mpr
      ⟨first, hkept.mpr (List.mem_filter.mp hfirst).1, rfl⟩)
    rw [hshard first hfirst] at hgroup
    rw [← hrecords]
    refine shardChain_of_verifyChain hgroup (fun r => ?_) hshard
    rw [shardRecords, List.mem_filter, List.mem_filter, hkept]

/-- A sequence number finds the checkpoint that was kept for it, and that has the body of every
    checkpoint with this number. -/
private theorem Clean.find? (hcf : CollisionFree H ((checkpointsOf H frames).map checkpointBody))
    (hcp : cp ∈ checkpointsOf H frames) :
    ∃ r ∈ (collapseCheckpoints H q (checkpointsOf H frames)).kept,
      (collapseCheckpoints H q (checkpointsOf H frames)).kept.find? (·.seq = cp.seq) = some r ∧
        r ∈ checkpointsOf H frames ∧ SameBody r cp := by
  have hvalid : ∀ cp ∈ checkpointsOf H frames, checkpointValid cp := fun _ => checkpointsOf_valid
  obtain ⟨r, hr, hfind, hkept, hseq⟩ := find?_collapseCheckpoints (H := H) (q := q) hvalid hcp
  exact ⟨r, hkept, hfind, hr, sameBody_of_seq hvalid hcf h.checkpointConflicts hr hcp hseq⟩

theorem Clean.proofs_sound (hcf : CollisionFree H ((checkpointsOf H frames).map checkpointBody)) {p : Proof}
    (hp : p ∈ proofsOf H frames) (hcp : cp ∈ checkpointsOf H frames)
    (hseq : cp.seq = p.checkpointSeq) : proofVerify H p cp.root := by
  obtain ⟨r, -, hfind, -, hbody⟩ := h.find? hcf hcp
  rw [← hbody.root]
  exact h.proofs p hp r (hseq ▸ hfind)

theorem Clean.snapshots_sound
    (hcf : CollisionFree H ((checkpointsOf H frames).map checkpointBody)) {sn : Snapshot}
    (hsn : sn ∈ snapshotsOf H frames) (hcp : cp ∈ checkpointsOf H frames)
    (hseq : cp.seq = sn.seq) :
    H sn.bytes = cp.leafSnapshotDigest ∧ snapshotRebuildsRoot H sn.bytes cp.root = some true := by
  obtain ⟨r, -, hfind, -, hbody⟩ := h.find? hcf hcp
  rw [← hbody.root, ← hbody.leafSnapshotDigest]
  exact h.snapshots sn hsn r (hseq ▸ hfind)

end

end Clean

/-- A stream that is reported without tampering is a concatenation of frames, and all of its
    records, proofs and snapshots are sound. -/
theorem offlineVerify_sound {stream : List UInt8}
    (htamper : (offlineVerify H ed25519Verify q stream anchors).anyTamper = false)
    (hcf : CollisionFree H (digestInputs H (streamFrames stream))) :
    (streamFrames stream).flatten = stream ∧ StreamSound H (streamFrames stream) := by
  obtain ⟨htail, hclean⟩ := (offlineVerify_anyTamper_iff H ed25519Verify q stream anchors).mp htamper
  have hrecords : CollisionFree H ((recordsOf H (streamFrames stream)).map recordPreimage) :=
    hcf.mono fun _ => List.mem_append_left _
  have hcheckpoints : CollisionFree H ((checkpointsOf H (streamFrames stream)).map checkpointBody) :=
    hcf.mono fun _ => List.mem_append_right _
  refine ⟨?_, ?_, hclean.shards_sound hrecords, ?_, ?_⟩
  · have hcut := streamFrames_flatten stream
    rwa [htail, List.append_nil] at hcut
  · intro frame hframe
    obtain ⟨item, hitem⟩ := Option.isSome_iff_exists.mp (hclean.items frame hframe)
    obtain ⟨kind, payload, hparse, -⟩ := frameItem_eq_some hitem
    exact ⟨⟨kind, payload, hparse⟩, item, hitem⟩
  · intro p hp cp hcp hseq
    exact hclean.proofs_sound hcheckpoints hp hcp hseq
  · intro sn hsn cp hcp hseq
    exact hclean.snapshots_sound hcheckpoints hsn hcp hseq

/-! ### A captured stream -/

section Sample

/-- The key of one signer. -/
def sampleAnchor : Anchor where
  keyId := ⟨List.replicate 16 1, by simp⟩
  ed25519Pub := ⟨Wire.beBytes 32
    0xcf9f62f93b56ebd1ab297641cf656aad57162278b04d1154fd4020b4fc00bf73, by simp⟩
  revoked := false

/-- The first checkpoint of a run. -/
def sampleCheckpoint (signature : Block 64) : Checkpoint where
  version := 1
  seq := 1
  root := zeroDigest
  hasPredecessor := false
  predecessorDigest := zeroDigest
  shardCount := 1
  leafSnapshotDigest := zeroDigest
  signerKeyId := sampleAnchor.keyId
  sigAlg := sigEd25519
  sigVersion := 1
  createdAt := .ofAscii "2026-08-26T01:02:03Z"
  signature := signature

/-- The Ed25519 signature of that checkpoint under the key. -/
def sampleSignature : Block 64 :=
  ⟨Wire.beBytes 64
    0xe070dc9a41b1ce91a6a450d09b468b2626d937bf7a7bec0d9f0be527e7042098a9b47b30ee46345ca8911b49e96247f04c91fc42b7fe6d15f0eebc089fcfac0a,
    by simp⟩

/-- Ed25519 on this key and this checkpoint. -/
def sampleEd25519 : Ed25519Verify := fun pub message signature =>
  pub = sampleAnchor.ed25519Pub ∧ message = checkpointBody (sampleCheckpoint sampleSignature) ∧
    signature = sampleSignature

def recordFrame (r : Record) : List UInt8 := frameBytes .record (recordWire r)

def checkpointFrame (cp : Checkpoint) : List UInt8 :=
  frameBytes .checkpoint (checkpointBody cp ++ cp.signature.val)

/-- A shard of two records, the first one emitted twice, and a checkpoint. -/
def sampleStream : List UInt8 :=
  (sampleChain ++ sampleChain.take 1).flatMap recordFrame ++
    checkpointFrame (sampleCheckpoint sampleSignature)

private theorem sampleStream_anyTamper :
    (offlineVerify sha256 sampleEd25519 .insertion sampleStream [sampleAnchor]).anyTamper = false := by
  decide +kernel

theorem exportParse_frameBytes {kind : ExportKind} {payload : List UInt8} (h : payload.length < 2 ^ 32) :
    ∃ kind' payload', exportParse (frameBytes kind payload) = .ok kind' payload' :=
  ⟨kind, payload, exportParse_eq_ok_iff.mpr ⟨rfl, h⟩⟩

theorem exportParse_sampleChain {frame : List UInt8} (h : frame ∈ sampleChain.map recordFrame) :
    ∃ kind payload, exportParse frame = .ok kind payload := by
  obtain ⟨r, hr, rfl⟩ := List.mem_map.mp h
  have hlength : ∀ r ∈ sampleChain, (recordWire r).length < 2 ^ 32 := by decide +kernel
  exact exportParse_frameBytes (hlength r hr)

theorem exportParse_sampleCheckpoint :
    ∃ kind payload, exportParse (checkpointFrame (sampleCheckpoint sampleSignature)) = .ok kind payload :=
  exportParse_frameBytes (by decide +kernel)

theorem sampleStream_frames :
    streamFrames sampleStream =
      (sampleChain ++ sampleChain.take 1).map recordFrame ++ [checkpointFrame (sampleCheckpoint sampleSignature)] := by
  have hstream : sampleStream =
      ((sampleChain ++ sampleChain.take 1).map recordFrame ++
        [checkpointFrame (sampleCheckpoint sampleSignature)]).flatten := by
    rw [sampleStream, List.flatMap_def, List.flatten_append, List.flatten_singleton]
  rw [hstream]
  refine (streamFrames_of_wellFormed fun frame hframe => ?_).1
  rcases List.mem_append.mp hframe with hframe | hframe
  · rw [List.map_append, List.mem_append] at hframe
    rcases hframe with hframe | hframe
    · exact exportParse_sampleChain hframe
    · exact exportParse_sampleChain (List.map_subset _ (List.take_subset 1 sampleChain) hframe)
  · rw [List.mem_singleton.mp hframe]
    exact exportParse_sampleCheckpoint

theorem sampleStream_items :
    recordsOf sha256 (streamFrames sampleStream) = sampleChain ++ sampleChain.take 1 ∧
      checkpointsOf sha256 (streamFrames sampleStream) = [sampleCheckpoint sampleSignature] := by
  exact ⟨by decide +kernel, by decide +kernel⟩

/-- The two records and the checkpoint have different digests. -/
theorem sampleStream_collisionFree : CollisionFree sha256 (digestInputs sha256 (streamFrames sampleStream)) := by
  have hdistinct : CollisionFree sha256
      (sampleChain.map recordPreimage ++ [checkpointBody (sampleCheckpoint sampleSignature)]) :=
    .of_pairwise (by decide +kernel)
  refine hdistinct.mono fun x hx => ?_
  rw [digestInputs, sampleStream_items.1, sampleStream_items.2, List.map_append] at hx
  rcases List.mem_append.mp hx with hx | hx
  · rcases List.mem_append.mp hx with hx | hx
    · exact List.mem_append_left _ hx
    · exact List.mem_append_left _ (List.map_subset _ (List.take_subset 1 sampleChain) hx)
  · exact List.mem_append_right _ hx

theorem sampleStream_sound :
    (streamFrames sampleStream).flatten = sampleStream ∧ (streamFrames sampleStream).length = 4 ∧
      StreamSound sha256 (streamFrames sampleStream) := by
  obtain ⟨hcut, hsound⟩ := offlineVerify_sound sampleStream_anyTamper sampleStream_collisionFree
  exact ⟨hcut, by rw [sampleStream_frames]; rfl, hsound⟩

end Sample

/-! ## Checkpoints -/

/-- What is asked of every checkpoint of a stream: its signature is accepted under a known
    anchor that is not revoked, and no other frame has its sequence number. -/
structure CheckpointsSound (H : HashFn) (ed25519Verify : Ed25519Verify) (anchors : List Anchor)
    (frames : List (List UInt8)) : Prop where
  signatures : ∀ frame ∈ frames, ∀ cp, frameItem H frame = some (.checkpoint cp) →
    checkpointVerify ed25519Verify anchors cp = .ok ∧
      ∃ anchor ∈ anchors, anchor.keyId = cp.signerKeyId ∧ anchor.revoked = false
  identical : ∀ f ∈ frames, ∀ g ∈ frames, ∀ a b, frameItem H f = some (.checkpoint a) →
    frameItem H g = some (.checkpoint b) → a.seq = b.seq → f = g

/-- No two checkpoints of the frames have one signed body and different signatures. -/
def NoResigned (H : HashFn) (frames : List (List UInt8)) : Prop :=
  ∀ a ∈ checkpointsOf H frames, ∀ b ∈ checkpointsOf H frames,
    checkpointSignable a = checkpointSignable b → a.signature = b.signature

theorem checkpointSignable_of_valid (h : checkpointValid cp) :
    checkpointSignable cp = some (checkpointBody cp) := by
  simp [checkpointSignable, h]

/-- An accepted signature is one under an anchor that is known and not revoked. -/
theorem checkpointVerify_ok (h : checkpointVerify ed25519Verify anchors cp = .ok) :
    ∃ anchor ∈ anchors, anchor.keyId = cp.signerKeyId ∧ anchor.revoked = false := by
  unfold checkpointVerify at h
  split at h
  · cases h
  split at h
  · cases h
  · rename_i anchor hfind
    split at h
    · cases h
    · rename_i hrevoked
      exact ⟨anchor, List.mem_of_find?_eq_some hfind, by simpa using List.find?_some hfind,
        by simpa using hrevoked⟩

theorem NoResigned.eq {frames : List (List UInt8)} (h : NoResigned H frames) {a b : Checkpoint}
    (ha : a ∈ checkpointsOf H frames) (hb : b ∈ checkpointsOf H frames) (hbody : SameBody a b) :
    a = b := by
  refine hbody.eq (h a ha b hb ?_)
  rw [checkpointSignable_of_valid (checkpointsOf_valid ha),
    checkpointSignable_of_valid (checkpointsOf_valid hb), hbody.body_eq]

private theorem Clean.checkpointsSound {frames : List (List UInt8)}
    (h : Clean H ed25519Verify q anchors frames)
    (hcf : CollisionFree H ((checkpointsOf H frames).map checkpointBody))
    (hresigned : NoResigned H frames) : CheckpointsSound H ed25519Verify anchors frames := by
  have hvalid : ∀ cp ∈ checkpointsOf H frames, checkpointValid cp := fun _ => checkpointsOf_valid
  refine ⟨?_, ?_⟩
  · intro frame hframe cp hitem
    have hcp := mem_checkpointsOf.mpr ⟨frame, hframe, hitem⟩
    obtain ⟨r, hkept, -, hr, hbody⟩ := h.find? hcf hcp
    have hok := h.verdicts r hkept
    rw [hresigned.eq hr hcp hbody] at hok
    exact ⟨hok, checkpointVerify_ok hok⟩
  · intro f hf g hg a b hfa hgb hseq
    have ha := mem_checkpointsOf.mpr ⟨f, hf, hfa⟩
    have hb := mem_checkpointsOf.mpr ⟨g, hg, hgb⟩
    have hbody := sameBody_of_seq hvalid hcf h.checkpointConflicts ha hb hseq
    rw [hresigned.eq ha hb hbody] at hfa
    exact checkpoint_frame_unique hfa hgb

private theorem CheckpointsSound.noResigned {frames : List (List UInt8)}
    (h : CheckpointsSound H ed25519Verify anchors frames) : NoResigned H frames := by
  intro a ha b hb hsignable
  obtain ⟨f, hf, hfa⟩ := mem_checkpointsOf.mp ha
  obtain ⟨g, hg, hgb⟩ := mem_checkpointsOf.mp hb
  rw [checkpointSignable_of_valid (checkpointsOf_valid ha),
    checkpointSignable_of_valid (checkpointsOf_valid hb)] at hsignable
  have hbody := checkpointBody_inj (checkpointsOf_valid ha) (checkpointsOf_valid hb)
    (Option.some.inj hsignable)
  obtain rfl := h.identical f hf g hg a b hfa hgb hbody.seq
  obtain rfl : a = b := Item.checkpoint.inj (Option.some.inj (hfa.symm.trans hgb))
  rfl

/-- A report without tampering holds for every checkpoint of the stream exactly where no signed
    body comes with two signatures: only one of them is checked. -/
theorem offlineVerify_checkpointsSound_iff {stream : List UInt8}
    (htamper : (offlineVerify H ed25519Verify q stream anchors).anyTamper = false)
    (hcf : CollisionFree H ((checkpointsOf H (streamFrames stream)).map checkpointBody)) :
    CheckpointsSound H ed25519Verify anchors (streamFrames stream) ↔
      NoResigned H (streamFrames stream) := by
  obtain ⟨-, hclean⟩ := (offlineVerify_anyTamper_iff H ed25519Verify q stream anchors).mp htamper
  exact ⟨CheckpointsSound.noResigned, hclean.checkpointsSound hcf⟩

section Sample

theorem sampleStream_checkpointsSound :
    CheckpointsSound sha256 sampleEd25519 [sampleAnchor] (streamFrames sampleStream) := by
  have hresigned : NoResigned sha256 (streamFrames sampleStream) := by
    rw [NoResigned, sampleStream_items.2]
    intro a ha b hb _
    rw [List.mem_singleton.mp ha, List.mem_singleton.mp hb]
  refine (offlineVerify_checkpointsSound_iff sampleStream_anyTamper ?_).mpr hresigned
  exact sampleStream_collisionFree.mono fun x hx => List.mem_append_right _ hx

/-- The checkpoint, and behind it the same body with 64 zero bytes for a signature. -/
def resignedStream : List UInt8 :=
  checkpointFrame (sampleCheckpoint sampleSignature) ++
    checkpointFrame (sampleCheckpoint ⟨List.replicate 64 0, by simp⟩)

/-- No tampering is reported, and the second checkpoint has no valid signature. -/
theorem resignedStream_not_checkpointsSound :
    (offlineVerify sha256 sampleEd25519 .insertion resignedStream
      [sampleAnchor]).anyTamper = false ∧
    ¬ CheckpointsSound sha256 sampleEd25519 [sampleAnchor] (streamFrames resignedStream) := by
  refine ⟨by decide +kernel, fun hsound => ?_⟩
  have hforged := hsound.signatures (checkpointFrame (sampleCheckpoint ⟨List.replicate 64 0, by simp⟩))
    (by decide +kernel) (sampleCheckpoint ⟨List.replicate 64 0, by simp⟩) (by decide +kernel)
  exact absurd hforged.1 (by decide +kernel)

end Sample

end VaultWitness
