-- SUMMARY: How far the report on a stream depends on the order and the repetition of its frames.
import Aimee.Vault.WitnessSoundness

/-!
# Order and repetition of frames

Two streams are made of the same frames, in any order and any number of times each. The
records that are kept are the same, and the checkpoints that are kept have the same signed
bodies as long as no sequence number has two of them. A fork leaves it to the order which
checkpoint goes on into the run, so the verdict on continuity depends on it. The tamper flag
does not: a fork sets it.
-/

namespace VaultWitness

open SortCollapse

variable {H : HashFn} {ed25519Verify : Ed25519Verify} {anchors : List Anchor}

/-! ## Runs of checkpoints with the same bodies -/

theorem SameBody.signable_eq {a b : Checkpoint} (h : SameBody a b) :
    checkpointSignable a = checkpointSignable b := by
  have hvalid : checkpointValid a = checkpointValid b := by
    simp only [checkpointValid, h.version, h.sigAlg, h.hasPredecessor, h.predecessorDigest,
      h.createdAt]
  rw [checkpointSignable, checkpointSignable, hvalid, h.body_eq]

private theorem checkpointRunFrom_congr {i : Nat} {a b : Checkpoint} {gap : Option Nat}
    {xs ys : List Checkpoint} (hab : SameBody a b) (h : List.Forall₂ SameBody xs ys) :
    checkpointRunFrom H i a gap xs = checkpointRunFrom H i b gap ys := by
  induction h generalizing i a b gap with
  | nil => rfl
  | @cons x y xs ys hxy _ ih =>
    have hdigest : checkpointDigest H a = checkpointDigest H b := by
      rw [checkpointDigest, checkpointDigest, hab.signable_eq]
    have hcontinuity : ∀ d, checkpointContinuity x d = checkpointContinuity y d := by
      intro d
      rw [checkpointContinuity.eq_def, checkpointContinuity.eq_def, hxy.hasPredecessor, hxy.predecessorDigest]
    rw [checkpointRunFrom, checkpointRunFrom, hdigest]
    simp only [hcontinuity, hxy.hasPredecessor, ih hxy]

/-- The run does not look at signatures. -/
theorem verifyCheckpointRun_congr {xs ys : List Checkpoint} (h : List.Forall₂ SameBody xs ys) :
    verifyCheckpointRun H xs = verifyCheckpointRun H ys := by
  cases h with
  | nil => rfl
  | cons hxy h => exact checkpointRunFrom_congr hxy h

/-! ## Streams of the same frames -/

/-- No sequence number has two checkpoints with different signed bodies. -/
def NoFork (H : HashFn) (frames : List (List UInt8)) : Prop :=
  ∀ a ∈ checkpointsOf H frames, ∀ b ∈ checkpointsOf H frames, a.seq = b.seq →
    checkpointSignable a = checkpointSignable b

section SameFrames

variable {q₁ q₂ : Qsort} {fs₁ fs₂ : List (List UInt8)}

private theorem mem_itemsOf_congr (hset : ∀ frame, frame ∈ fs₁ ↔ frame ∈ fs₂) {α : Type}
    {pick : Item → Option α} {x : α} : x ∈ itemsOf H pick fs₁ ↔ x ∈ itemsOf H pick fs₂ := by
  rw [mem_itemsOf, mem_itemsOf]
  exact exists_congr fun frame => and_congr_left fun _ => hset frame

theorem NoFork.kept_sameBody (hset : ∀ frame, frame ∈ fs₁ ↔ frame ∈ fs₂)
    (hfork : NoFork H fs₁) :
    List.Forall₂ SameBody (collapseCheckpoints H q₁ (checkpointsOf H fs₁)).kept
      (collapseCheckpoints H q₂ (checkpointsOf H fs₂)).kept := by
  refine sortCollapse_forall₂ sameSeq_iff
    (sameCheckpoint_digest fun _ => checkpointsOf_valid) (fun _ => mem_itemsOf_congr hset) ?_
  intro a ha b hb hseq
  have hsignable := hfork a ha b hb (cpSortCmp_eq_iff.mp hseq)
  rw [checkpointSignable_of_valid (checkpointsOf_valid ha),
    checkpointSignable_of_valid (checkpointsOf_valid hb)] at hsignable
  exact checkpointBody_inj (checkpointsOf_valid ha) (checkpointsOf_valid hb)
    (Option.some.inj hsignable)

section

variable (h : Clean H ed25519Verify q₁ anchors fs₁)
include h

theorem Clean.kept_records_eq (hset : ∀ frame, frame ∈ fs₁ ↔ frame ∈ fs₂)
    (hcf : CollisionFree H ((recordsOf H fs₁).map recordPreimage)) :
    (collapseRecords H q₁ (recordsOf H fs₁)).kept = (collapseRecords H q₂ (recordsOf H fs₂)).kept := by
  have hvalid : ∀ r ∈ recordsOf H fs₁, RecordValid H r := fun _ => recordsOf_valid
  have hequal : List.Forall₂ Eq (collapseRecords H q₁ (recordsOf H fs₁)).kept
      (collapseRecords H q₂ (recordsOf H fs₂)).kept :=
    sortCollapse_forall₂ samePlace_iff (sameRecord_digest hvalid) (fun _ => mem_itemsOf_congr hset)
      fun a ha b hb => eq_of_samePlace hvalid hcf h.recordConflicts ha hb
  exact List.forall₂_eq_eq_eq ▸ hequal

theorem Clean.kept_checkpoints_eq (hset : ∀ frame, frame ∈ fs₁ ↔ frame ∈ fs₂)
    (hcf : CollisionFree H ((checkpointsOf H fs₁).map checkpointBody))
    (hresigned : NoResigned H fs₁) :
    (collapseCheckpoints H q₁ (checkpointsOf H fs₁)).kept =
      (collapseCheckpoints H q₂ (checkpointsOf H fs₂)).kept := by
  have hvalid : ∀ cp ∈ checkpointsOf H fs₁, checkpointValid cp := fun _ => checkpointsOf_valid
  have hequal : List.Forall₂ Eq (collapseCheckpoints H q₁ (checkpointsOf H fs₁)).kept
      (collapseCheckpoints H q₂ (checkpointsOf H fs₂)).kept := by
    refine sortCollapse_forall₂ sameSeq_iff (sameCheckpoint_digest hvalid)
      (fun _ => mem_itemsOf_congr hset) fun a ha b hb hseq => hresigned.eq ha hb ?_
    exact sameBody_of_seq hvalid hcf h.checkpointConflicts ha hb (cpSortCmp_eq_iff.mp hseq)
  exact List.forall₂_eq_eq_eq ▸ hequal

theorem Clean.of_same_frames (hset : ∀ frame, frame ∈ fs₁ ↔ frame ∈ fs₂) (hcaps : WithinCaps H fs₂)
    (hcf : CollisionFree H (digestInputs H fs₁)) (hresigned : NoResigned H fs₁) :
    Clean H ed25519Verify q₂ anchors fs₂ := by
  have hrecords : (collapseRecords H q₁ (recordsOf H fs₁)).kept =
      (collapseRecords H q₂ (recordsOf H fs₂)).kept :=
    h.kept_records_eq hset (hcf.mono fun _ => List.mem_append_left _)
  have hcheckpoints : (collapseCheckpoints H q₁ (checkpointsOf H fs₁)).kept =
      (collapseCheckpoints H q₂ (checkpointsOf H fs₂)).kept :=
    h.kept_checkpoints_eq hset (hcf.mono fun _ => List.mem_append_right _) hresigned
  refine ⟨?_, hcaps, ?_, ?_, ?_, ?_, ?_, ?_, ?_⟩
  · intro frame hframe
    exact h.items frame ((hset frame).mpr hframe)
  · refine (collapseRecords_conflicts_iff fun _ => recordsOf_valid).mpr fun a ha b hb => ?_
    exact (collapseRecords_conflicts_iff fun _ => recordsOf_valid).mp h.recordConflicts
      a ((mem_itemsOf_congr hset).mpr ha) b ((mem_itemsOf_congr hset).mpr hb)
  · rw [← hrecords]
    exact h.shards
  · refine (collapseCheckpoints_conflicts_iff fun _ => checkpointsOf_valid).mpr fun a ha b hb => ?_
    exact (collapseCheckpoints_conflicts_iff fun _ => checkpointsOf_valid).mp h.checkpointConflicts
      a ((mem_itemsOf_congr hset).mpr ha) b ((mem_itemsOf_congr hset).mpr hb)
  · rw [← hcheckpoints]
    exact h.verdicts
  · rw [← hcheckpoints]
    exact h.run
  · intro p hp
    rw [← hcheckpoints]
    exact h.proofs p ((mem_itemsOf_congr hset).mpr hp)
  · intro sn hsn
    rw [← hcheckpoints]
    exact h.snapshots sn ((mem_itemsOf_congr hset).mpr hsn)

end

private theorem digestInputs_congr (hset : ∀ frame, frame ∈ fs₁ ↔ frame ∈ fs₂)
    {x : List UInt8} (hx : x ∈ digestInputs H fs₂) : x ∈ digestInputs H fs₁ := by
  rcases List.mem_append.mp hx with hx | hx
  · obtain ⟨r, hr, rfl⟩ := List.mem_map.mp hx
    exact List.mem_append_left _ (List.mem_map_of_mem ((mem_itemsOf_congr hset).mpr hr))
  · obtain ⟨cp, hcp, rfl⟩ := List.mem_map.mp hx
    exact List.mem_append_right _ (List.mem_map_of_mem ((mem_itemsOf_congr hset).mpr hcp))

end SameFrames

/-- For two streams made of the same well-formed frames, each within the bounds of the
    vectors: the verdict on continuity is the same where there is no fork, and the tamper flag
    is the same where no signed body comes with two signatures. -/
theorem offlineVerify_order_independent {q₁ q₂ : Qsort} {fs₁ fs₂ : List (List UInt8)}
    (hframes : ∀ frame ∈ fs₁, ∃ kind payload, exportParse frame = .ok kind payload)
    (hset : ∀ frame, frame ∈ fs₁ ↔ frame ∈ fs₂) (hcaps₁ : WithinCaps H fs₁)
    (hcaps₂ : WithinCaps H fs₂) (hcf : CollisionFree H (digestInputs H fs₁)) :
    (NoFork H fs₁ →
      (offlineVerify H ed25519Verify q₁ fs₁.flatten anchors).continuity =
        (offlineVerify H ed25519Verify q₂ fs₂.flatten anchors).continuity) ∧
    (NoResigned H fs₁ →
      (offlineVerify H ed25519Verify q₁ fs₁.flatten anchors).anyTamper =
        (offlineVerify H ed25519Verify q₂ fs₂.flatten anchors).anyTamper) := by
  obtain ⟨hcut₁, htail₁⟩ := streamFrames_of_wellFormed hframes
  have hframes₂ : ∀ frame ∈ fs₂, ∃ kind payload, exportParse frame = .ok kind payload :=
    fun frame hframe => hframes frame ((hset frame).mpr hframe)
  obtain ⟨hcut₂, htail₂⟩ := streamFrames_of_wellFormed hframes₂
  constructor
  · intro hfork
    rw [offlineVerify_continuity (by rw [hcut₁]; exact hcaps₁),
      offlineVerify_continuity (by rw [hcut₂]; exact hcaps₂), hcut₁, hcut₂,
      verifyCheckpointRun_congr (hfork.kept_sameBody hset)]
  · intro hresigned
    have hresigned₂ : NoResigned H fs₂ := fun a ha b hb =>
      hresigned a ((mem_itemsOf_congr hset).mpr ha) b ((mem_itemsOf_congr hset).mpr hb)
    have hiff : (offlineVerify H ed25519Verify q₁ fs₁.flatten anchors).anyTamper = false ↔
        (offlineVerify H ed25519Verify q₂ fs₂.flatten anchors).anyTamper = false := by
      rw [offlineVerify_anyTamper_iff, offlineVerify_anyTamper_iff, hcut₁, hcut₂, htail₁, htail₂]
      refine and_congr_right fun _ => ⟨fun h => ?_, fun h => ?_⟩
      · exact h.of_same_frames hset hcaps₂ hcf hresigned
      · exact h.of_same_frames (fun frame => (hset frame).symm) hcaps₁
          (hcf.mono fun _ => digestInputs_congr hset) hresigned₂
    exact Bool.eq_iff_iff.mpr (by simpa using not_congr hiff)

/-! ## A repeated checkpoint, and a fork -/

section Sample

/-- A checkpoint and the records of a shard. -/
def onceFrames : List (List UInt8) :=
  checkpointFrame (sampleCheckpoint sampleSignature) :: sampleChain.map recordFrame

/-- The same frames, and the checkpoint once more. -/
def repeatedFrames : List (List UInt8) :=
  onceFrames ++ [checkpointFrame (sampleCheckpoint sampleSignature)]

theorem repeatedFrames_same_report :
    (offlineVerify sha256 sampleEd25519 .insertion onceFrames.flatten [sampleAnchor]).continuity =
        (offlineVerify sha256 sampleEd25519 .insertion repeatedFrames.flatten
          [sampleAnchor]).continuity ∧
      (offlineVerify sha256 sampleEd25519 .insertion onceFrames.flatten [sampleAnchor]).anyTamper =
        (offlineVerify sha256 sampleEd25519 .insertion repeatedFrames.flatten
          [sampleAnchor]).anyTamper := by
  have hframes : ∀ frame ∈ onceFrames, ∃ kind payload, exportParse frame = .ok kind payload := by
    intro frame hframe
    rcases List.mem_cons.mp hframe with rfl | hframe
    · exact exportParse_sampleCheckpoint
    · exact exportParse_sampleChain hframe
  have hset : ∀ frame, frame ∈ onceFrames ↔ frame ∈ repeatedFrames := by
    intro frame
    refine ⟨List.mem_append_left _, fun h => ?_⟩
    rcases List.mem_append.mp h with h | h
    · exact h
    · rw [List.mem_singleton.mp h]
      exact List.mem_cons_self
  -- The frames are those of the captured stream, whose items and digests are known.
  have hstream : ∀ frame, frame ∈ streamFrames sampleStream ↔ frame ∈ onceFrames := by
    intro frame
    rw [sampleStream_frames, onceFrames, List.map_append, List.mem_append, List.mem_append, List.mem_singleton,
      List.mem_cons]
    have htake : frame ∈ (sampleChain.take 1).map recordFrame → frame ∈ sampleChain.map recordFrame :=
      fun h => List.map_subset _ (List.take_subset 1 sampleChain) h
    tauto
  have hone : ∀ cp ∈ checkpointsOf sha256 onceFrames, cp = sampleCheckpoint sampleSignature := by
    intro cp hcp
    have hcp : cp ∈ checkpointsOf sha256 (streamFrames sampleStream) := (mem_itemsOf_congr hstream).mpr hcp
    rw [sampleStream_items.2] at hcp
    exact List.mem_singleton.mp hcp
  have hfork : NoFork sha256 onceFrames := fun a ha b hb _ => by rw [hone a ha, hone b hb]
  have hresigned : NoResigned sha256 onceFrames := fun a ha b hb _ => by rw [hone a ha, hone b hb]
  have hcaps₁ : WithinCaps sha256 onceFrames := .of_length (by decide)
  have hcaps₂ : WithinCaps sha256 repeatedFrames := .of_length (by decide)
  have hcf : CollisionFree sha256 (digestInputs sha256 onceFrames) :=
    sampleStream_collisionFree.mono fun _ => digestInputs_congr hstream
  obtain ⟨hcontinuity, htamper⟩ := offlineVerify_order_independent hframes hset hcaps₁ hcaps₂ hcf
  exact ⟨hcontinuity hfork, htamper hresigned⟩

/-- A checkpoint with the number of the first one. -/
def forkedCheckpoint : Checkpoint :=
  { sampleCheckpoint sampleSignature with createdAt := .ofAscii "2026-08-26T01:02:04Z" }

/-- A checkpoint that follows the first one. -/
def nextCheckpoint : Checkpoint :=
  { sampleCheckpoint sampleSignature with
    seq := 2
    hasPredecessor := true
    predecessorDigest := sha256 (checkpointBody (sampleCheckpoint sampleSignature)) }

def forkedFrames : List (List UInt8) :=
  [checkpointFrame (sampleCheckpoint sampleSignature), checkpointFrame forkedCheckpoint,
    checkpointFrame nextCheckpoint]

/-- The same frames with the fork first. -/
def swappedFrames : List (List UInt8) :=
  [checkpointFrame forkedCheckpoint, checkpointFrame (sampleCheckpoint sampleSignature),
    checkpointFrame nextCheckpoint]

/-- The order decides whether the run of a fork is reported as continuous. -/
theorem forkedFrames_continuity :
    (∀ frame ∈ forkedFrames, ∃ kind payload, exportParse frame = .ok kind payload) ∧
    (∀ frame, frame ∈ forkedFrames ↔ frame ∈ swappedFrames) ∧
    (offlineVerify sha256 sampleEd25519 .insertion forkedFrames.flatten []).continuity = .ok ∧
    (offlineVerify sha256 sampleEd25519 .insertion swappedFrames.flatten []).continuity =
      .unproven := by
  refine ⟨?_, fun frame => (List.Perm.swap _ _ _).mem_iff, by decide +kernel, by decide +kernel⟩
  intro frame hframe
  simp only [forkedFrames, List.mem_cons, List.not_mem_nil, or_false] at hframe
  rcases hframe with rfl | rfl | rfl
  · exact exportParse_frameBytes (by decide +kernel)
  · exact exportParse_frameBytes (by decide +kernel)
  · exact exportParse_frameBytes (by decide +kernel)

end Sample

end VaultWitness
