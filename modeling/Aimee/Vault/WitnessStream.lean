-- SUMMARY: What the offline verifier collects from a stream, and what has to hold for a report without tampering.
import Aimee.Vault.WitnessOffline

/-!
# What a report says about a stream

The frame loop is a fold over the frames of the stream, and its vectors hold the items of
these frames up to the bound. Every later phase keeps a tamper flag that is set, so the flag
is clear at the end exactly where nothing set it, and that is a condition on the items.
-/

namespace VaultWitness

open SortCollapse

/-! ## The items of a list of frames -/

def Item.record? : Item → Option Record
  | .record r => some r
  | _ => none

def Item.checkpoint? : Item → Option Checkpoint
  | .checkpoint cp => some cp
  | _ => none

def Item.proof? : Item → Option Proof
  | .proof p => some p
  | _ => none

def Item.snapshot? : Item → Option Snapshot
  | .snapshot sn => some sn
  | _ => none

section Items

variable (H : HashFn)

/-- The items of one kind, in the order of their frames. -/
def itemsOf {α : Type} (pick : Item → Option α) (frames : List (List UInt8)) : List α :=
  frames.filterMap fun frame => (frameItem H frame).bind pick

def recordsOf : List (List UInt8) → List Record := itemsOf H Item.record?
def checkpointsOf : List (List UInt8) → List Checkpoint := itemsOf H Item.checkpoint?
def proofsOf : List (List UInt8) → List Proof := itemsOf H Item.proof?
def snapshotsOf : List (List UInt8) → List Snapshot := itemsOf H Item.snapshot?

/-- Every vector has room for its items. -/
structure WithinCaps (frames : List (List UInt8)) : Prop where
  records : (recordsOf H frames).length ≤ offlineMaxItems
  checkpoints : (checkpointsOf H frames).length ≤ offlineMaxItems
  proofs : (proofsOf H frames).length ≤ offlineMaxItems
  snapshots : (snapshotsOf H frames).length ≤ offlineMaxItems

end Items

variable {H : HashFn}

theorem frameItem_eq_some {frame : List UInt8} {item : Item} (h : frameItem H frame = some item) :
    ∃ kind payload, exportParse frame = .ok kind payload ∧
      match item with
      | .record r => kind = .record ∧ recordDecode H payload = some r
      | .checkpoint cp => kind = .checkpoint ∧ checkpointDecode payload = some cp
      | .proof p => kind = .proof ∧ proofDecode payload = some p
      | .snapshot sn => kind = .snapshot ∧ sn.bytes = payload.drop 8 := by
  unfold frameItem at h
  split at h
  · cases h
  · cases h
  · rename_i payload hparse
    obtain ⟨r, hdecode, rfl⟩ := Option.map_eq_some_iff.mp h
    exact ⟨_, payload, hparse, rfl, hdecode⟩
  · rename_i payload hparse
    obtain ⟨cp, hdecode, rfl⟩ := Option.map_eq_some_iff.mp h
    exact ⟨_, payload, hparse, rfl, hdecode⟩
  · rename_i payload hparse
    obtain ⟨p, hdecode, rfl⟩ := Option.map_eq_some_iff.mp h
    exact ⟨_, payload, hparse, rfl, hdecode⟩
  · rename_i payload hparse
    split at h
    · cases h
    · cases h
      exact ⟨_, payload, hparse, rfl, rfl⟩

theorem mem_itemsOf {α : Type} {pick : Item → Option α} {frames : List (List UInt8)} {x : α} :
    x ∈ itemsOf H pick frames ↔
      ∃ frame ∈ frames, ∃ item, frameItem H frame = some item ∧ pick item = some x := by
  simp [itemsOf, Option.bind_eq_some_iff]

/-- A list that is short enough as a whole is within the bounds. -/
theorem WithinCaps.of_length {frames : List (List UInt8)} (h : frames.length ≤ offlineMaxItems) :
    WithinCaps H frames := by
  have hitems : ∀ {α : Type} (pick : Item → Option α),
      (itemsOf H pick frames).length ≤ offlineMaxItems :=
    fun pick => (List.length_filterMap_le _ _).trans h
  exact ⟨hitems _, hitems _, hitems _, hitems _⟩

theorem mem_recordsOf {frames : List (List UInt8)} {r : Record} :
    r ∈ recordsOf H frames ↔ ∃ frame ∈ frames, frameItem H frame = some (.record r) := by
  have hpick : ∀ item : Item, item.record? = some r ↔ item = .record r := by
    intro item
    cases item <;> simp [Item.record?]
  simp [recordsOf, mem_itemsOf, hpick]

theorem mem_checkpointsOf {frames : List (List UInt8)} {cp : Checkpoint} :
    cp ∈ checkpointsOf H frames ↔ ∃ frame ∈ frames, frameItem H frame = some (.checkpoint cp) := by
  have hpick : ∀ item : Item, item.checkpoint? = some cp ↔ item = .checkpoint cp := by
    intro item
    cases item <;> simp [Item.checkpoint?]
  simp [checkpointsOf, mem_itemsOf, hpick]

/-! ## The frame loop -/

/-- A vector holds the items of one kind, up to the bound. -/
def Held {α : Type} (H : HashFn) (pick : Item → Option α) (frames : List (List UInt8))
    (v : List α) : Prop :=
  v = (itemsOf H pick frames).take offlineMaxItems

def Fits {α : Type} (H : HashFn) (pick : Item → Option α) (frames : List (List UInt8)) : Prop :=
  (itemsOf H pick frames).length ≤ offlineMaxItems

section Vector

variable {α : Type} {pick : Item → Option α} {frames : List (List UInt8)} {frame : List UInt8}

private theorem itemsOf_skip (hpick : (frameItem H frame).bind pick = none) :
    itemsOf H pick (frames ++ [frame]) = itemsOf H pick frames := by
  simp [itemsOf, hpick]

private theorem itemsOf_add {x : α} (hpick : (frameItem H frame).bind pick = some x) :
    itemsOf H pick (frames ++ [frame]) = itemsOf H pick frames ++ [x] := by
  simp [itemsOf, hpick]

private theorem Held.skip {v : List α} (h : Held H pick frames v)
    (hpick : (frameItem H frame).bind pick = none) : Held H pick (frames ++ [frame]) v := by
  rw [Held, itemsOf_skip hpick]
  exact h

private theorem fits_skip (hpick : (frameItem H frame).bind pick = none) :
    Fits H pick (frames ++ [frame]) ↔ Fits H pick frames := by
  rw [Fits, itemsOf_skip hpick, Fits]

/-- A push appends, or leaves a full vector as it is. -/
private theorem Held.push {v : List α} (h : Held H pick frames v) {x : α}
    (hpick : (frameItem H frame).bind pick = some x) :
    (∃ v', push v x = some v' ∧ Held H pick (frames ++ [frame]) v' ∧
        Fits H pick (frames ++ [frame]) ∧ Fits H pick frames) ∨
      (VaultWitness.push v x = none ∧ Held H pick (frames ++ [frame]) v ∧
        ¬ Fits H pick (frames ++ [frame])) := by
  unfold Held Fits at *
  rw [itemsOf_add hpick]
  generalize itemsOf H pick frames = l at h
  have hlength : (l ++ [x]).length = l.length + 1 := by simp
  by_cases hroom : l.length < offlineMaxItems
  · have hv : v = l := h.trans (List.take_of_length_le hroom.le)
    have hfits : (l ++ [x]).length ≤ offlineMaxItems := hlength ▸ hroom
    refine .inl ⟨l ++ [x], ?_, (List.take_of_length_le hfits).symm, hfits, hroom.le⟩
    rw [VaultWitness.push, hv, if_pos hroom]
  · have hfull : offlineMaxItems ≤ l.length := Nat.le_of_not_lt hroom
    have hv : v.length = offlineMaxItems := by rw [h, List.length_take, Nat.min_eq_left hfull]
    refine .inr ⟨?_, ?_, ?_⟩
    · rw [VaultWitness.push, if_neg (hv ▸ lt_irrefl _)]
    · rw [h, List.take_append_of_le_length hfull]
    · rw [hlength]
      exact Nat.not_le_of_lt (Nat.lt_succ_of_le hfull)

end Vector

private theorem withinCaps_congr {frames frames' : List (List UInt8)}
    (hrecs : Fits H Item.record? frames' ↔ Fits H Item.record? frames)
    (hcps : Fits H Item.checkpoint? frames' ↔ Fits H Item.checkpoint? frames)
    (hpfs : Fits H Item.proof? frames' ↔ Fits H Item.proof? frames)
    (hsns : Fits H Item.snapshot? frames' ↔ Fits H Item.snapshot? frames) :
    WithinCaps H frames ↔ WithinCaps H frames' :=
  ⟨fun h => ⟨hrecs.mpr h.records, hcps.mpr h.checkpoints, hpfs.mpr h.proofs, hsns.mpr h.snapshots⟩,
    fun h => ⟨hrecs.mp h.records, hcps.mp h.checkpoints, hpfs.mp h.proofs, hsns.mp h.snapshots⟩⟩

/-- What the loop holds after some frames. -/
structure Gathered (H : HashFn) (frames : List (List UInt8)) (c : Collected) : Prop where
  recs : Held H Item.record? frames c.recs
  cps : Held H Item.checkpoint? frames c.cps
  pfs : Held H Item.proof? frames c.pfs
  sns : Held H Item.snapshot? frames c.sns
  clean : c.report.anyTamper = false ↔
    (∀ frame ∈ frames, (frameItem H frame).isSome) ∧ WithinCaps H frames

/-- One round of the loop. -/
theorem Gathered.collectFrame {frames : List (List UInt8)} {c : Collected}
    (h : Gathered H frames c) (frame : List UInt8) :
    Gathered H (frames ++ [frame]) (collectFrame H c frame) := by
  unfold VaultWitness.collectFrame
  replace h : Gathered H frames { c with report.frames := c.report.frames + 1 } :=
    ⟨h.recs, h.cps, h.pfs, h.sns, h.clean⟩
  generalize { c with report.frames := c.report.frames + 1 } = c at h ⊢
  cases hitem : frameItem H frame with
  | none =>
    have hnone : ∀ {α : Type} (pick : Item → Option α), (frameItem H frame).bind pick = none := by
      intro α pick
      rw [hitem]
      rfl
    refine ⟨h.recs.skip (hnone _), h.cps.skip (hnone _), h.pfs.skip (hnone _),
      h.sns.skip (hnone _), iff_of_false Bool.noConfusion fun hall => ?_⟩
    have := hall.1 frame (List.mem_append_right _ List.mem_cons_self)
    rw [hitem] at this
    cases this
  | some item =>
    have hall : (∀ f ∈ frames ++ [frame], (frameItem H f).isSome) ↔
        ∀ f ∈ frames, (frameItem H f).isSome := by
      simp [or_imp, forall_and, hitem]
    cases item with
    | record r =>
      have hrecs : (frameItem H frame).bind Item.record? = some r := by rw [hitem]; rfl
      have hcps : (frameItem H frame).bind Item.checkpoint? = none := by rw [hitem]; rfl
      have hpfs : (frameItem H frame).bind Item.proof? = none := by rw [hitem]; rfl
      have hsns : (frameItem H frame).bind Item.snapshot? = none := by rw [hitem]; rfl
      rcases h.recs.push hrecs with ⟨v, hpush, hheld, hfits, hfits'⟩ | ⟨hpush, hheld, hover⟩
      · simp only [Option.bind_some, Collected.add, recPush, hpush, Option.map_some]
        refine ⟨hheld, h.cps.skip hcps, h.pfs.skip hpfs, h.sns.skip hsns, ?_⟩
        exact h.clean.trans (and_congr hall.symm
          (withinCaps_congr (iff_of_true hfits hfits') (fits_skip hcps) (fits_skip hpfs) (fits_skip hsns)))
      · simp only [Option.bind_some, Collected.add, recPush, hpush, Option.map_none]
        refine ⟨hheld, h.cps.skip hcps, h.pfs.skip hpfs, h.sns.skip hsns, ?_⟩
        exact iff_of_false Bool.noConfusion fun w => hover w.2.records
    | checkpoint cp =>
      have hrecs : (frameItem H frame).bind Item.record? = none := by rw [hitem]; rfl
      have hcps : (frameItem H frame).bind Item.checkpoint? = some cp := by rw [hitem]; rfl
      have hpfs : (frameItem H frame).bind Item.proof? = none := by rw [hitem]; rfl
      have hsns : (frameItem H frame).bind Item.snapshot? = none := by rw [hitem]; rfl
      rcases h.cps.push hcps with ⟨v, hpush, hheld, hfits, hfits'⟩ | ⟨hpush, hheld, hover⟩
      · simp only [Option.bind_some, Collected.add, cpPush, hpush, Option.map_some]
        refine ⟨h.recs.skip hrecs, hheld, h.pfs.skip hpfs, h.sns.skip hsns, ?_⟩
        exact h.clean.trans (and_congr hall.symm
          (withinCaps_congr (fits_skip hrecs) (iff_of_true hfits hfits') (fits_skip hpfs) (fits_skip hsns)))
      · simp only [Option.bind_some, Collected.add, cpPush, hpush, Option.map_none]
        refine ⟨h.recs.skip hrecs, hheld, h.pfs.skip hpfs, h.sns.skip hsns, ?_⟩
        exact iff_of_false Bool.noConfusion fun w => hover w.2.checkpoints
    | proof p =>
      have hrecs : (frameItem H frame).bind Item.record? = none := by rw [hitem]; rfl
      have hcps : (frameItem H frame).bind Item.checkpoint? = none := by rw [hitem]; rfl
      have hpfs : (frameItem H frame).bind Item.proof? = some p := by rw [hitem]; rfl
      have hsns : (frameItem H frame).bind Item.snapshot? = none := by rw [hitem]; rfl
      rcases h.pfs.push hpfs with ⟨v, hpush, hheld, hfits, hfits'⟩ | ⟨hpush, hheld, hover⟩
      · simp only [Option.bind_some, Collected.add, pfPush, hpush, Option.map_some]
        refine ⟨h.recs.skip hrecs, h.cps.skip hcps, hheld, h.sns.skip hsns, ?_⟩
        exact h.clean.trans (and_congr hall.symm
          (withinCaps_congr (fits_skip hrecs) (fits_skip hcps) (iff_of_true hfits hfits') (fits_skip hsns)))
      · simp only [Option.bind_some, Collected.add, pfPush, hpush, Option.map_none]
        refine ⟨h.recs.skip hrecs, h.cps.skip hcps, hheld, h.sns.skip hsns, ?_⟩
        exact iff_of_false Bool.noConfusion fun w => hover w.2.proofs
    | snapshot sn =>
      have hrecs : (frameItem H frame).bind Item.record? = none := by rw [hitem]; rfl
      have hcps : (frameItem H frame).bind Item.checkpoint? = none := by rw [hitem]; rfl
      have hpfs : (frameItem H frame).bind Item.proof? = none := by rw [hitem]; rfl
      have hsns : (frameItem H frame).bind Item.snapshot? = some sn := by rw [hitem]; rfl
      rcases h.sns.push hsns with ⟨v, hpush, hheld, hfits, hfits'⟩ | ⟨hpush, hheld, hover⟩
      · simp only [Option.bind_some, Collected.add, snPush, hpush, Option.map_some]
        refine ⟨h.recs.skip hrecs, h.cps.skip hcps, h.pfs.skip hpfs, hheld, ?_⟩
        exact h.clean.trans (and_congr hall.symm
          (withinCaps_congr (fits_skip hrecs) (fits_skip hcps) (fits_skip hpfs) (iff_of_true hfits hfits')))
      · simp only [Option.bind_some, Collected.add, snPush, hpush, Option.map_none]
        refine ⟨h.recs.skip hrecs, h.cps.skip hcps, h.pfs.skip hpfs, hheld, ?_⟩
        exact iff_of_false Bool.noConfusion fun w => hover w.2.snapshots

/-- A whole run of the loop. -/
theorem gathered_foldl (frames : List (List UInt8)) :
    Gathered H frames (frames.foldl (collectFrame H) {}) := by
  induction frames using List.reverseRecOn with
  | nil =>
    refine ⟨rfl, rfl, rfl, rfl, iff_of_true rfl ⟨fun frame h => ?_, ?_⟩⟩
    · cases h
    · exact ⟨Nat.zero_le _, Nat.zero_le _, Nat.zero_le _, Nat.zero_le _⟩
  | append_singleton frames frame ih =>
    rw [List.foldl_append]
    exact ih.collectFrame frame

theorem frameLoop_eq (fuel : Nat) (rest : List UInt8) (c : Collected) :
    frameLoop H fuel rest c =
      endOfStream (cutFrames fuel rest).2 ((cutFrames fuel rest).1.foldl (collectFrame H) c) := by
  induction fuel generalizing rest c with
  | zero => rfl
  | succ fuel ih =>
    rw [frameLoop, cutFrames, frameLen]
    split
    · rfl
    simp only
    split
    · rename_i hheader hlen
      have hne : rest ≠ [] := by
        rintro rfl
        exact hheader (by decide)
      simp only [endOfStream, if_neg hne, List.foldl_nil]
      rfl
    · exact ih _ _

theorem frameLoop_gathered (stream : List UInt8) :
    ∃ c, Gathered H (streamFrames stream) c ∧
      frameLoop H stream.length stream {} = endOfStream (streamTail stream) c :=
  ⟨_, gathered_foldl _, frameLoop_eq _ _ _⟩

/-! ## The phases -/

section Phases

variable {α : Type} {f : Report → α → Report}

/-- A fold that sets the flag at some items has it set where it was set or at one of them. -/
private theorem foldl_anyTamper {good : α → Prop}
    (h : ∀ report x, (f report x).anyTamper = false ↔ report.anyTamper = false ∧ good x)
    (l : List α) (report : Report) :
    (l.foldl f report).anyTamper = false ↔ report.anyTamper = false ∧ ∀ x ∈ l, good x := by
  induction l generalizing report with
  | nil => simp
  | cons x l ih =>
    rw [List.foldl_cons, ih, h, List.forall_mem_cons, and_assoc]

private theorem foldl_continuity (h : ∀ report x, (f report x).continuity = report.continuity)
    (l : List α) (report : Report) : (l.foldl f report).continuity = report.continuity := by
  induction l generalizing report with
  | nil => rfl
  | cons x l ih => rw [List.foldl_cons, ih, h]

end Phases

private theorem verifyShard_anyTamper (report : Report) (shard : List Record) :
    (verifyShard H report shard).anyTamper = false ↔
      report.anyTamper = false ∧ (verifyChain H shard).1 = .ok := by
  unfold verifyShard
  split
  · rename_i h
    simp [h]
  · rename_i h
    simp [h]

variable {ed25519Verify : Ed25519Verify} {anchors : List Anchor} {cps : List Checkpoint}

private theorem countVerdict_anyTamper (report : Report) (cp : Checkpoint) :
    (countVerdict ed25519Verify anchors report cp).anyTamper = false ↔
      report.anyTamper = false ∧ checkpointVerify ed25519Verify anchors cp = .ok := by
  unfold countVerdict
  cases checkpointVerify ed25519Verify anchors cp <;> simp

/-- What `verifyProof` asks of a proof. -/
def ProofGood (H : HashFn) (cps : List Checkpoint) (p : Proof) : Prop :=
  ∀ cp, cps.find? (·.seq = p.checkpointSeq) = some cp → proofVerify H p cp.root

private theorem verifyProof_anyTamper (report : Report) (p : Proof) :
    (verifyProof H cps report p).anyTamper = false ↔
      report.anyTamper = false ∧ ProofGood H cps p := by
  unfold verifyProof ProofGood
  cases cps.find? (·.seq = p.checkpointSeq) with
  | none => simp
  | some cp =>
    simp only [Option.some.injEq, forall_eq']
    split
    · rename_i h
      simp [h]
    · rename_i h
      simp [h]

/-- What `verifySnapshot` asks of a snapshot. -/
def SnapshotGood (H : HashFn) (cps : List Checkpoint) (sn : Snapshot) : Prop :=
  ∀ cp, cps.find? (·.seq = sn.seq) = some cp →
    H sn.bytes = cp.leafSnapshotDigest ∧ snapshotRebuildsRoot H sn.bytes cp.root = some true

private theorem verifySnapshot_anyTamper (report : Report)
    (sn : Snapshot) :
    (verifySnapshot H cps report sn).anyTamper = false ↔
      report.anyTamper = false ∧ SnapshotGood H cps sn := by
  unfold verifySnapshot SnapshotGood
  cases cps.find? (·.seq = sn.seq) with
  | none => simp
  | some cp =>
    simp only [Option.some.injEq, forall_eq']
    split
    · rename_i h
      simp [h]
    split
    · rename_i h h'
      simp [not_not.mp h, h']
    · rename_i h h'
      simp [h']

private theorem verifyRecords_anyTamper (recs : Collapsed Record) (report : Report) :
    (verifyRecords H recs report).anyTamper = false ↔
      report.anyTamper = false ∧ recs.conflicts = 0 ∧
        ∀ shard ∈ groups sameShard recs.kept, (verifyChain H shard).1 = .ok := by
  rw [verifyRecords, foldl_anyTamper verifyShard_anyTamper]
  simp [and_assoc]

private theorem verifyCheckpoints_anyTamper (cps : Collapsed Checkpoint) (report : Report) :
    (verifyCheckpoints H ed25519Verify anchors cps report).anyTamper = false ↔
      report.anyTamper = false ∧ cps.conflicts = 0 ∧
        (∀ cp ∈ cps.kept, checkpointVerify ed25519Verify anchors cp = .ok) ∧
        (verifyCheckpointRun H cps.kept).1 ≠ .broken := by
  rw [verifyCheckpoints, verifyContinuity]
  simp only [Bool.or_eq_false_iff, decide_eq_false_iff_not]
  rw [foldl_anyTamper countVerdict_anyTamper]
  simp [and_assoc]

/-! ## A report without tampering -/

/-- What the items of a list of frames have to satisfy for a report without tampering. -/
structure Clean (H : HashFn) (ed25519Verify : Ed25519Verify) (q : Qsort) (anchors : List Anchor)
    (frames : List (List UInt8)) : Prop where
  items : ∀ frame ∈ frames, (frameItem H frame).isSome
  caps : WithinCaps H frames
  recordConflicts : (collapseRecords H q (recordsOf H frames)).conflicts = 0
  shards : ∀ shard ∈ groups sameShard (collapseRecords H q (recordsOf H frames)).kept,
    (verifyChain H shard).1 = .ok
  checkpointConflicts : (collapseCheckpoints H q (checkpointsOf H frames)).conflicts = 0
  verdicts : ∀ cp ∈ (collapseCheckpoints H q (checkpointsOf H frames)).kept,
    checkpointVerify ed25519Verify anchors cp = .ok
  run : (verifyCheckpointRun H (collapseCheckpoints H q (checkpointsOf H frames)).kept).1 ≠ .broken
  proofs : ∀ p ∈ proofsOf H frames,
    ProofGood H (collapseCheckpoints H q (checkpointsOf H frames)).kept p
  snapshots : ∀ sn ∈ snapshotsOf H frames,
    SnapshotGood H (collapseCheckpoints H q (checkpointsOf H frames)).kept sn

/-- Within the bounds, the vectors hold every item. -/
private theorem Gathered.lists {frames : List (List UInt8)} {c : Collected}
    (h : Gathered H frames c) (hcaps : WithinCaps H frames) :
    c.recs = recordsOf H frames ∧ c.cps = checkpointsOf H frames ∧ c.pfs = proofsOf H frames ∧
      c.sns = snapshotsOf H frames :=
  ⟨h.recs.trans (List.take_of_length_le hcaps.records),
    h.cps.trans (List.take_of_length_le hcaps.checkpoints),
    h.pfs.trans (List.take_of_length_le hcaps.proofs),
    h.sns.trans (List.take_of_length_le hcaps.snapshots)⟩

/-- The tamper flag is clear exactly where the stream is made of frames and these are clean. -/
theorem offlineVerify_anyTamper_iff (H : HashFn) (ed25519Verify : Ed25519Verify) (q : Qsort)
    (stream : List UInt8) (anchors : List Anchor) :
    (offlineVerify H ed25519Verify q stream anchors).anyTamper = false ↔
      streamTail stream = [] ∧ Clean H ed25519Verify q anchors (streamFrames stream) := by
  obtain ⟨c, hc, hloop⟩ := frameLoop_gathered (H := H) stream
  rw [offlineVerify, hloop, foldl_anyTamper verifySnapshot_anyTamper,
    foldl_anyTamper verifyProof_anyTamper, verifyCheckpoints_anyTamper, verifyRecords_anyTamper]
  unfold endOfStream
  split
  · rename_i htail
    rw [hc.clean]
    constructor
    · rintro ⟨⟨⟨⟨⟨hitems, hcaps⟩, hrecs, hshards⟩, hcps, hverdicts, hrun⟩, hpfs⟩, hsns⟩
      obtain ⟨h₁, h₂, h₃, h₄⟩ := hc.lists hcaps
      rw [h₁] at hrecs hshards
      rw [h₂] at hcps hverdicts hrun hpfs hsns
      rw [h₃] at hpfs
      rw [h₄] at hsns
      exact ⟨htail, hitems, hcaps, hrecs, hshards, hcps, hverdicts, hrun, hpfs, hsns⟩
    · rintro ⟨-, hclean⟩
      obtain ⟨h₁, h₂, h₃, h₄⟩ := hc.lists hclean.caps
      rw [h₁, h₂, h₃, h₄]
      exact ⟨⟨⟨⟨⟨hclean.items, hclean.caps⟩, hclean.recordConflicts, hclean.shards⟩,
        hclean.checkpointConflicts, hclean.verdicts, hclean.run⟩, hclean.proofs⟩, hclean.snapshots⟩
  · rename_i htail
    refine iff_of_false ?_ fun h => htail h.1
    rintro ⟨⟨⟨⟨hreject, -⟩, -⟩, -⟩, -⟩
    cases hreject

private theorem verifyProof_continuity (report : Report) (p : Proof) :
    (verifyProof H cps report p).continuity = report.continuity := by
  unfold verifyProof
  split
  · rfl
  · split <;> rfl

private theorem verifySnapshot_continuity (report : Report)
    (sn : Snapshot) : (verifySnapshot H cps report sn).continuity = report.continuity := by
  unfold verifySnapshot
  split
  · rfl
  · split
    · rfl
    · split <;> rfl

theorem offlineVerify_continuity {q : Qsort} {stream : List UInt8} (hcaps : WithinCaps H (streamFrames stream)) :
    (offlineVerify H ed25519Verify q stream anchors).continuity =
      (verifyCheckpointRun H
        (collapseCheckpoints H q (checkpointsOf H (streamFrames stream))).kept).1 := by
  obtain ⟨c, hc, hloop⟩ := frameLoop_gathered (H := H) stream
  have hcps : (endOfStream (streamTail stream) c).cps = checkpointsOf H (streamFrames stream) := by
    rw [← (hc.lists hcaps).2.1, endOfStream]
    split <;> rfl
  rw [offlineVerify, hloop, foldl_continuity verifySnapshot_continuity,
    foldl_continuity verifyProof_continuity, hcps]
  rfl

end VaultWitness
