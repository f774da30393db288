-- SUMMARY: What sorting and collapsing keep of the records and checkpoints of a stream, and which records form a shard.
import Aimee.Vault.WitnessStream

/-!
# Sorted records and checkpoints

The two comparisons are orders, and a digest tells two records or two checkpoints at one
place apart, up to the signature of a checkpoint. What is kept of the records of a stream
without conflicts is the set of all of them; of its checkpoints it is one for each signed body.
-/

namespace VaultWitness

open SortCollapse

/-! ## The comparisons -/

instance : Std.TransCmp recSortCmp :=
  inferInstanceAs (Std.TransCmp (compareLex (compareOn fun r : Record => r.tenant.val)
    (compareLex (compareOn fun r => r.provider.val) (compareOn fun r => r.shardSeq))))

instance : Std.TransCmp cpSortCmp :=
  inferInstanceAs (Std.TransCmp (compareOn fun cp : Checkpoint => cp.seq))

theorem recSortCmp_eq_iff {a b : Record} :
    recSortCmp a b = .eq ↔ a.tenant = b.tenant ∧ a.provider = b.provider ∧ a.shardSeq = b.shardSeq := by
  rw [recSortCmp, Ordering.then_eq_eq, Ordering.then_eq_eq, CString.strcmp_eq_iff,
    CString.strcmp_eq_iff, Std.LawfulEqOrd.compare_eq_iff_eq]

theorem samePlace_iff (a b : Record) : samePlace a b ↔ recSortCmp a b = .eq := by
  simp [samePlace, sameShard, recSortCmp_eq_iff, and_assoc]

variable {b a cp : Checkpoint}

theorem cpSortCmp_eq_iff : cpSortCmp a b = .eq ↔ a.seq = b.seq :=
  Std.LawfulEqOrd.compare_eq_iff_eq

theorem sameSeq_iff (a b : Checkpoint) : sameSeq a b ↔ cpSortCmp a b = .eq := by
  simp [sameSeq, cpSortCmp_eq_iff]

/-- The shard of a record. -/
def Record.shard (r : Record) : CString × CString := (r.tenant, r.provider)

theorem sameShard_iff (a b : Record) : sameShard a b ↔ a.shard = b.shard := by
  simp [sameShard, Record.shard]

theorem recSortCmp_between (a b c : Record) (hab : (recSortCmp a b).isLE)
    (hbc : (recSortCmp b c).isLE) (hac : a.shard = c.shard) : b.shard = a.shard := by
  obtain ⟨htenant, hprovider⟩ := Prod.mk.inj hac
  rw [recSortCmp] at hab
  rw [recSortCmp, ← htenant, ← hprovider] at hbc
  have htenants : CString.strcmp a.tenant b.tenant = .eq :=
    Std.OrientedCmp.isLE_antisymm (Ordering.isLE_left_of_isLE_then hab)
      (Ordering.isLE_left_of_isLE_then hbc)
  rw [htenants] at hab
  rw [Std.OrientedCmp.eq_symm htenants] at hbc
  have hproviders : CString.strcmp a.provider b.provider = .eq :=
    Std.OrientedCmp.isLE_antisymm (Ordering.isLE_left_of_isLE_then hab)
      (Ordering.isLE_left_of_isLE_then hbc)
  rw [Record.shard, Record.shard, CString.strcmp_eq_iff.mp htenants,
    CString.strcmp_eq_iff.mp hproviders]

/-! ## Records -/

variable {H : HashFn} {q : Qsort}

variable {frames : List (List UInt8)}

theorem recordsOf_valid {r : Record} (h : r ∈ recordsOf H frames) :
    RecordValid H r := by
  obtain ⟨frame, -, hitem⟩ := mem_recordsOf.mp h
  obtain ⟨_, _, -, -, hdecode⟩ := frameItem_eq_some hitem
  exact recordDecode_valid hdecode

theorem sameRecord_iff {a b : Record} (ha : RecordValid H a) (hb : RecordValid H b) :
    sameRecord H a b ↔ recordDigest H a = recordDigest H b := by
  simp [sameRecord, recordDigest, ha, hb]

section Records

variable {recs : List Record} (hvalid : ∀ r ∈ recs, RecordValid H r)

include hvalid

theorem sameRecord_digest :
    ∀ a ∈ recs, ∀ b ∈ recs, sameRecord H a b ↔ recordDigest H a = recordDigest H b :=
  fun a ha b hb => sameRecord_iff (hvalid a ha) (hvalid b hb)

theorem collapseRecords_conflicts_iff :
    (collapseRecords H q recs).conflicts = 0 ↔
      ∀ a ∈ recs, ∀ b ∈ recs, recSortCmp a b = .eq → recordDigest H a = recordDigest H b :=
  sortCollapse_conflicts_eq_zero_iff samePlace_iff (sameRecord_digest hvalid)

/-- Where digests do not collide and there is no conflict, two records at one place are one. -/
theorem eq_of_samePlace (hcf : CollisionFree H (recs.map recordPreimage))
    (hconflicts : (collapseRecords H q recs).conflicts = 0) {a b : Record} (ha : a ∈ recs)
    (hb : b ∈ recs) (hab : recSortCmp a b = .eq) : a = b := by
  have hdigest := (collapseRecords_conflicts_iff hvalid).mp hconflicts a ha b hb hab
  have hda : recordDigest H a = some (H (recordPreimage a)) :=
    recordDigest_eq_some_iff.mpr ⟨hvalid a ha, rfl⟩
  exact recordDigest_inj hcf (List.mem_map_of_mem ha) (List.mem_map_of_mem hb) hda
    (hdigest ▸ hda)

theorem mem_collapseRecords_iff (hcf : CollisionFree H (recs.map recordPreimage))
    (hconflicts : (collapseRecords H q recs).conflicts = 0) {r : Record} :
    r ∈ (collapseRecords H q recs).kept ↔ r ∈ recs := by
  refine ⟨mem_of_mem_sortCollapse, fun hr => ?_⟩
  obtain ⟨r', hr', hplace, -⟩ :=
    exists_mem_sortCollapse (q := q) samePlace_iff (sameRecord_digest hvalid) hr
  rwa [← eq_of_samePlace hvalid hcf hconflicts (mem_of_mem_sortCollapse hr') hr hplace]

end Records

theorem mem_groups_collapseRecords {recs : List Record} {g : List Record} :
    g ∈ groups sameShard (collapseRecords H q recs).kept ↔
      ∃ r ∈ (collapseRecords H q recs).kept,
        g = (collapseRecords H q recs).kept.filter (·.shard = r.shard) := by
  have hsorted : (collapseRecords H q recs).kept.Pairwise fun a b => (recSortCmp a b).isLE :=
    (sortCollapse_sorted samePlace_iff recs).imp Ordering.isLE_of_eq_lt
  exact mem_groups sameShard_iff recSortCmp_between hsorted

/-! ## Checkpoints -/

theorem checkpointsOf_valid (h : cp ∈ checkpointsOf H frames) : checkpointValid cp := by
  obtain ⟨frame, -, hitem⟩ := mem_checkpointsOf.mp h
  obtain ⟨_, _, -, -, hdecode⟩ := frameItem_eq_some hitem
  exact checkpointDecode_valid hdecode

theorem checkpoint_frame_unique {f g : List UInt8}
    (hf : frameItem H f = some (.checkpoint cp)) (hg : frameItem H g = some (.checkpoint cp)) :
    f = g := by
  obtain ⟨_, payload, hparse, rfl, hdecode⟩ := frameItem_eq_some hf
  obtain ⟨_, payload', hparse', rfl, hdecode'⟩ := frameItem_eq_some hg
  have hencode := (checkpointDecode_encode hdecode).symm.trans (checkpointDecode_encode hdecode')
  rw [(exportParse_eq_ok_iff.mp hparse).1, (exportParse_eq_ok_iff.mp hparse').1,
    Option.some.inj hencode]

theorem sameCheckpoint_iff (ha : checkpointValid a) (hb : checkpointValid b) :
    sameCheckpoint H a b ↔ checkpointDigest H a = checkpointDigest H b := by
  simp [sameCheckpoint, checkpointDigest_of_valid, ha, hb]

section Checkpoints

variable {cps : List Checkpoint} (hvalid : ∀ cp ∈ cps, checkpointValid cp)

include hvalid

theorem sameCheckpoint_digest :
    ∀ a ∈ cps, ∀ b ∈ cps, sameCheckpoint H a b ↔ checkpointDigest H a = checkpointDigest H b :=
  fun a ha b hb => sameCheckpoint_iff (hvalid a ha) (hvalid b hb)

theorem collapseCheckpoints_conflicts_iff :
    (collapseCheckpoints H q cps).conflicts = 0 ↔
      ∀ a ∈ cps, ∀ b ∈ cps, cpSortCmp a b = .eq → checkpointDigest H a = checkpointDigest H b :=
  sortCollapse_conflicts_eq_zero_iff sameSeq_iff (sameCheckpoint_digest hvalid)

theorem sameBody_of_digest (hcf : CollisionFree H (cps.map checkpointBody))
    (ha : a ∈ cps) (hb : b ∈ cps) (h : checkpointDigest H a = checkpointDigest H b) :
    SameBody a b := by
  rw [checkpointDigest_of_valid (hvalid a ha), checkpointDigest_of_valid (hvalid b hb)] at h
  exact checkpointBody_inj (hvalid a ha) (hvalid b hb)
    (hcf _ (List.mem_map_of_mem ha) _ (List.mem_map_of_mem hb) (Option.some.inj h))

theorem sameBody_of_seq (hcf : CollisionFree H (cps.map checkpointBody))
    (hconflicts : (collapseCheckpoints H q cps).conflicts = 0) (ha : a ∈ cps)
    (hb : b ∈ cps) (hseq : a.seq = b.seq) : SameBody a b :=
  sameBody_of_digest hvalid hcf ha hb ((collapseCheckpoints_conflicts_iff hvalid).mp hconflicts
    a ha b hb (cpSortCmp_eq_iff.mpr hseq))

theorem find?_collapseCheckpoints (hcp : cp ∈ cps) :
    ∃ r ∈ cps, (collapseCheckpoints H q cps).kept.find? (·.seq = cp.seq) = some r ∧
      r ∈ (collapseCheckpoints H q cps).kept ∧ r.seq = cp.seq := by
  obtain ⟨r, hr, hseq, -⟩ :=
    exists_mem_sortCollapse (q := q) sameSeq_iff (sameCheckpoint_digest (H := H) hvalid) hcp
  rw [cpSortCmp_eq_iff] at hseq
  cases hfind : (collapseCheckpoints H q cps).kept.find? (·.seq = cp.seq) with
  | none => exact absurd (by simpa using hseq) (List.find?_eq_none.mp hfind r hr)
  | some r' =>
    have hr' := List.mem_of_find?_eq_some hfind
    exact ⟨r', mem_of_mem_sortCollapse hr', rfl, hr', by simpa using List.find?_some hfind⟩

end Checkpoints

end VaultWitness
