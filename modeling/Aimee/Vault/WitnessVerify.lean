-- SUMMARY: Verification of a shard's record chain and of a run of checkpoints; the head of a chain determines its records.
import Aimee.Lib.HashChain
import Aimee.Vault.WitnessCheckpoint
import Aimee.Vault.WitnessMerkle

/-!
# Chains of records and runs of checkpoints

`vault_witness_verify.c`. Both verifiers walk an array and compare every item with the one
before it, so the loops carry the item before and its digest.
-/

namespace VaultWitness

variable (H : HashFn)

/-! ## Record chains -/

/-- `vault_witness_chain_result_t`. -/
inductive ChainResult where
  | ok
  | empty
  | badRecord
  | badGenesis
  | seqGap
  | shardMismatch
  | brokenLink
  deriving DecidableEq

/-- The loop of `vault_witness_verify_chain` from the second record on. With the result it
    gives the value of `break_index`. -/
def verifyChainFrom : Nat → Record → Digest → List Record → ChainResult × Nat
  | _, _, _, [] => (.ok, 0)
  | i, p, prevDigest, r :: rest =>
    match recordDigest H r with
    | none => (.badRecord, i)
    | some digest =>
      if r.tenant ≠ p.tenant ∨ r.provider ≠ p.provider then (.shardMismatch, i)
      else if r.shardSeq ≠ p.shardSeq + 1 then (.seqGap, i)
      else if r.witnessPredHash ≠ prevDigest then (.brokenLink, i)
      else verifyChainFrom (i + 1) r digest rest

/-- `vault_witness_verify_chain`. -/
def verifyChain : List Record → ChainResult × Nat
  | [] => (.empty, 0)
  | r :: rest =>
    match recordDigest H r with
    | none => (.badRecord, 0)
    | some digest =>
      if ¬ r.isFirstInShard then (.badGenesis, 0) else verifyChainFrom H 1 r digest rest

/-! ## Checkpoint runs -/

/-- The loop of `vault_witness_verify_checkpoint_run` behind the checkpoint `prev` at index
    `i`. The gap is the value of `gap_after_index` once one was seen. -/
def checkpointRunFrom : Nat → Checkpoint → Option Nat → List Checkpoint → Continuity × Nat
  | _, _, gap, [] => (if gap.isSome then .unproven else .ok, gap.getD 0)
  | i, prev, gap, cp :: rest =>
    match checkpointDigest H prev with
    | none => (.broken, i)
    | some prevDigest =>
      if checkpointContinuity cp (some prevDigest) ≠ .ok then
        if ¬ cp.hasPredecessor then (.broken, i)
        else checkpointRunFrom (i + 1) cp (gap.or (some i)) rest
      else checkpointRunFrom (i + 1) cp gap rest

/-- `vault_witness_verify_checkpoint_run`. -/
def verifyCheckpointRun : List Checkpoint → Continuity × Nat
  | [] => (.ok, 0)
  | cp :: rest => checkpointRunFrom H 0 cp none rest

/-! ## What an accepted chain satisfies -/

variable {H}

/-- What `vault_witness_verify_chain` checks between two records. -/
structure Linked (H : HashFn) (p r : Record) : Prop where
  tenant : r.tenant = p.tenant
  provider : r.provider = p.provider
  shardSeq : r.shardSeq = p.shardSeq + 1
  pred : recordDigest H p = some r.witnessPredHash

theorem verifyChainFrom_ok_iff {i : Nat} {p : Record} {d : Digest} {rest : List Record}
    (hp : recordDigest H p = some d) :
    (verifyChainFrom H i p d rest).1 = .ok ↔
      (∀ r ∈ rest, RecordValid H r) ∧ (p :: rest).IsChain (Linked H) := by
  induction rest generalizing i p d with
  | nil => simp [verifyChainFrom]
  | cons r rest ih =>
    rw [verifyChainFrom, List.isChain_cons_cons]
    cases hr : recordDigest H r with
    | none =>
      have hinvalid : ¬ RecordValid H r := by
        intro hvalid
        simp [recordDigest, hvalid] at hr
      simp [hinvalid]
    | some digest =>
      have hvalid := (recordDigest_eq_some_iff.mp hr).1
      simp only
      split
      · rename_i hshard
        constructor
        · intro h
          cases h
        · rintro ⟨-, hlink, -⟩
          exact absurd hshard (not_or.mpr ⟨not_not.mpr hlink.tenant, not_not.mpr hlink.provider⟩)
      split
      · rename_i hseq
        constructor
        · intro h
          cases h
        · rintro ⟨-, hlink, -⟩
          exact absurd hlink.shardSeq hseq
      split
      · rename_i hpred
        constructor
        · intro h
          cases h
        · rintro ⟨-, hlink, -⟩
          exact absurd (Option.some.inj (hlink.pred.symm.trans hp)) hpred
      rename_i hshard hseq hpred
      obtain ⟨htenant, hprovider⟩ := not_or.mp hshard
      rw [not_not] at htenant hprovider hseq hpred
      have hlink : Linked H p r := ⟨htenant, hprovider, hseq, hpred ▸ hp⟩
      rw [ih hr]
      simp [hvalid, hlink]

/-- An accepted chain is a list of valid records that starts a shard and whose records are
    linked. -/
theorem verifyChain_ok_iff {records : List Record} :
    (verifyChain H records).1 = .ok ↔
      (∀ r ∈ records, RecordValid H r) ∧ (∃ r ∈ records.head?, r.isFirstInShard = true) ∧
        records.IsChain (Linked H) := by
  cases records with
  | nil => simp [verifyChain]
  | cons r rest =>
    rw [verifyChain]
    cases hr : recordDigest H r with
    | none =>
      have hinvalid : ¬ RecordValid H r := by
        intro hvalid
        simp [recordDigest, hvalid] at hr
      simp [hinvalid]
    | some digest =>
      have hvalid := (recordDigest_eq_some_iff.mp hr).1
      simp only
      split
      · rename_i hfirst
        simp [hfirst]
      · rename_i hfirst
        rw [not_not] at hfirst
        rw [verifyChainFrom_ok_iff hr]
        simp [hvalid, hfirst]

/-! ## The head of a chain -/

variable (H) in
/-- Records are linked by their digests and numbered by their sequence numbers. -/
def recordLinks : HashChain.Links Record (Option Digest) where
  digest := recordDigest H
  pred r := some r.witnessPredHash
  position r := r.shardSeq.toNat

/-- The successor does not wrap: sequence number zero is invalid. -/
theorem Linked.toNat_shardSeq {p r : Record} (h : Linked H p r) (hr : RecordValid H r) :
    r.shardSeq.toNat = p.shardSeq.toNat + 1 := by
  have hseq := congrArg UInt64.toNat h.shardSeq
  rw [UInt64.toNat_add] at hseq
  have hne : r.shardSeq.toNat ≠ 0 := fun h0 => hr.shardSeq (UInt64.toNat_inj.mp h0)
  have hlt := p.shardSeq.toNat_lt
  have hone : (1 : UInt64).toNat = 1 := rfl
  rw [hone] at hseq
  by_cases hwrap : p.shardSeq.toNat + 1 = 2 ^ 64
  · rw [hwrap] at hseq
    exact absurd hseq hne
  · rw [hseq, Nat.mod_eq_of_lt (by omega)]

theorem verifyChain_isChain {records : List Record} (h : (verifyChain H records).1 = .ok) :
    (recordLinks H).IsChain records := by
  obtain ⟨hvalid, ⟨first, hfirst, hflag⟩, hchain⟩ := verifyChain_ok_iff.mp h
  refine ⟨?_, ?_⟩
  · refine List.IsChain.imp_of_mem_imp (fun p r _ hr hlink => ?_) hchain
    exact ⟨hlink.toNat_shardSeq (hvalid r hr), hlink.pred.symm⟩
  · intro r hr
    have hseq := (hvalid r (List.mem_of_mem_head? hr)).first
    rw [Option.mem_unique hr hfirst, hflag] at hseq
    have hone : first.shardSeq = 1 := of_decide_eq_true hseq.symm
    simp [recordLinks, Option.mem_unique hr hfirst, hone]

/-- The preimage of a digest determines a valid record, and the digest of the last record of
    an accepted chain determines the chain. -/
theorem verifyChain_determined (H : HashFn) :
    (∀ a b, RecordValid H a → RecordValid H b → recordPreimage a = recordPreimage b → a = b) ∧
    ∀ xs ys, (verifyChain H xs).1 = .ok → (verifyChain H ys).1 = .ok →
      CollisionFree H ((xs ++ ys).map recordPreimage) →
      xs.getLast?.map (recordDigest H) = ys.getLast?.map (recordDigest H) → xs = ys := by
  refine ⟨fun a b => recordPreimage_inj, ?_⟩
  intro xs ys hxs hys hcf hlast
  have hbind : ∀ a ∈ xs, ∀ b ∈ ys, (recordLinks H).digest a = (recordLinks H).digest b → a = b := by
    intro a ha b hb hdigest
    have hvalid := (verifyChain_ok_iff.mp hxs).1 a ha
    have hda : recordDigest H a = some (H (recordPreimage a)) :=
      recordDigest_eq_some_iff.mpr ⟨hvalid, rfl⟩
    refine recordDigest_inj hcf (List.mem_map_of_mem (List.mem_append_left _ ha))
      (List.mem_map_of_mem (List.mem_append_right _ hb)) hda ?_
    rw [← hda]
    exact hdigest.symm
  have hequal := (verifyChain_isChain hxs).forall₂_of_getLast (verifyChain_isChain hys) hbind
    (fun a b hab => by rw [hab]) (fun a b hab => by rw [hab]) hlast
  exact List.forall₂_eq_eq_eq ▸ hequal

/-- A record of one shard. -/
def sampleRecord (shardSeq : UInt64) (witnessPredHash : Digest) : Record where
  source := .rewrap
  sealEpoch := 1
  fencingToken := 1
  shardSeq := shardSeq
  hasSourcePred := false
  isFirstInShard := shardSeq = 1
  sourceHash := zeroDigest
  sourcePredHash := zeroDigest
  witnessPredHash := witnessPredHash
  sourceId := .ofAscii "row-1"
  tenant := .ofAscii "acme"
  provider := .ofAscii "openai"
  requestId := .empty
  principal := .empty
  providerCred := .empty
  groupId := .empty
  timestamp := .ofAscii "2026-08-26T01:02:03Z"

/-- The first two records of a shard. -/
def sampleChain : List Record :=
  let first := sampleRecord 1
    ((genesisSentinel sha256 (.ofAscii "acme") (.ofAscii "openai")).getD zeroDigest)
  [first, sampleRecord 2 ((recordDigest sha256 first).getD zeroDigest)]

theorem sampleChain_determined :
    (verifyChain sha256 sampleChain).1 = .ok ∧ sampleChain = sampleChain.take 2 := by
  have hok : (verifyChain sha256 sampleChain).1 = .ok := by decide +kernel
  exact ⟨hok, (verifyChain_determined sha256).2 _ _ hok hok (by decide +kernel) rfl⟩

end VaultWitness
