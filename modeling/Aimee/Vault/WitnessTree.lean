-- SUMMARY: The Merkle code computes the full depth-64 tree: completeness of proofs and binding of verified leaves.
import Aimee.Lib.SparseMerkle
import Aimee.Vault.WitnessMerkle
import Mathlib.Data.Nat.Bitwise

/-!
# The sparse tree is the full tree

`root_rec` cuts a sorted slice of leaves at one key bit per level and stops at empty slices.
`Slice` is the invariant of that recursion: the keys ascend and agree on the bits above the
node. Under it the recursion computes the root of the full binary tree below the node, and
writes the siblings of the target into the proof. Both results about proofs then come from
the tree.
-/

namespace VaultWitness

variable {H : HashFn}

/-! ## Key bits -/

/-- The low `level` bits of a key, most significant first. -/
def lowBits (key : Block 8) (level : Nat) : List Bool :=
  (List.range' (smtDepth - level) level).map (keyBit key)

/-- The position of a key in the tree. -/
def keyBits (key : Block 8) : List Bool := lowBits key smtDepth

theorem length_lowBits (key : Block 8) (level : Nat) : (lowBits key level).length = level := by
  simp [lowBits]

theorem lowBits_succ (key : Block 8) {level : Nat} (h : level + 1 ≤ smtDepth) :
    lowBits key (level + 1) = keyBit key (smtDepth - (level + 1)) :: lowBits key level := by
  have hnext : smtDepth - (level + 1) + 1 = smtDepth - level := by omega
  rw [lowBits, List.range'_succ, List.map_cons, hnext, lowBits]

/-- The bits of a byte string are those of the number it spells. -/
theorem testBit_getD_beNat (bs : List UInt8) {i : Nat} (hi : i < 8 * bs.length) :
    (bs.getD (i / 8) 0).toNat.testBit (7 - i % 8) =
      (Wire.beNat bs).testBit (8 * bs.length - 1 - i) := by
  induction bs generalizing i with
  | nil => exact absurd hi (Nat.not_lt_zero i)
  | cons b bs ih =>
    have hpow : 256 ^ bs.length = 2 ^ (8 * bs.length) := by rw [Nat.pow_mul]
    have hlt : Wire.beNat bs < 2 ^ (8 * bs.length) := hpow ▸ Wire.beNat_lt bs
    rw [List.length_cons] at hi ⊢
    rw [Wire.beNat_cons, hpow, Nat.mul_comm, Nat.testBit_two_pow_mul_add _ hlt]
    by_cases h8 : i < 8
    · have hdiv : i / 8 = 0 := by omega
      have hhigh : ¬ 8 * (bs.length + 1) - 1 - i < 8 * bs.length := by omega
      have hindex : 8 * (bs.length + 1) - 1 - i - 8 * bs.length = 7 - i % 8 := by omega
      rw [if_neg hhigh, hindex, hdiv]
      rfl
    · obtain ⟨j, rfl⟩ : ∃ j, i = j + 8 := ⟨i - 8, by omega⟩
      have hlow : 8 * (bs.length + 1) - 1 - (j + 8) < 8 * bs.length := by omega
      have hindex : 8 * (bs.length + 1) - 1 - (j + 8) = 8 * bs.length - 1 - j := by omega
      have hdiv : (j + 8) / 8 = j / 8 + 1 := by omega
      have hmod : (j + 8) % 8 = j % 8 := by omega
      rw [if_pos hlow, hindex, hdiv, hmod, ← ih (by omega)]
      rfl

theorem keyBit_eq_testBit (key : Block 8) {i : Nat} (hi : i < smtDepth) :
    keyBit key i = (Wire.beNat key.val).testBit (63 - i) := by
  have hlen : 8 * key.val.length = 64 := by rw [key.property]
  rw [keyBit, testBit_getD_beNat key.val (by rw [hlen]; exact hi), hlen]

theorem testBit_of_le (key : Block 8) {j : Nat} (hj : smtDepth ≤ j) :
    (Wire.beNat key.val).testBit j = false := by
  refine Nat.testBit_lt_two_pow (Nat.lt_of_lt_of_le (Wire.beNat_lt key.val) ?_)
  rw [key.property, show 256 ^ 8 = 2 ^ smtDepth by rfl]
  exact Nat.pow_le_pow_right (by decide) hj

theorem keyBits_inj {a b : Block 8} (h : keyBits a = keyBits b) : a = b := by
  have hbit : ∀ i < smtDepth, keyBit a i = keyBit b i := by
    intro i hi
    simp only [keyBits, lowBits, Nat.sub_self, List.map_inj_left] at h
    exact h i (List.mem_range'_1.mpr ⟨Nat.zero_le i, by simpa using hi⟩)
  refine Subtype.ext (Wire.beNat_inj (by rw [a.property, b.property]) (Nat.eq_of_testBit_eq ?_))
  intro j
  by_cases hj : j < smtDepth
  · have hindex : 63 - (63 - j) = j := by
      have : j < 64 := hj
      omega
    have := hbit (63 - j) (Nat.lt_of_le_of_lt (Nat.sub_le 63 j) (by decide))
    rw [keyBit_eq_testBit a (Nat.lt_of_le_of_lt (Nat.sub_le 63 j) (by decide)),
      keyBit_eq_testBit b (Nat.lt_of_le_of_lt (Nat.sub_le 63 j) (by decide)), hindex] at this
    exact this
  · rw [testBit_of_le a (Nat.not_lt.mp hj), testBit_of_le b (Nat.not_lt.mp hj)]

/-! ## Slices -/

/-- A slice of leaves below a node with `level` key bits left: the keys ascend and agree on
    the bits above the node. -/
structure Slice (level : Nat) (leaves : List Leaf) : Prop where
  ascending : leaves.Pairwise fun a b => Wire.beNat a.key.val < Wire.beNat b.key.val
  agree : ∀ a ∈ leaves, ∀ b ∈ leaves, ∀ i < smtDepth - level, keyBit a.key i = keyBit b.key i

theorem leavesOk.slice {leaves : List Leaf} (h : leavesOk leaves) : Slice smtDepth leaves := by
  refine ⟨?_, fun a _ b _ i hi => absurd hi (by simp)⟩
  have hchain : leaves.IsChain fun a b => Wire.beNat a.key.val < Wire.beNat b.key.val :=
    h.imp fun a b hab => Wire.beNat_lt_of_compare (by rw [a.key.property, b.key.property]) hab
  exact List.isChain_iff_pairwise.mp hchain

namespace Slice

variable {level : Nat} {leaves : List Leaf}

/-- Where the keys of a slice branch, the bit ascends with the key. -/
theorem bit_mono (h : Slice (level + 1) leaves) (hlevel : level + 1 ≤ smtDepth) {a b : Leaf}
    (ha : a ∈ leaves) (hb : b ∈ leaves) (hlt : Wire.beNat a.key.val < Wire.beNat b.key.val)
    (hbit : keyBit a.key (smtDepth - (level + 1)) = true) :
    keyBit b.key (smtDepth - (level + 1)) = true := by
  by_contra hne
  rw [Bool.not_eq_true] at hne
  rw [keyBit_eq_testBit _ (by omega)] at hbit hne
  refine absurd hlt (Nat.not_lt.mpr (Nat.le_of_lt (Nat.lt_of_testBit _ hne hbit ?_)))
  intro j hj
  by_cases hj64 : j < 64
  · have hagree := h.agree b hb a ha (63 - j) (by omega)
    have hindex : 63 - (63 - j) = j := by omega
    rw [keyBit_eq_testBit _ (by omega), keyBit_eq_testBit _ (by omega), hindex] at hagree
    exact hagree
  · rw [testBit_of_le _ (Nat.not_lt.mp hj64), testBit_of_le _ (Nat.not_lt.mp hj64)]

theorem of_bit (h : Slice (level + 1) leaves) (hlevel : level + 1 ≤ smtDepth) {part : List Leaf}
    (hsub : part.Sublist leaves) {bit : Bool}
    (hbit : ∀ l ∈ part, keyBit l.key (smtDepth - (level + 1)) = bit) : Slice level part := by
  refine ⟨h.ascending.sublist hsub, fun a ha b hb i hi => ?_⟩
  by_cases hlast : i = smtDepth - (level + 1)
  · rw [hlast, hbit a ha, hbit b hb]
  · exact h.agree a (hsub.subset ha) b (hsub.subset hb) i (by omega)

variable (leaves) in
/-- The leaves below the left and the right child, as `root_rec` splits them. -/
def below (level : Nat) : List Leaf :=
  leaves.takeWhile fun l => keyBit l.key (smtDepth - (level + 1)) = false

variable (leaves) in
def above (level : Nat) : List Leaf :=
  leaves.dropWhile fun l => keyBit l.key (smtDepth - (level + 1)) = false

theorem below_append_above (leaves : List Leaf) (level : Nat) :
    below leaves level ++ above leaves level = leaves :=
  List.takeWhile_append_dropWhile

theorem bit_of_mem_below {l : Leaf} (hl : l ∈ below leaves level) :
    keyBit l.key (smtDepth - (level + 1)) = false := by
  simpa using List.mem_takeWhile_imp hl

/-- The scan stops at the first set bit, and all keys behind it have it set too. -/
theorem bit_of_mem_above (h : Slice (level + 1) leaves) (hlevel : level + 1 ≤ smtDepth) {l : Leaf}
    (hl : l ∈ above leaves level) : keyBit l.key (smtDepth - (level + 1)) = true := by
  have hsub : (above leaves level).Sublist leaves := (List.dropWhile_suffix _).sublist
  cases habove : above leaves level with
  | nil => rw [habove] at hl; cases hl
  | cons first rest =>
    have hfirst : keyBit first.key (smtDepth - (level + 1)) = true := by
      have hne : above leaves level ≠ [] := by rw [habove]; exact List.cons_ne_nil _ _
      have hhead := List.head_dropWhile_not (fun l : Leaf =>
        decide (keyBit l.key (smtDepth - (level + 1)) = false)) hne
      have hfirst : (above leaves level).head hne = first := by simp only [habove, List.head_cons]
      rw [show (List.dropWhile (fun l : Leaf =>
        decide (keyBit l.key (smtDepth - (level + 1)) = false)) leaves).head hne = first
        from hfirst] at hhead
      simpa using hhead
    rw [habove] at hl hsub
    rcases List.mem_cons.mp hl with rfl | hl
    · exact hfirst
    · have hlt := List.rel_of_pairwise_cons (h.ascending.sublist hsub) hl
      exact h.bit_mono hlevel (hsub.subset (by simp)) (hsub.subset (by simp [hl])) hlt hfirst

theorem slice_below (h : Slice (level + 1) leaves) (hlevel : level + 1 ≤ smtDepth) :
    Slice level (below leaves level) :=
  h.of_bit hlevel (List.takeWhile_sublist _) fun _ => bit_of_mem_below

theorem slice_above (h : Slice (level + 1) leaves) (hlevel : level + 1 ≤ smtDepth) :
    Slice level (above leaves level) :=
  h.of_bit hlevel (List.dropWhile_suffix _).sublist fun _ => h.bit_of_mem_above hlevel

end Slice

/-! ## The root of a slice -/

variable (H) in
/-- The full tree below a node: the leaf at a position, or the empty leaf. -/
def leafAt (level : Nat) (leaves : List Leaf) (bits : List Bool) : Digest :=
  ((leaves.find? fun l => lowBits l.key level = bits).map (·.hash)).getD (emptyHash H 0)

variable (H) in
/-- The full tree of depth 64 over the leaves of a checkpoint. -/
def fullTree (leaves : List Leaf) : List Bool → Digest := leafAt H smtDepth leaves

/-- A side of the tree below a node is the tree over the leaves on that side. -/
theorem leafAt_cons {level : Nat} {leaves : List Leaf} (h : Slice (level + 1) leaves)
    (hlevel : level + 1 ≤ smtDepth) (bit : Bool) (bits : List Bool) :
    leafAt H (level + 1) leaves (bit :: bits) =
      leafAt H level (if bit then Slice.above leaves level else Slice.below leaves level) bits := by
  have hbits : ∀ l : Leaf, lowBits l.key (level + 1) = bit :: bits ↔
      keyBit l.key (smtDepth - (level + 1)) = bit ∧ lowBits l.key level = bits := by
    intro l
    rw [lowBits_succ l.key hlevel, List.cons.injEq]
  have hother : ∀ part : List Leaf, (∀ l ∈ part, keyBit l.key (smtDepth - (level + 1)) ≠ bit) →
      part.find? (fun l => lowBits l.key (level + 1) = bit :: bits) = none := by
    intro part hpart
    rw [List.find?_eq_none]
    intro l hl heq
    exact hpart l hl ((hbits l).mp (of_decide_eq_true heq)).1
  have hsame : ∀ part : List Leaf, (∀ l ∈ part, keyBit l.key (smtDepth - (level + 1)) = bit) →
      part.find? (fun l => lowBits l.key (level + 1) = bit :: bits) =
        part.find? fun l => lowBits l.key level = bits := by
    intro part hpart
    rw [← List.head?_filter, ← List.head?_filter]
    refine congrArg List.head? (List.filter_congr fun l hl => ?_)
    simp [hbits, hpart l hl]
  have hsplit := Slice.below_append_above leaves level
  unfold leafAt
  nth_rewrite 1 [← hsplit]
  rw [List.find?_append]
  cases bit with
  | false =>
    rw [hother (Slice.above leaves level) fun l hl => by simp [h.bit_of_mem_above hlevel hl],
      hsame (Slice.below leaves level) fun l hl => Slice.bit_of_mem_below hl]
    simp
  | true =>
    rw [hother (Slice.below leaves level) fun l hl => by simp [Slice.bit_of_mem_below hl],
      hsame (Slice.above leaves level) fun l hl => h.bit_of_mem_above hlevel hl]
    simp

theorem root_empty (level n : Nat) :
    SparseMerkle.root (nodeHash H) level (fun bits => leafAt H n [] bits) = emptyHash H level := by
  induction level with
  | zero => rfl
  | succ level ih =>
    have hnode := congrArg₂ (nodeHash H) ih ih
    exact hnode

theorem rootRec_succ (level : Nat) (leaf : Leaf) (slice : List Leaf) (target : Option (Block 8))
    (proof : List Digest) :
    (rootRec H (level + 1) (leaf :: slice) target proof).1 =
      nodeHash H (rootRec H level (Slice.below (leaf :: slice) level)
          (target.filter fun key => keyBit key (smtDepth - (level + 1)) = false) proof).1
        (rootRec H level (Slice.above (leaf :: slice) level)
          (target.filter fun key => keyBit key (smtDepth - (level + 1)) = true)
          (rootRec H level (Slice.below (leaf :: slice) level)
            (target.filter fun key => keyBit key (smtDepth - (level + 1)) = false) proof).2).1 := by
  rfl

/-- `root_rec` computes the root of the full tree below its node. -/
theorem rootRec_eq_root {level : Nat} (hlevel : level ≤ smtDepth) {leaves : List Leaf}
    (h : Slice level leaves) (target : Option (Block 8)) (proof : List Digest) :
    (rootRec H level leaves target proof).1 =
      SparseMerkle.root (nodeHash H) level (leafAt H level leaves) := by
  induction level generalizing leaves target proof with
  | zero =>
    cases leaves with
    | nil => rfl
    | cons leaf slice =>
      simp [rootRec, SparseMerkle.root, leafAt, lowBits]
  | succ level ih =>
    cases leaves with
    | nil => exact (root_empty (level + 1) (level + 1)).symm
    | cons leaf slice =>
      have hside : ∀ bit, (fun bits => leafAt H (level + 1) (leaf :: slice) (bit :: bits)) =
          leafAt H level (if bit then Slice.above (leaf :: slice) level
            else Slice.below (leaf :: slice) level) := by
        intro bit
        funext bits
        exact leafAt_cons h hlevel bit bits
      rw [rootRec_succ, ih (Nat.le_of_succ_le hlevel) (h.slice_below hlevel),
        ih (Nat.le_of_succ_le hlevel) (h.slice_above hlevel), SparseMerkle.root, hside, hside]
      rfl

/-! ## The proof that is written -/

theorem rootRec_none_proof (level : Nat) (leaves : List Leaf) (proof : List Digest) :
    (rootRec H level leaves none proof).2 = proof := by
  induction level generalizing leaves proof with
  | zero => cases leaves <;> rfl
  | succ level ih =>
    cases leaves with
    | nil => rfl
    | cons leaf slice =>
      rw [rootRec]
      simp [ih]

/-- Overwriting the last entry of a front part. -/
private theorem take_succ_append_set {proof rest : List Digest} {i : Nat} (hi : i < proof.length)
    (d : Digest) : (proof.take (i + 1) ++ rest).set i d = proof.take i ++ d :: rest := by
  rw [← List.take_append_getElem hi, List.append_assoc]
  have hlen : (proof.take i).length = i := by
    rw [List.length_take]
    exact Nat.min_eq_left (Nat.le_of_lt hi)
  rw [List.set_append_right _ _ (Nat.le_of_eq hlen), hlen, Nat.sub_self]
  rfl

/-- `root_rec` writes the siblings of the target below its node and keeps the entries above. -/
theorem rootRec_siblings {level : Nat} (hlevel : level ≤ smtDepth) {leaves : List Leaf}
    (h : Slice level leaves) {leaf : Leaf} (hleaf : leaf ∈ leaves) {proof : List Digest}
    (hproof : proof.length = smtDepth) :
    (rootRec H level leaves (some leaf.key) proof).2 = proof.take (smtDepth - level) ++
      SparseMerkle.siblings (nodeHash H) (lowBits leaf.key level) (leafAt H level leaves) := by
  induction level generalizing leaves proof with
  | zero =>
    cases leaves with
    | nil => cases hleaf
    | cons first slice =>
      have htake : proof.take (smtDepth - 0) = proof := by
        rw [Nat.sub_zero, ← hproof, List.take_length]
      rw [htake]
      exact (List.append_nil proof).symm
  | succ level ih =>
    cases leaves with
    | nil => cases hleaf
    | cons first slice =>
      have hlevel' := Nat.le_of_succ_le hlevel
      have hnext : smtDepth - level = smtDepth - (level + 1) + 1 := by omega
      have hdisc : smtDepth - (level + 1) < proof.length := by omega
      have hmem : leaf ∈ Slice.below (first :: slice) level ∨
          leaf ∈ Slice.above (first :: slice) level := by
        rw [← List.mem_append, Slice.below_append_above]
        exact hleaf
      have hside : ∀ bit bits, leafAt H (level + 1) (first :: slice) (bit :: bits) =
          leafAt H level (if bit then Slice.above (first :: slice) level
            else Slice.below (first :: slice) level) bits :=
        leafAt_cons h hlevel
      have hbelow := h.slice_below hlevel
      have habove := h.slice_above hlevel
      rw [lowBits_succ leaf.key hlevel, SparseMerkle.siblings, length_lowBits]
      rcases hmem with hmem | hmem
      · have hbit := Slice.bit_of_mem_below hmem
        have hpath := ih hlevel' hbelow hmem hproof
        have hroot := rootRec_eq_root (H := H) hlevel' habove none
          (rootRec H level (Slice.below (first :: slice) level) (some leaf.key) proof).2
        rw [hnext] at hpath
        simp only [rootRec, hbit, Option.filter_some, decide_true, if_true, Bool.false_eq_true,
          decide_false, if_false, rootRec_none_proof, hside, Bool.not_false]
        rw [← take_succ_append_set hdisc, ← hpath, ← hroot]
        rfl
      · have hbit := h.bit_of_mem_above hlevel hmem
        have hpath := ih hlevel' habove hmem hproof
        have hroot := rootRec_eq_root (H := H) hlevel' hbelow none proof
        rw [hnext] at hpath
        simp only [rootRec, hbit, Option.filter_some, decide_true, if_true, Bool.true_eq_false,
          decide_false, Bool.false_eq_true, if_false, rootRec_none_proof, hside, Bool.not_true]
        rw [← take_succ_append_set hdisc, ← hpath, ← hroot]
        rfl

/-! ## The fold of a proof -/

private theorem verify_step (key : Block 8) (proof : List Digest) (b : Nat) (acc : Digest) :
    (if keyBit key b = false then nodeHash H acc (proof.getD b zeroDigest)
      else nodeHash H (proof.getD b zeroDigest) acc) =
    let pair := SparseMerkle.children (keyBit key b) acc (proof.getD b zeroDigest)
    nodeHash H pair.1 pair.2 := by
  cases keyBit key b <;> rfl

theorem climb_lowBits (key : Block 8) (leaf : Digest) {proof : List Digest}
    (hproof : proof.length = smtDepth) {level : Nat} (hlevel : level ≤ smtDepth) :
    SparseMerkle.climb (nodeHash H) (lowBits key level) (proof.drop (smtDepth - level)) leaf =
      (List.range' (smtDepth - level) level).foldr (fun b acc =>
        if keyBit key b = false then nodeHash H acc (proof.getD b zeroDigest)
        else nodeHash H (proof.getD b zeroDigest) acc) leaf := by
  induction level with
  | zero => simp [lowBits, SparseMerkle.climb]
  | succ level ih =>
    have hdisc : smtDepth - (level + 1) < proof.length := by omega
    have hnext : smtDepth - (level + 1) + 1 = smtDepth - level := by omega
    have hget : proof.getD (smtDepth - (level + 1)) zeroDigest = proof[smtDepth - (level + 1)] := by
      rw [List.getD_eq_getElem?_getD, List.getElem?_eq_getElem hdisc, Option.getD_some]
    rw [lowBits_succ key hlevel, List.drop_eq_getElem_cons hdisc, hnext, SparseMerkle.climb,
      ih (Nat.le_of_succ_le hlevel), List.range'_succ, List.foldr_cons, hnext, verify_step, hget]

theorem merkleVerify_iff {key : Block 8} {leaf root : Digest} {proof : Path} :
    merkleVerify H key leaf proof root = true ↔
      SparseMerkle.climb (nodeHash H) (keyBits key) proof.val leaf = root := by
  have hclimb := climb_lowBits (H := H) key leaf proof.property (Nat.le_refl smtDepth)
  rw [Nat.sub_self, List.drop_zero, ← List.range_eq_range'] at hclimb
  rw [keyBits, hclimb, merkleVerify, decide_eq_true_eq]

/-! ## Completeness -/

theorem merkleRoot_eq_some_iff {leaves : List Leaf} {root : Digest} :
    merkleRoot H leaves = some root ↔
      leaves.length ≤ shardCeiling ∧ leavesOk leaves ∧
        SparseMerkle.root (nodeHash H) smtDepth (fullTree H leaves) = root := by
  unfold merkleRoot
  split
  · rename_i h
    constructor
    · intro h'
      cases h'
    · rintro ⟨hlen, hok, -⟩
      exact absurd h (not_or.mpr ⟨Nat.not_lt.mpr hlen, not_not.mpr hok⟩)
  · rename_i h
    obtain ⟨hlen, hok⟩ := not_or.mp h
    rw [not_not] at hok
    rw [rootRec_eq_root (Nat.le_refl _) hok.slice]
    simp [Nat.not_lt.mp hlen, hok, fullTree]

theorem fullTree_keyBits {leaves : List Leaf} (h : leavesOk leaves) {leaf : Leaf}
    (hleaf : leaf ∈ leaves) : fullTree H leaves (keyBits leaf.key) = leaf.hash := by
  have hfind : leaves.find? (fun l => lowBits l.key smtDepth = keyBits leaf.key) = some leaf := by
    have hsorted := h.slice.ascending
    clear h
    induction leaves with
    | nil => cases hleaf
    | cons first leaves ih =>
      obtain ⟨hfirst, hrest⟩ := List.pairwise_cons.mp hsorted
      rcases List.mem_cons.mp hleaf with rfl | hmem
      · simp [keyBits]
      · have hne : lowBits first.key smtDepth ≠ keyBits leaf.key := by
          intro heq
          have hlt := hfirst leaf hmem
          rw [keyBits_inj heq] at hlt
          exact Nat.lt_irrefl _ hlt
        rw [List.find?_cons_of_neg (by simpa using hne)]
        exact ih hmem hrest
  rw [fullTree, leafAt, hfind]
  rfl

theorem fullTree_of_not_mem {leaves : List Leaf} {key : Block 8}
    (h : ∀ leaf ∈ leaves, leaf.key ≠ key) : fullTree H leaves (keyBits key) = emptyHash H 0 := by
  have hfind : leaves.find? (fun l => lowBits l.key smtDepth = keyBits key) = none := by
    rw [List.find?_eq_none]
    intro l hl heq
    exact h l hl (keyBits_inj (of_decide_eq_true heq))
  rw [fullTree, leafAt, hfind]
  rfl

/-- For every list of leaves that is accepted the root is that of the full tree of depth 64,
    and every leaf has a proof that verifies against it. -/
theorem merkleProof_complete {leaves : List Leaf} (hok : leavesOk leaves)
    (hlen : leaves.length ≤ shardCeiling) :
    ∃ root, merkleRoot H leaves = some root ∧
      root = SparseMerkle.root (nodeHash H) smtDepth (fullTree H leaves) ∧
      ∀ i leaf, leaves[i]? = some leaf →
        ∃ proof, merkleProof H leaves i = some proof ∧
          merkleVerify H leaf.key leaf.hash proof root = true := by
  refine ⟨_, merkleRoot_eq_some_iff.mpr ⟨hlen, hok, rfl⟩, rfl, ?_⟩
  intro i leaf hget
  have hmem : leaf ∈ leaves := List.mem_of_getElem? hget
  have hguard : ¬ (shardCeiling < leaves.length ∨ ¬ leavesOk leaves) :=
    not_or.mpr ⟨Nat.not_lt.mpr hlen, not_not.mpr hok⟩
  unfold merkleProof
  rw [hget]
  simp only [hguard, if_false]
  refine ⟨_, rfl, merkleVerify_iff.mpr ?_⟩
  have hproof := rootRec_siblings (H := H) (Nat.le_refl smtDepth) hok.slice hmem
    (List.length_replicate (n := smtDepth) (a := zeroDigest))
  rw [Nat.sub_self, List.take_zero, List.nil_append] at hproof
  have hleaf := fullTree_keyBits (H := H) hok hmem
  have hclimb := SparseMerkle.climb_siblings (nodeHash H) (keyBits leaf.key) (fullTree H leaves)
  rw [hleaf, keyBits, length_lowBits] at hclimb
  simp only [hproof]
  exact hclimb

/-- Two leaves whose keys part at the last bit. -/
def sampleLeaves : List Leaf :=
  [⟨⟨[0, 0, 0, 0, 0, 0, 0, 4], rfl⟩, zeroDigest⟩,
    ⟨⟨[0, 0, 0, 0, 0, 0, 0, 5], rfl⟩, ⟨List.replicate 32 7, by simp⟩⟩]

theorem sampleLeaves_complete :
    ∃ root, merkleRoot sha256 sampleLeaves = some root ∧
      root = SparseMerkle.root (nodeHash sha256) smtDepth (fullTree sha256 sampleLeaves) ∧
      ∀ i leaf, sampleLeaves[i]? = some leaf →
        ∃ proof, merkleProof sha256 sampleLeaves i = some proof ∧
          merkleVerify sha256 leaf.key leaf.hash proof root = true :=
  merkleProof_complete (by decide) (by decide)

end VaultWitness
