-- SUMMARY: What the byte string of a leaf snapshot says beyond the tree it rebuilds: the bytes behind a NUL in a name, and nothing else.
import Aimee.Lib.Table
import Aimee.Vault.WitnessBinding
import Aimee.Vault.WitnessOffline

/-!
# Spellings of a snapshot

A snapshot is parsed into rows, whose names are bytes, and the rows are hashed, where a name ends at its
first NUL. Two snapshots that rebuild one root have the same rows up to there.
-/

namespace VaultWitness

/-- A row of a snapshot as it stands in the bytes. -/
structure SnapshotRow where
  tenant : List UInt8
  provider : List UInt8
  seq : UInt64
  head : Digest

namespace SnapshotRow

/-- `u16 tlen, tenant, u16 plen, provider, u64 seq, head[32]`. -/
def wire (r : SnapshotRow) : List UInt8 :=
  Wire.putU16 (UInt16.ofNat r.tenant.length) ++
    (r.tenant ++ (Wire.putU16 (UInt16.ofNat r.provider.length) ++ (r.provider ++
    (Wire.putU64 r.seq ++ r.head.val))))

/-- The names fit their buffers. -/
def Fits (r : SnapshotRow) : Prop := r.tenant.length ≤ tenantMax ∧ r.provider.length ≤ providerMax

/-- What the hashing helpers read of the names. -/
def tenantRead (r : SnapshotRow) : CString := CString.ofBytes r.tenant
def providerRead (r : SnapshotRow) : CString := CString.ofBytes r.provider

/-- What they do not read: the names from their first NUL on. -/
def unread (r : SnapshotRow) : List UInt8 × List UInt8 := (r.tenant.dropWhile (· ≠ 0), r.provider.dropWhile (· ≠ 0))

/-- The leaf of a row. -/
def IsLeaf (H : HashFn) (r : SnapshotRow) (leaf : Leaf) : Prop :=
  shardKeyHash H r.tenantRead r.providerRead = some leaf.key ∧
    leafHash H r.tenantRead r.providerRead r.seq r.head = some leaf.hash

end SnapshotRow

/-- The rows of a snapshot, from the same bytes in the same order. -/
def readRow : Reader SnapshotRow := do
  let tl ← Reader.u16
  Reader.check (tl.toNat ≤ tenantMax)
  let tenant ← Reader.block tl.toNat
  let pl ← Reader.u16
  Reader.check (pl.toNat ≤ providerMax)
  let provider ← Reader.block pl.toNat
  let seq ← Reader.u64
  let head ← Reader.block 32
  return ⟨tenant.val, provider.val, seq, head⟩

def readRows : Nat → Reader (List SnapshotRow)
  | 0 => pure []
  | n + 1 => do
      let row ← readRow
      let rest ← readRows n
      return row :: rest

def snapshotRows : Reader (List SnapshotRow) := do
  let count ← Reader.u32
  readRows count.toNat

/-- The rows and the leaves of a snapshot. -/
def rowsIn (bytes : List UInt8) : List SnapshotRow := (Reader.exactly snapshotRows bytes).getD []

def leavesIn (H : HashFn) (bytes : List UInt8) : List Leaf := (Reader.exactly (readSnapshot H) bytes).getD []

/-- The bytes of a snapshot that no hash covers, name by name. -/
def unreadNames (bytes : List UInt8) : List (List UInt8 × List UInt8) := (rowsIn bytes).map SnapshotRow.unread

/-! ## Rows -/

variable {H : HashFn} {inp rest : List UInt8}

theorem length_prefix {bs : List UInt8} {cap : ℕ} (h : bs.length ≤ cap) (hcap : cap < 2 ^ 16) :
    (UInt16.ofNat bs.length).toNat = bs.length :=
  UInt16.toNat_ofNat_of_lt' (Nat.lt_of_le_of_lt h hcap)

theorem run_readRow {r : SnapshotRow} (h : r.Fits) : readRow.run (r.wire ++ rest) = some (r, rest) := by
  obtain ⟨tenant, provider, seq, head⟩ := r
  obtain ⟨htenant, hprovider⟩ := h
  have htl := length_prefix htenant (by decide)
  have hpl := length_prefix hprovider (by decide)
  have htblock : ∀ k : Block (UInt16.ofNat tenant.length).toNat → Reader SnapshotRow, ∀ s,
      (Reader.block _ >>= k).run (tenant ++ s) =
      (k ⟨tenant, htl.symm⟩).run s := fun k s => Reader.run_block s ⟨tenant, htl.symm⟩ k
  have hpblock : ∀ k : Block (UInt16.ofNat provider.length).toNat → Reader SnapshotRow, ∀ s,
      (Reader.block _ >>= k).run (provider ++ s) =
      (k ⟨provider, hpl.symm⟩).run s := fun k s => Reader.run_block s ⟨provider, hpl.symm⟩ k
  simp only [readRow, SnapshotRow.wire, List.append_assoc]
  rw [Reader.run_u16, Reader.run_check _ (htl.symm ▸ htenant), htblock, Reader.run_u16,
    Reader.run_check _ (hpl.symm ▸ hprovider), hpblock, Reader.run_u64, Reader.run_block]
  rfl

theorem run_readSnapshotLeaf {leaf : Leaf} (h : (readSnapshotLeaf H).run inp = some (leaf, rest)) :
    ∃ r : SnapshotRow, r.Fits ∧ inp = r.wire ++ rest ∧ r.IsLeaf H leaf := by
  simp only [readSnapshotLeaf, Reader.run_block_iff, Reader.run_check_iff, Reader.run_u16_iff, Reader.run_u64_iff] at h
  obtain ⟨tl, _, rfl, htl, tenant, _, rfl, pl, _, rfl, hpl, provider, _, rfl, seq, _, rfl, head, rest', rfl, h⟩ := h
  refine ⟨⟨tenant.val, provider.val, seq, head⟩, ⟨?_, ?_⟩, ?_⟩
  · rw [tenant.property]
    exact htl
  · rw [provider.property]
    exact hpl
  cases hkey : shardKeyHash H (CString.ofBytes tenant.val) (CString.ofBytes provider.val) with
  | none =>
    rw [hkey] at h
    cases h
  | some key =>
    rw [hkey] at h
    cases hhash : leafHash H (CString.ofBytes tenant.val) (CString.ofBytes provider.val) seq head with
    | none =>
      simp only [hhash] at h
      cases h
    | some hash =>
      simp only [hhash] at h
      cases h
      refine ⟨?_, hkey, hhash⟩
      simp [SnapshotRow.wire, tenant.property, provider.property]

theorem run_readSnapshotLeaves {n : ℕ} {leaves : List Leaf}
    (h : (readSnapshotLeaves H n).run inp = some (leaves, rest)) :
    ∃ rows : List SnapshotRow, rows.length = n ∧ (∀ r ∈ rows, r.Fits) ∧ inp = rows.flatMap SnapshotRow.wire ++ rest ∧
      List.Forall₂ (SnapshotRow.IsLeaf H) rows leaves := by
  induction n generalizing inp leaves with
  | zero =>
    cases h
    exact ⟨[], rfl, nofun, rfl, .nil⟩
  | succ n ih =>
    obtain ⟨⟨leaf, inp'⟩, hleaf, h⟩ := Option.bind_eq_some_iff.mp h
    obtain ⟨⟨leaves', inp''⟩, hleaves, h⟩ := Option.bind_eq_some_iff.mp h
    cases h
    obtain ⟨row, hfits, rfl, hrow⟩ := run_readSnapshotLeaf hleaf
    obtain ⟨rows, hlen, hrows, rfl, hforall⟩ := ih hleaves
    refine ⟨row :: rows, congrArg Nat.succ hlen, List.forall_mem_cons.mpr ⟨hfits, hrows⟩, ?_, .cons hrow hforall⟩
    rw [List.flatMap_cons, List.append_assoc]

theorem run_readRows {rows : List SnapshotRow} (h : ∀ r ∈ rows, r.Fits) :
    (readRows rows.length).run (rows.flatMap SnapshotRow.wire ++ rest) = some (rows, rest) := by
  induction rows with
  | nil => rfl
  | cons row rows ih =>
    obtain ⟨hrow, hrows⟩ := List.forall_mem_cons.mp h
    rw [List.length_cons, readRows, List.flatMap_cons, List.append_assoc, StateT.run_bind, run_readRow hrow]
    change (readRows rows.length >>= fun rest => pure (row :: rest)).run (rows.flatMap SnapshotRow.wire ++ rest) = _
    rw [StateT.run_bind, ih hrows]
    rfl

/-- The bytes of a snapshot with these rows. -/
def snapshotWire (rows : List SnapshotRow) :
    List UInt8 := Wire.putU32 (UInt32.ofNat rows.length) ++ rows.flatMap SnapshotRow.wire

/-- A snapshot that rebuilds a root is the bytes of its rows, and the tree is over their leaves. -/
theorem rows_of_rebuilds {bytes : List UInt8} {root : Digest} (h : snapshotRebuildsRoot H bytes root = some true) :
    ∃ rows leaves, rows.length ≤ shardCeiling ∧ (∀ r ∈ rows, SnapshotRow.Fits r) ∧ bytes = snapshotWire rows ∧
      Reader.exactly (readSnapshot H) bytes = some leaves ∧ List.Forall₂ (SnapshotRow.IsLeaf H) rows leaves ∧
        merkleRoot H leaves = some root := by
  unfold snapshotRebuildsRoot at h
  split at h
  case h_1 => cases h
  case h_2 leaves hread =>
    have hrun := Reader.exactly_eq_some_iff.mp hread
    simp only [readSnapshot, Reader.run_u32_iff, Reader.run_check_iff] at hrun
    obtain ⟨count, inp, rfl, ⟨_, hcount⟩, hleaves⟩ := hrun
    obtain ⟨rows, hlen, hfits, rfl, hforall⟩ := run_readSnapshotLeaves hleaves
    obtain ⟨root', hroot, heq⟩ := Option.map_eq_some_iff.mp h
    obtain rfl := of_decide_eq_true heq
    refine ⟨rows, leaves, hlen ▸ hcount, hfits, ?_, hread, hforall, hroot⟩
    rw [snapshotWire, hlen, UInt32.ofNat_toNat, List.append_nil]

theorem rowsIn_snapshotWire {rows : List SnapshotRow} (hlen : rows.length ≤ shardCeiling) (hfits : ∀ r ∈ rows, r.Fits) :
    rowsIn (snapshotWire rows) = rows := by
  have hcount : (UInt32.ofNat rows.length).toNat = rows.length :=
    UInt32.toNat_ofNat_of_lt' (Nat.lt_of_le_of_lt hlen (by decide))
  have hrun : snapshotRows.run (snapshotWire rows) = some (rows, []) := by
    rw [snapshotRows, snapshotWire, Reader.run_u32, hcount, ← List.append_nil (rows.flatMap _), run_readRows hfits]
  rw [rowsIn, Reader.exactly_eq_some_iff.mpr hrun]
  rfl

/-! ## One root, one list of leaves -/

/-- What the leaves of a snapshot are hashed from. -/
def SnapshotRow.preimage (r : SnapshotRow) : List UInt8 := leafPreimage r.tenantRead r.providerRead r.seq r.head

theorem SnapshotRow.IsLeaf.hash {r : SnapshotRow} {leaf : Leaf} (h : r.IsLeaf H leaf) :
    H r.preimage = leaf.hash := leafHash_eq_some h.2

/-- No leaf looks like the empty one: their labels differ. -/
theorem leafPreimage_ne_empty (tenant provider : CString) (seq : UInt64) (head : Digest) :
    leafPreimage tenant provider seq head ≠ smtEmptyLabel := by
  intro h
  have hprefix := congrArg (List.take 25) h
  simp only [leafPreimage, List.append_assoc] at hprefix
  rw [List.take_append_of_le_length (by decide)] at hprefix
  exact absurd hprefix (by decide)

/-- The trees over two lists of leaves hash no pair alike that differs. -/
def LeavesFree (H : HashFn) (leaves leaves' : List Leaf) : Prop :=
  SparseMerkle.TreesCollisionFree (nodeHash H) smtDepth (fullTree H leaves) (fullTree H leaves')

section

variable {rows rows' : List SnapshotRow} {leaves leaves' : List Leaf} {root : Digest}

theorem mem_of_same_root (hroot : merkleRoot H leaves = some root) (hroot' : merkleRoot H leaves' = some root)
    (hfree : LeavesFree H leaves leaves') (hrows : List.Forall₂ (SnapshotRow.IsLeaf H) rows leaves)
    (hcf : CollisionFree H (smtEmptyLabel :: rows.map SnapshotRow.preimage)) {leaf : Leaf}
    (hleaf : leaf ∈ leaves) : leaf ∈ leaves' := by
  obtain ⟨_, hok, hr⟩ := merkleRoot_eq_some_iff.mp hroot
  obtain ⟨_, hok', hr'⟩ := merkleRoot_eq_some_iff.mp hroot'
  have hat := SparseMerkle.eq_of_root_eq hfree (hr.trans hr'.symm) (length_lowBits leaf.key smtDepth)
  change fullTree H leaves (keyBits leaf.key) = fullTree H leaves' (keyBits leaf.key) at hat
  rw [fullTree_keyBits hok hleaf] at hat
  by_cases hmem : ∃ leaf' ∈ leaves', leaf'.key = leaf.key
  · obtain ⟨leaf', hleaf', hkey⟩ := hmem
    rw [← hkey, fullTree_keyBits hok' hleaf'] at hat
    obtain rfl : leaf = leaf' := by
      cases leaf
      cases leaf'
      cases hkey
      cases hat
      rfl
    exact hleaf'
  · have hnone : ∀ leaf' ∈ leaves', leaf'.key ≠ leaf.key := fun leaf' hleaf' hkey => hmem ⟨leaf', hleaf', hkey⟩
    rw [fullTree_of_not_mem hnone] at hat
    obtain ⟨row, hrow, hisLeaf⟩ := Table.exists_mem_of_forall₂ hrows hleaf
    have hcollide : H row.preimage = H smtEmptyLabel := hisLeaf.hash.trans hat
    have hpre := hcf _ (List.mem_cons_of_mem _ (List.mem_map_of_mem hrow)) _ List.mem_cons_self hcollide
    exact absurd hpre (leafPreimage_ne_empty _ _ _ _)

/-- One root is that of one list of leaves, since the leaves ascend. -/
theorem leaves_eq_of_same_root (hroot : merkleRoot H leaves = some root) (hroot' : merkleRoot H leaves' = some root)
    (hsub : ∀ leaf ∈ leaves, leaf ∈ leaves') (hsup : ∀ leaf ∈ leaves', leaf ∈ leaves) : leaves = leaves' := by
  obtain ⟨_, hok, _⟩ := merkleRoot_eq_some_iff.mp hroot
  obtain ⟨_, hok', _⟩ := merkleRoot_eq_some_iff.mp hroot'
  exact List.Pairwise.eq_of_mem_iff hok.slice.ascending hok'.slice.ascending fun leaf => ⟨hsub leaf, hsup leaf⟩

theorem SnapshotRow.eq_of_read {r r' : SnapshotRow} {leaf : Leaf} (h : r.IsLeaf H leaf) (h' : r'.IsLeaf H leaf)
    (hcf : CollisionFree H [r.preimage, r'.preimage]) (hunread : r.unread = r'.unread) : r = r' := by
  have hpre : r.preimage = r'.preimage :=
    hcf _ List.mem_cons_self _ (List.mem_cons_of_mem _ List.mem_cons_self) (h.hash.trans h'.hash.symm)
  obtain ⟨htenant, hprovider, hseq, hhead⟩ := leafPreimage_inj h.2 h'.2 hpre
  obtain ⟨htenant', hprovider'⟩ := Prod.mk.inj hunread
  have htenant'' : r.tenant = r'.tenant := by
    rw [← List.takeWhile_append_dropWhile (p := (· ≠ 0)) (l := r.tenant), ← List.takeWhile_append_dropWhile
      (p := (· ≠ 0)) (l := r'.tenant), htenant']
    exact congrArg (· ++ _) (congrArg Subtype.val htenant)
  have hprovider'' : r.provider = r'.provider := by
    rw [← List.takeWhile_append_dropWhile (p := (· ≠ 0)) (l := r.provider),
      ← List.takeWhile_append_dropWhile (p := (· ≠ 0)) (l := r'.provider), hprovider']
    exact congrArg (· ++ _) (congrArg Subtype.val hprovider)
  cases r
  cases r'
  cases htenant''
  cases hprovider''
  cases hseq
  cases hhead
  rfl

theorem rows_eq_of_read (hrows : List.Forall₂ (SnapshotRow.IsLeaf H) rows leaves)
    (hrows' : List.Forall₂ (SnapshotRow.IsLeaf H) rows' leaves)
    (hcf : CollisionFree H (rows.map SnapshotRow.preimage ++ rows'.map SnapshotRow.preimage))
    (hunread : rows.map SnapshotRow.unread = rows'.map SnapshotRow.unread) : rows = rows' := by
  induction hrows generalizing rows' with
  | nil =>
    cases hrows'
    rfl
  | cons hrow _ ih =>
    cases hrows' with
    | cons hrow' hrest' =>
      obtain ⟨hunread₁, hunread₂⟩ := List.cons.inj hunread
      have hhead := SnapshotRow.eq_of_read hrow hrow' (hcf.mono (by simp)) hunread₁
      have htail := ih hrest' (hcf.mono fun x hx => by
        rcases List.mem_append.mp hx with hx | hx
        · exact List.mem_append_left _ (List.mem_cons_of_mem _ hx)
        · exact List.mem_append_right _ (List.mem_cons_of_mem _ hx)) hunread₂
      rw [hhead, htail]

end

/-- Node, leaf and label hashes do not collide on what two snapshots are hashed from. -/
def SpellingsFree (H : HashFn) (bytes bytes' : List UInt8) : Prop :=
  LeavesFree H (leavesIn H bytes) (leavesIn H bytes') ∧
    CollisionFree H (smtEmptyLabel ::
      ((rowsIn bytes).map SnapshotRow.preimage ++ (rowsIn bytes').map SnapshotRow.preimage))

/-- Two snapshots that rebuild one root have the same leaves. -/
theorem leavesIn_eq {bytes bytes' : List UInt8} {root : Digest} (h : snapshotRebuildsRoot H bytes root = some true)
    (h' : snapshotRebuildsRoot H bytes' root = some true) (hfree : SpellingsFree H bytes bytes') :
    leavesIn H bytes = leavesIn H bytes' := by
  obtain ⟨rows, leaves, hlen, hfits, rfl, hread, hrows, hroot⟩ := rows_of_rebuilds h
  obtain ⟨rows', leaves', hlen', hfits', rfl, hread', hrows', hroot'⟩ := rows_of_rebuilds h'
  obtain ⟨htrees, hcf⟩ := hfree
  rw [leavesIn, leavesIn, hread, hread'] at htrees ⊢
  rw [rowsIn_snapshotWire hlen hfits, rowsIn_snapshotWire hlen' hfits'] at hcf
  have hcf₁ : CollisionFree H (smtEmptyLabel :: rows.map SnapshotRow.preimage) := hcf.mono fun x hx => by
    rcases List.mem_cons.mp hx with rfl | hx
    · exact List.mem_cons_self
    · exact List.mem_cons_of_mem _ (List.mem_append_left _ hx)
  have hcf₂ : CollisionFree H (smtEmptyLabel :: rows'.map SnapshotRow.preimage) := hcf.mono fun x hx => by
    rcases List.mem_cons.mp hx with rfl | hx
    · exact List.mem_cons_self
    · exact List.mem_cons_of_mem _ (List.mem_append_right _ hx)
  exact leaves_eq_of_same_root hroot hroot' (fun _ => mem_of_same_root hroot hroot' htrees hrows hcf₁)
    (fun _ => mem_of_same_root hroot' hroot htrees.symm hrows' hcf₂)

theorem eq_of_leavesIn_eq {bytes bytes' : List UInt8} {root : Digest}
    (h : snapshotRebuildsRoot H bytes root = some true)
    (h' : snapshotRebuildsRoot H bytes' root = some true) (hfree : SpellingsFree H bytes bytes')
    (hunread : unreadNames bytes = unreadNames bytes') :
    bytes = bytes' := by
  have hleaves := leavesIn_eq h h' hfree
  obtain ⟨rows, leaves, hlen, hfits, rfl, hread, hrows, hroot⟩ := rows_of_rebuilds h
  obtain ⟨rows', leaves', hlen', hfits', rfl, hread', hrows', hroot'⟩ := rows_of_rebuilds h'
  have hcf := hfree.2
  rw [leavesIn, leavesIn, hread, hread'] at hleaves
  rw [rowsIn_snapshotWire hlen hfits, rowsIn_snapshotWire hlen' hfits'] at hcf
  rw [unreadNames, unreadNames, rowsIn_snapshotWire hlen hfits, rowsIn_snapshotWire hlen' hfits'] at hunread
  obtain rfl : leaves = leaves' := hleaves
  rw [rows_eq_of_read hrows hrows' (hcf.mono fun x hx => List.mem_cons_of_mem _ hx) hunread]

/-- Two snapshots that rebuild one root are the same bytes exactly if they have the same bytes behind the
    NULs of their names. -/
theorem snapshot_eq_iff {bytes bytes' : List UInt8} {root : Digest} (h : snapshotRebuildsRoot H bytes root = some true)
    (h' : snapshotRebuildsRoot H bytes' root = some true) (hfree : SpellingsFree H bytes bytes') :
    bytes = bytes' ↔ unreadNames bytes = unreadNames bytes' :=
  ⟨fun heq => congrArg unreadNames heq, eq_of_leavesIn_eq h h' hfree⟩

/-! ## One leaf, two spellings -/

def plainRow : SnapshotRow := ⟨ascii "acme", ascii "openai", 1, zeroDigest⟩

/-- The tenant with a NUL and one byte more. -/
def longRow : SnapshotRow := { plainRow with tenant := ascii "acme" ++ [0, 120] }

def sampleRoot : Digest := SparseMerkle.root (nodeHash sha256) smtDepth (fullTree sha256 [sampleLeaf])

private theorem read_plainRow :
    Reader.exactly (readSnapshot sha256) (snapshotWire [plainRow]) = some [sampleLeaf] := by decide +kernel

private theorem read_longRow :
    Reader.exactly (readSnapshot sha256) (snapshotWire [longRow]) = some [sampleLeaf] := by decide +kernel

private theorem rebuilds_of_read {bytes : List UInt8}
    (h : Reader.exactly (readSnapshot sha256) bytes = some [sampleLeaf]) :
    snapshotRebuildsRoot sha256 bytes sampleRoot = some true := by
  have hroot : merkleRoot sha256 [sampleLeaf] = some sampleRoot :=
    merkleRoot_eq_some_iff.mpr ⟨by decide, .singleton _, rfl⟩
  rw [snapshotRebuildsRoot, h]
  simp [hroot]

private theorem sampleSpellings_free : SpellingsFree sha256 (snapshotWire [plainRow]) (snapshotWire [longRow]) := by
  refine ⟨?_, by decide +kernel⟩
  exact SparseMerkle.treesCollisionFree_refl _ _

theorem sampleSpellings_iff :
    snapshotWire [plainRow] = snapshotWire [longRow] ↔
      unreadNames (snapshotWire [plainRow]) = unreadNames (snapshotWire [longRow]) :=
  snapshot_eq_iff (rebuilds_of_read read_plainRow) (rebuilds_of_read read_longRow) sampleSpellings_free

/-- The root of one leaf has two snapshots. -/
theorem two_spellings :
    snapshotRebuildsRoot sha256 (snapshotWire [plainRow]) sampleRoot = some true ∧
      snapshotRebuildsRoot sha256 (snapshotWire [longRow]) sampleRoot = some true ∧
        SpellingsFree sha256 (snapshotWire [plainRow]) (snapshotWire [longRow]) ∧
          snapshotWire [plainRow] ≠ snapshotWire [longRow] :=
  ⟨rebuilds_of_read read_plainRow, rebuilds_of_read read_longRow, sampleSpellings_free, by decide⟩

end VaultWitness
