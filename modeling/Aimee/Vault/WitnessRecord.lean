-- SUMMARY: Vault witness records: validity, the digest and its preimage, and the wire decoder.
import Aimee.Lib.Hash
import Aimee.Lib.Reader

/-!
# Witness records

`vault_witness_record.c`. The text fields are buffers with room for a terminator behind
the longest text that is valid; a buffer without a terminator is a text that is too long.
The flags `has_source_pred` and `is_first_in_shard` are booleans. Every function takes the
hash function as a parameter; the source calls SHA-256 of OpenSSL, which does not fail.
-/

namespace VaultWitness

/-- `VAULT_WITNESS_TENANT_MAX` and the other caps of the text fields. -/
def tenantMax : Nat := 128
def providerMax : Nat := 128
def sourceIdMax : Nat := 256
def requestIdMax : Nat := 200
def principalMax : Nat := 575
def providerCredMax : Nat := 256
def groupIdMax : Nat := 256
def timestampMax : Nat := 40

/-- `VAULT_WITNESS_RECORD_MAX` and `WIRE_HEADER_LEN`. -/
def recordMax : Nat := 2048
def wireHeaderLen : Nat := 140

/-- `VAULT_WITNESS_DIGEST_LABEL` and `VAULT_WITNESS_GENESIS_LABEL`. -/
def digestLabel : List UInt8 := ascii "aimee-vault-witness-v1"
def genesisLabel : List UInt8 := ascii "aimee-vault-witness-genesis-v1"

def recordMagic : List UInt8 := ascii "AIMWTNS1"

/-- `vault_witness_source_t`. -/
inductive Source where
  | audit
  | rewrap
  | openEvent
  deriving DecidableEq

def Source.toByte : Source → UInt8
  | .audit => 0
  | .rewrap => 1
  | .openEvent => 2

/-- The source a byte stands for, if it is one that `record_valid` accepts. -/
def Source.ofByte? (b : UInt8) : Option Source :=
  if b = 0 then some .audit
  else if b = 1 then some .rewrap
  else if b = 2 then some .openEvent
  else none

/-- `vault_witness_record_t`. -/
structure Record where
  source : Source
  sealEpoch : UInt64
  fencingToken : UInt64
  shardSeq : UInt64
  hasSourcePred : Bool
  isFirstInShard : Bool
  sourceHash : Digest
  sourcePredHash : Digest
  witnessPredHash : Digest
  sourceId : CString
  tenant : CString
  provider : CString
  requestId : CString
  principal : CString
  providerCred : CString
  groupId : CString
  timestamp : CString
  deriving DecidableEq

variable (H : HashFn)

/-- `vault_witness_shard_key_hash`. -/
def shardKeyHash (tenant provider : CString) : Option (Block 8) :=
  if tenant.val.length = 0 ∨ tenantMax < tenant.val.length ∨ providerMax < provider.val.length
  then none
  else
    let full := H (Wire.packText tenant.val ++ Wire.packText provider.val)
    some ⟨full.val.take 8, by rw [List.length_take, full.property]; rfl⟩

/-- `vault_witness_genesis_sentinel`. -/
def genesisSentinel (tenant provider : CString) : Option Digest :=
  if tenant.val.length = 0 ∨ tenantMax < tenant.val.length ∨ providerMax < provider.val.length
  then none
  else some (H (genesisLabel ++ Wire.packText tenant.val ++ Wire.packText provider.val))

def strOk (s : CString) (cap min : Nat) : Bool := min ≤ s.val.length ∧ s.val.length ≤ cap

def allZero (bytes : List UInt8) : Bool := bytes.all (· = 0)

/-- `record_valid`. The check of `source` is its type. -/
structure RecordValid (r : Record) : Prop where
  shardSeq : r.shardSeq ≠ 0
  sourceId : strOk r.sourceId sourceIdMax 1
  tenant : strOk r.tenant tenantMax 1
  provider : strOk r.provider providerMax 1
  requestId : strOk r.requestId requestIdMax 0
  principal : strOk r.principal principalMax 0
  providerCred : strOk r.providerCred providerCredMax 0
  groupId : strOk r.groupId groupIdMax 0
  timestamp : strOk r.timestamp timestampMax 1
  sourcePred : if r.hasSourcePred then r.source = .audit else allZero r.sourcePredHash.val
  first : r.isFirstInShard = decide (r.shardSeq = 1)
  genesis : (genesisSentinel H r.tenant r.provider).any fun g =>
    r.isFirstInShard = decide (r.witnessPredHash = g)

instance (r : Record) : Decidable (RecordValid H r) :=
  decidable_of_iff
    (r.shardSeq ≠ 0 ∧ strOk r.sourceId sourceIdMax 1 ∧ strOk r.tenant tenantMax 1 ∧
      strOk r.provider providerMax 1 ∧ strOk r.requestId requestIdMax 0 ∧
      strOk r.principal principalMax 0 ∧ strOk r.providerCred providerCredMax 0 ∧
      strOk r.groupId groupIdMax 0 ∧ strOk r.timestamp timestampMax 1 ∧
      (if r.hasSourcePred then r.source = .audit else allZero r.sourcePredHash.val) ∧
      r.isFirstInShard = decide (r.shardSeq = 1) ∧
      (genesisSentinel H r.tenant r.provider).any fun g =>
        r.isFirstInShard = decide (r.witnessPredHash = g))
    ⟨fun ⟨h₁, h₂, h₃, h₄, h₅, h₆, h₇, h₈, h₉, h₁₀, h₁₁, h₁₂⟩ =>
        ⟨h₁, h₂, h₃, h₄, h₅, h₆, h₇, h₈, h₉, h₁₀, h₁₁, h₁₂⟩,
      fun ⟨h₁, h₂, h₃, h₄, h₅, h₆, h₇, h₈, h₉, h₁₀, h₁₁, h₁₂⟩ =>
        ⟨h₁, h₂, h₃, h₄, h₅, h₆, h₇, h₈, h₉, h₁₀, h₁₁, h₁₂⟩⟩

/-- The bytes that `vault_witness_record_digest` hashes. The buffer of 4096 bytes has room
    for every valid record. -/
def recordPreimage (r : Record) : List UInt8 :=
  Wire.packText digestLabel ++ r.source.toByte :: Wire.packText r.sourceId.val ++
    Wire.packText r.tenant.val ++ Wire.packText r.provider.val ++ Wire.packText r.requestId.val ++
    Wire.packText r.principal.val ++ Wire.packText r.providerCred.val ++
    Wire.packText r.groupId.val ++ Wire.packText r.timestamp.val ++ r.sourceHash.val ++
    (if r.hasSourcePred then 1 else 0) :: r.sourcePredHash.val ++ r.witnessPredHash.val ++
    Wire.putU64 r.sealEpoch ++ Wire.putU64 r.fencingToken ++ Wire.putU64 r.shardSeq

/-- `vault_witness_record_digest`. -/
def recordDigest (r : Record) : Option Digest :=
  if RecordValid H r then some (H (recordPreimage r)) else none

/-! ## The wire format -/

/-- `wire_put_str`. The texts of a valid record are shorter than `0xFFFF` bytes. -/
def wirePutStr (s : CString) : List UInt8 := Wire.putU16 (UInt16.ofNat s.val.length) ++ s.val

/-- The bytes behind the header of an encoded record. -/
def recordWireBody (r : Record) : List UInt8 :=
  wirePutStr r.sourceId ++ wirePutStr r.tenant ++ wirePutStr r.provider ++ wirePutStr r.requestId ++
    wirePutStr r.principal ++ wirePutStr r.providerCred ++ wirePutStr r.groupId ++
    wirePutStr r.timestamp

/-- The bytes of an encoded record. Bit 0 of the flags is `FLAG_HAS_SOURCE_PRED` and bit 1 is
    `FLAG_IS_FIRST`. -/
def recordWire (r : Record) : List UInt8 :=
  recordMagic ++ Wire.putU16 1 ++ Wire.putU16 0 ++
    Wire.putU32 (UInt32.ofNat (wireHeaderLen + (recordWireBody r).length)) ++ r.source.toByte ::
    ((if r.hasSourcePred then 1 else 0) ||| (if r.isFirstInShard then 2 else 0)) ::
    Wire.putU16 0 ++ Wire.putU64 r.sealEpoch ++ Wire.putU64 r.fencingToken ++
    Wire.putU64 r.shardSeq ++ r.sourceHash.val ++ r.sourcePredHash.val ++ r.witnessPredHash.val ++
    recordWireBody r

/-- `vault_witness_record_encode`, into a buffer of `cap` bytes. -/
def recordEncode (r : Record) (cap : Nat) : Option (List UInt8) :=
  if ¬ RecordValid H r ∨ cap < (recordWire r).length then none else some (recordWire r)

def wireGetStr (cap : Nat) : Reader CString := do
  let len ← Reader.u16
  Reader.check (len.toNat ≤ cap)
  Reader.text len.toNat

/-- The header and the text fields, in wire order. -/
def readRecord (wireLen : Nat) : Reader Record := do
  let magic ← Reader.block 8
  Reader.check (magic.val = recordMagic)
  let major ← Reader.u16
  let minor ← Reader.u16
  Reader.check (major = 1 ∧ minor = 0)
  let totalLen ← Reader.u32
  Reader.check (totalLen.toNat = wireLen)
  let sourceByte ← Reader.u8
  let flags ← Reader.u8
  let reserved ← Reader.u16
  Reader.check (reserved = 0 ∧ flags.toNat < 4)
  let sealEpoch ← Reader.u64
  let fencingToken ← Reader.u64
  let shardSeq ← Reader.u64
  let sourceHash ← Reader.block 32
  let sourcePredHash ← Reader.block 32
  let witnessPredHash ← Reader.block 32
  let sourceId ← wireGetStr sourceIdMax
  let tenant ← wireGetStr tenantMax
  let provider ← wireGetStr providerMax
  let requestId ← wireGetStr requestIdMax
  let principal ← wireGetStr principalMax
  let providerCred ← wireGetStr providerCredMax
  let groupId ← wireGetStr groupIdMax
  let timestamp ← wireGetStr timestampMax
  let source ← (Source.ofByte? sourceByte : Option Source)
  return { source, sealEpoch, fencingToken, shardSeq, hasSourcePred := flags.toNat.testBit 0,
           isFirstInShard := flags.toNat.testBit 1, sourceHash, sourcePredHash, witnessPredHash,
           sourceId, tenant, provider, requestId, principal, providerCred, groupId, timestamp }

/-- `vault_witness_record_decode`. -/
def recordDecode (wire : List UInt8) : Option Record :=
  if wire.length < wireHeaderLen ∨ recordMax < wire.length then none
  else
    match Reader.exactly (readRecord wire.length) wire with
    | some r => if RecordValid H r then some r else none
    | none => none

/-! ## What a digest binds -/

variable {H}

variable {r b a : Record}

theorem recordDigest_eq_some_iff {d : Digest} :
    recordDigest H r = some d ↔ RecordValid H r ∧ H (recordPreimage r) = d := by
  unfold recordDigest
  split
  · rename_i h
    simp [h]
  · rename_i h
    simp [h]

theorem recordDecode_valid {wire : List UInt8} (h : recordDecode H wire = some r) :
    RecordValid H r := by
  unfold recordDecode at h
  split at h
  · cases h
  split at h
  · split at h
    · rename_i hvalid
      cases h
      exact hvalid
    · cases h
  · cases h

private theorem Source.toByte_inj {a b : Source} (h : a.toByte = b.toByte) : a = b := by
  cases a <;> cases b <;> first | rfl | cases h

/-- A text that passes its check is short enough for its length prefix. -/
private theorem strOk_length {s : CString} {cap min : Nat} (h : strOk s cap min) (hcap : cap < 2 ^ 32) :
    s.val.length < 2 ^ 32 :=
  Nat.lt_of_le_of_lt (of_decide_eq_true h).2 hcap

private theorem packText_str_inj {a b : CString} {cap min : Nat} {s t : List UInt8}
    (ha : strOk a cap min) (hb : strOk b cap min) (hcap : cap < 2 ^ 32)
    (h : Wire.packText a.val ++ s = Wire.packText b.val ++ t) : a = b ∧ s = t := by
  obtain ⟨hab, hst⟩ := Wire.packText_append_inj (strOk_length ha hcap) (strOk_length hb hcap) h
  exact ⟨Subtype.ext hab, hst⟩

theorem recordPreimage_inj (ha : RecordValid H a) (hb : RecordValid H b)
    (h : recordPreimage a = recordPreimage b) : a = b := by
  simp only [recordPreimage, List.append_assoc, List.cons_append] at h
  obtain ⟨hsource, h⟩ := List.cons.inj (List.append_cancel_left h)
  obtain ⟨hsourceId, h⟩ := packText_str_inj ha.sourceId hb.sourceId (by decide) h
  obtain ⟨htenant, h⟩ := packText_str_inj ha.tenant hb.tenant (by decide) h
  obtain ⟨hprovider, h⟩ := packText_str_inj ha.provider hb.provider (by decide) h
  obtain ⟨hrequestId, h⟩ := packText_str_inj ha.requestId hb.requestId (by decide) h
  obtain ⟨hprincipal, h⟩ := packText_str_inj ha.principal hb.principal (by decide) h
  obtain ⟨hproviderCred, h⟩ := packText_str_inj ha.providerCred hb.providerCred (by decide) h
  obtain ⟨hgroupId, h⟩ := packText_str_inj ha.groupId hb.groupId (by decide) h
  obtain ⟨htimestamp, h⟩ := packText_str_inj ha.timestamp hb.timestamp (by decide) h
  obtain ⟨hsourceHash, h⟩ := Block.append_inj h
  obtain ⟨hflag, h⟩ := List.cons.inj h
  obtain ⟨hsourcePred, h⟩ := Block.append_inj h
  obtain ⟨hwitnessPred, h⟩ := Block.append_inj h
  obtain ⟨hsealEpoch, h⟩ := Wire.putU64_append_inj h
  obtain ⟨hfencingToken, h⟩ := Wire.putU64_append_inj h
  have hshardSeq : a.shardSeq = b.shardSeq := by
    rw [← List.append_nil (Wire.putU64 a.shardSeq), ← List.append_nil (Wire.putU64 b.shardSeq)] at h
    exact (Wire.putU64_append_inj h).1
  have hhasSourcePred : a.hasSourcePred = b.hasSourcePred := by
    cases ha' : a.hasSourcePred <;> cases hb' : b.hasSourcePred <;> simp [ha', hb'] at hflag ⊢
  -- The flag that is not hashed is a function of the sequence number.
  have hfirst : a.isFirstInShard = b.isFirstInShard := by rw [ha.first, hb.first, hshardSeq]
  cases a
  cases b
  simp only [Record.mk.injEq]
  exact ⟨Source.toByte_inj hsource, hsealEpoch, hfencingToken, hshardSeq, hhasSourcePred, hfirst,
    hsourceHash, hsourcePred, hwitnessPred, hsourceId, htenant, hprovider, hrequestId, hprincipal,
    hproviderCred, hgroupId, htimestamp⟩

/-- Two records with one digest are one record, where their preimages do not collide. -/
theorem recordDigest_inj {inputs : List (List UInt8)} (hcf : CollisionFree H inputs)
    (ha : recordPreimage a ∈ inputs) (hb : recordPreimage b ∈ inputs) {d : Digest}
    (hda : recordDigest H a = some d) (hdb : recordDigest H b = some d) : a = b := by
  obtain ⟨hvalid, hhash⟩ := recordDigest_eq_some_iff.mp hda
  obtain ⟨hvalid', hhash'⟩ := recordDigest_eq_some_iff.mp hdb
  exact recordPreimage_inj hvalid hvalid' (hcf _ ha _ hb (hhash.trans hhash'.symm))

/-- The first record of a shard, and no other, names the genesis sentinel. -/
theorem RecordValid.genesis_of_first (h : RecordValid H r) (hseq : r.shardSeq = 1) :
    genesisSentinel H r.tenant r.provider = some r.witnessPredHash := by
  obtain ⟨g, hg, hfirst⟩ := (Option.any_eq_true _ _).mp h.genesis
  rw [decide_eq_true_eq, h.first, hseq] at hfirst
  have : r.witnessPredHash = g := by simpa using hfirst
  rw [this, hg]

end VaultWitness
