-- SUMMARY: Encoding and decoding a witness record undo each other, on every valid record and on every wire that is accepted.
import Aimee.Vault.WitnessRecord

/-!
# The record codec

A valid record fits its buffer and is read back from it, and a wire that is accepted is the one its record
is written as: no length, no flag and no reserved byte is read that would not be written.
-/

namespace VaultWitness

/-! ## Fields -/

section

variable {α : Type} {cap : ℕ} {inp : List UInt8} {x : α × List UInt8} {k : CString → Reader α}

theorem toNat_length {s : CString} (hs : s.val.length ≤ cap) (hcap : cap < 2 ^ 16) :
    (UInt16.ofNat s.val.length).toNat = s.val.length :=
  UInt16.toNat_ofNat_of_lt' (Nat.lt_of_le_of_lt hs hcap)

theorem run_wireGetStr {s : CString} (hs : s.val.length ≤ cap) (hcap : cap < 2 ^ 16) (rest : List UInt8) :
    (wireGetStr cap >>= k).run (wirePutStr s ++ rest) = (k s).run rest := by
  have hlen := toNat_length hs hcap
  rw [wireGetStr, wirePutStr, bind_assoc, List.append_assoc, Reader.run_u16, bind_assoc,
    Reader.run_check _ (hlen.symm ▸ hs), hlen, Reader.run_text]

theorem run_wireGetStr_iff (hcap : cap < 2 ^ 16) :
    (wireGetStr cap >>= k).run inp = some x ↔
      ∃ s : CString, ∃ rest, s.val.length ≤ cap ∧ inp = wirePutStr s ++ rest ∧ (k s).run rest = some x := by
  constructor
  · intro h
    rw [wireGetStr, bind_assoc] at h
    obtain ⟨len, rest, rfl, h₁⟩ := Reader.run_u16_iff.mp h
    rw [bind_assoc] at h₁
    obtain ⟨hlen, h₂⟩ := Reader.run_check_iff.mp h₁
    obtain ⟨s, rest, hs, rfl, h₃⟩ := Reader.run_text_iff.mp h₂
    refine ⟨s, rest, hs ▸ hlen, ?_, h₃⟩
    rw [wirePutStr, hs, UInt16.ofNat_toNat, List.append_assoc]
  · rintro ⟨s, rest, hs, rfl, h⟩
    rw [run_wireGetStr hs hcap, h]

end

theorem Source.ofByte?_eq_some_iff {b : UInt8} {s : Source} : Source.ofByte? b = some s ↔ b = s.toByte := by
  unfold Source.ofByte?
  constructor
  · intro h
    split at h
    case isTrue hb => cases h; exact hb
    case isFalse =>
      split at h
      case isTrue hb => cases h; exact hb
      case isFalse =>
        obtain ⟨hb, h⟩ := Option.ite_none_right_eq_some.mp h
        cases h
        exact hb
  · rintro rfl
    cases s with
    | audit => rfl
    | rewrap => rfl
    | openEvent => rfl

/-- The two bits of the flags. -/
def flagsByte (hasSourcePred isFirstInShard : Bool) :
    UInt8 := (if hasSourcePred then 1 else 0) ||| (if isFirstInShard then 2 else 0)

theorem flagsByte_lt (p q : Bool) : (flagsByte p q).toNat < 4 := by
  cases p <;> cases q <;> decide

theorem flagsByte_testBit (p q : Bool) : (flagsByte p q).toNat.testBit 0 = p ∧ (flagsByte p q).toNat.testBit 1 = q := by
  cases p <;> cases q <;> decide

theorem flagsByte_of_lt {b : UInt8} (h : b.toNat < 4) : flagsByte (b.toNat.testBit 0) (b.toNat.testBit 1) = b := by
  have hb : b = UInt8.ofNat b.toNat := UInt8.ofNat_toNat.symm
  generalize b.toNat = n at h hb
  subst hb
  match n, h with
  | 0, _ => decide
  | 1, _ => decide
  | 2, _ => decide
  | 3, _ => decide

/-! ## Lengths -/

variable {H : HashFn} {r : Record}

theorem strOk_le {s : CString} {cap min : ℕ} (h : strOk s cap min) : s.val.length ≤ cap := (of_decide_eq_true h).2

theorem length_wirePutStr (s : CString) : (wirePutStr s).length = 2 + s.val.length := by
  rw [wirePutStr, List.length_append, Wire.length_putU16]

theorem length_recordWire (r : Record) : (recordWire r).length = wireHeaderLen + (recordWireBody r).length := by
  have hmagic : recordMagic.length = 8 := by decide
  simp only [recordWire, List.length_append, List.length_cons, hmagic, Wire.length_putU16,
    Wire.length_putU32, Wire.length_putU64,
    r.sourceHash.property, r.sourcePredHash.property, r.witnessPredHash.property, wireHeaderLen]

/-- Eight texts of the longest kind leave room in the buffer. -/
theorem length_recordWire_le (h : RecordValid H r) : (recordWire r).length ≤ recordMax := by
  have hsourceId := strOk_le h.sourceId
  have htenant := strOk_le h.tenant
  have hprovider := strOk_le h.provider
  have hrequestId := strOk_le h.requestId
  have hprincipal := strOk_le h.principal
  have hproviderCred := strOk_le h.providerCred
  have hgroupId := strOk_le h.groupId
  have htimestamp := strOk_le h.timestamp
  rw [length_recordWire]
  simp only [recordWireBody, List.length_append, length_wirePutStr, wireHeaderLen, recordMax, sourceIdMax,
    tenantMax, providerMax, requestIdMax, principalMax, providerCredMax, groupIdMax, timestampMax] at *
  omega

/-! ## Both ways -/

/-- The wire of a record, bracketed the way it is read. -/
theorem recordWire_eq (r : Record) : recordWire r =
    recordMagic ++ (Wire.putU16 1 ++
      (Wire.putU16 0 ++ (Wire.putU32 (UInt32.ofNat (wireHeaderLen + (recordWireBody r).length)) ++
      (r.source.toByte :: flagsByte r.hasSourcePred r.isFirstInShard :: (Wire.putU16 0 ++ (Wire.putU64 r.sealEpoch ++
        (Wire.putU64 r.fencingToken ++
          (Wire.putU64 r.shardSeq ++ (r.sourceHash.val ++ (r.sourcePredHash.val ++ (r.witnessPredHash.val ++
          (wirePutStr r.sourceId ++
            (wirePutStr r.tenant ++ (wirePutStr r.provider ++ (wirePutStr r.requestId ++ (wirePutStr r.principal ++
            (wirePutStr r.providerCred ++
              (wirePutStr r.groupId ++ (wirePutStr r.timestamp ++ []))))))))))))))))))) := by
  simp [recordWire, recordWireBody, flagsByte]

theorem readRecord_recordWire (h : RecordValid H r) :
    (readRecord (recordWire r).length).run (recordWire r) = some (r, []) := by
  have hmax := length_recordWire_le h
  have htotal : (UInt32.ofNat (wireHeaderLen + (recordWireBody r).length)).toNat = (recordWire r).length := by
    rw [length_recordWire] at hmax ⊢
    exact UInt32.toNat_ofNat_of_lt' (Nat.lt_of_le_of_lt hmax (by decide))
  have hsource : Source.ofByte? r.source.toByte = some r.source := Source.ofByte?_eq_some_iff.mpr rfl
  obtain ⟨hpred, hfirst⟩ := flagsByte_testBit r.hasSourcePred r.isFirstInShard
  generalize (recordWire r).length = len at htotal
  rw [recordWire_eq, readRecord, Reader.run_block _ (⟨recordMagic, by decide⟩ : Block 8),
    Reader.run_check _ rfl, Reader.run_u16,
    Reader.run_u16, Reader.run_check _ ⟨rfl, rfl⟩, Reader.run_u32, Reader.run_check _ htotal, Reader.run_u8,
      Reader.run_u8, Reader.run_u16,
    Reader.run_check _ ⟨rfl, flagsByte_lt _ _⟩, Reader.run_u64, Reader.run_u64, Reader.run_u64,
      Reader.run_block, Reader.run_block,
    Reader.run_block, run_wireGetStr (strOk_le h.sourceId) (by decide), run_wireGetStr (strOk_le h.tenant) (by decide),
    run_wireGetStr (strOk_le h.provider) (by decide), run_wireGetStr (strOk_le h.requestId) (by decide),
    run_wireGetStr (strOk_le h.principal) (by decide), run_wireGetStr (strOk_le h.providerCred) (by decide),
    run_wireGetStr (strOk_le h.groupId) (by decide), run_wireGetStr (strOk_le h.timestamp) (by decide),
      hsource, hpred, hfirst]
  rfl

/-- What is read is what is written, up to the length that is declared. -/
theorem recordWire_of_readRecord {wire : List UInt8}
    (h : (readRecord wire.length).run wire = some (r, [])) : recordWire r = wire := by
  simp (disch := decide) only [readRecord, Reader.run_block_iff, Reader.run_check_iff, Reader.run_u8_iff,
    Reader.run_u16_iff, Reader.run_u32_iff, Reader.run_u64_iff, run_wireGetStr_iff] at h
  obtain ⟨magic, _, hwire, hmagic, major, _, rfl, minor, _, rfl, ⟨rfl, rfl⟩, totalLen, _, rfl, htotal, h⟩ := h
  obtain ⟨sourceByte, _, rfl, flags, _, rfl, reserved, _, rfl, ⟨rfl, hflags⟩, sealEpoch, _, rfl,
    fencingToken, _, rfl, h⟩ := h
  obtain ⟨shardSeq, _, rfl, sourceHash, _, rfl, sourcePredHash, _, rfl, witnessPredHash, _, rfl, h⟩ := h
  obtain ⟨sourceId, _, _, rfl, tenant, _, _, rfl, provider, _, _, rfl, requestId, _, _, rfl, h⟩ := h
  obtain ⟨principal, _, _, rfl, providerCred, _, _, rfl, groupId, _, _, rfl, timestamp, rest, _, rfl, h⟩ := h
  cases hsource : Source.ofByte? sourceByte with
  | none =>
    rw [hsource] at h
    cases h
  | some source =>
    rw [hsource] at h
    cases h
    rw [Source.ofByte?_eq_some_iff] at hsource
    subst hsource
    have hbody : wire.length =
        wireHeaderLen + (recordWireBody ⟨source, sealEpoch, fencingToken, shardSeq, flags.toNat.testBit 0,
        flags.toNat.testBit 1, sourceHash, sourcePredHash, witnessPredHash, sourceId, tenant, provider,
          requestId, principal, providerCred,
        groupId, timestamp⟩).length := by
      rw [hwire]
      simp only [recordWireBody, List.length_append, List.length_cons, List.length_nil, length_wirePutStr,
        magic.property,
        Wire.length_putU16, Wire.length_putU32, Wire.length_putU64, sourceHash.property,
          sourcePredHash.property, witnessPredHash.property,
        wireHeaderLen]
      omega
    rw [recordWire_eq, ← hbody, ← htotal, UInt32.ofNat_toNat, flagsByte_of_lt hflags, ← hmagic]
    exact hwire.symm

theorem recordDecode_recordWire (h : RecordValid H r) : recordDecode H (recordWire r) = some r := by
  have hshort : ¬((recordWire r).length < wireHeaderLen ∨ recordMax < (recordWire r).length) := by
    have hmax := length_recordWire_le h
    rw [length_recordWire] at hmax ⊢
    omega
  rw [recordDecode, if_neg hshort, Reader.exactly_eq_some_iff.mpr (readRecord_recordWire h)]
  exact if_pos h

theorem recordWire_of_recordDecode {wire : List UInt8} (h : recordDecode H wire = some r) : recordWire r = wire := by
  unfold recordDecode at h
  split at h
  case isTrue => cases h
  case isFalse =>
    split at h
    case h_2 => cases h
    case h_1 r' hread =>
      obtain ⟨_, ⟨⟩⟩ := Option.ite_none_right_eq_some.mp h
      exact recordWire_of_readRecord (Reader.exactly_eq_some_iff.mp hread)

theorem recordEncode_recordMax (h : RecordValid H r) : recordEncode H r recordMax = some (recordWire r) := by
  have hfits : ¬(¬RecordValid H r ∨ recordMax < (recordWire r).length) := by
    rintro (hinvalid | hlong)
    · exact hinvalid h
    · exact absurd (length_recordWire_le h) (Nat.not_le.mpr hlong)
  exact if_neg hfits

/-- Between the valid records and the wires that are accepted, encoding and decoding are inverse to each other. -/
theorem record_codec (H : HashFn) :
    (∀ r, RecordValid H r → ∃ wire, recordEncode H r recordMax = some wire ∧ recordDecode H wire = some r) ∧
      ∀ wire r, recordDecode H wire = some r → recordEncode H r recordMax = some wire := by
  refine ⟨fun r h => ⟨recordWire r, recordEncode_recordMax h, recordDecode_recordWire h⟩, fun wire r h => ?_⟩
  rw [recordEncode_recordMax (recordDecode_valid h), recordWire_of_recordDecode h]

end VaultWitness
