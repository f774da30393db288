-- SUMMARY: The receipt of a prepared reseal: its 208 bytes, and the round trip.
import Aimee.Lib.Hash
import Aimee.Lib.Reader

/-!
# Reseal receipts

`vault_reseal_receipt.c`. Custody gives a receipt for what it has prepared; the rewrap row keeps it as
bytes, and every later call on custody is made with what they decode to.
-/

namespace VaultReseal

/-- `VAULT_RESEAL_RECEIPT_V1_LEN` -/
def receiptLen : ℕ := 208

def receiptMagic : List UInt8 := ascii "AIMRSEAL"

/-- `vault_tpm2_reseal_receipt_t`. -/
structure Receipt where
  operationId : Block 16
  oldGeneration : UInt64
  newGeneration : UInt64
  predecessorDigest : Digest
  capsuleDigest : Digest
  futureDigest : Digest
  newKekDigest : Digest
  manifestDigest : Digest
  deriving DecidableEq

def generationsValid (oldGeneration newGeneration : UInt64) : Bool :=
  oldGeneration.toNat ≤ 2 ^ 63 - 2 && newGeneration = oldGeneration + 1

/-- The bytes of a receipt, valid or not. -/
def Receipt.wire (r : Receipt) : List UInt8 :=
  receiptMagic ++ (Wire.putU16 1 ++
    (Wire.putU16 0 ++ (Wire.putU32 192 ++ (r.operationId.val ++ (Wire.putU64 r.oldGeneration ++
    (Wire.putU64 r.newGeneration ++ (r.predecessorDigest.val ++ (r.capsuleDigest.val ++ (r.futureDigest.val ++
      (r.newKekDigest.val ++ r.manifestDigest.val))))))))))

/-- `vault_reseal_receipt_encode`. -/
def receiptEncode (r : Receipt) : Option (List UInt8) :=
  if generationsValid r.oldGeneration r.newGeneration then some r.wire else none

def readReceipt : Reader Receipt := do
  let magic ← Reader.block 8
  let major ← Reader.u16
  let minor ← Reader.u16
  let bodyLen ← Reader.u32
  Reader.check (magic.val = receiptMagic ∧ major = 1 ∧ minor = 0 ∧ bodyLen = 192)
  let operationId ← Reader.block 16
  let oldGeneration ← Reader.u64
  let newGeneration ← Reader.u64
  let predecessorDigest ← Reader.block 32
  let capsuleDigest ← Reader.block 32
  let futureDigest ← Reader.block 32
  let newKekDigest ← Reader.block 32
  let manifestDigest ← Reader.block 32
  Reader.check (generationsValid oldGeneration newGeneration)
  return {
    operationId, oldGeneration, newGeneration, predecessorDigest, capsuleDigest, futureDigest, newKekDigest,
    manifestDigest }

/-- `vault_reseal_receipt_decode`. -/
def receiptDecode (wire : List UInt8) : Option Receipt :=
  if wire.length ≠ receiptLen then none else Reader.exactly readReceipt wire

theorem length_wire (r : Receipt) : r.wire.length = receiptLen := by
  have hmagic : receiptMagic.length = 8 := by decide
  simp only [Receipt.wire, List.length_append, Wire.length_putU16, Wire.length_putU32, Wire.length_putU64,
    hmagic, r.operationId.property,
    r.predecessorDigest.property, r.capsuleDigest.property, r.futureDigest.property,
      r.newKekDigest.property, r.manifestDigest.property]
  rfl

theorem readReceipt_wire {r : Receipt} (h : generationsValid r.oldGeneration r.newGeneration) :
    readReceipt.run r.wire = some (r, []) := by
  have hmagic := fun k : Block 8 → Reader Receipt => Reader.run_block
    (Wire.putU16 1 ++ (Wire.putU16 0 ++ (Wire.putU32 192 ++ (r.operationId.val ++ (Wire.putU64 r.oldGeneration ++
      (Wire.putU64 r.newGeneration ++ (r.predecessorDigest.val ++ (r.capsuleDigest.val ++ (r.futureDigest.val ++
        (r.newKekDigest.val ++ r.manifestDigest.val)))))))))) ⟨receiptMagic, by decide⟩ k
  rw [readReceipt, Receipt.wire, hmagic, Reader.run_u16, Reader.run_u16, Reader.run_u32,
    Reader.run_check _ ⟨rfl, rfl, rfl, rfl⟩, Reader.run_block, Reader.run_u64, Reader.run_u64,
    Reader.run_block, Reader.run_block, Reader.run_block, Reader.run_block,
    ← List.append_nil r.manifestDigest.val, Reader.run_block, Reader.run_check _ h]
  rfl

theorem wire_of_readReceipt {r : Receipt} {wire : List UInt8} (h : readReceipt.run wire = some (r, [])) :
    generationsValid r.oldGeneration r.newGeneration ∧ r.wire = wire := by
  simp only [readReceipt, Reader.run_block_iff, Reader.run_check_iff, Reader.run_u16_iff,
    Reader.run_u32_iff, Reader.run_u64_iff] at h
  obtain ⟨magic, _, hwire, major, _, rfl, minor, _, rfl, bodyLen, _, rfl, ⟨hmagic, rfl, rfl, rfl⟩, h⟩ := h
  obtain ⟨operationId, _, rfl, oldGeneration, _, rfl, newGeneration, _, rfl, predecessorDigest, _, rfl, h⟩ := h
  obtain ⟨capsuleDigest, _, rfl, futureDigest, _, rfl, newKekDigest, _, rfl, manifestDigest, rest, rfl, hvalid, h⟩ := h
  cases h
  exact ⟨hvalid, by rw [hwire, hmagic, Receipt.wire, List.append_nil]⟩

/-- What is recorded is read back, and nothing else is read: a receipt has one spelling. -/
theorem receipt_codec (r : Receipt) (wire : List UInt8) :
    receiptDecode wire = some r ↔ receiptEncode r = some wire := by
  rw [receiptDecode, receiptEncode, Option.ite_none_left_eq_some, Reader.exactly_eq_some_iff,
    Option.ite_none_right_eq_some]
  constructor
  · rintro ⟨-, hread⟩
    obtain ⟨hvalid, hwire⟩ := wire_of_readReceipt hread
    exact ⟨hvalid, congrArg some hwire⟩
  · rintro ⟨hvalid, ⟨⟩⟩
    exact ⟨not_not.mpr (length_wire r), readReceipt_wire hvalid⟩

end VaultReseal
