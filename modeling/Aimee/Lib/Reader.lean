-- SUMMARY: Readers that take fixed-size blocks, big-endian integers and length-prefixed text off a byte string, and what they have read.
import Aimee.Lib.Bytes

/-!
# Byte readers

A reader takes a value off the front of a byte string, or fails. The bytes that are left
are its state, so the offset of a decoder is what was consumed.
-/

abbrev Reader (α : Type) := StateT (List UInt8) Option α

namespace Reader

/-- The next `n` bytes. -/
def block (n : Nat) : Reader (Block n) := fun inp =>
  if h : n ≤ inp.length then
    some (⟨inp.take n, by rw [List.length_take, Nat.min_eq_left h]⟩, inp.drop n)
  else none

def u8 : Reader UInt8 := do
  let bytes ← block 1
  return bytes.val.headD 0

def u16 : Reader UInt16 := do
  let bytes ← block 2
  return Wire.getU16 bytes.val

def u32 : Reader UInt32 := do
  let bytes ← block 4
  return Wire.getU32 bytes.val

def u64 : Reader UInt64 := do
  let bytes ← block 8
  return Wire.getU64 bytes.val

/-- Fail unless the condition holds. -/
def check (p : Prop) [Decidable p] : Reader Unit := fun inp => if p then some ((), inp) else none

/-- The next `n` bytes as text, without an embedded NUL. -/
def text (n : Nat) : Reader CString := do
  let bytes ← block n
  if h : (0 : UInt8) ∉ bytes.val then return ⟨bytes.val, h⟩ else failure

/-- Run a reader that has to consume its whole input. -/
def exactly {α : Type} (r : Reader α) (inp : List UInt8) : Option α :=
  match r.run inp with
  | some (value, []) => some value
  | _ => none

/-! ## What a reader has read

A reader in front of the bytes of a value reads that value, and one that succeeds had them in front of it. -/

section

variable {α : Type} {n : Nat} {inp : List UInt8} {x : α × List UInt8} (rest : List UInt8)

theorem block_append (b : Block n) : block n (b.val ++ rest) = some (b, rest) := by
  obtain ⟨bs, rfl⟩ := b
  have hlength : bs.length ≤ (bs ++ rest).length := by
    rw [List.length_append]
    exact Nat.le_add_right _ _
  simp only [block, hlength, dif_pos, List.take_left, List.drop_left]

theorem run_block (b : Block n) (k : Block n → Reader α) : (block n >>= k).run (b.val ++ rest) = (k b).run rest := by
  exact congrArg (fun o => o >>= fun p => (k p.1).run p.2) (block_append rest b)

theorem run_block_iff {k : Block n → Reader α} :
    (block n >>= k).run inp = some x ↔ ∃ b rest, inp = b.val ++ rest ∧ (k b).run rest = some x := by
  constructor
  · intro h
    obtain ⟨⟨b, rest⟩, hread, hk⟩ := Option.bind_eq_some_iff.mp h
    refine ⟨b, rest, ?_, hk⟩
    unfold block at hread
    split at hread
    case isTrue =>
      cases hread
      exact (List.take_append_drop n inp).symm
    case isFalse => cases hread
  · rintro ⟨b, rest, rfl, hk⟩
    rw [run_block, hk]

theorem run_u8 (v : UInt8) (k : UInt8 → Reader α) : (u8 >>= k).run (v :: rest) = (k v).run rest := by
  rfl

theorem run_u8_iff {k : UInt8 → Reader α} : (u8 >>= k).run inp = some x ↔
    ∃ v rest, inp = v :: rest ∧ (k v).run rest = some x := by
  rw [u8, bind_assoc, run_block_iff]
  constructor
  · rintro ⟨⟨bs, hbs⟩, rest, rfl, hk⟩
    obtain ⟨v, rfl⟩ := List.length_eq_one_iff.mp hbs
    exact ⟨v, rest, rfl, hk⟩
  · rintro ⟨v, rest, rfl, hk⟩
    exact ⟨⟨[v], rfl⟩, rest, rfl, hk⟩

theorem run_u16 (v : UInt16) (k : UInt16 → Reader α) : (u16 >>= k).run (Wire.putU16 v ++ rest) = (k v).run rest := by
  have hget : Wire.getU16 (Wire.putU16 v) = v := by
    rw [Wire.getU16, Wire.putU16, Wire.beNat_beBytes,
      Nat.mod_eq_of_lt (show v.toNat < 256 ^ 2 from v.toNat_lt), UInt16.ofNat_toNat]
  rw [u16, bind_assoc, run_block rest ⟨Wire.putU16 v, Wire.length_putU16 v⟩, pure_bind, hget]

theorem run_u16_iff {k : UInt16 → Reader α} :
    (u16 >>= k).run inp = some x ↔ ∃ v rest, inp = Wire.putU16 v ++ rest ∧ (k v).run rest = some x := by
  constructor
  · intro h
    rw [u16, bind_assoc, run_block_iff] at h
    obtain ⟨b, rest, rfl, hk⟩ := h
    exact ⟨_, rest, by rw [Wire.putU16_getU16 b.property], hk⟩
  · rintro ⟨v, rest, rfl, hk⟩
    rw [run_u16, hk]

theorem run_u32 (v : UInt32) (k : UInt32 → Reader α) : (u32 >>= k).run (Wire.putU32 v ++ rest) = (k v).run rest := by
  rw [u32, bind_assoc, run_block rest ⟨Wire.putU32 v, Wire.length_putU32 v⟩, pure_bind, Wire.getU32_putU32]

theorem run_u32_iff {k : UInt32 → Reader α} :
    (u32 >>= k).run inp = some x ↔ ∃ v rest, inp = Wire.putU32 v ++ rest ∧ (k v).run rest = some x := by
  constructor
  · intro h
    rw [u32, bind_assoc, run_block_iff] at h
    obtain ⟨b, rest, rfl, hk⟩ := h
    exact ⟨_, rest, by rw [Wire.putU32_getU32 b.property], hk⟩
  · rintro ⟨v, rest, rfl, hk⟩
    rw [run_u32, hk]

theorem run_u64 (v : UInt64) (k : UInt64 → Reader α) : (u64 >>= k).run (Wire.putU64 v ++ rest) = (k v).run rest := by
  have hget : Wire.getU64 (Wire.putU64 v) = v := by
    rw [Wire.getU64, Wire.putU64, Wire.beNat_beBytes,
      Nat.mod_eq_of_lt (show v.toNat < 256 ^ 8 from v.toNat_lt), UInt64.ofNat_toNat]
  rw [u64, bind_assoc, run_block rest ⟨Wire.putU64 v, Wire.length_putU64 v⟩, pure_bind, hget]

theorem run_u64_iff {k : UInt64 → Reader α} :
    (u64 >>= k).run inp = some x ↔ ∃ v rest, inp = Wire.putU64 v ++ rest ∧ (k v).run rest = some x := by
  constructor
  · intro h
    rw [u64, bind_assoc, run_block_iff] at h
    obtain ⟨b, rest, rfl, hk⟩ := h
    have hput : Wire.putU64 (Wire.getU64 b.val) = b.val := by
      have hlt := Wire.beNat_lt b.val
      rw [b.property] at hlt
      have hround := Wire.beBytes_beNat b.val
      rw [b.property] at hround
      rw [Wire.putU64, Wire.getU64, UInt64.toNat_ofNat_of_lt' hlt, hround]
    exact ⟨_, rest, by rw [hput], hk⟩
  · rintro ⟨v, rest, rfl, hk⟩
    rw [run_u64, hk]

theorem run_check {p : Prop} [Decidable p] (h : p) (k : Unit → Reader α) :
    (check p >>= k).run rest = (k ()).run rest := by
  exact congrArg (fun o => o >>= fun q => (k q.1).run q.2) (if_pos h : check p rest = some ((), rest))

theorem run_check_iff {p : Prop} [Decidable p] {k : Unit → Reader α} :
    (check p >>= k).run inp = some x ↔ p ∧ (k ()).run inp = some x := by
  by_cases h : p
  · rw [run_check inp h]
    exact ⟨fun hk => ⟨h, hk⟩, fun hk => hk.2⟩
  · rw [StateT.run_bind]
    have hfail : (check p).run inp = none := if_neg h
    rw [hfail]
    exact ⟨nofun, fun hk => absurd hk.1 h⟩

theorem run_text (s : CString) (k : CString → Reader α) :
    (text s.val.length >>= k).run (s.val ++ rest) = (k s).run rest := by
  rw [text, bind_assoc, run_block rest ⟨s.val, rfl⟩, dif_pos s.property, pure_bind]

theorem run_text_iff {k : CString → Reader α} :
    (text n >>= k).run inp = some x ↔
      ∃ s : CString, ∃ rest, s.val.length = n ∧ inp = s.val ++ rest ∧ (k s).run rest = some x := by
  constructor
  · intro h
    rw [text, bind_assoc, run_block_iff] at h
    obtain ⟨b, rest, rfl, hk⟩ := h
    split at hk
    case isTrue hnul =>
      exact ⟨⟨b.val, hnul⟩, rest, b.property, rfl, hk⟩
    case isFalse => cases hk
  · rintro ⟨s, rest, rfl, rfl, hk⟩
    rw [run_text, hk]

theorem exactly_eq_some_iff {r : Reader α} {a : α} : exactly r inp = some a ↔ r.run inp = some (a, []) := by
  unfold exactly
  constructor
  · intro h
    split at h
    case h_1 value hrun =>
      cases h
      exact hrun
    case h_2 => cases h
  · intro h
    rw [h]

end

end Reader
