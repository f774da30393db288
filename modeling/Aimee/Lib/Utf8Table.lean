-- SUMMARY: The well-formed UTF-8 sequences, which are the encodings of characters.
import Mathlib.Data.Char

/-!
# UTF-8

The encoding of a character is the core library's. The table of the sequences that are well formed
is a second description of it, by the ranges its bytes lie in.
-/

namespace Utf8Table

def IsTail (b : UInt8) : Prop := 0x80 ≤ b.toNat ∧ b.toNat ≤ 0xBF

/-- The well-formed byte sequences of one character. -/
inductive Utf8Char : List UInt8 → Prop where
  | one {a : UInt8} : a.toNat < 0x80 → Utf8Char [a]
  | two {a b : UInt8} : 0xC2 ≤ a.toNat ∧ a.toNat ≤ 0xDF → IsTail b → Utf8Char [a, b]
  | three {a b c : UInt8} : 0xE0 ≤ a.toNat ∧ a.toNat ≤ 0xEF → IsTail b → IsTail c →
      (a.toNat = 0xE0 → 0xA0 ≤ b.toNat) → (a.toNat = 0xED → b.toNat ≤ 0x9F) → Utf8Char [a, b, c]
  | four {a b c d : UInt8} : 0xF0 ≤ a.toNat ∧ a.toNat ≤ 0xF4 → IsTail b → IsTail c → IsTail d →
      (a.toNat = 0xF0 → 0x90 ≤ b.toNat) → (a.toNat = 0xF4 → b.toNat ≤ 0x8F) → Utf8Char [a, b, c, d]

theorem toNat_ofNat_of_lt {n : ℕ} (h : n < 256) : (UInt8.ofNat n).toNat = n := by
  rw [UInt8.toNat_ofNat', Nat.mod_eq_of_lt h]

theorem utf8Char_encode (c : Char) : Utf8Char (String.utf8EncodeChar c) := by
  have hvalid : c.val.toNat < 0xD800 ∨ 0xDFFF < c.val.toNat ∧ c.val.toNat < 0x110000 := c.valid
  rw [String.utf8EncodeChar]
  split
  · refine .one ?_
    rw [toNat_ofNat_of_lt] <;> omega
  · split
    · refine .two ?_ ?_
      · rw [toNat_ofNat_of_lt] <;> omega
      · rw [IsTail, toNat_ofNat_of_lt] <;> omega
    · split
      · refine .three ?_ ?_ ?_ ?_ ?_
        · rw [toNat_ofNat_of_lt] <;> omega
        · rw [IsTail, toNat_ofNat_of_lt] <;> omega
        · rw [IsTail, toNat_ofNat_of_lt] <;> omega
        · rw [toNat_ofNat_of_lt, toNat_ofNat_of_lt] <;> omega
        · rw [toNat_ofNat_of_lt, toNat_ofNat_of_lt] <;> omega
      · refine .four ?_ ?_ ?_ ?_ ?_ ?_
        · rw [toNat_ofNat_of_lt] <;> omega
        · rw [IsTail, toNat_ofNat_of_lt] <;> omega
        · rw [IsTail, toNat_ofNat_of_lt] <;> omega
        · rw [IsTail, toNat_ofNat_of_lt] <;> omega
        · rw [toNat_ofNat_of_lt, toNat_ofNat_of_lt] <;> omega
        · rw [toNat_ofNat_of_lt, toNat_ofNat_of_lt] <;> omega

theorem ofNat_eq {n : ℕ} {b : UInt8} (h : n = b.toNat) : UInt8.ofNat n = b := by
  rw [h, UInt8.ofNat_toNat]

theorem exists_encode_of_utf8Char {s : List UInt8} (h : Utf8Char s) : ∃ c, String.utf8EncodeChar c = s := by
  cases h with
  | @one a ha =>
    have hvalid : a.toNat.isValidChar := .inl (by omega)
    refine ⟨Char.ofNatAux a.toNat hvalid, ?_⟩
    have hv : (Char.ofNatAux a.toNat hvalid).val.toNat = a.toNat := rfl
    rw [String.utf8EncodeChar, hv, if_pos (by omega), UInt8.ofNat_toNat]
  | @two a b ha hb =>
    rw [IsTail] at hb
    have hvalid : ((a.toNat - 0xC0) * 64 + (b.toNat - 0x80)).isValidChar := .inl (by omega)
    refine ⟨Char.ofNatAux _ hvalid, ?_⟩
    have hv : (Char.ofNatAux _ hvalid).val.toNat = (a.toNat - 0xC0) * 64 + (b.toNat - 0x80) := rfl
    rw [String.utf8EncodeChar, hv, if_neg (by omega), if_pos (by omega), ofNat_eq (b := a) (by omega),
      ofNat_eq (b := b) (by omega)]
  | @three a b c ha hb hc ha' ha'' =>
    rw [IsTail] at hb hc
    have hvalid : ((a.toNat - 0xE0) * 4096 + (b.toNat - 0x80) * 64 + (c.toNat - 0x80)).isValidChar := by
      omega
    refine ⟨Char.ofNatAux _ hvalid, ?_⟩
    have hv : (Char.ofNatAux _ hvalid).val.toNat =
      (a.toNat - 0xE0) * 4096 + (b.toNat - 0x80) * 64 + (c.toNat - 0x80) := rfl
    rw [String.utf8EncodeChar, hv, if_neg (by omega), if_neg (by omega), if_pos (by omega),
      ofNat_eq (b := a) (by omega), ofNat_eq (b := b) (by omega), ofNat_eq (b := c) (by omega)]
  | @four a b c d ha hb hc hd ha' ha'' =>
    rw [IsTail] at hb hc hd
    have hvalid : ((a.toNat - 0xF0) * 262144 + (b.toNat - 0x80) * 4096 + (c.toNat - 0x80) * 64 +
        (d.toNat - 0x80)).isValidChar := .inr (by omega)
    refine ⟨Char.ofNatAux _ hvalid, ?_⟩
    have hv : (Char.ofNatAux _ hvalid).val.toNat = (a.toNat - 0xF0) * 262144 + (b.toNat - 0x80) * 4096 +
      (c.toNat - 0x80) * 64 + (d.toNat - 0x80) := rfl
    rw [String.utf8EncodeChar, hv, if_neg (by omega), if_neg (by omega), if_neg (by omega),
      ofNat_eq (b := a) (by omega), ofNat_eq (b := b) (by omega), ofNat_eq (b := c) (by omega),
      ofNat_eq (b := d) (by omega)]

/-- A byte of an encoding is the character itself, or no ASCII byte. -/
theorem mem_encode {c : Char} {b : UInt8} (h : b ∈ String.utf8EncodeChar c) :
    0x80 ≤ b.toNat ∨ String.utf8EncodeChar c = [b] ∧ b.toNat = c.toNat := by
  have hchar := utf8Char_encode c
  generalize hs : String.utf8EncodeChar c = s at h hchar
  cases hchar with
  | @one a ha =>
    obtain rfl := List.mem_singleton.mp h
    refine .inr ⟨rfl, ?_⟩
    rw [String.utf8EncodeChar] at hs
    split at hs
    · rw [← List.singleton_inj.mp hs]
      exact toNat_ofNat_of_lt (by omega)
    · repeat' split at hs
      all_goals simp at hs
  | two ha hb =>
    simp only [IsTail] at hb
    simp only [List.mem_cons, List.not_mem_nil, or_false] at h
    rcases h with rfl | rfl <;> exact .inl (by omega)
  | three ha hb hc =>
    simp only [IsTail] at hb hc
    simp only [List.mem_cons, List.not_mem_nil, or_false] at h
    rcases h with rfl | rfl | rfl <;> exact .inl (by omega)
  | four ha hb hc hd =>
    simp only [IsTail] at hb hc hd
    simp only [List.mem_cons, List.not_mem_nil, or_false] at h
    rcases h with rfl | rfl | rfl | rfl <;> exact .inl (by omega)

theorem encode_of_lt {c : Char} (h : c.toNat < 0x80) : String.utf8EncodeChar c = [UInt8.ofNat c.toNat] := by
  exact if_pos (Nat.le_of_lt_succ h)

theorem encode_ne_nil (c : Char) : String.utf8EncodeChar c ≠ [] := by
  have hchar := utf8Char_encode c
  intro h
  rw [h] at hchar
  cases hchar

theorem encode_injective : Function.Injective fun cs : List Char => cs.flatMap String.utf8EncodeChar := by
  intro cs ds h
  have hbytes : cs.utf8Encode = ds.utf8Encode := congrArg List.toByteArray h
  have hof : String.ofList cs = String.ofList ds := by
    rw [← String.toByteArray_inj, String.toByteArray_ofList, String.toByteArray_ofList, hbytes]
  exact String.ofList_injective hof

end Utf8Table
