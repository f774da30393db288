-- SUMMARY: The operations on a vault file as one type: what each does to the file, and to the record behind it.
import Aimee.Vault.FileRecord

/-!
# Operations on a vault

A history of a vault is a list of operations, each with its keys and with what it draws. On a file
the store wrote and can read an operation is one on the record; without a vault it can read it leaves
the file alone, except for the one that creates it.
-/

namespace VaultStore

/-- An operation on the vault of a principal. -/
inductive Op where
  | getOrCreateSalt (salt : Salt)
  | unlockCheck (kek : Kek)
  | set (kek serverKek : Option Kek) (agent cred secret : CString) (draw : Draw)
  | addServerWraps (kek serverKek : Kek)
  | writeBatch (kek : Kek) (agent : CString) (writes : List BatchWrite)
  | delete (agent cred : CString)
  | rekey (oldKek newKek : Kek)

namespace Op

variable (C : Crypto) (principal : CString)

/-- What the store does, with no step failing. -/
def exec (file : File) : Op → Outcome
  | .getOrCreateSalt salt => VaultStore.getOrCreateSalt Io.fine principal salt file
  | .unlockCheck kek => VaultStore.unlockCheck C Io.fine kek file
  | .set kek serverKek agent cred secret draw =>
      setImpl C Io.fine principal kek serverKek agent cred secret false draw file
  | .addServerWraps kek serverKek => VaultStore.addServerWraps C Io.fine kek serverKek file
  | .writeBatch kek agent writes => VaultStore.writeBatch C Io.fine principal kek agent writes file
  | .delete agent cred => VaultStore.delete Io.fine agent cred file
  | .rekey oldKek newKek => VaultStore.rekey C Io.fine oldKek newKek file

/-- What it does to a vault it can read. -/
def apply (v : VaultFile) : Op → Option VaultFile
  | .getOrCreateSalt _ => if principal = .empty then none else some v
  | .unlockCheck kek => v.unlock C kek
  | .set kek serverKek agent cred secret draw => v.set C principal kek serverKek agent cred secret draw
  | .addServerWraps kek serverKek => v.addServers C kek serverKek
  | .writeBatch kek agent writes => v.writeBatch C principal kek agent writes
  | .delete agent cred => some (v.remove agent cred)
  | .rekey oldKek newKek => v.rekey C oldKek newKek

theorem exec_text {v : VaultFile} (hv : v.Small) (op : Op) :
    op.exec C principal (some v.text) = v.outcome (op.apply C principal v) := by
  cases op with
  | getOrCreateSalt salt =>
    rw [exec, apply]
    split
    · next hprincipal =>
      rw [VaultStore.getOrCreateSalt, if_pos (.inl hprincipal)]
      rfl
    · next hprincipal => exact VaultFile.getOrCreateSalt_text hv hprincipal salt
  | unlockCheck kek => exact VaultFile.unlockCheck_text C hv kek
  | set kek serverKek agent cred secret draw =>
      exact VaultFile.setImpl_text C hv principal kek serverKek agent cred secret draw
  | addServerWraps kek serverKek => exact VaultFile.addServerWraps_text C hv kek serverKek
  | writeBatch kek agent writes => exact VaultFile.writeBatch_text C hv principal kek agent writes
  | delete agent cred => exact VaultFile.delete_text hv agent cred
  | rekey oldKek newKek => exact VaultFile.rekey_text C hv oldKek newKek

/-- Without a vault it can read an operation fails and leaves the file as it is, has nothing to do, or
    creates the vault. -/
theorem exec_unloaded {file : File} (hload : loadVault Io.fine file = none) (op : Op) :
    op.exec C principal file = ⟨file, -1⟩ ∨
      op.exec C principal file = ⟨file, 0⟩ ∧ ((∃ agent cred, op = .delete agent cred) ∨
        ∃ kek serverKek, op = .addServerWraps kek serverKek) ∨
      file = none ∧ ∃ salt, op = .getOrCreateSalt salt ∧
        op.exec C principal file = ⟨some (VaultFile.fresh principal salt).text, 0⟩ := by
  cases op with
  | getOrCreateSalt salt =>
    rw [exec, VaultStore.getOrCreateSalt]
    by_cases hprincipal : principal = .empty
    · exact .inl (if_pos (.inl hprincipal))
    · rw [if_neg (by simpa using ⟨hprincipal, rfl⟩), hload]
      cases file with
      | some content => exact .inl rfl
      | none => exact .inr (.inr ⟨rfl, salt, rfl, (VaultFile.fresh principal salt).writeVaultFile_json none⟩)
  | unlockCheck kek =>
    left
    rw [exec, VaultStore.unlockCheck, hload]
    split_ifs <;> rfl
  | set kek serverKek agent cred secret draw =>
    left
    rw [exec, setImpl, hload]
    split_ifs <;> rfl
  | addServerWraps kek serverKek =>
    refine .inr (.inl ⟨?_, .inr ⟨kek, serverKek, rfl⟩⟩)
    rw [exec, VaultStore.addServerWraps, hload]
    rfl
  | writeBatch kek agent writes =>
    left
    rw [exec, VaultStore.writeBatch, hload]
    split_ifs <;> rfl
  | delete agent cred =>
    refine .inr (.inl ⟨?_, .inl ⟨agent, cred, rfl⟩⟩)
    rw [exec, VaultStore.delete, hload]
    rfl
  | rekey oldKek newKek =>
    left
    rw [exec, VaultStore.rekey, hload]
    split_ifs <;> rfl

theorem file_exec_long {v : VaultFile} (hv : ¬v.Small) (op : Op) :
    (op.exec C principal (some v.text)).file = some v.text := by
  have hload : loadVault Io.fine (some v.text) = none := by rw [v.loadVault_text, if_neg hv]
  rcases exec_unloaded C principal hload op with h | ⟨h, -⟩ | ⟨hnone, -⟩
  · rw [h]
  · rw [h]
  · cases hnone

end Op

/-- The file can be read. -/
def Readable (file : File) : Prop := ∀ content ∈ file, content.length ≤ readMax

theorem readable_text {v : VaultFile} : Readable (some v.text) ↔ v.Small := by
  refine ⟨fun h => h _ rfl, fun h content hcontent => ?_⟩
  cases hcontent
  exact h

/-! ## A cipher to run on -/

/-- Bytes added bit by bit. -/
def xorBytes (a b : List UInt8) : List UInt8 := List.zipWith (· ^^^ ·) a b

theorem xorBytes_self_left {a b : List UInt8} (h : a.length = b.length) : xorBytes a (xorBytes a b) = b := by
  induction a generalizing b with
  | nil => exact (List.eq_nil_of_length_eq_zero h.symm).symm
  | cons x a ih =>
    cases b with
    | nil => cases h
    | cons y b =>
      have htail : List.zipWith (· ^^^ ·) a (List.zipWith (· ^^^ ·) a b) = b := ih (Nat.succ.inj h)
      rw [xorBytes, xorBytes, List.zipWith_cons_cons, List.zipWith_cons_cons, htail, ← UInt8.xor_assoc, UInt8.xor_self,
        UInt8.zero_xor]

theorem xorBytes_comm (a b : List UInt8) : xorBytes a b = xorBytes b a := by
  rw [xorBytes, xorBytes, List.zipWith_comm]
  simp only [UInt8.xor_comm]

theorem xorBytes_right_cancel {a b c : List UInt8} (ha : a.length = c.length) (hb : b.length = c.length)
    (h : xorBytes a c = xorBytes b c) : a = b := by
  rw [← xorBytes_self_left ha.symm, ← xorBytes_self_left hb.symm, xorBytes_comm c a, xorBytes_comm c b, h]

/-- A wrap and an encryption that undo and check what they have to. -/
theorem length_unwrapped (kek : Kek) (wrapped : WrappedDek) : (xorBytes kek.val (wrapped.val.take 32)).length = 32 := by
  simp [xorBytes, kek.property, wrapped.property]

def sampleCrypto : Crypto where
  wrap kek dek := ⟨xorBytes kek.val dek.val ++ List.replicate 8 0xA6, by simp [xorBytes, kek.property, dek.property]⟩
  unwrap kek wrapped :=
    if wrapped.val.drop 32 = List.replicate 8 0xA6 then
      some ⟨xorBytes kek.val (wrapped.val.take 32), length_unwrapped kek wrapped⟩
    else none
  encrypt dek _ _ plaintext := (plaintext, ⟨dek.val.take 16, by simp [dek.property]⟩)
  decrypt dek _ _ ciphertext tag := if tag.val = dek.val.take 16 then some ciphertext else none

theorem sampleCrypto_correct : sampleCrypto.Correct where
  unwrap_wrap kek dek := by
    have hlength : (xorBytes kek.val dek.val).length = 32 := by simp [xorBytes, kek.property, dek.property]
    have hxor := xorBytes_self_left (a := kek.val) (b := dek.val) (by rw [kek.property, dek.property])
    simp [sampleCrypto, hlength, hxor]
  decrypt_encrypt dek aad nonce plaintext := by simp [sampleCrypto]
  length_encrypt dek aad nonce plaintext := rfl

theorem length_sampleDraw : (List.replicate 32 (7 : UInt8)).length = 32 := by simp

def sampleDraw : Draw := ⟨⟨List.replicate 32 7, length_sampleDraw⟩, ⟨List.replicate 12 7, by simp⟩⟩

def sampleKek : Kek := ⟨List.replicate 32 1, by simp⟩

theorem sampleCrypto_checks : sampleCrypto.Checks := by
  intro kek kek' h
  have hlength : (xorBytes kek.val kekCheckSentinel.val).length = 32 := by
    simp [xorBytes, kek.property, kekCheckSentinel.property]
  have hopen : xorBytes kek'.val (xorBytes kek.val kekCheckSentinel.val) = kekCheckSentinel.val := by
    simpa [sampleCrypto, hlength, Subtype.ext_iff] using h
  have hsame : xorBytes kek.val kekCheckSentinel.val = xorBytes kek'.val kekCheckSentinel.val := by
    have h := congrArg (xorBytes kek'.val) hopen
    rwa [xorBytes_self_left (by rw [hlength, kek'.property])] at h
  exact Subtype.ext (xorBytes_right_cancel (by rw [kek'.property, kekCheckSentinel.property])
    (by rw [kek.property, kekCheckSentinel.property]) hsame.symm)

/-- A second key. -/
def nextKek : Kek := ⟨List.replicate 32 2, by simp⟩

def sampleSalt : Salt := ⟨List.replicate 16 9, by simp⟩

end VaultStore
