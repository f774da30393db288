-- SUMMARY: Changing the user key of a vault: the history of a vault with its owner's key, and when the key can be changed.
import Aimee.Vault.FileMap

/-!
# Changing the user key

The first unlock fixes the user key in the verifier; from then on it is changed by a rekey, which
remakes the verifier and every user wrap. A history keeps to the owner's key where an operation
takes one. The key can be changed as long as the file can be read and every entry has a user wrap:
an entry that only the server can read stops the rekey.
-/

namespace VaultStore

namespace RekeyHistory

/-- The file, the owner's key, and whether an unlock has fixed it. -/
structure State where
  file : File
  kek : Kek
  unlocked : Bool

/-- A user-side operation takes the owner's key. An unlock may try another one once the key is fixed,
    and a rekey at any time. -/
def Keeps (s : State) : Op → Prop
  | .unlockCheck kek => kek = s.kek ∨ s.unlocked
  | .set kek _ _ _ _ _ => ∀ k ∈ kek, k = s.kek
  | .addServerWraps kek _ => kek = s.kek
  | .writeBatch kek _ _ => kek = s.kek
  | _ => True

section

variable (C : Crypto) (principal : CString)

/-- The owner's key after an operation that succeeded. -/
def kekAfter (kek : Kek) : Op → Kek
  | .rekey _ newKek => newKek
  | _ => kek

def unlocks : Op → Bool
  | .unlockCheck _ => true
  | _ => false

def step (s : State) (op : Op) : State :=
  let done := op.exec C principal s.file
  if done.rc = 0 then ⟨done.file, kekAfter s.kek op, s.unlocked || unlocks op⟩ else ⟨done.file, s.kek, s.unlocked⟩

/-- Each operation keeps to the key there is where it comes. -/
def Legal : State → List Op → Prop
  | _, [] => True
  | s, op :: history => Keeps s op ∧ Legal (step C principal s op) history

/-- From no vault at all; `kek` is the key the first unlock will fix. -/
def start (kek : Kek) : State := ⟨none, kek, false⟩

def run (kek : Kek) (history : List Op) : State := history.foldl (step C principal) (start kek)

/-- The rekey succeeds; then an unlock takes the new key and no other, and whatever the owner or a server
    could read is still read. Under any other old key it fails and changes nothing. -/
structure RekeyWorks (file : File) (kek newKek : Kek) : Prop where
  rc : (rekey C Io.fine kek newKek file).rc = 0
  unlock (k : Kek) : (unlockCheck C Io.fine k (rekey C Io.fine kek newKek file).file).rc = 0 ↔ k = newKek
  user (agent cred : CString) (outLen : ℕ) (secret : List UInt8) :
    get C Io.fine principal kek agent cred outLen file = .ok secret →
      get C Io.fine principal newKek agent cred outLen (rekey C Io.fine kek newKek file).file = .ok secret
  server (serverKek : Kek) (agent cred : CString) (outLen : ℕ) (secret : List UInt8) :
    getServer C Io.fine principal serverKek agent cred outLen file = .ok secret →
      getServer C Io.fine principal serverKek agent cred outLen (rekey C Io.fine kek newKek file).file = .ok secret
  other (oldKek newKek : Kek) (h : oldKek ≠ kek) : rekey C Io.fine oldKek newKek file = ⟨file, -1⟩

/-- The file can be read, and every entry has a user wrap. -/
def Rekeyable (file : File) : Prop :=
  ∃ root, loadVault Io.fine file = some root ∧ ∀ e ∈ (credsArray root).getD [], (stringItem e "wrapped_dek").isSome

end

/-! ## The invariant -/

/-- Every user wrap opens under the owner's key, and so does the verifier once there is one. -/
structure Keyed (C : Crypto) (kek : Kek) (unlocked : Bool) (v : VaultFile) : Prop where
  user : ∀ s ∈ v.creds.rows, ∀ w ∈ s.user, (C.unwrap kek w).isSome
  check : v.kekCheck = wrapIf C kek kekCheckSentinel unlocked

theorem mem_put {v : VaultFile} {s t : Sealed} (h : t ∈ (v.put s).creds.rows) : t = s ∨ t ∈ v.creds.rows := by
  have hrows : (v.put s).creds.rows = _ := Table.rows_replace v.creds s
  rw [hrows, List.mem_append, List.mem_singleton] at h
  rcases h with h | h
  · exact .inr (List.mem_of_mem_eraseP h)
  · exact .inl h

section Steps

variable {C : Crypto} (hC : C.Correct) {principal : CString} {kek : Kek} {unlocked : Bool} {v v' : VaultFile}

theorem keyed_fresh (salt : Salt) : Keyed C kek false (VaultFile.fresh principal salt) :=
  ⟨fun _ hs => absurd hs List.not_mem_nil, rfl⟩

theorem keyed_remove (h : Keyed C kek unlocked v) (agent cred : CString) : Keyed C kek unlocked (v.remove agent cred) :=
  ⟨fun s hs => h.user s (Table.mem_rows_delete.mp hs).1, h.check⟩

theorem keyed_addServers {serverKek : Kek} (h : Keyed C kek unlocked v) {userKek : Kek}
    (hv : v.addServers C userKek serverKek = some v') :
    Keyed C kek unlocked v' := by
  obtain ⟨creds, hcreds, rfl⟩ := Option.map_eq_some_iff.mp hv
  refine ⟨fun t ht w hw => ?_, h.check⟩
  obtain ⟨s, hs, hadd⟩ := Table.exists_mem_of_forall₂ (Table.forall₂_traverse hcreds) ht
  unfold Sealed.addServer at hadd
  split at hadd
  · cases hadd
    exact h.user t hs w hw
  · obtain ⟨dek, -, rfl⟩ := Option.map_eq_some_iff.mp hadd
    exact h.user s hs w hw

include hC

theorem keyed_stage {draw : Draw} {agent cred secret : CString} {userKek serverKek : Option Kek}
    (h : Keyed C kek unlocked v)
    (hkek : ∀ k ∈ userKek, k = kek) (hv : v.stage C principal userKek serverKek agent cred secret draw = some v') :
    Keyed C kek unlocked v' := by
  obtain ⟨aad, -, rfl⟩ := Option.map_eq_some_iff.mp hv
  refine ⟨fun t ht w hw => ?_, h.check⟩
  rcases mem_put ht with rfl | ht
  · obtain ⟨k, hk, rfl⟩ := Option.map_eq_some_iff.mp hw
    rw [hkek k hk, hC.unwrap_wrap]
    rfl
  · exact h.user t ht w hw

theorem keyed_stageWrites {agent : CString} {writes : List BatchWrite} (h : Keyed C kek unlocked v)
    (hv : writes.foldlM (VaultFile.stageWrite C principal kek agent) v = some v') : Keyed C kek unlocked v' := by
  induction writes generalizing v with
  | nil =>
    cases hv
    exact h
  | cons w writes ih =>
    obtain ⟨v₁, hv₁, hrest⟩ := Option.bind_eq_some_iff.mp hv
    refine ih ?_ hrest
    unfold VaultFile.stageWrite at hv₁
    split at hv₁
    · exact keyed_stage hC h (fun k hk => (Option.some.inj hk).symm) hv₁
    · cases hv₁
      exact keyed_remove h agent w.credential

theorem keyed_rekey {oldKek newKek : Kek} (hv : v.rekey C oldKek newKek = some v') : Keyed C newKek true v' := by
  unfold VaultFile.rekey at hv
  split at hv
  · obtain ⟨creds, hcreds, rfl⟩ := Option.map_eq_some_iff.mp hv
    refine ⟨fun t ht w hw => ?_, rfl⟩
    obtain ⟨s, -, hrewrap⟩ := Table.exists_mem_of_forall₂ (Table.forall₂_traverse hcreds) ht
    obtain ⟨dek, -, rfl⟩ := Option.map_eq_some_iff.mp hrewrap
    obtain rfl := Option.some.inj hw
    rw [hC.unwrap_wrap]
    rfl
  · cases hv

omit hC in
theorem keyed_unlock {userKek : Kek} (h : Keyed C kek unlocked v) (hkek : userKek = kek ∨ unlocked)
    (hv : v.unlock C userKek = some v') : Keyed C kek true v' := by
  unfold VaultFile.unlock at hv
  cases unlocked with
  | true =>
    have hcheck : v.kekCheck = some (C.wrap kek kekCheckSentinel) := h.check
    rw [hcheck] at hv
    dsimp only at hv
    split at hv
    · cases hv
      exact h
    · cases hv
  | false =>
    have hcheck : v.kekCheck = none := h.check
    rw [hcheck] at hv
    cases hv
    rcases hkek with rfl | hkek
    · exact ⟨h.user, rfl⟩
    · cases hkek

theorem keyed_apply {s : State} (h : Keyed C s.kek s.unlocked v) {op : Op} (hop : Keeps s op)
    (hv : op.apply C principal v = some v') :
    Keyed C (kekAfter s.kek op) (s.unlocked || unlocks op) v' := by
  cases op with
  | getOrCreateSalt salt =>
    rw [Op.apply] at hv
    split at hv
    · cases hv
    · cases hv
      exact (Bool.or_false s.unlocked).symm ▸ h
  | unlockCheck kek =>
    change Keyed C s.kek (s.unlocked || true) v'
    rw [Bool.or_true]
    exact keyed_unlock h hop hv
  | set kek serverKek agent cred secret draw =>
    change Keyed C s.kek (s.unlocked || false) v'
    rw [Bool.or_false]
    exact keyed_stage hC h hop (VaultFile.stage_of_set hv)
  | addServerWraps kek serverKek =>
    change Keyed C s.kek (s.unlocked || false) v'
    rw [Bool.or_false]
    exact keyed_addServers h hv
  | writeBatch kek agent writes =>
    change Keyed C s.kek (s.unlocked || false) v'
    rw [Bool.or_false]
    rw [Op.apply, VaultFile.writeBatch] at hv
    split at hv
    · obtain rfl : kek = s.kek := hop
      exact keyed_stageWrites hC h hv
    · cases hv
  | delete agent cred =>
    cases hv
    exact (Bool.or_false s.unlocked).symm ▸ keyed_remove h agent cred
  | rekey oldKek newKek =>
    have hunlocked : s.unlocked = true := by
      have hcheck := h.check
      rw [Op.apply, VaultFile.rekey] at hv
      cases hs : s.unlocked with
      | true => rfl
      | false =>
        rw [hs] at hcheck
        rw [hcheck] at hv
        cases hv
    rw [hunlocked]
    exact keyed_rekey hC hv

end Steps

/-! ## Runs -/

/-- There is no vault yet, or one that keeps the key while it can be read. -/
def Owned (C : Crypto) (s : State) : Prop :=
  s.file = none ∧ s.unlocked = false ∨ ∃ v : VaultFile, s.file = some v.text ∧ (v.Small → Keyed C s.kek s.unlocked v)

section Runs

variable {C : Crypto} (hC : C.Correct) {principal : CString}

include hC

theorem owned_step {s : State} (h : Owned C s) {op : Op} (hop : Keeps s op) : Owned C (step C principal s op) := by
  rcases h with ⟨hfile, hlocked⟩ | ⟨v, hfile, hkeyed⟩
  · rcases Op.exec_unloaded C principal (loadVault_none Io.fine) op with hexec | ⟨hexec, hkind⟩ | ⟨-, salt, rfl, hexec⟩
    · rw [step, hfile, hexec]
      exact .inl ⟨rfl, hlocked⟩
    · rw [step, hfile, hexec]
      refine .inl ⟨rfl, ?_⟩
      rcases hkind with ⟨agent, cred, rfl⟩ | ⟨kek, serverKek, rfl⟩ <;> exact (Bool.or_false _).trans hlocked
    · rw [step, hfile, hexec]
      refine .inr ⟨VaultFile.fresh principal salt, rfl, fun _ => ?_⟩
      rw [hlocked]
      exact keyed_fresh salt
  · right
    by_cases hv : v.Small
    · have hexec := Op.exec_text C principal hv op
      rw [step, hfile, hexec]
      cases happly : op.apply C principal v with
      | none => exact ⟨v, rfl, hkeyed⟩
      | some v' => exact ⟨v', rfl, fun _ => keyed_apply hC (hkeyed hv) hop happly⟩
    · have hsame := Op.file_exec_long C principal hv op
      refine ⟨v, ?_, fun h => absurd h hv⟩
      rw [step, hfile]
      split <;> exact hsame

theorem owned_foldl {s : State} (h : Owned C s) {history : List Op} (hlegal : Legal C principal s history) :
    Owned C (history.foldl (step C principal) s) := by
  induction history generalizing s with
  | nil => exact h
  | cons op history ih => exact ih (owned_step hC h hlegal.1) hlegal.2

end Runs

/-! ## The rekey -/

section Rekey

variable {C : Crypto} (hC : C.Correct) (hchecks : C.Checks) {principal : CString} {kek newKek : Kek} {v v' : VaultFile}

/-- What a rekey makes of one entry. -/
theorem rewrapUser_eq_some {s s' : Sealed} (h : s.rewrapUser C kek newKek = some s') :
    ∃ w dek, s.user = some w ∧ C.unwrap kek w = some dek ∧ s' = s.withUser (C.wrap newKek dek) := by
  obtain ⟨dek, hdek, rfl⟩ := Option.map_eq_some_iff.mp h
  obtain ⟨w, hw, hunwrap⟩ := Option.bind_eq_some_iff.mp hdek
  exact ⟨w, dek, hw, hunwrap, rfl⟩

section

variable (h : v.rekey C kek newKek = some v')
include h

theorem rekey_eq_some :
    v.kekCheck.isSome ∧ v'.kekCheck = some (C.wrap newKek kekCheckSentinel) ∧ v'.principal = v.principal ∧
      v.creds.traverse (Sealed.rewrapUser C kek newKek) (Sealed.slot_of_rewrapUser C kek newKek) = some v'.creds := by
  unfold VaultFile.rekey at h
  split at h
  · next hkek =>
    obtain ⟨creds, hcreds, rfl⟩ := Option.map_eq_some_iff.mp h
    refine ⟨?_, rfl, rfl, hcreds⟩
    cases hcheck : v.kekCheck with
    | none =>
      rw [hcheck] at hkek
      cases hkek
    | some w => rfl
  · cases h

/-- A rekey writes as many bytes as it read. -/
theorem length_rekey : v'.text.length = v.text.length := by
  obtain ⟨hcheck, hcheck', hprincipal, hcreds⟩ := rekey_eq_some h
  refine VaultFile.length_text_congr hprincipal ?_ ?_
  · rw [hcheck', hcheck]
    rfl
  · have hall := Table.forall₂_traverse hcreds
    generalize v.creds.rows = rows at hall
    generalize v'.creds.rows = rows' at hall
    induction hall with
    | nil => rfl
    | cons hs _ ih =>
      obtain ⟨w, dek, hw, -, rfl⟩ := rewrapUser_eq_some hs
      rw [List.map_cons, List.map_cons, ih, VaultFile.length_json_withUser (by rw [hw]; rfl)]

theorem small_rekey (hv : v.Small) : v'.Small := by
  rw [VaultFile.Small, length_rekey h]
  exact hv

theorem find?_rekey (slot : CString × CString) :
    v'.creds.find? slot = (v.creds.find? slot).bind (Sealed.rewrapUser C kek newKek) :=
  Table.find?_traverse (rekey_eq_some h).2.2.2 slot

/-- The server's side of an entry stays. -/
theorem getServer_rekey (hv : v.Small) (serverKek : Kek) (agent cred : CString) {outLen : ℕ}
    (hlen : 0 < outLen) :
    getServer C Io.fine principal serverKek agent cred outLen (some v'.text) =
      getServer C Io.fine principal serverKek agent cred outLen (some v.text) := by
  rw [VaultFile.getServer_text C hv principal serverKek agent cred hlen,
    VaultFile.getServer_text C (small_rekey h hv) principal serverKek agent cred hlen, find?_rekey h]
  cases hslot : v.creds.find? (agent, cred) with
  | none => rfl
  | some s =>
    obtain ⟨s', hs'⟩ := Option.isSome_iff_exists.mp
      (Table.isSome_of_traverse (rekey_eq_some h).2.2.2 (Table.mem_of_find? hslot))
    obtain ⟨w, dek, -, -, rfl⟩ := rewrapUser_eq_some hs'
    rw [Option.bind_some, hs']
    rfl

end

include hC

/-- What the owner could read, the owner still reads. -/
theorem get_rekey (h : v.rekey C kek newKek = some v') (hv : v.Small) (agent cred : CString) {outLen : ℕ}
    (hlen : 0 < outLen) :
    get C Io.fine principal newKek agent cred outLen (some v'.text) = get C Io.fine principal kek agent cred
      outLen (some v.text) := by
  rw [VaultFile.get_text C hv principal kek agent cred hlen,
    VaultFile.get_text C (small_rekey h hv) principal newKek agent cred hlen, find?_rekey h]
  cases hslot : v.creds.find? (agent, cred) with
  | none => rfl
  | some s =>
    obtain ⟨s', hs'⟩ := Option.isSome_iff_exists.mp
      (Table.isSome_of_traverse (rekey_eq_some h).2.2.2 (Table.mem_of_find? hslot))
    obtain ⟨w, dek, hw, hdek, rfl⟩ := rewrapUser_eq_some hs'
    rw [Option.bind_some, hs']
    dsimp only
    rw [hw]
    simp only [Sealed.openWith, Sealed.withUser, hC.unwrap_wrap, hdek]

/-- The rekey goes through if and only if every entry has a user wrap. -/
theorem isSome_rekey (h : Keyed C kek true v) : (v.rekey C kek newKek).isSome ↔ ∀ s ∈ v.creds.rows, s.user.isSome := by
  have hcheck : v.kekCheck.bind (C.unwrap kek) = some kekCheckSentinel := by
    rw [h.check]
    exact hC.unwrap_wrap kek kekCheckSentinel
  rw [VaultFile.rekey, if_pos hcheck, Option.isSome_map, Table.isSome_traverse]
  refine forall₂_congr fun s hs => ?_
  rw [Sealed.rewrapUser]
  cases hw : s.user with
  | none => simp
  | some w => simpa using h.user s hs w hw

include hchecks

/-- The verifier takes its own key only. -/
theorem unlockCheck_rc (hv : v.Small) (hcheck : v.kekCheck = some (C.wrap newKek kekCheckSentinel)) (k : Kek) :
    (unlockCheck C Io.fine k (some v.text)).rc = 0 ↔ k = newKek := by
  rw [VaultFile.unlockCheck_text C hv, VaultFile.unlock, hcheck]
  dsimp only
  constructor
  · intro h
    split at h
    · next hopen => exact hchecks newKek k hopen
    · cases h
  · rintro rfl
    rw [if_pos (hC.unwrap_wrap k kekCheckSentinel)]
    rfl

omit hC in
theorem rekey_of_ne (h : Keyed C kek true v) {oldKek : Kek} (hne : oldKek ≠ kek) : v.rekey C oldKek newKek = none := by
  refine if_neg fun hopen => hne (hchecks kek oldKek ?_)
  rw [h.check] at hopen
  exact hopen

theorem rekeyWorks_of_rekeyable (h : Keyed C kek true v) (hv : v.Small) (hall : ∀ s ∈ v.creds.rows, s.user.isSome) :
    RekeyWorks C principal (some v.text) kek newKek := by
  have hsome : (v.rekey C kek newKek).isSome := (isSome_rekey hC h).mpr hall
  obtain ⟨v', hv'⟩ := Option.isSome_iff_exists.mp hsome
  have hdone : rekey C Io.fine kek newKek (some v.text) = ⟨some v'.text, 0⟩ := by
    rw [VaultFile.rekey_text C hv, hv']
    rfl
  have hsmall := small_rekey hv' hv
  constructor
  case rc => rw [hdone]
  case unlock =>
    intro k
    rw [hdone]
    exact unlockCheck_rc hC hchecks hsmall (rekey_eq_some hv').2.1 k
  case user =>
    intro agent cred outLen secret hget
    rcases Nat.eq_zero_or_pos outLen with rfl | hlen
    · cases hget
    · rw [hdone, get_rekey hC hv' hv agent cred hlen]
      exact hget
  case server =>
    intro serverKek agent cred outLen secret hget
    rcases Nat.eq_zero_or_pos outLen with rfl | hlen
    · cases hget
    · rw [hdone, getServer_rekey hv' hv serverKek agent cred hlen]
      exact hget
  case other =>
    intro oldKek newKek' hne
    rw [VaultFile.rekey_text C hv, rekey_of_ne hchecks h hne]
    rfl

end Rekey

/-- After every history that keeps to the owner's key the owner can change it if and only if the file can
    be read and every entry has a user wrap. -/
theorem rekeyWorks_iff {C : Crypto} (hC : C.Correct) (hchecks : C.Checks) (principal : CString)
    (kek newKek : Kek) (history : List Op)
    (hlegal : Legal C principal (start kek) history) (hunlocked : (run C principal kek history).unlocked = true) :
    RekeyWorks C principal (run C principal kek history).file (run C principal kek history).kek newKek ↔
      Rekeyable (run C principal kek history).file := by
  have howned : Owned C (run C principal kek history) := owned_foldl hC (.inl ⟨rfl, rfl⟩) hlegal
  generalize run C principal kek history = s at hunlocked howned
  rcases howned with ⟨-, hlocked⟩ | ⟨v, hfile, hkeyed⟩
  · rw [hlocked] at hunlocked
    cases hunlocked
  · rw [hunlocked] at hkeyed
    rw [hfile]
    constructor
    · intro h
      have hrc := h.rc
      by_cases hv : v.Small
      · rw [VaultFile.rekey_text C hv] at hrc
        have hsome : (v.rekey C s.kek newKek).isSome := by
          cases hrekey : v.rekey C s.kek newKek with
          | none =>
            rw [hrekey] at hrc
            cases hrc
          | some v' => rfl
        refine ⟨v.json, VaultFile.loadVault_small hv, fun e he => ?_⟩
        obtain ⟨t, ht, rfl⟩ := List.mem_map.mp he
        rw [Sealed.stringItem_user, Option.isSome_map]
        exact (isSome_rekey hC (hkeyed hv)).mp hsome t ht
      · rw [rekey, v.loadVault_text, if_neg hv] at hrc
        split at hrc <;> cases hrc
    · rintro ⟨root, hload, hall⟩
      rw [v.loadVault_text] at hload
      split at hload
      · next hv =>
        cases hload
        refine rekeyWorks_of_rekeyable hC hchecks (hkeyed hv) hv fun t ht => ?_
        have huser := hall t.json (List.mem_map_of_mem ht)
        rwa [Sealed.stringItem_user, Option.isSome_map] at huser
      · cases hload

/-- One credential for both, and the key changed once. -/
def sampleHistory : List Op :=
  [.getOrCreateSalt sampleSalt, .unlockCheck sampleKek,
    .set (some sampleKek) (some sampleKek) (key "a") (key "c") (key "s") sampleDraw, .rekey sampleKek nextKek]

/-- One that only the server reads. -/
def serverHistory : List Op :=
  [.getOrCreateSalt sampleSalt, .unlockCheck sampleKek,
    .set none (some sampleKek) (key "a") (key "c") (key "s") sampleDraw]

/-- Only a rekey changes the key. -/
theorem kek_step (C : Crypto) (principal : CString) (s : State) {op : Op} (h : ∀ kek, kekAfter kek op = kek) :
    (step C principal s op).kek = s.kek := by
  rw [step]
  split
  · exact h s.kek
  · rfl

theorem legal_sampleHistory : Legal sampleCrypto (key "p") (start sampleKek) sampleHistory := by
  refine ⟨trivial, .inl ?_, fun k hk => ?_, trivial, trivial⟩
  · rfl
  · rw [kek_step _ _ _ fun _ => rfl]
    exact (Option.some.inj hk).symm

theorem legal_serverHistory : Legal sampleCrypto (key "p") (start sampleKek) serverHistory := by
  refine ⟨trivial, .inl ?_, fun k hk => ?_, trivial⟩
  · rfl
  · cases hk

theorem rekeyWorks_iff_sampleHistory :
    RekeyWorks sampleCrypto (key "p") (run sampleCrypto (key "p") sampleKek sampleHistory).file
        (run sampleCrypto (key "p") sampleKek sampleHistory).kek sampleKek ↔
      Rekeyable (run sampleCrypto (key "p") sampleKek sampleHistory).file :=
  rekeyWorks_iff sampleCrypto_correct sampleCrypto_checks (key "p") sampleKek sampleKek sampleHistory
    legal_sampleHistory
    (by decide +kernel)

/-- The owner cannot change the key of a vault with one entry that only the server reads. -/
theorem rekeyWorks_serverHistory :
    Legal sampleCrypto (key "p") (start sampleKek) serverHistory ∧
      (run sampleCrypto (key "p") sampleKek serverHistory).unlocked = true ∧
      ¬RekeyWorks sampleCrypto (key "p") (run sampleCrypto (key "p") sampleKek serverHistory).file
        (run sampleCrypto (key "p") sampleKek serverHistory).kek nextKek := by
  have hrc : (rekey sampleCrypto Io.fine sampleKek nextKek
    (run sampleCrypto (key "p") sampleKek serverHistory).file).rc = -1 := by
    decide +kernel
  have hkek : (run sampleCrypto (key "p") sampleKek serverHistory).kek = sampleKek := by decide +kernel
  refine ⟨legal_serverHistory, by decide +kernel, fun h => ?_⟩
  have hworks := h.rc
  rw [hkek, hrc] at hworks
  cases hworks

end RekeyHistory

end VaultStore
