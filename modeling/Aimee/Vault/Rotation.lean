-- SUMMARY: The rotation of the server master key over a whole vault directory: when every credential the server key opens survives it.
import Aimee.Vault.FileOps
import Aimee.Vault.ServerKey

/-!
# Rotation

With no step failing, a rotation completes and keeps what the server key opens exactly if no backup is
in its way, the credential it probes can be read, and every principal with such a credential is listed.
With steps failing, it puts the directory back, as long as no copy passes a file over.
-/

namespace VaultStore

/-- No wrap opens under both keys. -/
def Crypto.Separates (C : Crypto) (oldKek newKek : Kek) : Prop := ∀ w dek, C.unwrap oldKek w = some dek →
    C.unwrap newKek w = none

/-! ## Entries -/

namespace Sealed

/-- The wrap for the server key: the primary one in the server's own vault. -/
def held (own : Bool) (s : Sealed) : Option WrappedDek := if own then s.user else s.server

def withHeld (own : Bool) (s : Sealed) (w : WrappedDek) : Sealed := if own then s.withUser w else s.withServer w

/-- The wrap made anew, if it is there. -/
def rewrapHeld (C : Crypto) (oldKek newKek : Kek) (own : Bool) (s : Sealed) : Sealed :=
  match (s.held own).bind (C.unwrap oldKek) with
  | none => s
  | some dek => s.withHeld own (C.wrap newKek dek)

variable {C : Crypto} {oldKek newKek : Kek} {own : Bool} {s : Sealed}

@[simp] theorem slot_withHeld (own : Bool) (s : Sealed) (w : WrappedDek) : (s.withHeld own w).slot = s.slot := by
  cases own <;> rfl

theorem held_withHeld (own : Bool) (s : Sealed) (w : WrappedDek) : (s.withHeld own w).held own = some w := by
  cases own <;> rfl

theorem slot_rewrapHeld (C : Crypto) (oldKek newKek : Kek) (own : Bool) (s : Sealed) :
    (s.rewrapHeld C oldKek newKek own).slot = s.slot := by
  unfold rewrapHeld
  split
  · rfl
  · exact slot_withHeld own s _

theorem rewrapHeld_of_none (h : s.held own = none) : s.rewrapHeld C oldKek newKek own = s := by
  rw [rewrapHeld, h]
  rfl

theorem rewrapHeld_of_some {w : WrappedDek} {dek : Dek} (h : s.held own = some w)
    (hdek : C.unwrap oldKek w = some dek) :
    s.rewrapHeld C oldKek newKek own = s.withHeld own (C.wrap newKek dek) := by
  rw [rewrapHeld, h, Option.bind_some, hdek]

/-- The name of the field. -/
def heldName (own : Bool) : String := if own then "wrapped_dek" else "wrapped_dek_server"

theorem stringItem_held (own : Bool) (s : Sealed) :
    stringItem s.json (heldName own) = (s.held own).map fun w => b64 w.val := by
  cases own
  · exact s.stringItem_server
  · exact s.stringItem_user

theorem setB64Field_held {w : WrappedDek} (h : s.held own = some w) (w' : WrappedDek) :
    setB64Field s.json (heldName own) w'.val = (s.withHeld own w').json := by
  cases own
  · exact setB64Field_server (by rw [show s.server = some w from h]; rfl) w'
  · exact setB64Field_user (by rw [show s.user = some w from h]; rfl) w'

theorem unwrapField_held (C : Crypto) (kek : Kek) (own : Bool) (s : Sealed) :
    unwrapField C kek (heldName own) s.json = (s.held own).bind (C.unwrap kek) := by
  cases own
  · exact unwrapField_server C kek s
  · exact unwrapField_user C kek s

theorem rekeyEntry_json (h : ∀ w ∈ s.held own, (C.unwrap oldKek w).isSome) :
    rekeyEntry C oldKek newKek (heldName own) s.json = some (s.rewrapHeld C oldKek newKek own).json := by
  rw [rekeyEntry, stringItem_held, Option.isSome_map]
  cases hheld : s.held own with
  | none =>
    rw [rewrapHeld_of_none hheld]
    rfl
  | some w =>
    obtain ⟨dek, hdek⟩ := Option.isSome_iff_exists.mp (h w hheld)
    rw [Option.isSome_some, if_pos rfl, rewrap, unwrapField_held, hheld, Option.bind_some, hdek,
      Option.map_some, setB64Field_held hheld, rewrapHeld_of_some hheld hdek]

theorem length_json_withHeld {w : WrappedDek} (h : s.held own = some w) (w' : WrappedDek) :
    (s.withHeld own w').json.printed.length = s.json.printed.length := by
  cases own
  · obtain ⟨agent, cred, user, server, nonce, ciphertext, tag⟩ := s
    cases h
    simp [Sealed.json, withHeld, withServer, field, CJson.printed, CJson.length_printedMembers,
      VaultFile.length_printString_b64, w.property, w'.property]
  · exact VaultFile.length_json_withUser (by rw [show s.user = some w from h]; rfl) w'

theorem length_json_rewrapHeld (C : Crypto) (oldKek newKek : Kek) (own : Bool) (s : Sealed) :
    (s.rewrapHeld C oldKek newKek own).json.printed.length = s.json.printed.length := by
  unfold rewrapHeld
  split
  case h_1 => rfl
  case h_2 dek hdek =>
    obtain ⟨w, hw, -⟩ := Option.bind_eq_some_iff.mp hdek
    exact length_json_withHeld hw _

theorem openWith_withHeld (C : Crypto) (principal : CString) (kek : Kek) (absent : ReadResult)
    (agent cred : CString) (outLen : ℕ)
    (own : Bool) (s : Sealed) (w : WrappedDek) (wrap : Option WrappedDek) :
    (s.withHeld own w).openWith C principal kek absent agent cred outLen wrap =
      s.openWith C principal kek absent agent cred outLen wrap := by
  cases own <;> rfl

/-- A read through the wrap for the server key. -/
def readHeld (C : Crypto) (principal : CString) (kek : Kek) (own : Bool) (agent cred : CString) (outLen : ℕ)
    (s : Sealed) : ReadResult :=
  s.openWith C principal kek (if own then .error else .noEntry) agent cred outLen (s.held own)

theorem unwrap_of_readHeld {principal : CString} {kek : Kek} {agent cred : CString} {outLen : ℕ} {secret : List UInt8}
    (h : s.readHeld C principal kek own agent cred outLen = .ok secret) :
    ∃ w dek, s.held own = some w ∧ C.unwrap kek w = some dek := by
  unfold readHeld openWith at h
  cases hheld : s.held own with
  | none =>
    rw [hheld] at h
    cases own <;> cases h
  | some w =>
    rw [hheld] at h
    cases hdek : C.unwrap kek w with
    | some dek => exact ⟨w, dek, rfl, hdek⟩
    | none =>
      dsimp only at h
      rw [hdek] at h
      split at h
      · cases h
      · split at h
        · cases h
        · cases h

variable (hC : C.Correct)

include hC

theorem readHeld_rewrapHeld (h : ∀ w ∈ s.held own, (C.unwrap oldKek w).isSome)
    (principal agent cred : CString) (outLen : ℕ) :
    (s.rewrapHeld C oldKek newKek own).readHeld C principal newKek own agent cred outLen =
      s.readHeld C principal oldKek own agent cred outLen := by
  cases hheld : s.held own with
  | none =>
    rw [rewrapHeld_of_none hheld, readHeld, readHeld, hheld]
    rfl
  | some w =>
    obtain ⟨dek, hdek⟩ := Option.isSome_iff_exists.mp (h w hheld)
    rw [rewrapHeld_of_some hheld hdek, readHeld, readHeld, held_withHeld, openWith_withHeld, hheld, openWith, openWith]
    simp only [hC.unwrap_wrap, hdek]

end Sealed

/-! ## Vaults -/

namespace VaultFile

/-- Every wrap for the server key made anew. -/
def rewrapHeld (C : Crypto) (oldKek newKek : Kek) (own : Bool) (v : VaultFile) : VaultFile :=
  v.withCreds (v.creds.update (fun _ => true) (Sealed.rewrapHeld C oldKek newKek own)
    (Sealed.slot_rewrapHeld C oldKek newKek own))

/-- Every wrap for the server key opens under this one. -/
def HeldUnder (C : Crypto) (kek : Kek) (own : Bool) (v : VaultFile) : Prop :=
  ∀ s ∈ v.creds.rows, ∀ w ∈ s.held own, (C.unwrap kek w).isSome

variable (C : Crypto) (oldKek newKek : Kek) (own : Bool) (v : VaultFile)

theorem rows_rewrapHeld :
    (v.rewrapHeld C oldKek newKek own).creds.rows = v.creds.rows.map (Sealed.rewrapHeld C oldKek newKek own) := rfl

theorem find?_rewrapHeld (slot : CString × CString) :
    (v.rewrapHeld C oldKek newKek own).creds.find? slot =
      (v.creds.find? slot).map (Sealed.rewrapHeld C oldKek newKek own) := by
  rw [rewrapHeld, withCreds, Table.find?_update]
  simp

theorem length_text_rewrapHeld : (v.rewrapHeld C oldKek newKek own).text.length = v.text.length := by
  refine length_text_congr rfl rfl ?_
  rw [rows_rewrapHeld, List.map_map]
  exact List.map_congr_left fun s _ => s.length_json_rewrapHeld C oldKek newKek own

theorem small_rewrapHeld : (v.rewrapHeld C oldKek newKek own).Small ↔ v.Small := by
  rw [Small, Small, length_text_rewrapHeld]

variable {v} {C oldKek own}

theorem mapM_rekeyEntry (hheld : v.HeldUnder C oldKek own) :
    (v.creds.rows.map Sealed.json).mapM (rekeyEntry C oldKek newKek (Sealed.heldName own)) =
      some ((v.rewrapHeld C oldKek newKek own).creds.rows.map Sealed.json) := by
  refine List.mapM_eq_some_iff_forall₂.mpr ?_
  rw [rows_rewrapHeld, List.map_map, List.forall₂_map_left_iff, List.forall₂_map_right_iff, List.forall₂_same]
  exact fun s hs => Sealed.rekeyEntry_json (hheld s hs)

/-- Without a wrap for the server key there is nothing to make anew. -/
theorem rewrapHeld_of_countP
    (hcount : (v.creds.rows.map Sealed.json).countP (fun e => (stringItem e (Sealed.heldName own)).isSome) = 0) :
    v.rewrapHeld C oldKek newKek own = v := by
  have hnone : ∀ s ∈ v.creds.rows, Sealed.rewrapHeld C oldKek newKek own s = s := by
    intro s hs
    refine Sealed.rewrapHeld_of_none ?_
    have hfield := List.countP_eq_zero.mp hcount s.json (List.mem_map_of_mem hs)
    rw [Sealed.stringItem_held] at hfield
    simpa using hfield
  have hrows : (v.rewrapHeld C oldKek newKek own).creds = v.creds :=
    Table.ext ((List.map_congr_left hnone).trans (List.map_id _))
  change v.withCreds (v.rewrapHeld C oldKek newKek own).creds = v
  rw [hrows]
  rfl

/-- A vault all of whose wraps open is written anew. -/
theorem rekeyField_text (hv : v.Small) (hheld : v.HeldUnder C oldKek own) :
    ∃ n : ℕ, rekeyField C Io.fine (Sealed.heldName own) oldKek newKek (some v.text) =
      ⟨some (v.rewrapHeld C oldKek newKek own).text, n⟩ := by
  have hname : ¬(Sealed.heldName own = "" ∨ ¬Io.fine.lock = true) := by
    cases own <;> decide
  unfold rekeyField
  rw [if_neg hname, loadVault_small hv]
  simp only [credsArray_json, mapM_rekeyEntry newKek hheld]
  by_cases hcount : (v.creds.rows.map Sealed.json).countP (fun e => (stringItem e (Sealed.heldName own)).isSome) = 0
  · refine ⟨0, ?_⟩
    rw [if_pos hcount, rewrapHeld_of_countP newKek hcount]
    rfl
  · have hwrite := (v.rewrapHeld C oldKek newKek own).writeVaultFile_json (some v.text)
    have hjson : setCreds v.json ((v.rewrapHeld C oldKek newKek own).creds.rows.map Sealed.json) =
        (v.rewrapHeld C oldKek newKek own).json := rfl
    refine ⟨(v.creds.rows.map Sealed.json).countP fun e => (stringItem e (Sealed.heldName own)).isSome, ?_⟩
    rw [if_neg hcount, hjson, hwrite]
    rfl

theorem rekeyField_long (hv : ¬v.Small) :
    rekeyField C Io.fine (Sealed.heldName own) oldKek newKek (some v.text) = ⟨some v.text, 0⟩ := by
  have hname : ¬(Sealed.heldName own = "" ∨ ¬Io.fine.lock = true) := by
    cases own <;> decide
  rw [rekeyField, if_neg hname, loadVault_text, if_neg hv]

theorem list_text (max : ℕ) :
    list Io.fine max (some v.text) =
      if v.Small then
        (v.creds.rows.map fun s => (⟨s.agent.truncate 63, s.cred.truncate 63⟩ : ListEntry)).take max
      else [] := by
  unfold list
  rw [loadVault_text]
  by_cases hv : v.Small
  · rw [if_pos hv, if_pos hv]
    dsimp only
    rw [credsArray_json, Option.getD_some, List.filterMap_map]
    congr 1
    rw [← List.filterMap_eq_map]
    rfl
  · rw [if_neg hv, if_neg hv]

end VaultFile

/-! ## The directory -/

/-- A read through the server key: its own credentials by their primary wrap, all others by the server wrap. -/
def serverRead (C : Crypto) (server : CString) (kek : Kek) (principal agent cred : CString) (outLen : ℕ)
    (file : File) : ReadResult :=
  if principal = server then get C Io.fine principal kek agent cred outLen file
  else getServer C Io.fine principal kek agent cred outLen file

/-- Every vault file is one the store wrote, with the wraps for the server key made under `kek`. -/
structure WellFormed (C : Crypto) (server : CString) (kek : Kek) (dir : VaultDir) : Prop where
  names : ∀ r ∈ dir.rows, ∀ p, principalOfName r.1 = some p → r.1 = vaultFileName p
  vaults : ∀ p, ∀ content ∈ dir.fileOf p, ∃ v : VaultFile, content = v.text ∧
    ∀ s ∈ v.creds.rows, ∀ w ∈ s.held (decide (p = server)), ∃ dek, w = C.wrap kek dek

section Files

variable {C : Crypto} {server : CString} {oldKek newKek : Kek}

theorem heldField_eq (server p : CString) : heldField server p = Sealed.heldName (decide (p = server)) := by
  by_cases h : p = server
  · simp [heldField, Sealed.heldName, h]
  · simp [heldField, Sealed.heldName, h]

variable {outLen : ℕ} {file : File} {p : CString}

theorem serverRead_text {v : VaultFile} (hv : v.Small) (kek : Kek) (p agent cred : CString) (hlen : 0 < outLen) :
    serverRead C server kek p agent cred outLen (some v.text) =
      match v.creds.find? (agent, cred) with
      | none => .noEntry
      | some s => s.readHeld C p kek (decide (p = server)) agent cred outLen := by
  unfold serverRead Sealed.readHeld Sealed.held
  by_cases h : p = server
  · simp only [h, if_true, decide_true]
    exact VaultFile.get_text C hv server kek agent cred hlen
  · simp only [h, if_false, decide_false, Bool.false_eq_true]
    exact VaultFile.getServer_text C hv p kek agent cred hlen

/-- A read into no buffer at all, or of a file that is too long. -/
theorem serverRead_error (h : outLen = 0 ∨ (loadVault Io.fine file = none ∧ file.isSome)) (kek : Kek)
    (p agent cred : CString) : serverRead C server kek p agent cred outLen file = .error := by
  have hread : ∀ field absent, readCred C Io.fine p kek field absent agent cred outLen file = .error := by
    intro field absent
    rw [readCred]
    by_cases hlen : outLen = 0
    · rw [if_pos hlen]
    · obtain ⟨hload, hsome⟩ := h.resolve_left hlen
      obtain ⟨content, rfl⟩ := Option.isSome_iff_exists.mp hsome
      rw [if_neg hlen, hload]
      rfl
  unfold serverRead
  split
  · exact hread _ _
  · exact hread _ _

/-- The reads of a vault with its wraps made anew are those of the vault before. -/
theorem serverRead_rewrapHeld (hC : C.Correct) {v : VaultFile} (hheld : v.HeldUnder C oldKek (decide (p = server)))
    (agent cred : CString) (outLen : ℕ) :
    serverRead C server newKek p agent cred outLen (some (v.rewrapHeld C oldKek newKek (decide (p = server))).text) =
      serverRead C server oldKek p agent cred outLen (some v.text) := by
  rcases Nat.eq_zero_or_pos outLen with rfl | hlen
  · rw [serverRead_error (.inl rfl), serverRead_error (.inl rfl)]
  · by_cases hv : v.Small
    · rw [serverRead_text hv oldKek p agent cred hlen,
        serverRead_text ((v.small_rewrapHeld C oldKek newKek _).mpr hv) newKek p agent cred hlen,
          VaultFile.find?_rewrapHeld]
      cases hfind : v.creds.find? (agent, cred) with
      | none => rfl
      | some s => exact Sealed.readHeld_rewrapHeld hC (hheld s (Table.mem_of_find? hfind)) p agent cred outLen
    · have hv' : ¬(v.rewrapHeld C oldKek newKek (decide (p = server))).Small := fun h =>
        hv ((v.small_rewrapHeld C oldKek newKek _).mp h)
      rw [serverRead_error (.inr ⟨by rw [VaultFile.loadVault_text, if_neg hv'], rfl⟩),
        serverRead_error (.inr ⟨by rw [VaultFile.loadVault_text, if_neg hv], rfl⟩)]

/-- What is wrapped under the old key is not read under the new one. -/
theorem serverRead_ne_ok (hsep : C.Separates oldKek newKek) {v : VaultFile}
    (hheld : v.HeldUnder C oldKek (decide (p = server))) (agent cred : CString) (outLen : ℕ) (secret : List UInt8) :
    serverRead C server newKek p agent cred outLen (some v.text) ≠ .ok secret := by
  intro hread
  rcases Nat.eq_zero_or_pos outLen with rfl | hlen
  · rw [serverRead_error (.inl rfl)] at hread
    cases hread
  · by_cases hv : v.Small
    · rw [serverRead_text hv newKek p agent cred hlen] at hread
      cases hfind : v.creds.find? (agent, cred) with
      | none =>
        rw [hfind] at hread
        cases hread
      | some s =>
        rw [hfind] at hread
        obtain ⟨w, dek, hw, hdek⟩ := Sealed.unwrap_of_readHeld hread
        obtain ⟨dek', hdek'⟩ := Option.isSome_iff_exists.mp (hheld s (Table.mem_of_find? hfind) w hw)
        rw [hsep w dek' hdek'] at hdek
        cases hdek
    · rw [serverRead_error (.inr ⟨by rw [VaultFile.loadVault_text, if_neg hv], rfl⟩)] at hread
      cases hread

theorem serverRead_missing (kek : Kek) (p agent cred : CString) (outLen : ℕ) (secret : List UInt8) :
    serverRead C server kek p agent cred outLen none ≠ .ok secret := by
  have hread : ∀ field absent, readCred C Io.fine p kek field absent agent cred outLen none ≠ .ok secret := by
    intro field absent
    rw [readCred]
    split
    · exact fun h => by cases h
    · exact fun h => by cases h
  unfold serverRead
  split
  · exact hread _ _
  · exact hread _ _

/-- A vault file as the store writes it, with its wraps for the server key under that key. -/
def KeptUnder (C : Crypto) (server : CString) (kek : Kek) (p : CString) (file : File) : Prop :=
  ∀ content ∈ file, ∃ v : VaultFile, content = v.text ∧ v.HeldUnder C kek (decide (p = server))

theorem WellFormed.keptUnder (hC : C.Correct) {kek : Kek} {dir : VaultDir} (h : WellFormed C server kek dir)
    (p : CString) :
    KeptUnder C server kek p (dir.fileOf p) := by
  intro content hcontent
  obtain ⟨v, rfl, hheld⟩ := h.vaults p content hcontent
  refine ⟨v, rfl, fun s hs w hw => ?_⟩
  obtain ⟨dek, rfl⟩ := hheld s hs w hw
  rw [hC.unwrap_wrap]
  rfl

/-- What making the wraps of one principal anew comes to. -/
structure Rekeyed (C : Crypto) (server : CString) (oldKek newKek : Kek) (p : CString) (file file' : File) : Prop where
  reads : ∀ agent cred outLen, serverRead C server newKek p agent cred outLen file' =
    serverRead C server oldKek p agent cred outLen file
  lists : ∀ max, list Io.fine max file' = list Io.fine max file

theorem rekeyed_rekeyField (hC : C.Correct) (newKek : Kek) (h : KeptUnder C server oldKek p file) :
    0 ≤ (rekeyField C Io.fine (heldField server p) oldKek newKek file).rc ∧
      Rekeyed C server oldKek newKek p file (rekeyField C Io.fine (heldField server p) oldKek newKek file).file := by
  rw [heldField_eq]
  cases file with
  | none =>
    have hname : ¬(Sealed.heldName (decide (p = server)) = "" ∨ ¬Io.fine.lock = true) := by
      cases decide (p = server) <;> decide
    have hnone : rekeyField C Io.fine (Sealed.heldName (decide (p = server))) oldKek newKek none = ⟨none, 0⟩ := by
      rw [rekeyField, if_neg hname]
      rfl
    rw [hnone]
    refine ⟨le_rfl, fun agent cred outLen => ?_, fun _ => rfl⟩
    have hread : ∀ kek field absent, readCred C Io.fine p kek field absent agent cred outLen none =
      if outLen = 0 then .error else .noEntry :=
      fun _ _ _ => rfl
    unfold serverRead
    split
    · exact (hread _ _ _).trans (hread _ _ _).symm
    · exact (hread _ _ _).trans (hread _ _ _).symm
  | some content =>
    obtain ⟨v, rfl, hheld⟩ := h content rfl
    by_cases hv : v.Small
    · obtain ⟨n, hn⟩ := VaultFile.rekeyField_text newKek hv hheld
      rw [hn]
      refine ⟨Int.natCast_nonneg n, serverRead_rewrapHeld hC hheld, fun max => ?_⟩
      rw [VaultFile.list_text, VaultFile.list_text, if_pos hv, if_pos ((v.small_rewrapHeld C oldKek newKek _).mpr hv),
        VaultFile.rows_rewrapHeld, List.map_map]
      congr 1
      refine List.map_congr_left fun s _ => ?_
      obtain ⟨hagent, hcred⟩ := Prod.ext_iff.mp (s.slot_rewrapHeld C oldKek newKek (decide (p = server)))
      rw [Function.comp_apply, show (s.rewrapHeld C oldKek newKek _).agent = s.agent from hagent,
        show (s.rewrapHeld C oldKek newKek _).cred = s.cred from hcred]
    · rw [VaultFile.rekeyField_long newKek hv]
      refine ⟨le_rfl, fun agent cred outLen => ?_, fun _ => rfl⟩
      have hload : loadVault Io.fine (some v.text) = none := by rw [VaultFile.loadVault_text, if_neg hv]
      rw [serverRead_error (.inr ⟨hload, rfl⟩), serverRead_error (.inr ⟨hload, rfl⟩)]

/-- No operation on wraps removes the file, or makes one. -/
theorem isSome_rekeyField (io : Io) (field : String) (file : File) :
    (rekeyField C io field oldKek newKek file).file.isSome = file.isSome := by
  cases file with
  | none =>
    rw [rekeyField]
    split
    · rfl
    · rw [loadVault_none]
  | some content =>
    have hwrite : ∀ root, (writeVaultFile io root (some content)).file.isSome = true := by
      intro root
      unfold writeVaultFile
      split
      · rfl
      · split <;> rfl
    unfold rekeyField
    split
    · rfl
    · split
      · rfl
      · split
        · rfl
        · split
          · rfl
          · dsimp only
            split
            · rfl
            · split
              · exact hwrite _
              · exact hwrite _

theorem get?_store {dir : VaultDir} {name : CString} (h : file.isSome = (dir.get? name).isSome) (name' : CString) :
    (dir.store name file).get? name' = if name = name' then file else dir.get? name' := by
  cases file with
  | some content => exact KeyMap.get?_put dir name content name'
  | none =>
    have hnone : dir.get? name = none := by simpa using h.symm
    change dir.get? name' = _
    split
    case isTrue hname => rw [← hname, hnone]
    case isFalse => rfl

theorem get?_rekeyPrincipal (io : RotateIo) (p : CString) (dir : VaultDir) (name : CString) :
    (rekeyPrincipal C server io oldKek newKek p dir).1.get? name =
      if vaultFileName p = name then (rekeyField C (io.rekey p) (heldField server p) oldKek newKek (dir.fileOf p)).file
      else dir.get? name :=
  get?_store (isSome_rekeyField _ _ _) name

theorem fileOf_rekeyPrincipal (io : RotateIo) (p q : CString) (dir : VaultDir) :
    (rekeyPrincipal C server io oldKek newKek p dir).1.fileOf q =
      if p = q then (rekeyField C (io.rekey p) (heldField server p) oldKek newKek (dir.fileOf p)).file else
        dir.fileOf q := by
  rw [VaultDir.fileOf, get?_rekeyPrincipal]
  by_cases h : p = q
  · rw [if_pos h, if_pos (congrArg vaultFileName h)]
  · rw [if_neg h, if_neg fun hname => h (vaultFileName_injective hname)]
    rfl

/-- The vaults of the listed principals are made anew, and no other file changes. -/
theorem rekeyPrincipals_spec (hC : C.Correct) (newKek : Kek) {ps : List CString} {dir : VaultDir} (hnodup : ps.Nodup)
    (hkept : ∀ p ∈ ps, KeptUnder C server oldKek p (dir.fileOf p)) :
    (rekeyPrincipals C server RotateIo.fine oldKek newKek ps dir).2 = true ∧
      (∀ p ∈ ps, Rekeyed C server oldKek newKek p (dir.fileOf p)
        ((rekeyPrincipals C server RotateIo.fine oldKek newKek ps dir).1.fileOf p)) ∧
      ∀ name, (∀ p ∈ ps, vaultFileName p ≠ name) →
        (rekeyPrincipals C server RotateIo.fine oldKek newKek ps dir).1.get? name = dir.get? name := by
  induction ps generalizing dir with
  | nil => exact ⟨rfl, fun p hp => absurd hp List.not_mem_nil, fun _ _ => rfl⟩
  | cons p rest ih =>
    obtain ⟨hp, hrest⟩ := List.nodup_cons.mp hnodup
    obtain ⟨hrc, hrekeyed⟩ := rekeyed_rekeyField hC newKek (hkept p List.mem_cons_self)
    have hother : ∀ q ∈ rest, (rekeyPrincipal C server RotateIo.fine oldKek newKek p dir).1.fileOf q =
      dir.fileOf q := by
      intro q hq
      rw [fileOf_rekeyPrincipal, if_neg]
      rintro rfl
      exact hp hq
    have hkept' : ∀ q ∈ rest,
      KeptUnder C server oldKek q ((rekeyPrincipal C server RotateIo.fine oldKek newKek p dir).1.fileOf q) := by
      intro q hq
      rw [hother q hq]
      exact hkept q (List.mem_cons_of_mem p hq)
    obtain ⟨hdone, hall, hsame⟩ := ih hrest hkept'
    have hgoes : ¬(rekeyPrincipal C server RotateIo.fine oldKek newKek p dir).2 < 0 := not_lt.mpr hrc
    rw [rekeyPrincipals, if_neg hgoes]
    refine ⟨hdone, fun q hq => ?_, fun name hname => ?_⟩
    · rcases List.mem_cons.mp hq with rfl | hq
      · have hfile : (rekeyPrincipals C server RotateIo.fine oldKek newKek rest
            (rekeyPrincipal C server RotateIo.fine oldKek newKek q dir).1).1.fileOf q =
            (rekeyPrincipal C server RotateIo.fine oldKek newKek q dir).1.fileOf q := by
          refine hsame _ fun r hr hname => hp ?_
          rwa [← vaultFileName_injective hname]
        rw [hfile, fileOf_rekeyPrincipal, if_pos rfl]
        exact hrekeyed
      · rw [← hother q hq]
        exact hall q hq
    · rw [hsame name fun q hq => hname q (List.mem_cons_of_mem p hq), get?_rekeyPrincipal,
        if_neg (hname p List.mem_cons_self)]

/-- With the files named as the store names them, a directory lists every principal once. -/
theorem nodup_listPrincipals {dir : VaultDir} (h : ∀ r ∈ dir.rows, ∀ p, principalOfName r.1 = some p →
    r.1 = vaultFileName p) (max : ℕ) :
    (dir.listPrincipals max).Nodup := by
  refine (List.take_sublist _ _).nodup ?_
  rw [List.filterMap_map]
  refine List.pairwise_filterMap.mpr ?_
  have hnodup : dir.rows.Pairwise fun a b => a.1 ≠ b.1 := List.pairwise_map.mp dir.nodup
  refine hnodup.imp_of_mem fun {a b} ha hb hne p hp q hq hpq => hne ?_
  rw [h a ha p hp, h b hb q hq, hpq]

end Files

/-! ## A rotation without failures -/

section Fine

variable (C : Crypto) (server : CString) (derive : MasterKey → Kek)
  (oldMaster newMaster : MasterKey) (backupExists : Bool) (dir : VaultDir)

/-- The rotation with no step failing. -/
def rotated : Rotation := fileRotate C server derive RotateIo.fine backupExists newMaster dir

/-- It succeeds, the new master key is in place, and its key reads every credential the old one read. -/
structure RotatesWell : Prop where
  succeeds : (rotated C server derive newMaster backupExists dir).rc = 0
  swapped : (rotated C server derive newMaster backupExists dir).dir.get? VaultDir.masterName = some newMaster.val
  reads : ∀ p agent cred outLen secret,
    serverRead C server (derive oldMaster) p agent cred outLen (dir.fileOf p) = .ok secret →
    serverRead C server (derive newMaster) p agent cred outLen
      ((rotated C server derive newMaster backupExists dir).dir.fileOf p) = .ok secret

/-- The first credential of the server principal, if there is one, can be read: under its names as the
    listing cuts them to 63 bytes, by its primary wrap, and into the buffer of the probe. -/
def ProbeReads : Prop :=
  ∀ e ∈ (list Io.fine 1 (dir.fileOf server)).head?,
    ∃ secret, serverRead C server (derive oldMaster) server e.agent e.cred probeMax (dir.fileOf server) = .ok secret

/-- Every principal with a credential the server key reads is among those a rotation goes through. -/
def AllListed : Prop :=
  ∀ p agent cred outLen secret, serverRead C server (derive oldMaster) p agent cred outLen (dir.fileOf p) = .ok secret →
    p ∈ dir.listPrincipals maxPrincipals

variable {C server derive oldMaster newMaster backupExists dir}

theorem copyFiles_fine (rows : List (CString × List UInt8)) (dst : VaultDir) :
    (copyFiles CopyIo.fine.step rows dst).2 = true := by
  induction rows generalizing dst with
  | nil => rfl
  | cons r rest ih => exact ih _

theorem rotCopyDirFlat_fine (src dst : VaultDir) :
    (rotCopyDirFlat .fine src dst).2 = true := copyFiles_fine src.rows dst

theorem masterKeyRead_fine (hmaster : dir.get? VaultDir.masterName = some oldMaster.val) :
    masterKeyRead RotateIo.fine dir = .ok oldMaster := by
  rw [masterKeyRead, hmaster]
  dsimp only
  rw [if_neg (show ¬¬RotateIo.fine.readMaster = true by decide), dif_pos oldMaster.property]

/-- A rotation that is not turned away at the start. -/
theorem rotated_eq (C : Crypto) (derive : MasterKey → Kek) (newMaster : MasterKey)
    (hserver : server ≠ .empty) (hmaster : dir.get? VaultDir.masterName = some oldMaster.val)
    (hbackup : ¬backupExists = true) :
    rotated C server derive newMaster backupExists dir =
      let done := rewrapAndSwap C server RotateIo.fine (derive oldMaster) (derive newMaster) newMaster dir
      if done.2 then ⟨done.1, 0, none⟩
      else
        let restored := rotCopyDirFlat .fine (rotCopyDirFlat .fine dir KeyMap.empty).1 done.1
        ⟨restored.1, -1, some restored.2⟩ := by
  have hstart : ¬(server = .empty ∨ ¬RotateIo.fine.paths = true) := not_or.mpr ⟨hserver, not_not.mpr rfl⟩
  have hkeys : ¬(¬RotateIo.fine.keys = true ∨ backupExists = true) := not_or.mpr ⟨not_not.mpr rfl, hbackup⟩
  have hcopy : (rotCopyDirFlat RotateIo.fine.backup dir KeyMap.empty).2 = true := rotCopyDirFlat_fine dir _
  rw [rotated, fileRotate, if_neg hstart, masterKeyRead_fine hmaster]
  dsimp only
  rw [if_neg hkeys, if_neg (not_not.mpr hcopy)]
  rfl

theorem probe_iff (kek : Kek) (dir : VaultDir) :
    probe C server RotateIo.fine kek dir = true ↔
      ∀ e ∈ (list Io.fine 1 (dir.fileOf server)).head?,
        ∃ secret, serverRead C server kek server e.agent e.cred probeMax (dir.fileOf server) = .ok secret := by
  unfold probe
  have hio : RotateIo.fine.probeList = Io.fine := rfl
  have hio' : RotateIo.fine.probeGet = Io.fine := rfl
  rw [hio, hio']
  cases list Io.fine 1 (dir.fileOf server) with
  | nil => simp
  | cons e rest =>
    have hread : serverRead C server kek server e.agent e.cred probeMax (dir.fileOf server) =
        get C Io.fine server kek e.agent e.cred probeMax (dir.fileOf server) := if_pos rfl
    simp only [List.head?_cons, Option.mem_def, Option.some.injEq, forall_eq', hread]
    cases get C Io.fine server kek e.agent e.cred probeMax (dir.fileOf server) <;> simp

theorem fileOf_put_masterName (dir' : VaultDir) (p : CString) :
    VaultDir.fileOf (dir'.put VaultDir.masterName newMaster.val) p = dir'.fileOf p := by
  rw [VaultDir.fileOf, KeyMap.get?_put, if_neg (vaultFileName_ne_masterName p).symm]
  rfl

/-- A backup that is there already turns a rotation away. -/
theorem rc_rotated_of_backup (hserver : server ≠ .empty) (hmaster : dir.get? VaultDir.masterName = some oldMaster.val) :
    (rotated C server derive newMaster true dir).rc = -1 := by
  have hstart : ¬(server = .empty ∨ ¬RotateIo.fine.paths = true) := not_or.mpr ⟨hserver, not_not.mpr rfl⟩
  rw [rotated, fileRotate, if_neg hstart, masterKeyRead_fine hmaster]
  dsimp only
  rw [if_pos (Or.inr rfl)]

theorem serverRead_unlisted (hsep : C.Separates (derive oldMaster) (derive newMaster)) {p : CString} {file : File}
    (hkept : KeptUnder C server (derive oldMaster) p file) (agent cred : CString) (outLen : ℕ) (secret : List UInt8) :
    serverRead C server (derive newMaster) p agent cred outLen file ≠ .ok secret := by
  cases file with
  | none => exact serverRead_missing _ p agent cred outLen secret
  | some content =>
    obtain ⟨v, rfl, hheld⟩ := hkept content rfl
    exact serverRead_ne_ok hsep hheld agent cred outLen secret

variable (hC : C.Correct) (hdir : WellFormed C server (derive oldMaster) dir)

include hC hdir

/-- The directory when the wraps have been made anew: what is listed is rekeyed, and all other files stay. -/
theorem rewrapAndSwap_fine (newMaster : MasterKey) :
    ∃ dir', (∀ p ∈ dir.listPrincipals maxPrincipals,
        Rekeyed C server (derive oldMaster) (derive newMaster) p (dir.fileOf p) (dir'.fileOf p)) ∧
      (∀ p ∉ dir.listPrincipals maxPrincipals, dir'.fileOf p = dir.fileOf p) ∧
      rewrapAndSwap C server RotateIo.fine (derive oldMaster) (derive newMaster) newMaster dir =
        if probe C server RotateIo.fine (derive newMaster) dir' then (dir'.put VaultDir.masterName newMaster.val, true)
        else (dir', false) := by
  obtain ⟨hdone, hrekeyed, hsame⟩ :=
    rekeyPrincipals_spec hC (derive newMaster) (nodup_listPrincipals hdir.names maxPrincipals)
    fun p _ => hdir.keptUnder hC p
  refine ⟨_, hrekeyed, fun p hp => hsame _ fun q hq hname => hp (vaultFileName_injective hname ▸ hq), ?_⟩
  rw [rewrapAndSwap]
  have hlisted : (if RotateIo.fine.openDir = true then dir.listPrincipals maxPrincipals else []) =
    dir.listPrincipals maxPrincipals := rfl
  rw [hlisted, if_neg (not_not.mpr hdone)]
  cases probe C server RotateIo.fine (derive newMaster)
    (rekeyPrincipals C server RotateIo.fine (derive oldMaster) (derive newMaster)
      (dir.listPrincipals maxPrincipals) dir).1 with
  | false => rfl
  | true => rfl

/-- The probe goes through if the credential can be read before, and its vault is listed. -/
theorem probe_rewrapped (hsep : C.Separates (derive oldMaster) (derive newMaster)) {dir' : VaultDir}
    (hrekeyed : ∀ p ∈ dir.listPrincipals maxPrincipals,
      Rekeyed C server (derive oldMaster) (derive newMaster) p (dir.fileOf p) (dir'.fileOf p))
    (hsame : ∀ p ∉ dir.listPrincipals maxPrincipals, dir'.fileOf p = dir.fileOf p) :
    probe C server RotateIo.fine (derive newMaster) dir' = true ↔
      ∀ e ∈ (list Io.fine 1 (dir.fileOf server)).head?, server ∈ dir.listPrincipals maxPrincipals ∧
        ∃ secret, serverRead C server (derive oldMaster) server e.agent e.cred probeMax
          (dir.fileOf server) = .ok secret := by
  rw [probe_iff]
  by_cases hlisted : server ∈ dir.listPrincipals maxPrincipals
  · have hserver := hrekeyed server hlisted
    rw [hserver.lists]
    simp [hserver.reads, hlisted]
  · rw [hsame server hlisted]
    refine forall₂_congr fun e he => ?_
    constructor
    · rintro ⟨secret, hread⟩
      exact absurd hread (serverRead_unlisted hsep (hdir.keptUnder hC server) _ _ _ secret)
    · rintro ⟨hmem, -⟩
      exact absurd hmem hlisted

/-- With no step failing, a rotation does what it should exactly if no backup is in its way, the first
    credential of the server principal can be probed, and all the principals are listed that need to be. -/
theorem rotatesWell_iff (hsep : C.Separates (derive oldMaster) (derive newMaster)) (hserver : server ≠ .empty)
    (hmaster : dir.get? VaultDir.masterName = some oldMaster.val) :
    RotatesWell C server derive oldMaster newMaster backupExists dir ↔
      ¬backupExists = true ∧ ProbeReads C server derive oldMaster dir ∧ AllListed C server derive oldMaster dir := by
  obtain ⟨dir', hrekeyed, hsame, hdone⟩ := rewrapAndSwap_fine hC hdir newMaster
  have hprobe := probe_rewrapped hC hdir hsep hrekeyed hsame
  by_cases hbackup : backupExists = true
  · refine ⟨fun h => ?_, fun h => absurd hbackup h.1⟩
    subst hbackup
    have hrc := h.succeeds
    rw [rc_rotated_of_backup hserver hmaster] at hrc
    cases hrc
  · have hrotated := rotated_eq C derive newMaster hserver hmaster hbackup
    rw [hdone] at hrotated
    constructor
    · intro h
      have hpasses : probe C server RotateIo.fine (derive newMaster) dir' = true := by
        by_contra hfails
        rw [if_neg hfails] at hrotated
        have hrc := h.succeeds
        rw [hrotated] at hrc
        cases hrc
      rw [if_pos hpasses] at hrotated
      change rotated C server derive newMaster backupExists dir =
        ⟨dir'.put VaultDir.masterName newMaster.val, 0, none⟩ at hrotated
      refine ⟨hbackup, fun e he => (hprobe.mp hpasses e he).2, fun p agent cred outLen secret hread => ?_⟩
      by_contra hlisted
      have hafter := h.reads p agent cred outLen secret hread
      rw [hrotated] at hafter
      rw [fileOf_put_masterName, hsame p hlisted] at hafter
      exact serverRead_unlisted hsep (hdir.keptUnder hC p) agent cred outLen secret hafter
    · rintro ⟨-, hreads, hlisted⟩
      have hpasses : probe C server RotateIo.fine (derive newMaster) dir' = true := by
        refine hprobe.mpr fun e he => ?_
        obtain ⟨secret, hread⟩ := hreads e he
        exact ⟨hlisted server _ _ _ secret hread, secret, hread⟩
      rw [if_pos hpasses] at hrotated
      change rotated C server derive newMaster backupExists dir =
        ⟨dir'.put VaultDir.masterName newMaster.val, 0, none⟩ at hrotated
      constructor
      case succeeds => rw [hrotated]
      case swapped =>
        rw [hrotated]
        exact KeyMap.get?_put_self _ _ _
      case reads =>
        intro p agent cred outLen secret hread
        rw [hrotated]
        rw [fileOf_put_masterName, (hrekeyed p (hlisted p agent cred outLen secret hread)).reads]
        exact hread

end Fine

/-! ## A rotation that fails -/

/-- A copy that reports success and passes no file over has them all. -/
theorem get?_copyFiles {step : CString → CopyStep} {rows : List (CString × List UInt8)} {dst : VaultDir}
    (hnodup : (rows.map Prod.fst).Nodup)
    (hdone : (copyFiles step rows dst).2 = true) (hskip : ∀ r ∈ rows, step r.1 ≠ .skipped) :
    (∀ r ∈ rows, (copyFiles step rows dst).1.get? r.1 = some r.2) ∧
      ∀ name, name ∉ rows.map Prod.fst → (copyFiles step rows dst).1.get? name = dst.get? name := by
  induction rows generalizing dst with
  | nil => exact ⟨fun r hr => absurd hr List.not_mem_nil, fun _ _ => rfl⟩
  | cons r rest ih =>
    obtain ⟨name, content⟩ := r
    rw [List.map_cons, List.nodup_cons] at hnodup
    obtain ⟨hfirst, hrest⟩ := List.forall_mem_cons.mp hskip
    rw [copyFiles] at hdone ⊢
    cases hstep : step name with
    | skipped => exact absurd hstep hfirst
    | failed left =>
      rw [hstep] at hdone
      cases hdone
    | copied =>
      rw [hstep] at hdone
      obtain ⟨hall, hother⟩ := ih hnodup.2 hdone hrest
      refine ⟨List.forall_mem_cons.mpr ⟨?_, hall⟩, fun name' hname => ?_⟩
      · rw [hother name hnodup.1]
        exact KeyMap.get?_put_self _ _ _
      · rw [List.map_cons, List.mem_cons, not_or] at hname
        rw [hother name' hname.2, KeyMap.get?_put, if_neg (Ne.symm hname.1)]

theorem get?_rotCopyDirFlat {io : CopyIo} {src dst : VaultDir} (hdone : (rotCopyDirFlat io src dst).2 = true)
    (hskip : ∀ r ∈ src.rows, io.step r.1 ≠ .skipped) (name : CString) :
    (rotCopyDirFlat io src dst).1.get? name = ((src.get? name).or (dst.get? name)) := by
  unfold rotCopyDirFlat at hdone ⊢
  cases hopened : io.opened with
  | false =>
    rw [hopened] at hdone
    cases hdone
  | true =>
    simp only [hopened, if_true] at hdone ⊢
    obtain ⟨hall, hother⟩ := get?_copyFiles src.nodup hdone hskip
    cases hget : src.get? name with
    | some content => exact hall (name, content) (KeyMap.get?_eq_some_iff.mp hget)
    | none =>
      refine hother name fun hmem => ?_
      obtain ⟨r, hr, rfl⟩ := List.mem_map.mp hmem
      rw [KeyMap.get?_eq_some_iff.mpr (show (r.1, r.2) ∈ src.rows from hr)] at hget
      cases hget

section Failing

variable (C : Crypto) (server : CString) (io : RotateIo)

/-- Making wraps anew creates no file and removes none. -/
theorem isSome_rekeyPrincipals (oldKek newKek : Kek) (ps : List CString) (dir : VaultDir) (name : CString) :
    ((rekeyPrincipals C server io oldKek newKek ps dir).1.get? name).isSome = (dir.get? name).isSome := by
  induction ps generalizing dir with
  | nil => rfl
  | cons p rest ih =>
    have hfirst : ((rekeyPrincipal C server io oldKek newKek p dir).1.get? name).isSome = (dir.get? name).isSome := by
      rw [get?_rekeyPrincipal]
      split
      case isTrue hname =>
        rw [isSome_rekeyField, ← hname]
        rfl
      case isFalse => rfl
    rw [rekeyPrincipals]
    split
    · exact hfirst
    · rw [ih]
      exact hfirst

/-- Before the swap no file is created and none removed. -/
theorem isSome_rewrapAndSwap {oldKek newKek : Kek} {newMaster : MasterKey} {dir : VaultDir}
    (hfails : ¬(rewrapAndSwap C server io oldKek newKek newMaster dir).2 = true) (name : CString) :
    ((rewrapAndSwap C server io oldKek newKek newMaster dir).1.get? name).isSome = (dir.get? name).isSome := by
  have hrekey := isSome_rekeyPrincipals C server io oldKek newKek (if io.openDir then
    dir.listPrincipals maxPrincipals else []) dir name
  unfold rewrapAndSwap at hfails ⊢
  generalize rekeyPrincipals C server io oldKek newKek (if io.openDir then
    dir.listPrincipals maxPrincipals else []) dir = done
    at hrekey hfails ⊢
  by_cases halloc : ¬io.alloc = true
  · rw [if_pos halloc]
  · rw [if_neg halloc] at hfails ⊢
    by_cases hdone : ¬done.2 = true
    · rw [if_pos hdone]
      exact hrekey
    · rw [if_neg hdone] at hfails ⊢
      by_cases hprobe : ¬probe C server io newKek done.1 = true
      · rw [if_pos hprobe]
        exact hrekey
      · rw [if_neg hprobe] at hfails ⊢
        by_cases hwrite : ¬io.writeMaster = true
        · rw [if_pos hwrite]
          exact hrekey
        · rw [if_neg hwrite] at hfails
          exact absurd rfl hfails

theorem get?_restored {oldKek newKek : Kek} {newMaster : MasterKey} {dir : VaultDir}
    (hbackup : (rotCopyDirFlat io.backup dir KeyMap.empty).2 = true)
    (hfails : ¬(rewrapAndSwap C server io oldKek newKek newMaster dir).2 = true)
    (hrestored : (rotCopyDirFlat io.restore (rotCopyDirFlat io.backup dir KeyMap.empty).1
      (rewrapAndSwap C server io oldKek newKek newMaster dir).1).2 = true)
    (hskip : ∀ r ∈ dir.rows, io.backup.step r.1 ≠ .skipped ∧ io.restore.step r.1 ≠ .skipped) (name : CString) :
    (rotCopyDirFlat io.restore (rotCopyDirFlat io.backup dir KeyMap.empty).1
      (rewrapAndSwap C server io oldKek newKek newMaster dir).1).1.get? name = dir.get? name := by
  have hcopy : ∀ name, (rotCopyDirFlat io.backup dir KeyMap.empty).1.get? name = dir.get? name := by
    intro name
    rw [get?_rotCopyDirFlat hbackup fun r hr => (hskip r hr).1, KeyMap.get?_empty, Option.or_none]
  rw [get?_rotCopyDirFlat hrestored, hcopy]
  · cases hget : dir.get? name with
    | some content => rfl
    | none =>
      have hsome := isSome_rewrapAndSwap C server io hfails name
      rw [hget] at hsome
      simpa using hsome
  · intro r hr
    have hget : dir.get? r.1 = some r.2 := (hcopy r.1).symm.trans (KeyMap.get?_eq_some_iff.mpr hr)
    exact (hskip _ (KeyMap.get?_eq_some_iff.mp hget)).2

/-- A rotation that fails leaves every file as it was, the master key among them, if it restores them and
    no copy has passed one over. -/
theorem get?_of_failed (derive : MasterKey → Kek) (backupExists : Bool) (newMaster : MasterKey) (dir : VaultDir)
    (hrc : (fileRotate C server derive io backupExists newMaster dir).rc ≠ 0)
    (hrestored : (fileRotate C server derive io backupExists newMaster dir).restored ≠ some false)
    (hskip : ∀ r ∈ dir.rows, io.backup.step r.1 ≠ .skipped ∧ io.restore.step r.1 ≠ .skipped) (name : CString) :
    (fileRotate C server derive io backupExists newMaster dir).dir.get? name = dir.get? name := by
  unfold fileRotate at hrc hrestored ⊢
  split at hrc
  case isTrue hstart => rw [if_pos hstart]
  case isFalse hstart =>
    rw [if_neg hstart] at hrestored ⊢
    cases hread : masterKeyRead io dir with
    | absent => rfl
    | bad => rfl
    | ok oldMaster =>
      simp only [hread] at hrc hrestored ⊢
      split at hrc
      case isTrue hkeys => rw [if_pos hkeys]
      case isFalse hkeys =>
        rw [if_neg hkeys] at hrestored ⊢
        split at hrc
        case isTrue hbackup => rw [if_pos hbackup]
        case isFalse hbackup =>
          rw [if_neg hbackup] at hrestored ⊢
          rw [not_not] at hbackup
          split at hrc
          case isTrue => exact absurd rfl hrc
          case isFalse hfails =>
            rw [if_neg hfails] at hrestored ⊢
            exact get?_restored C server io hbackup hfails (by simpa using hrestored) hskip name

end Failing

/-! ## Both -/

/-- A rotation that fails, and whose restore copy did not, changes nothing. -/
def Reverts (C : Crypto) (server : CString) (derive : MasterKey → Kek) (backupExists : Bool)
    (newMaster : MasterKey) (dir : VaultDir) (io : RotateIo) : Prop :=
  (fileRotate C server derive io backupExists newMaster dir).rc ≠ 0 →
    (fileRotate C server derive io backupExists newMaster dir).restored ≠ some false →
      ∀ name, (fileRotate C server derive io backupExists newMaster dir).dir.get? name = dir.get? name

/-- Neither copy passes a file over. -/
def RotateIo.PassesNothing (io : RotateIo) (dir : VaultDir) : Prop :=
  ∀ r ∈ dir.rows, io.backup.step r.1 ≠ .skipped ∧ io.restore.step r.1 ≠ .skipped

/-- What a rotation does to a vault directory, with no step failing and with any of them failing. -/
theorem fileRotate_keeps {C : Crypto} (hC : C.Correct) (server : CString) (hserver : server ≠ .empty)
    (derive : MasterKey → Kek)
    (oldMaster newMaster : MasterKey) (hsep : C.Separates (derive oldMaster) (derive newMaster))
    (backupExists : Bool) (dir : VaultDir)
    (hmaster : dir.get? VaultDir.masterName = some oldMaster.val) (hdir : WellFormed C server (derive oldMaster) dir) :
    (RotatesWell C server derive oldMaster newMaster backupExists dir ↔
      ¬backupExists = true ∧ ProbeReads C server derive oldMaster dir ∧ AllListed C server derive oldMaster dir) ∧
      ∀ io : RotateIo, io.PassesNothing dir → Reverts C server derive backupExists newMaster dir io :=
  ⟨rotatesWell_iff hC hdir hsep hserver hmaster,
    fun io hskip hrc hrestored => get?_of_failed C server io derive backupExists newMaster dir hrc hrestored hskip⟩

/-! ## The vault of the server -/

/-- A wrap that tells of the key it was made with. -/
def taggedCrypto : Crypto where
  wrap kek dek := ⟨xorBytes kek.val dek.val ++ kek.val.take 8, by simp [xorBytes, kek.property, dek.property]⟩
  unwrap kek wrapped :=
    if wrapped.val.drop 32 = kek.val.take 8 then
      some ⟨xorBytes kek.val (wrapped.val.take 32), length_unwrapped kek wrapped⟩
    else none
  encrypt := sampleCrypto.encrypt
  decrypt := sampleCrypto.decrypt

theorem taggedCrypto_correct : taggedCrypto.Correct where
  unwrap_wrap kek dek := by
    have hlength : (xorBytes kek.val dek.val).length = 32 := by simp [xorBytes, kek.property, dek.property]
    have hsame : kek.val.length = dek.val.length := by rw [kek.property, dek.property]
    simp [taggedCrypto, hlength, xorBytes_self_left hsame]
  decrypt_encrypt := sampleCrypto_correct.decrypt_encrypt
  length_encrypt := sampleCrypto_correct.length_encrypt

theorem unwrap_taggedCrypto_of_ne {kek : Kek} {w : WrappedDek} (h : w.val.drop 32 ≠ kek.val.take 8) :
    taggedCrypto.unwrap kek w = none :=
  if_neg h

theorem taggedCrypto_separates : taggedCrypto.Separates sampleKek nextKek := by
  intro w dek h
  have hold : w.val.drop 32 = sampleKek.val.take 8 := by
    by_contra hne
    rw [unwrap_taggedCrypto_of_ne hne] at h
    cases h
  refine unwrap_taggedCrypto_of_ne ?_
  rw [hold]
  decide

/-- The server's vault with one credential. -/
def serverVault (secret : CString) : VaultFile :=
  (VaultFile.fresh (key "server") sampleSalt).put
    (Sealed.stage taggedCrypto (ascii "server|a|c") (some sampleKek) none (key "a") (key "c") secret sampleDraw)

/-- A directory with this vault and the master key. -/
def serverDir (v : VaultFile) : VaultDir :=
  (KeyMap.empty.put VaultDir.masterName sampleKek.val).put (vaultFileName (key "server")) v.text

section ServerDir

variable (v : VaultFile)

theorem fileOf_serverDir (p : CString) : (serverDir v).fileOf p = if p = key "server" then some v.text else none := by
  rw [VaultDir.fileOf, serverDir, KeyMap.get?_put, KeyMap.get?_put]
  by_cases h : p = key "server"
  · rw [if_pos (by rw [h]), if_pos h]
  · rw [if_neg fun hname =>
      h (vaultFileName_injective hname).symm, if_neg (vaultFileName_ne_masterName p).symm, if_neg h]
    rfl

theorem get?_masterName_serverDir : (serverDir v).get? VaultDir.masterName = some sampleKek.val := by
  rw [serverDir, KeyMap.get?_put, if_neg (vaultFileName_ne_masterName _), KeyMap.get?_put_self]

theorem listPrincipals_serverDir : (serverDir v).listPrincipals maxPrincipals = [key "server"] := by
  rfl

theorem wellFormed_serverDir (secret : CString) :
    WellFormed taggedCrypto (key "server") sampleKek (serverDir (serverVault secret)) where
  names r hr p hp := by
    rcases List.mem_pair.mp hr with rfl | rfl
    · cases hp
    · have hserver := principalOfName_vaultFileName (show key "server" ≠ .empty by decide) (by decide)
      rw [hserver] at hp
      rw [Option.some.inj hp]
  vaults p content hcontent := by
    rw [fileOf_serverDir] at hcontent
    split at hcontent
    case isFalse => cases hcontent
    case isTrue hp =>
      cases hcontent
      refine ⟨serverVault secret, rfl, fun s hs w hw => ?_⟩
      subst hp
      rcases List.mem_singleton.mp hs with rfl
      exact ⟨sampleDraw.dek, (Option.some.inj hw).symm⟩

theorem small_serverVault {secret : CString} (h : secret.val.length ≤ secretMax) : (serverVault secret).Small := by
  have hfresh : (VaultFile.fresh (key "server") sampleSalt).text.length ≤ 200 := by decide +kernel
  have hentry := VaultFile.length_printed_sealedEntry taggedCrypto_correct sampleKek (ascii "server|a|c")
    (key "a") (key "c") secret sampleDraw
  have hagent : (CJson.printString (key "a")).length = 3 := by decide
  have hcred : (CJson.printString (key "c")).length = 3 := by decide
  have htext := length_printed_setCreds (VaultFile.fresh (key "server") sampleSalt).credsArray_json
    [sealedEntry taggedCrypto (ascii "server|a|c") (some sampleKek) none (key "a") (key "c") secret sampleDraw]
  have harray := length_printed_append [] (sealedEntry taggedCrypto (ascii "server|a|c") (some sampleKek)
    none (key "a") (key "c") secret sampleDraw)
  have hvault : (serverVault secret).text = (setCreds (VaultFile.fresh (key "server") sampleSalt).json
      [sealedEntry taggedCrypto (ascii "server|a|c") (some sampleKek) none (key "a") (key "c") secret
        sampleDraw]).printed := by
    rfl
  have hempty : (VaultFile.fresh (key "server") sampleSalt).creds.rows.map Sealed.json = [] := rfl
  rw [hempty] at htext
  rw [List.nil_append, if_pos rfl] at harray
  change (VaultFile.fresh (key "server") sampleSalt).json.printed.length ≤ 200 at hfresh
  rw [VaultFile.Small, hvault, readMax]
  rw [secretMax] at h
  omega

theorem list_serverVault {secret : CString} (h : secret.val.length ≤ secretMax) :
    list Io.fine 1 (some (serverVault secret).text) = [⟨key "a", key "c"⟩] := by
  rw [VaultFile.list_text, if_pos (small_serverVault h)]
  rfl

theorem serverRead_serverVault {secret : CString} (h : secret.val.length ≤ secretMax) {outLen : ℕ} (hlen : 0 < outLen) :
    serverRead taggedCrypto (key "server") sampleKek (key "server") (key "a") (key "c") outLen
      (some (serverVault secret).text) =
      if outLen ≤ secret.val.length then .error else .ok secret.val := by
  have haad : buildAad (key "server") (key "a") (key "c") = some (ascii "server|a|c") := by decide
  have hfind : (serverVault secret).creds.find? (key "a", key "c") =
      some (Sealed.stage taggedCrypto (ascii "server|a|c") (some sampleKek) none (key "a") (key "c") secret
        sampleDraw) := rfl
  have hunwrap := taggedCrypto_correct.unwrap_wrap sampleKek sampleDraw.dek
  have hdecrypt := taggedCrypto_correct.decrypt_encrypt sampleDraw.dek (ascii "server|a|c") sampleDraw.nonce secret.val
  have hlength := taggedCrypto_correct.length_encrypt sampleDraw.dek (ascii "server|a|c") sampleDraw.nonce secret.val
  rw [serverRead_text (small_serverVault h) sampleKek _ _ _ hlen, hfind]
  simp [Sealed.readHeld, Sealed.held, Sealed.openWith, Sealed.stage, haad, hlength, hunwrap, hdecrypt]

/-- The probe reads a secret of up to 8191 bytes. -/
theorem probeReads_serverDir {secret : CString} (h : secret.val.length ≤ secretMax) :
    ProbeReads taggedCrypto (key "server") id sampleKek (serverDir (serverVault secret)) ↔
      secret.val.length < probeMax := by
  rw [ProbeReads, fileOf_serverDir, if_pos rfl, list_serverVault h]
  have hread := serverRead_serverVault h (show 0 < probeMax by decide)
  simp only [List.head?_cons, Option.mem_def, Option.some.injEq, forall_eq', id_eq, hread]
  by_cases hlong : probeMax ≤ secret.val.length
  · simp [hlong]
  · simp [hlong, not_le.mp hlong]

theorem allListed_serverDir : AllListed taggedCrypto (key "server") id sampleKek (serverDir v) := by
  intro p agent cred outLen secret hread
  rw [listPrincipals_serverDir, List.mem_singleton]
  by_contra hp
  rw [fileOf_serverDir, if_neg hp] at hread
  exact serverRead_missing _ p agent cred outLen secret hread

/-- A short credential. -/
theorem fileRotate_keeps_short :
    RotatesWell taggedCrypto (key "server") id sampleKek nextKek false (serverDir (serverVault (key "s"))) ∧
      ∀ io : RotateIo, io.PassesNothing (serverDir (serverVault (key "s"))) →
        Reverts taggedCrypto (key "server") id false nextKek (serverDir (serverVault (key "s"))) io := by
  obtain ⟨hfine, hfailed⟩ :=
    fileRotate_keeps taggedCrypto_correct (key "server") (by decide) id sampleKek nextKek taggedCrypto_separates
    false (serverDir (serverVault (key "s"))) (get?_masterName_serverDir _) (wellFormed_serverDir _)
  refine ⟨hfine.mpr ⟨by decide, (probeReads_serverDir (by decide)).mpr (by decide), allListed_serverDir _⟩, hfailed⟩

/-- A secret as long as the buffer of the probe. -/
def probeSecret : CString := ⟨List.replicate probeMax 120, fun h => absurd (List.eq_of_mem_replicate h) (by decide)⟩

/-- It stops every rotation, though nothing failed. -/
theorem not_rotatesWell_probeSecret :
    ¬RotatesWell taggedCrypto (key "server") id sampleKek nextKek false (serverDir (serverVault probeSecret)) := by
  intro h
  have hlength : probeSecret.val.length = probeMax := List.length_replicate
  have hmax : probeSecret.val.length ≤ secretMax := by
    rw [hlength]
    decide
  have hprobe := ((rotatesWell_iff taggedCrypto_correct (wellFormed_serverDir probeSecret)
    taggedCrypto_separates (by decide)
    (get?_masterName_serverDir _)).mp h).2.1
  exact absurd ((probeReads_serverDir hmax).mp hprobe) (by rw [hlength]; exact lt_irrefl _)

end ServerDir

end VaultStore
