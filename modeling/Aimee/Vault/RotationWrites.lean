-- SUMMARY: A rotation of the master key interleaved with credential writers: which writes are still in effect when it is over.
import Aimee.Vault.FileFaults
import Aimee.Vault.Rotation

/-!
# Writes during a rotation

A rotation holds the mutex of the server key from its start to its end, but the write lock only inside
each of its steps. A writer gets the server key first and writes later, so it can hold a key across the
swap, or write between the backup and the restore. The state keeps what the successful writes promised.
-/

namespace VaultStore

namespace Interleaved

abbrev Slot := CString × CString

/-- What one writer does. The server key it uses is the one it holds. -/
inductive Action where
  /-- `vault_store_set` of a user, under their own key -/
  | set (userKek : Kek)
  /-- `vault_store_set` of the server principal -/
  | setOwn
  | setDual (userKek : Kek)
  | setServer
  | delete
  deriving DecidableEq

structure Write where
  principal : CString
  agent : CString
  cred : CString
  secret : CString
  draw : Draw
  action : Action

namespace Write

def slot (w : Write) : CString × Slot := (w.principal, w.agent, w.cred)

/-- It wraps under the server key. -/
def usesServerKek (w : Write) : Bool :=
  match w.action with
  | .set _ => false
  | .setOwn => true
  | .setDual _ => true
  | .setServer => true
  | .delete => false

/-- The keys of the primary and of the server wrap. -/
def keks (w : Write) (serverKek : Kek) : Option Kek × Option Kek :=
  match w.action with
  | .set userKek => (some userKek, none)
  | .setOwn => (some serverKek, none)
  | .setDual userKek => (some userKek, some serverKek)
  | .setServer => (none, some serverKek)
  | .delete => (none, none)

end Write

/-- A credential that was written: its secret, the user key it was written for, and whether the server
    key opens it. -/
structure Promise where
  secret : CString
  user : Option Kek
  server : Bool
  deriving DecidableEq

/-- What a successful write says of its slot: a credential, or that there is none. -/
def Write.promise (w : Write) : Option Promise :=
  match w.action with
  | .set userKek => some ⟨w.secret, some userKek, false⟩
  | .setOwn => some ⟨w.secret, none, true⟩
  | .setDual userKek => some ⟨w.secret, some userKek, true⟩
  | .setServer => some ⟨w.secret, none, true⟩
  | .delete => none

/-- What a rotation has in hand once its backup is made. -/
structure Plan where
  backup : VaultDir
  oldKek : Kek
  newKek : Kek
  newMaster : MasterKey

inductive Ctrl where
  | idle
  | backedUp (plan : Plan)
  | rekeying (plan : Plan) (todo : List CString)
  | failing (plan : Plan)

structure State where
  dir : VaultDir
  ctrl : Ctrl
  /-- the server key each writer got, if it did -/
  held : ℕ → Option Kek
  /-- what the last successful write of each slot promised -/
  promised : CString × Slot → Option (Option Promise)
  /-- a write succeeded since the backup -/
  written : Bool

inductive Event where
  /-- `vault_server_kek`; `minted` is the master key that is made if there is none -/
  | obtain (writer : ℕ) (minted : MasterKey)
  | write (writer : ℕ) (w : Write) (io : Io)
  | backup (newMaster : MasterKey)
  /-- `vault_store_list_principals`, with the directory opened or not -/
  | list (opened : Bool)
  /-- the next `vault_store_rekey_field` -/
  | rekey (io : Io)
  /-- the probe, and the swap if it goes through -/
  | swap (probeList probeGet : Io) (written : Bool)
  /-- any other step of the rotation fails -/
  | fail
  | restore

section

variable (C : Crypto) (server : CString) (derive : MasterKey → Kek)

/-- The key `file_get_kek` derives from the master key on disk; what it caches is the same. -/
def currentKek (dir : VaultDir) : Option Kek :=
  match dir.get? VaultDir.masterName with
  | none => none
  | some content => if h : content.length = 32 then some (derive ⟨content, h⟩) else none

/-- One operation of the store. -/
def Write.exec (w : Write) (serverKek : Kek) (io : Io) (file : File) : Outcome :=
  match w.action with
  | .delete => VaultStore.delete io w.agent w.cred file
  | _ => setImpl C io w.principal (w.keks serverKek).1 (w.keks serverKek).2 w.agent w.cred w.secret false w.draw file

def rekeyIo (io : Io) : RotateIo := { RotateIo.fine with rekey := fun _ => io }

def probeIo (probeList probeGet : Io) : RotateIo := { RotateIo.fine with probeList := probeList, probeGet := probeGet }

def writeStep (s : State) (serverKek : Kek) (w : Write) (io : Io) : State :=
  let o := w.exec C serverKek io (s.dir.fileOf w.principal)
  let dir := s.dir.store (vaultFileName w.principal) o.file
  if o.rc = 0 then
    { s with dir := dir, written := true, promised := fun slot => if slot = w.slot then some w.promise else
      s.promised slot }
  else { s with dir := dir }

def step (s : State) : Event → State
  | .obtain writer minted =>
    match s.ctrl with
    | .idle =>
      match s.dir.get? VaultDir.masterName with
      | none =>
        { s with
          dir := s.dir.put VaultDir.masterName minted.val
          held := fun i => if i = writer then some (derive minted) else s.held i }
      | some _ => { s with held := fun i => if i = writer then currentKek derive s.dir else s.held i }
    -- the rotation holds the mutex
    | _ => s
  | .write writer w io =>
    match s.held writer with
    | none => s
    | some serverKek => writeStep C s serverKek w io
  | .backup newMaster =>
    match s.ctrl, currentKek derive s.dir with
    | .idle, some oldKek =>
      let plan : Plan := ⟨(rotCopyDirFlat .fine s.dir KeyMap.empty).1, oldKek, derive newMaster, newMaster⟩
      { s with ctrl := .backedUp plan, written := false }
    | _, _ => s
  | .list opened =>
    match s.ctrl with
    | .backedUp plan => { s with ctrl := .rekeying plan (if opened then s.dir.listPrincipals maxPrincipals else []) }
    | _ => s
  | .rekey io =>
    match s.ctrl with
    | .rekeying plan (principal :: todo) =>
      let done := rekeyPrincipal C server (rekeyIo io) plan.oldKek plan.newKek principal s.dir
      { s with dir := done.1, ctrl := if done.2 < 0 then .failing plan else .rekeying plan todo }
    | _ => s
  | .swap probeList probeGet written =>
    match s.ctrl with
    | .rekeying plan [] =>
      if probe C server (probeIo probeList probeGet) plan.newKek s.dir ∧ written then
        { s with dir := s.dir.put VaultDir.masterName plan.newMaster.val, ctrl := .idle }
      else { s with ctrl := .failing plan }
    | _ => s
  | .fail =>
    match s.ctrl with
    | .backedUp plan => { s with ctrl := .failing plan }
    | .rekeying plan _ => { s with ctrl := .failing plan }
    | _ => s
  | .restore =>
    match s.ctrl with
    | .failing plan => { s with dir := (rotCopyDirFlat .fine plan.backup s.dir).1, ctrl := .idle }
    | _ => s

def run (s : State) (events : List Event) : State := events.foldl (step C server derive) s

def start (dir : VaultDir) : State := ⟨dir, .idle, fun _ => none, fun _ => none, false⟩

/-! ## What is asked of a run -/

/-- A promise is in effect in a directory: the secret is read under the user key it was written for and
    under the current server key, and what was deleted is not there. -/
def InEffect (dir : VaultDir) (principal : CString) (slot : Slot) : Option Promise → Prop
  | none =>
    ∀ kek, get C Io.fine principal kek slot.1 slot.2 (secretMax + 1) (dir.fileOf principal) = .noEntry ∧
      getServer C Io.fine principal kek slot.1 slot.2 (secretMax + 1) (dir.fileOf principal) = .noEntry
  | some pr =>
    (∀ kek ∈ pr.user, get C Io.fine principal kek slot.1 slot.2 (secretMax + 1) (dir.fileOf principal) =
      .ok pr.secret.val) ∧
      (pr.server = true → ∃ kek ∈ currentKek derive dir,
        serverRead C server kek principal slot.1 slot.2 (secretMax + 1) (dir.fileOf principal) = .ok pr.secret.val)

/-- When no rotation is going on, every successful write is in effect. -/
def WritesInEffect (s : State) : Prop :=
  s.ctrl = .idle → ∀ principal slot pr, s.promised (principal, slot) = some pr →
    InEffect C server derive s.dir principal slot pr

/-- The server key a write may use: the current one, or during a rotation the old one, for a vault that is
    still to be rekeyed. -/
def KeyFits (s : State) (principal : CString) (kek : Kek) : Prop :=
  match s.ctrl with
  | .idle => currentKek derive s.dir = some kek
  | .backedUp plan => kek = plan.oldKek
  | .rekeying plan todo => kek = plan.oldKek ∧ principal ∈ todo
  | .failing _ => True

/-- The server's own vault is written by `setOwn`, and all others by the other operations. -/
def Write.Proper (w : Write) : Prop :=
  match w.action with
  | .setOwn => w.principal = server
  | .delete => True
  | _ => w.principal ≠ server

/-- The vault with the credential in it can be read back. -/
def Write.Fits (w : Write) (serverKek : Kek) (file : File) : Prop :=
  w.action ≠ .delete → ∀ v v' : VaultFile, file = some v.text →
    v.set C w.principal (w.keks serverKek).1 (w.keks serverKek).2 w.agent w.cred w.secret w.draw = some v' → v'.Small

/-- When a step takes nothing back: a write is one the store can keep, under a key that is in use for that
    vault; every vault with a credential of the server key is listed and read; and no backup is copied
    over a write. -/
def Safe (s : State) : Event → Prop
  | .write writer w io => ∀ serverKek, s.held writer = some serverKek →
      w.Proper server ∧ (io.Renames → io.syncDir = true ∧ w.Fits C serverKek (s.dir.fileOf w.principal)) ∧
        (w.action = .delete → (s.dir.fileOf w.principal).isSome → (loadVault io (s.dir.fileOf w.principal)).isSome) ∧
        (w.usesServerKek = true → KeyFits derive s w.principal serverKek)
  | .list opened => ∀ plan, s.ctrl = .backedUp plan →
      ∀ principal slot pr, s.promised (principal, slot) = some (some pr) →
      pr.server = true → opened = true ∧ principal ∈ s.dir.listPrincipals maxPrincipals
  | .rekey io => ∀ plan principal todo, s.ctrl = .rekeying plan (principal :: todo) →
      ∀ slot pr, s.promised (principal, slot) = some (some pr) → pr.server = true →
        (loadVault io (s.dir.fileOf principal)).isSome
  | .restore => s.written = false
  | _ => True

def SafeRun (s : State) : List Event → Prop
  | [] => True
  | event :: rest => Safe C server derive s event ∧ SafeRun (step C server derive s event) rest

end

/-! ## One operation on a vault, with any of its steps failing -/

section Operations

variable {C : Crypto} (io : Io) (v : VaultFile)

theorem not_isNumber_json : ¬v.json.IsNumber := by
  rintro ⟨lexeme, h⟩
  cases h

variable {io v} in
theorem eq_json_of_loadVault {root : CJson} (h : loadVault io (some v.text) = some root) : root = v.json ∧ v.Small := by
  have hparse : CJson.parse (CString.ofBytes v.text) = some v.json := Call.parse_printed v.sound_json
  have hnumber : ¬root.IsNumber := fun hroot => not_isNumber_json v (Call.isNumber_of_loadVault h hroot hparse)
  refine ⟨Option.some.inj ((Call.parse_of_loadVault h hnumber).symm.trans hparse), ?_⟩
  by_contra hlong
  obtain ⟨txt, htxt, -⟩ := Option.bind_eq_some_iff.mp h
  rw [readWholeFile, if_pos (Or.inr (not_le.mp hlong))] at htxt
  cases htxt

/-- A write is not made, or it leaves the vault with the credential. -/
theorem setImpl_vault (principal : CString) (kek serverKek : Option Kek) (agent cred secret : CString) (draw : Draw) :
    ((setImpl C io principal kek serverKek agent cred secret false draw (some v.text)).file = some v.text ∧
        (setImpl C io principal kek serverKek agent cred secret false draw (some v.text)).rc ≠ 0) ∨
      ∃ v', v.Small ∧ io.Renames ∧ v.set C principal kek serverKek agent cred secret draw = some v' ∧
        setImpl C io principal kek serverKek agent cred secret false draw (some v.text) =
          ⟨some v'.text, if io.syncDir then 0 else -1⟩ := by
  let call : Call := .set kek serverKek agent cred secret false draw
  have hfail : (⟨some v.text, -1⟩ : Outcome).file = some v.text ∧ (⟨some v.text, -1⟩ : Outcome).rc ≠ 0 :=
    ⟨rfl, show (-1 : ℤ) ≠ 0 by decide⟩
  change ((call.exec C principal io (some v.text)).file = some v.text ∧
    (call.exec C principal io (some v.text)).rc ≠ 0) ∨
    ∃ v', v.Small ∧ io.Renames ∧ v.set C principal kek serverKek agent cred secret draw = some v' ∧
      call.exec C principal io (some v.text) = ⟨some v'.text, if io.syncDir then 0 else -1⟩
  by_cases htakes : call.Takes principal ∧ io.lock = true
  swap
  · rw [Call.exec_refused C principal call htakes]
    exact .inl hfail
  obtain ⟨htakes, hlock⟩ := htakes
  cases hload : loadVault io (some v.text) with
  | none =>
    rcases Call.exec_unloaded C principal call htakes hlock hload with ⟨hlenient, -⟩ | ⟨-, hexec⟩
    · exact hlenient.elim
    · rw [hexec]
      exact .inl hfail
  | some root =>
    have hexec := Call.exec_loaded C principal call htakes hlock hload
    obtain ⟨rfl, hv⟩ := eq_json_of_loadVault hload
    have hedit : call.edit C principal v.json =
        (stageCredential C v.json principal kek serverKek agent cred secret draw).elim .refuse fun root =>
          .write root 0 := by
      rw [Call.edit]
      cases stageCredential C v.json principal kek serverKek agent cred secret draw <;> rfl
    rw [VaultFile.stageCredential_json] at hedit
    have hset : v.set C principal kek serverKek agent cred secret draw =
      v.stage C principal kek serverKek agent cred secret draw := by
      have hargs := htakes.1
      exact if_neg fun h => by
        rcases h with h | h | h | h
        · exact hargs (.inl h)
        · exact hargs (.inr (.inl h))
        · exact hargs (.inr (.inr h))
        · exact absurd h (not_lt.mpr htakes.2)
    rw [hexec, hset]
    cases hstage : v.stage C principal kek serverKek agent cred secret draw with
    | none =>
      rw [hedit, hstage]
      exact .inl hfail
    | some v' =>
      rw [hedit, hstage, Option.map_some, Option.elim_some, Call.settle_write_zero,
        Call.writeVaultFile_of_sound v'.sound_json]
      by_cases hrenames : io.Renames
      · rw [if_pos hrenames]
        exact .inr ⟨v', hv, hrenames, rfl, rfl⟩
      · rw [if_neg hrenames]
        exact .inl hfail

/-- A delete that succeeds on a vault it loads leaves no entry of the slot. -/
theorem delete_vault (agent cred : CString) :
    (delete io agent cred (some v.text)).file = some v.text ∧
        ((delete io agent cred (some v.text)).rc = 0 → (loadVault io (some v.text)).isSome →
          v.Small ∧ v.creds.find? (agent, cred) = none) ∨
      v.Small ∧ io.Renames ∧ delete io agent cred (some v.text) =
        ⟨some (v.remove agent cred).text, if io.syncDir then 0 else -1⟩ := by
  unfold delete
  by_cases hlock : ¬io.lock = true
  · rw [if_pos hlock]
    exact .inl ⟨rfl, fun h => absurd h (show ¬(-1 : ℤ) = 0 by decide)⟩
  · rw [if_neg hlock]
    cases hload : loadVault io (some v.text) with
    | none => exact .inl ⟨rfl, fun _ h => absurd h (by decide)⟩
    | some root =>
      obtain ⟨rfl, hv⟩ := eq_json_of_loadVault hload
      have hfind := VaultFile.findCred_json v agent cred
      rw [findCred_of_credsArray v.credsArray_json] at hfind
      simp only [VaultFile.credsArray_json, hfind, Option.isSome_map]
      cases hslot : v.creds.find? (agent, cred) with
      | none => exact .inl ⟨rfl, fun _ _ => ⟨hv, rfl⟩⟩
      | some e =>
        rw [VaultFile.removeCred_json, VaultFile.setCreds_json]
        have hsound := (v.remove agent cred).sound_json
        rw [show (v.withCreds (v.creds.remove (agent, cred))).json = (v.remove agent cred).json from rfl,
          Call.writeVaultFile_of_sound hsound]
        by_cases hrenames : io.Renames
        · rw [if_pos hrenames]
          exact .inr ⟨hv, hrenames, rfl⟩
        · rw [if_neg hrenames]
          exact .inl ⟨rfl, fun h => absurd h (show ¬(-1 : ℤ) = 0 by decide)⟩

theorem rekeyEntry_of_none {oldKek newKek : Kek} {own : Bool} {t : Sealed} {w : WrappedDek} (h : t.held own = some w)
    (hdek : C.unwrap oldKek w = none) : rekeyEntry C oldKek newKek (Sealed.heldName own) t.json = none := by
  rw [rekeyEntry, Sealed.stringItem_held, h, Option.map_some, Option.isSome_some, if_pos rfl, rewrap,
    Sealed.unwrapField_held, h, Option.bind_some, hdek, Option.map_none]

theorem rekeyField_vault (oldKek newKek : Kek) (own : Bool) :
    (loadVault io (some v.text) = none ∧
        (rekeyField C io (Sealed.heldName own) oldKek newKek (some v.text)).file = some v.text) ∨
      ((rekeyField C io (Sealed.heldName own) oldKek newKek (some v.text)).rc < 0 ∧
          ∃ v' : VaultFile, (rekeyField C io (Sealed.heldName own) oldKek newKek (some v.text)).file = some v'.text) ∨
        v.HeldUnder C oldKek own ∧
          (rekeyField C io (Sealed.heldName own) oldKek newKek (some v.text)).file =
            some (v.rewrapHeld C oldKek newKek own).text := by
  unfold rekeyField
  by_cases hstart : Sealed.heldName own = "" ∨ ¬io.lock = true
  · rw [if_pos hstart]
    exact .inr (.inl ⟨show (-1 : ℤ) < 0 by decide, v, rfl⟩)
  · rw [if_neg hstart]
    cases hload : loadVault io (some v.text) with
    | none => exact .inl ⟨rfl, rfl⟩
    | some root =>
      right
      obtain ⟨rfl, -⟩ := eq_json_of_loadVault hload
      simp only [VaultFile.credsArray_json]
      by_cases hheld : v.HeldUnder C oldKek own
      swap
      · left
        have hnone : (v.creds.rows.map Sealed.json).mapM (rekeyEntry C oldKek newKek (Sealed.heldName own)) = none := by
          rw [← Option.not_isSome_iff_eq_none, List.isSome_mapM]
          intro hall
          refine hheld fun t ht w hw => ?_
          by_contra hdek
          have hentry := hall t.json (List.mem_map_of_mem ht)
          rw [rekeyEntry_of_none hw (Option.not_isSome_iff_eq_none.mp hdek)] at hentry
          cases hentry
        rw [hnone]
        exact ⟨show (-1 : ℤ) < 0 by decide, v, rfl⟩
      · have hmap : (v.creds.rows.map Sealed.json).mapM (rekeyEntry C oldKek newKek (Sealed.heldName own)) =
            some ((v.rewrapHeld C oldKek newKek own).creds.rows.map Sealed.json) :=
              VaultFile.mapM_rekeyEntry newKek hheld
        rw [hmap]
        dsimp only
        by_cases hcount : (v.creds.rows.map Sealed.json).countP (fun e =>
          (stringItem e (Sealed.heldName own)).isSome) = 0
        · rw [if_pos hcount, VaultFile.rewrapHeld_of_countP newKek hcount]
          exact .inr ⟨hheld, rfl⟩
        · rw [if_neg hcount]
          have hjson : setCreds v.json ((v.rewrapHeld C oldKek newKek own).creds.rows.map Sealed.json) =
              (v.rewrapHeld C oldKek newKek own).json := rfl
          rw [hjson, Call.writeVaultFile_of_sound (v.rewrapHeld C oldKek newKek own).sound_json]
          by_cases hrenames : io.Renames
          · rw [if_pos hrenames]
            cases io.syncDir with
            | true => exact .inr ⟨hheld, rfl⟩
            | false => exact .inl ⟨show (-1 : ℤ) < 0 by decide, _, rfl⟩
          · rw [if_neg hrenames]
            exact .inl ⟨show (-1 : ℤ) < 0 by decide, v, rfl⟩

end Operations

/-! ## Promises -/

/-- An entry opens as promised, with `kek` in the place of the server key. -/
structure Opens (C : Crypto) (server : CString) (kek : Option Kek) (principal : CString) (slot : Slot)
    (pr : Promise) (t : Sealed) : Prop where
  user : ∀ k ∈ pr.user, t.openWith C principal k .error slot.1 slot.2 (secretMax + 1) t.user = .ok pr.secret.val
  server : pr.server = true →
    ∃ k ∈ kek, t.readHeld C principal k (decide (principal = server)) slot.1 slot.2 (secretMax + 1) = .ok pr.secret.val

/-- What a promise asks of the vault file. -/
def Honours (C : Crypto) (server : CString) (kek : Option Kek) (principal : CString) (slot : Slot)
    (file : File) : Option Promise → Prop
  | none => ∀ content ∈ file, ∃ v : VaultFile, content = v.text ∧ v.Small ∧ v.creds.find? slot = none
  | some pr => ∃ (v : VaultFile) (t : Sealed), file = some v.text ∧ v.Small ∧ v.creds.find? slot = some t ∧
      Opens C server kek principal slot pr t

section Promises

variable {C : Crypto} {server : CString} {kek : Option Kek} {principal : CString} {slot : Slot} {file : File} {io : Io}

variable {pr : Option Promise} {aad : List UInt8} {agent cred secret : CString}

/-- Only a promise that needs the server key depends on which it is. -/
theorem Honours.congr (h : Honours C server kek principal slot file pr) {kek' : Option Kek}
    (hserver : ∀ q ∈ pr, q.server = true → kek' = kek) : Honours C server kek' principal slot file pr := by
  cases pr with
  | none => exact h
  | some q =>
    obtain ⟨v, t, hfile, hv, hfind, hopens⟩ := h
    refine ⟨v, t, hfile, hv, hfind, hopens.user, fun hq => ?_⟩
    rw [hserver q rfl hq]
    exact hopens.server hq

theorem openWith_stage (hC : C.Correct) (k sk : Option Kek) (draw : Draw) (kek : Kek)
    (haad : buildAad principal agent cred = some aad) (hlength : secret.val.length ≤ secretMax) (absent : ReadResult) :
    (Sealed.stage C aad k sk agent cred secret draw).openWith C principal kek absent agent cred (secretMax + 1)
      (some (C.wrap kek draw.dek)) = .ok secret.val := by
  have hct := hC.length_encrypt draw.dek aad draw.nonce secret.val
  have hfits : ¬secretMax + 1 ≤ (C.encrypt draw.dek aad draw.nonce secret.val).1.length := by
    omega
  simp [Sealed.openWith, Sealed.stage, haad, hfits, hC.unwrap_wrap, hC.decrypt_encrypt]

theorem opens_stage (hC : C.Correct) {w : Write} {pr : Promise} (hpr : w.promise = some pr)
    (hproper : w.Proper server) {serverKek : Kek}
    (hkek : w.usesServerKek = true → kek = some serverKek) (haad : buildAad w.principal w.agent w.cred = some aad)
    (hlength : w.secret.val.length ≤ secretMax) :
    Opens C server kek w.principal (w.agent, w.cred) pr
      (Sealed.stage C aad (w.keks serverKek).1 (w.keks serverKek).2 w.agent w.cred w.secret w.draw) := by
  obtain ⟨p, agent, cred, secret, draw, action⟩ := w
  have hopen := fun k sk kek' absent => openWith_stage hC k sk draw kek' haad hlength absent
  cases action with
  | delete => cases hpr
  | set userKek =>
    cases hpr
    refine ⟨fun k hk => ?_, fun h => by cases h⟩
    cases hk
    exact hopen _ _ _ _
  | setOwn =>
    cases hpr
    refine ⟨nofun, fun _ => ⟨serverKek, hkek rfl, ?_⟩⟩
    have hown : decide (p = server) = true := decide_eq_true hproper
    rw [hown]
    exact hopen _ _ _ _
  | setDual userKek =>
    cases hpr
    have hown : decide (p = server) = false := decide_eq_false hproper
    refine ⟨fun k hk => ?_, fun _ => ⟨serverKek, hkek rfl, ?_⟩⟩
    · cases hk
      exact hopen _ _ _ _
    · rw [hown]
      exact hopen _ _ _ _
  | setServer =>
    cases hpr
    have hown : decide (p = server) = false := decide_eq_false hproper
    refine ⟨nofun, fun _ => ⟨serverKek, hkek rfl, ?_⟩⟩
    rw [hown]
    exact hopen _ _ _ _

theorem find?_set {v v' : VaultFile} {k sk : Option Kek} {draw : Draw}
    (h : v.set C principal k sk agent cred secret draw = some v') :
    ∃ aad, buildAad principal agent cred = some aad ∧ secret.val.length ≤ secretMax ∧
      ∀ slot, v'.creds.find? slot = if slot = (agent, cred) then
        some (Sealed.stage C aad k sk agent cred secret draw) else v.creds.find? slot := by
  have hstage := VaultFile.stage_of_set h
  obtain ⟨aad, haad, rfl⟩ := Option.map_eq_some_iff.mp hstage
  refine ⟨aad, haad, ?_, fun slot => Table.find?_replace v.creds _ slot⟩
  unfold VaultFile.set at h
  split at h
  case isTrue => cases h
  case isFalse hargs =>
    rw [not_or, not_or, not_or] at hargs
    exact not_lt.mp hargs.2.2.2

theorem small_remove {v : VaultFile} (hv : v.Small) (agent cred : CString) : (v.remove agent cred).Small := by
  have hsub : (v.creds.remove (agent, cred)).rows.Sublist v.creds.rows := List.filter_sublist
  exact (VaultFile.length_text_withCreds_le hsub).trans hv

/-- An operation on no vault at all makes none. -/
theorem exec_none (w : Write) (serverKek : Kek) (io : Io) :
    (w.exec C serverKek io none).file = none ∧ ((w.exec C serverKek io none).rc = 0 → w.promise = none) := by
  have hset : ∀ k sk, (setImpl C io w.principal k sk w.agent w.cred w.secret false w.draw none).file = none ∧
      (setImpl C io w.principal k sk w.agent w.cred w.secret false w.draw none).rc ≠ 0 := by
    intro k sk
    unfold setImpl
    split
    · exact ⟨rfl, show (-1 : ℤ) ≠ 0 by decide⟩
    · split
      · exact ⟨rfl, show (-1 : ℤ) ≠ 0 by decide⟩
      · split
        · exact ⟨rfl, show (-1 : ℤ) ≠ 0 by decide⟩
        · exact ⟨rfl, show (-1 : ℤ) ≠ 0 by decide⟩
  obtain ⟨p, agent, cred, secret, draw, action⟩ := w
  cases action with
  | delete =>
    refine ⟨?_, fun _ => rfl⟩
    change (VaultStore.delete io agent cred none).file = none
    unfold VaultStore.delete
    split <;> rfl
  | set userKek => exact ⟨(hset _ _).1, fun h => absurd h (hset _ _).2⟩
  | setOwn => exact ⟨(hset _ _).1, fun h => absurd h (hset _ _).2⟩
  | setDual userKek => exact ⟨(hset _ _).1, fun h => absurd h (hset _ _).2⟩
  | setServer => exact ⟨(hset _ _).1, fun h => absurd h (hset _ _).2⟩

/-- What an operation makes of a vault: nothing, the vault without the entry, or with the credential. -/
inductive Made (C : Crypto) (w : Write) (serverKek : Kek) (io : Io) (v : VaultFile) (o : Outcome) : Prop where
  | nothing (file : o.file = some v.text)
      (gone : o.rc = 0 → w.action = .delete ∧ ((loadVault io (some v.text)).isSome →
        v.Small ∧ v.creds.find? (w.agent, w.cred) = none))
  | removed (action : w.action = .delete) (small : v.Small) (renames : io.Renames)
      (out : o = ⟨some (v.remove w.agent w.cred).text, if io.syncDir then 0 else -1⟩)
  | stored (action : w.action ≠ .delete) (small : v.Small) (renames : io.Renames) (v' : VaultFile)
      (set : v.set C w.principal (w.keks serverKek).1 (w.keks serverKek).2 w.agent w.cred w.secret w.draw = some v')
      (out : o = ⟨some v'.text, if io.syncDir then 0 else -1⟩)

theorem made_exec (w : Write) (serverKek : Kek) (io : Io) (v : VaultFile) :
    Made C w serverKek io v (w.exec C serverKek io (some v.text)) := by
  by_cases hdelete : w.action = .delete
  · have hexec : w.exec C serverKek io (some v.text) = VaultStore.delete io w.agent w.cred (some v.text) := by
      rw [Write.exec, hdelete]
    rw [hexec]
    rcases delete_vault io v w.agent w.cred with ⟨hfile, hgone⟩ | ⟨hv, hrenames, hout⟩
    · exact .nothing hfile fun hrc => ⟨hdelete, hgone hrc⟩
    · exact .removed hdelete hv hrenames hout
  · have hexec : w.exec C serverKek io (some v.text) =
        setImpl C io w.principal (w.keks serverKek).1 (w.keks serverKek).2 w.agent w.cred w.secret false
          w.draw (some v.text) := by
      unfold Write.exec
      split
      case h_1 h => exact absurd h hdelete
      case h_2 => rfl
    rw [hexec]
    rcases setImpl_vault (C := C) io v w.principal (w.keks serverKek).1 (w.keks serverKek).2 w.agent w.cred
      w.secret w.draw with
      ⟨hfile, hrc⟩ | ⟨v', hv, hrenames, hset, hout⟩
    · exact .nothing hfile fun h => absurd h hrc
    · exact .stored hdelete hv hrenames v' hset hout

/-- A slot an operation is not about keeps its promise. -/
theorem honours_exec_of_ne {w : Write} {serverKek : Kek} (h : Honours C server kek principal slot file pr)
    (hfits : io.Renames → w.Fits C serverKek file) (hslot : slot ≠ (w.agent, w.cred)) :
    Honours C server kek principal slot (w.exec C serverKek io file).file pr := by
  cases file with
  | none =>
    rw [(exec_none w serverKek io).1]
    exact h
  | some content =>
    have hkeeps : ∀ v : VaultFile, content = v.text → v.Small → ∃ v' : VaultFile,
        (w.exec C serverKek io (some content)).file = some v'.text ∧ v'.Small ∧
          v'.creds.find? slot = v.creds.find? slot := by
      rintro v rfl hv
      cases made_exec (C := C) w serverKek io v with
      | nothing hfile hgone => exact ⟨v, hfile, hv, rfl⟩
      | removed haction hsmall hrenames hout =>
        refine ⟨v.remove w.agent w.cred, by rw [hout], small_remove hv _ _, ?_⟩
        exact (Table.find?_remove v.creds (w.agent, w.cred) slot).trans (if_neg hslot)
      | stored haction hsmall hrenames v' hset hout =>
        obtain ⟨aad, -, -, hfind⟩ := find?_set hset
        refine ⟨v', by rw [hout], hfits hrenames haction v v' rfl hset, ?_⟩
        rw [hfind, if_neg hslot]
    cases pr with
    | none =>
      intro content' hcontent'
      obtain ⟨v, hv, hsmall, hnone⟩ := h content rfl
      obtain ⟨v', hfile, hsmall', hfind⟩ := hkeeps v hv hsmall
      rw [hfile] at hcontent'
      cases hcontent'
      exact ⟨v', rfl, hsmall', hfind.trans hnone⟩
    | some q =>
      obtain ⟨v, t, hv, hsmall, hfind, hopens⟩ := h
      obtain ⟨v', hfile, hsmall', hfind'⟩ := hkeeps v (Option.some.inj hv) hsmall
      exact ⟨v', t, hfile, hsmall', hfind'.trans hfind, hopens⟩

/-- An operation that fails leaves the file, if the directory is synced. -/
theorem exec_of_rc_ne_zero {w : Write} {serverKek : Kek} {v : VaultFile} (hsync : io.Renames → io.syncDir = true)
    (hrc : (w.exec C serverKek io (some v.text)).rc ≠ 0) :
    (w.exec C serverKek io (some v.text)).file = some v.text := by
  cases made_exec (C := C) w serverKek io v with
  | nothing hfile hgone => exact hfile
  | removed haction hsmall hrenames hout =>
    rw [hout, hsync hrenames] at hrc
    exact absurd rfl hrc
  | stored haction hsmall hrenames v' hset hout =>
    rw [hout, hsync hrenames] at hrc
    exact absurd rfl hrc

/-- A successful operation keeps its own promise. -/
theorem honours_exec_self (hC : C.Correct) {w : Write} {serverKek : Kek}
    (hvaults : ∀ content ∈ file, ∃ v : VaultFile, content = v.text)
    (hrc : (w.exec C serverKek io file).rc = 0) (hproper : w.Proper server) (hfits : io.Renames →
      w.Fits C serverKek file)
    (hloads : w.action = .delete → file.isSome → (loadVault io file).isSome)
    (hkek : w.usesServerKek = true → kek = some serverKek) :
    Honours C server kek w.principal (w.agent, w.cred) (w.exec C serverKek io file).file w.promise := by
  cases file with
  | none =>
    rw [(exec_none w serverKek io).2 hrc, (exec_none w serverKek io).1]
    exact nofun
  | some content =>
    obtain ⟨v, rfl⟩ := hvaults content rfl
    have hdeleted : w.action = .delete → w.promise = none := fun h => by rw [Write.promise, h]
    cases made_exec (C := C) w serverKek io v with
    | nothing hfile hgone =>
      obtain ⟨haction, hnone⟩ := hgone hrc
      obtain ⟨hsmall, hfind⟩ := hnone (hloads haction rfl)
      rw [hdeleted haction, hfile]
      intro content' hcontent'
      cases hcontent'
      exact ⟨v, rfl, hsmall, hfind⟩
    | removed haction hsmall hrenames hout =>
      rw [hdeleted haction, hout]
      intro content' hcontent'
      cases hcontent'
      refine ⟨v.remove w.agent w.cred, rfl, small_remove hsmall _ _, ?_⟩
      exact (Table.find?_remove v.creds (w.agent, w.cred) (w.agent, w.cred)).trans (if_pos rfl)
    | stored haction hsmall hrenames v' hset hout =>
      obtain ⟨aad, haad, hlength, hfind⟩ := find?_set hset
      have hpr : ∃ pr, w.promise = some pr := by
        obtain ⟨p, agent, cred, secret, draw, action⟩ := w
        cases action with
        | delete => exact absurd rfl haction
        | _ => exact ⟨_, rfl⟩
      obtain ⟨pr, hpr⟩ := hpr
      rw [hpr, hout]
      refine ⟨v', _, rfl, hfits hrenames haction v v' rfl hset, ?_, opens_stage hC hpr hproper hkek haad hlength⟩
      rw [hfind, if_pos rfl]

/-- Making the server wraps anew leaves what the user key opens. -/
theorem openWith_user_rewrapHeld (oldKek newKek : Kek) (t : Sealed) (k : Kek) (absent : ReadResult)
    (agent cred : CString) (outLen : ℕ) :
    (t.rewrapHeld C oldKek newKek false).openWith C principal k absent agent cred outLen
      (t.rewrapHeld C oldKek newKek false).user =
      t.openWith C principal k absent agent cred outLen t.user := by
  unfold Sealed.rewrapHeld
  split
  · rfl
  · exact Sealed.openWith_withHeld C principal k absent agent cred outLen false t _ _

/-- Making the wraps of a vault anew keeps its promises, now for the new key. -/
theorem honours_rekeyField (hC : C.Correct) {oldKek newKek : Kek}
    (h : Honours C server (some oldKek) principal slot file pr) (hown : principal = server → ∀ q ∈ pr, q.user = none)
    (hloads : ∀ q ∈ pr, q.server = true → (loadVault io file).isSome)
    (hrc : ¬(rekeyField C io (heldField server principal) oldKek newKek file).rc < 0) :
    Honours C server (some newKek) principal slot
      (rekeyField C io (heldField server principal) oldKek newKek file).file pr := by
  rw [heldField_eq] at hrc ⊢
  cases file with
  | none =>
    have hsome : (rekeyField C io (Sealed.heldName (decide (principal = server))) oldKek newKek
      none).file.isSome = false :=
      isSome_rekeyField io _ none
    rw [Option.isSome_eq_false_iff, Option.isNone_iff_eq_none] at hsome
    rw [hsome]
    cases pr with
    | none => exact nofun
    | some q =>
      obtain ⟨v, t, hfile, -⟩ := h
      cases hfile
  | some content =>
    cases pr with
    | none =>
      obtain ⟨v, rfl, hsmall, hfind⟩ := h content rfl
      rcases rekeyField_vault (C := C) io v oldKek newKek (decide (principal = server)) with
        ⟨-, hfile⟩ | ⟨hneg, -⟩ | ⟨-, hfile⟩
      · rw [hfile]
        intro content' hcontent'
        cases hcontent'
        exact ⟨v, rfl, hsmall, hfind⟩
      · exact absurd hneg hrc
      · rw [hfile]
        intro content' hcontent'
        cases hcontent'
        refine ⟨_, rfl, (v.small_rewrapHeld C oldKek newKek _).mpr hsmall, ?_⟩
        rw [VaultFile.find?_rewrapHeld, hfind]
        rfl
    | some q =>
      obtain ⟨v, t, hv, hsmall, hfind, hopens⟩ := h
      cases hv
      rcases rekeyField_vault (C := C) io v oldKek newKek (decide (principal = server)) with
        ⟨hunloaded, hfile⟩ | ⟨hneg, -⟩ | ⟨hheld, hfile⟩
      · rw [hfile]
        refine ⟨v, t, rfl, hsmall, hfind, hopens.user, fun hq => ?_⟩
        have hloaded := hloads q rfl hq
        rw [hunloaded] at hloaded
        cases hloaded
      · exact absurd hneg hrc
      · rw [hfile]
        refine ⟨_, t.rewrapHeld C oldKek newKek (decide (principal = server)), rfl,
          (v.small_rewrapHeld C oldKek newKek _).mpr hsmall, ?_, ?_, ?_⟩
        · rw [VaultFile.find?_rewrapHeld, hfind]
          rfl
        · intro k hk
          by_cases hprincipal : principal = server
          · rw [hown hprincipal q rfl] at hk
            cases hk
          · rw [decide_eq_false hprincipal, openWith_user_rewrapHeld]
            exact hopens.user k hk
        · intro hq
          obtain ⟨k, hk, hread⟩ := hopens.server hq
          cases hk
          refine ⟨newKek, rfl, ?_⟩
          rw [Sealed.readHeld_rewrapHeld hC (hheld t (Table.mem_of_find? hfind))]
          exact hread

end Promises

/-! ## Runs -/

/-- Every vault file is one the store wrote. -/
def Vaults (dir : VaultDir) : Prop := ∀ principal, ∀ content ∈ dir.fileOf principal, ∃ v : VaultFile, content = v.text

/-- A file that is listed as the vault of a principal has the name the store gives it. -/
def Named (dir : VaultDir) : Prop :=
  ∀ name principal, (dir.get? name).isSome → principalOfName name = some principal → name = vaultFileName principal

/-- The server key the vault of a principal is under. -/
def keyAt (derive : MasterKey → Kek) (s : State) (principal : CString) : Option Kek :=
  match s.ctrl with
  | .idle => currentKek derive s.dir
  | .backedUp plan => some plan.oldKek
  | .rekeying plan todo => some (if principal ∈ todo then plan.oldKek else plan.newKek)
  | .failing plan => some plan.oldKek

/-- All promises are honoured by the files of a directory. -/
def Kept (C : Crypto) (server : CString) (kek : CString → Option Kek) (s : State) (dir : VaultDir) : Prop :=
  ∀ principal slot pr, s.promised (principal, slot) = some pr →
    Honours C server (kek principal) principal slot (dir.fileOf principal) pr

/-- The plan of a rotation that is going on: its backup is of this directory, and without a write since it
    honours the promises. -/
structure Planned (C : Crypto) (server : CString) (derive : MasterKey → Kek) (s : State) (plan : Plan) : Prop where
  oldKek : currentKek derive s.dir = some plan.oldKek
  newKek : plan.newKek = derive plan.newMaster
  files : ∀ name, (plan.backup.get? name).isSome = (s.dir.get? name).isSome
  vaults : Vaults plan.backup
  master : plan.backup.get? VaultDir.masterName = s.dir.get? VaultDir.masterName
  kept : s.written = false → Kept C server (fun _ => some plan.oldKek) s plan.backup

/-- What is known of the rotation. -/
def AtCtrl (C : Crypto) (server : CString) (derive : MasterKey → Kek) (s : State) : Prop :=
  match s.ctrl with
  | .idle => Kept C server (keyAt derive s) s s.dir
  | .backedUp plan => Planned C server derive s plan ∧ Kept C server (keyAt derive s) s s.dir
  | .rekeying plan todo => (Planned C server derive s plan ∧ todo.Nodup) ∧ Kept C server (keyAt derive s) s s.dir
  | .failing plan => Planned C server derive s plan

structure Inv (C : Crypto) (server : CString) (derive : MasterKey → Kek) (s : State) : Prop where
  vaults : Vaults s.dir
  names : Named s.dir
  own : ∀ slot pr, s.promised (server, slot) = some (some pr) → pr.user = none
  ctrl : AtCtrl C server derive s

section Runs

variable {C : Crypto} {server : CString} {derive : MasterKey → Kek} {s : State}

theorem currentKek_congr {dir dir' : VaultDir} (h : dir'.get? VaultDir.masterName = dir.get? VaultDir.masterName) :
    currentKek derive dir' = currentKek derive dir := by
  rw [currentKek, currentKek, h]

theorem currentKek_put (dir : VaultDir) (master : MasterKey) :
    currentKek derive (dir.put VaultDir.masterName master.val) = some (derive master) := by
  rw [currentKek, KeyMap.get?_put_self]
  dsimp only
  rw [dif_pos master.property]

theorem fileOf_put_master (dir : VaultDir) (master : MasterKey) (principal : CString) :
    VaultDir.fileOf (dir.put VaultDir.masterName master.val) principal = dir.fileOf principal := by
  rw [VaultDir.fileOf, KeyMap.get?_put, if_neg (vaultFileName_ne_masterName principal).symm]
  rfl

theorem Kept.congr {kek : CString → Option Kek} {s' : State} {dir dir' : VaultDir} (h : Kept C server kek s dir)
    (hpromised : s'.promised = s.promised) (hfiles : ∀ principal, dir'.fileOf principal = dir.fileOf principal) :
    Kept C server kek s' dir' := by
  intro principal slot pr hpr
  rw [hfiles]
  exact h principal slot pr (hpromised ▸ hpr)

/-- A change of the files that leaves the master key, and makes no file. -/
theorem Planned.withDir {plan : Plan} (h : Planned C server derive s plan) {s' : State}
    (hmaster : s'.dir.get? VaultDir.masterName = s.dir.get? VaultDir.masterName)
    (hfiles : ∀ name, (s'.dir.get? name).isSome = (s.dir.get? name).isSome)
    (hkept : s'.written = false → s.written = false ∧ s'.promised = s.promised) : Planned C server derive s' plan where
  oldKek := (currentKek_congr hmaster).trans h.oldKek
  newKek := h.newKek
  files name := (h.files name).trans (hfiles name).symm
  vaults := h.vaults
  master := h.master.trans hmaster.symm
  kept hwritten := by
    obtain ⟨hbefore, hpromised⟩ := hkept hwritten
    exact (h.kept hbefore).congr hpromised fun _ => rfl

theorem Named.congr {dir dir' : VaultDir} (h : Named dir)
    (hfiles : ∀ name, (dir'.get? name).isSome = (dir.get? name).isSome) : Named dir' :=
  fun name principal hname => h name principal (hfiles name ▸ hname)

theorem Named.put_master {dir : VaultDir} (h : Named dir) (master : MasterKey) :
    Named (dir.put VaultDir.masterName master.val) := by
  intro name principal hsome hname
  rw [KeyMap.get?_put] at hsome
  split at hsome
  case isTrue hmaster =>
    rw [← hmaster] at hname
    cases hname
  case isFalse => exact h name principal hsome hname

theorem Named.nodup_listPrincipals {dir : VaultDir} (h : Named dir) (max : ℕ) : (dir.listPrincipals max).Nodup := by
  refine VaultStore.nodup_listPrincipals (fun r hr p hp => h r.1 p ?_ hp) max
  rw [KeyMap.get?_eq_some_iff.mpr (show (r.1, r.2) ∈ dir.rows from hr)]
  rfl

theorem Inv.start {dir : VaultDir} (hvaults : Vaults dir) (hnames : Named dir) : Inv C server derive (start dir) where
  vaults := hvaults
  names := hnames
  own slot pr h := by cases h
  ctrl principal slot pr h := by cases h

/-! ## A write -/

section Writes

variable {w : Write} {serverKek : Kek} {io : Io}

theorem vault_exec {file : File} (h : ∀ content ∈ file, ∃ v : VaultFile, content = v.text) :
    (w.exec C serverKek io file).file.isSome = file.isSome ∧
      ∀ content ∈ (w.exec C serverKek io file).file, ∃ v : VaultFile, content = v.text := by
  cases file with
  | none =>
    rw [(exec_none w serverKek io).1]
    exact ⟨rfl, nofun⟩
  | some content =>
    obtain ⟨v, rfl⟩ := h content rfl
    have hsome : ∃ v' : VaultFile, (w.exec C serverKek io (some v.text)).file = some v'.text := by
      cases made_exec (C := C) w serverKek io v with
      | nothing hfile hgone => exact ⟨v, hfile⟩
      | removed haction hsmall hrenames hout => exact ⟨_, by rw [hout]⟩
      | stored haction hsmall hrenames v' hset hout => exact ⟨v', by rw [hout]⟩
    obtain ⟨v', hfile⟩ := hsome
    rw [hfile]
    refine ⟨rfl, fun content hcontent => ?_⟩
    cases hcontent
    exact ⟨v', rfl⟩

theorem dir_writeStep (s : State) (serverKek : Kek) (w : Write) (io : Io) :
    (writeStep C s serverKek w io).dir =
      s.dir.store (vaultFileName w.principal) (w.exec C serverKek io (s.dir.fileOf w.principal)).file := by
  unfold writeStep
  dsimp only
  split <;> rfl

theorem ctrl_writeStep (s : State) (serverKek : Kek) (w : Write) (io : Io) :
    (writeStep C s serverKek w io).ctrl = s.ctrl := by
  unfold writeStep
  dsimp only
  split <;> rfl

variable (hvaults : Vaults s.dir)

include hvaults

theorem get?_writeStep (name : CString) :
    (writeStep C s serverKek w io).dir.get? name =
      if vaultFileName w.principal = name then (w.exec C serverKek io (s.dir.fileOf w.principal)).file else
        s.dir.get? name := by
  rw [dir_writeStep]
  exact get?_store (vault_exec (hvaults w.principal)).1 name

theorem fileOf_writeStep (principal : CString) :
    (writeStep C s serverKek w io).dir.fileOf principal =
      if principal = w.principal then (w.exec C serverKek io (s.dir.fileOf w.principal)).file else
        s.dir.fileOf principal := by
  rw [VaultDir.fileOf, get?_writeStep hvaults]
  by_cases h : principal = w.principal
  · rw [if_pos h, if_pos (by rw [h])]
  · rw [if_neg h, if_neg fun hname => h (vaultFileName_injective hname).symm]
    rfl

theorem isSome_writeStep (name : CString) :
    ((writeStep C s serverKek w io).dir.get? name).isSome = (s.dir.get? name).isSome := by
  rw [get?_writeStep hvaults]
  split
  case isTrue hname =>
    rw [(vault_exec (hvaults w.principal)).1, ← hname]
    rfl
  case isFalse => rfl

theorem master_writeStep :
    (writeStep C s serverKek w io).dir.get? VaultDir.masterName = s.dir.get? VaultDir.masterName := by
  rw [get?_writeStep hvaults, if_neg (vaultFileName_ne_masterName w.principal)]

theorem keyAt_writeStep : keyAt derive (writeStep C s serverKek w io) = keyAt derive s := by
  funext principal
  unfold keyAt
  rw [ctrl_writeStep, currentKek_congr (master_writeStep hvaults)]

theorem vaults_writeStep : Vaults (writeStep C s serverKek w io).dir := by
  intro principal
  rw [fileOf_writeStep hvaults]
  split
  · exact (vault_exec (hvaults w.principal)).2
  · exact hvaults principal

theorem fileOf_writeStep_of_rc (hsync : io.Renames → io.syncDir = true)
    (hrc : (w.exec C serverKek io (s.dir.fileOf w.principal)).rc ≠ 0) (principal : CString) :
    (writeStep C s serverKek w io).dir.fileOf principal = s.dir.fileOf principal := by
  rw [fileOf_writeStep hvaults]
  split
  case isFalse => rfl
  case isTrue hprincipal =>
    rw [hprincipal]
    cases hfile : s.dir.fileOf w.principal with
    | none => exact (exec_none w serverKek io).1
    | some content =>
      obtain ⟨v, rfl⟩ := hvaults w.principal content hfile
      rw [hfile] at hrc
      exact exec_of_rc_ne_zero hsync hrc

/-- The promises there were are kept, and the new one is. -/
theorem Kept.write (hC : C.Correct) {kek : CString → Option Kek} (h : Kept C server kek s s.dir)
    (hproper : w.Proper server)
    (hfits : io.Renames → io.syncDir = true ∧ w.Fits C serverKek (s.dir.fileOf w.principal))
    (hloads : w.action = .delete → (s.dir.fileOf w.principal).isSome → (loadVault io (s.dir.fileOf w.principal)).isSome)
    (hkek : w.usesServerKek = true → kek w.principal = some serverKek) :
    Kept C server kek (writeStep C s serverKek w io) (writeStep C s serverKek w io).dir := by
  by_cases hrc : (w.exec C serverKek io (s.dir.fileOf w.principal)).rc = 0
  · intro principal slot pr hpr
    have hpromised : (writeStep C s serverKek w io).promised (principal, slot) =
        if (principal, slot) = w.slot then some w.promise else s.promised (principal, slot) := by
      unfold writeStep
      rw [if_pos hrc]
    rw [hpromised] at hpr
    rw [fileOf_writeStep hvaults]
    by_cases hslot : (principal, slot) = w.slot
    · rw [if_pos hslot] at hpr
      cases hpr
      have hprincipal : principal = w.principal := congrArg Prod.fst hslot
      have hat : slot = (w.agent, w.cred) := congrArg Prod.snd hslot
      subst hprincipal hat
      rw [if_pos rfl]
      exact honours_exec_self hC (hvaults w.principal) hrc hproper (fun hr => (hfits hr).2) hloads hkek
    · rw [if_neg hslot] at hpr
      have hold := h principal slot pr hpr
      by_cases hprincipal : principal = w.principal
      · subst hprincipal
        rw [if_pos rfl]
        refine honours_exec_of_ne hold (fun hr => (hfits hr).2) fun hne => hslot ?_
        rw [hne]
        rfl
      · rw [if_neg hprincipal]
        exact hold
  · refine h.congr ?_ (fileOf_writeStep_of_rc hvaults (fun hr => (hfits hr).1) hrc)
    unfold writeStep
    rw [if_neg hrc]

theorem Planned.write {plan : Plan} (h : Planned C server derive s plan) :
    Planned C server derive (writeStep C s serverKek w io) plan := by
  refine h.withDir (master_writeStep hvaults) (isSome_writeStep hvaults) ?_
  unfold writeStep
  dsimp only
  split
  · exact fun hwritten => by cases hwritten
  · exact fun hwritten => ⟨hwritten, rfl⟩

end Writes

/-- The server's own credentials are promised for the server key alone. -/
theorem user_of_proper {w : Write} {pr : Promise} (h : w.Proper w.principal) (hpr : w.promise = some pr) :
    pr.user = none := by
  obtain ⟨p, agent, cred, secret, draw, action⟩ := w
  cases action with
  | delete => cases hpr
  | setOwn =>
    cases hpr
    rfl
  | _ => exact absurd rfl h

theorem Inv.write (hC : C.Correct) (h : Inv C server derive s) {writer : ℕ} {w : Write} {serverKek : Kek} {io : Io}
    (hheld : s.held writer = some serverKek) (hsafe : Safe C server derive s (.write writer w io)) :
    Inv C server derive (writeStep C s serverKek w io) := by
  obtain ⟨hproper, hfits, hloads, hkek⟩ := hsafe serverKek hheld
  have hctrl := h.ctrl
  constructor
  case vaults => exact vaults_writeStep h.vaults
  case names => exact h.names.congr (isSome_writeStep h.vaults)
  case own =>
    intro slot pr hpr
    unfold writeStep at hpr
    dsimp only at hpr
    split at hpr
    case isFalse => exact h.own slot pr hpr
    case isTrue =>
      dsimp only at hpr
      split at hpr
      case isFalse => exact h.own slot pr hpr
      case isTrue hslot =>
        have hserver : server = w.principal := (Prod.ext_iff.mp hslot).1
        subst hserver
        exact user_of_proper hproper (Option.some.inj hpr)
  case ctrl =>
    have hkept : ∀ _ : Kept C server (keyAt derive s) s s.dir, (w.usesServerKek = true →
        keyAt derive s w.principal = some serverKek) →
        Kept C server (keyAt derive (writeStep C s serverKek w io)) (writeStep C s serverKek w io)
          (writeStep C s serverKek w io).dir := by
      intro hbefore hkey
      rw [keyAt_writeStep h.vaults]
      exact hbefore.write h.vaults hC hproper hfits hloads hkey
    unfold AtCtrl at hctrl ⊢
    rw [ctrl_writeStep]
    unfold KeyFits at hkek
    unfold keyAt at hkept hctrl ⊢
    cases hs : s.ctrl with
    | idle =>
      simp only [hs] at hctrl hkek hkept ⊢
      exact hkept hctrl hkek
    | backedUp plan =>
      simp only [hs] at hctrl hkek hkept ⊢
      exact ⟨hctrl.1.write h.vaults, hkept hctrl.2 fun huses => congrArg some (hkek huses).symm⟩
    | rekeying plan todo =>
      simp only [hs] at hctrl hkek hkept ⊢
      refine ⟨⟨hctrl.1.1.write h.vaults, hctrl.1.2⟩, hkept hctrl.2 fun huses => ?_⟩
      rw [if_pos (hkek huses).2, (hkek huses).1]
    | failing plan =>
      simp only [hs] at hctrl ⊢
      exact hctrl.write h.vaults

/-! ## The other steps -/

theorem get?_backup (dir : VaultDir) (name : CString) :
    (rotCopyDirFlat .fine dir KeyMap.empty).1.get? name = dir.get? name := by
  have hskip : ∀ r ∈ dir.rows, CopyIo.fine.step r.1 ≠ .skipped := fun r hr h => by cases h
  rw [get?_rotCopyDirFlat (rotCopyDirFlat_fine dir _) hskip, KeyMap.get?_empty, Option.or_none]

theorem Inv.obtain (h : Inv C server derive s) (writer : ℕ) (minted : MasterKey) :
    Inv C server derive (step C server derive s (.obtain writer minted)) := by
  have hctrl := h.ctrl
  unfold AtCtrl keyAt at hctrl
  unfold step
  cases hs : s.ctrl with
  | idle =>
    simp only [hs] at hctrl ⊢
    cases hmaster : s.dir.get? VaultDir.masterName with
    | some content =>
      refine ⟨h.vaults, h.names, h.own, ?_⟩
      exact hctrl
    | none =>
      constructor
      case vaults =>
        intro principal
        rw [fileOf_put_master]
        exact h.vaults principal
      case names => exact h.names.put_master minted
      case own => exact h.own
      case ctrl =>
        intro principal slot pr hpr
        have hold := hctrl principal slot pr hpr
        rw [fileOf_put_master]
        refine hold.congr fun q hq hserver => ?_
        -- without a master key no promise needs the server key
        cases hq
        obtain ⟨v, t, -, -, -, hopens⟩ := hold
        obtain ⟨k, hk, -⟩ := hopens.server hserver
        rw [currentKek, hmaster] at hk
        cases hk
  | _ => exact h

theorem Inv.backup (h : Inv C server derive s) (newMaster : MasterKey) :
    Inv C server derive (step C server derive s (.backup newMaster)) := by
  have hctrl := h.ctrl
  unfold AtCtrl keyAt at hctrl
  unfold step
  cases hs : s.ctrl with
  | idle =>
    simp only [hs] at hctrl ⊢
    cases hkek : currentKek derive s.dir with
    | none => exact h
    | some oldKek =>
      rw [hkek] at hctrl
      refine ⟨h.vaults, h.names, h.own, ?_⟩
      refine ⟨⟨hkek, rfl, fun name => ?_, fun principal => ?_, get?_backup _ _, fun _ => ?_⟩, hctrl⟩
      · rw [get?_backup]
      · rw [VaultDir.fileOf, get?_backup]
        exact h.vaults principal
      · exact Kept.congr hctrl rfl fun principal => get?_backup _ _
  | _ => exact h

theorem Inv.list (h : Inv C server derive s) {opened : Bool} (hsafe : Safe C server derive s (.list opened)) :
    Inv C server derive (step C server derive s (.list opened)) := by
  have hctrl := h.ctrl
  unfold AtCtrl keyAt at hctrl
  unfold step
  cases hs : s.ctrl with
  | backedUp plan =>
    simp only [hs] at hctrl ⊢
    refine ⟨h.vaults, h.names, h.own, ?_⟩
    unfold AtCtrl keyAt
    refine ⟨⟨hctrl.1.withDir rfl (fun _ => rfl) fun hwritten => ⟨hwritten, rfl⟩, ?_⟩, fun principal slot pr hpr => ?_⟩
    · split
      · exact h.names.nodup_listPrincipals _
      · exact List.nodup_nil
    · refine (hctrl.2 principal slot pr hpr).congr fun q hq hserver => ?_
      cases hq
      obtain ⟨hopened, hlisted⟩ := hsafe plan hs principal slot q hpr hserver
      dsimp only
      rw [if_pos hopened, if_pos hlisted]
  | _ => exact h

/-- The wraps of a vault made anew are a vault. -/
theorem vault_rekeyField {io : Io} {oldKek newKek : Kek} {own : Bool} {file : File}
    (h : ∀ content ∈ file, ∃ v : VaultFile, content = v.text) :
    ∀ content ∈ (rekeyField C io (Sealed.heldName own) oldKek newKek file).file, ∃ v : VaultFile, content = v.text := by
  cases file with
  | none =>
    intro content hcontent
    have hsome : (rekeyField C io (Sealed.heldName own) oldKek newKek none).file.isSome = false :=
      isSome_rekeyField io _ none
    rw [Option.mem_def.mp hcontent] at hsome
    cases hsome
  | some content =>
    obtain ⟨v, rfl⟩ := h content rfl
    have hfile : ∃ v' : VaultFile,
      (rekeyField C io (Sealed.heldName own) oldKek newKek (some v.text)).file = some v'.text := by
      rcases rekeyField_vault (C := C) io v oldKek newKek own with ⟨-, hfile⟩ | ⟨-, hfile⟩ | ⟨-, hfile⟩
      · exact ⟨v, hfile⟩
      · exact hfile
      · exact ⟨_, hfile⟩
    obtain ⟨v', hfile⟩ := hfile
    intro content' hcontent'
    rw [hfile] at hcontent'
    cases hcontent'
    exact ⟨v', rfl⟩

section Rekey

variable {io : RotateIo} {oldKek newKek : Kek} {principal : CString} {dir : VaultDir}

theorem isSome_rekeyPrincipal (name : CString) :
    ((rekeyPrincipal C server io oldKek newKek principal dir).1.get? name).isSome = (dir.get? name).isSome := by
  rw [get?_rekeyPrincipal]
  split
  case isTrue hname =>
    rw [isSome_rekeyField, ← hname]
    rfl
  case isFalse => rfl

theorem master_rekeyPrincipal :
    (rekeyPrincipal C server io oldKek newKek principal dir).1.get? VaultDir.masterName =
      dir.get? VaultDir.masterName := by
  rw [get?_rekeyPrincipal, if_neg (vaultFileName_ne_masterName principal)]

theorem vaults_rekeyPrincipal (h : Vaults dir) : Vaults (rekeyPrincipal C server io oldKek newKek principal dir).1 := by
  intro q
  rw [fileOf_rekeyPrincipal]
  split
  · rw [heldField_eq]
    exact vault_rekeyField (h principal)
  · exact h q

end Rekey

theorem Inv.rekey (hC : C.Correct) (h : Inv C server derive s) {io : Io} (hsafe : Safe C server derive s (.rekey io)) :
    Inv C server derive (step C server derive s (.rekey io)) := by
  have hctrl := h.ctrl
  unfold AtCtrl keyAt at hctrl
  unfold step
  cases hs : s.ctrl with
  | rekeying plan todo =>
    cases todo with
    | nil => exact h
    | cons principal todo =>
      simp only [hs] at hctrl ⊢
      obtain ⟨⟨hplanned, hnodup⟩, hkept⟩ := hctrl
      refine ⟨vaults_rekeyPrincipal h.vaults, h.names.congr isSome_rekeyPrincipal, h.own, ?_⟩
      unfold AtCtrl keyAt
      by_cases hrc : (rekeyPrincipal C server (rekeyIo io) plan.oldKek plan.newKek principal s.dir).2 < 0
      · simp only [if_pos hrc]
        exact hplanned.withDir master_rekeyPrincipal isSome_rekeyPrincipal fun hwritten => ⟨hwritten, rfl⟩
      · simp only [if_neg hrc]
        refine ⟨⟨hplanned.withDir master_rekeyPrincipal isSome_rekeyPrincipal fun hwritten =>
          ⟨hwritten, rfl⟩, hnodup.of_cons⟩, ?_⟩
        intro q slot pr hpr
        have hold := hkept q slot pr hpr
        dsimp only at hold ⊢
        rw [fileOf_rekeyPrincipal]
        by_cases hq : principal = q
        · subst hq
          rw [if_pos List.mem_cons_self] at hold
          rw [if_pos rfl, if_neg hnodup.notMem]
          refine honours_rekeyField hC hold (fun hprincipal q hq => ?_) (fun q hq hserver => ?_) hrc
          · cases hq
            exact h.own slot q (hprincipal ▸ hpr)
          · cases hq
            exact hsafe plan principal todo hs slot q hpr hserver
        · rw [if_neg hq]
          refine hold.congr fun _ _ _ => ?_
          have hmem : q ∈ principal :: todo ↔ q ∈ todo := by
            rw [List.mem_cons, or_iff_right (Ne.symm hq)]
          simp only [hmem]
  | _ => exact h

theorem Inv.swap (h : Inv C server derive s) (probeList probeGet : Io) (written : Bool) :
    Inv C server derive (step C server derive s (.swap probeList probeGet written)) := by
  have hctrl := h.ctrl
  unfold AtCtrl keyAt at hctrl
  unfold step
  cases hs : s.ctrl with
  | rekeying plan todo =>
    cases todo with
    | cons principal todo => exact h
    | nil =>
      simp only [hs] at hctrl ⊢
      obtain ⟨⟨hplanned, -⟩, hkept⟩ := hctrl
      split
      case isFalse =>
        refine ⟨h.vaults, h.names, h.own, ?_⟩
        exact hplanned.withDir rfl (fun _ => rfl) fun hwritten => ⟨hwritten, rfl⟩
      case isTrue =>
        constructor
        case vaults =>
          intro principal
          rw [fileOf_put_master]
          exact h.vaults principal
        case names => exact h.names.put_master plan.newMaster
        case own => exact h.own
        case ctrl =>
          unfold AtCtrl keyAt
          intro principal slot pr hpr
          have hold := hkept principal slot pr hpr
          rw [hplanned.newKek] at hold
          rw [fileOf_put_master, currentKek_put]
          exact hold
  | _ => exact h

theorem Inv.fail (h : Inv C server derive s) : Inv C server derive (step C server derive s .fail) := by
  have hctrl := h.ctrl
  unfold AtCtrl at hctrl
  unfold step
  have hfailing : ∀ plan, Planned C server derive s plan → Inv C server derive { s with ctrl := .failing plan } := by
    intro plan hplanned
    refine ⟨h.vaults, h.names, h.own, ?_⟩
    exact hplanned.withDir rfl (fun _ => rfl) fun hwritten => ⟨hwritten, rfl⟩
  cases hs : s.ctrl with
  | backedUp plan =>
    simp only [hs] at hctrl ⊢
    exact hfailing plan hctrl.1
  | rekeying plan todo =>
    simp only [hs] at hctrl ⊢
    exact hfailing plan hctrl.1.1
  | _ => exact h

theorem Planned.get?_restored {plan : Plan} (h : Planned C server derive s plan) (name : CString) :
    (rotCopyDirFlat .fine plan.backup s.dir).1.get? name = plan.backup.get? name := by
  have hskip : ∀ r ∈ plan.backup.rows, CopyIo.fine.step r.1 ≠ .skipped := fun r hr h => by cases h
  rw [get?_rotCopyDirFlat (rotCopyDirFlat_fine _ _) hskip]
  have hfiles := h.files name
  cases hget : plan.backup.get? name with
  | some content => rfl
  | none =>
    rw [hget] at hfiles
    exact Option.isSome_eq_false_iff.mp hfiles.symm |> Option.isNone_iff_eq_none.mp

theorem Inv.restore (h : Inv C server derive s) (hsafe : Safe C server derive s .restore) :
    Inv C server derive (step C server derive s .restore) := by
  have hctrl := h.ctrl
  unfold AtCtrl at hctrl
  unfold step
  cases hs : s.ctrl with
  | failing plan =>
    simp only [hs] at hctrl ⊢
    constructor
    case vaults =>
      intro principal
      rw [VaultDir.fileOf, hctrl.get?_restored]
      exact hctrl.vaults principal
    case names =>
      refine h.names.congr fun name => ?_
      rw [hctrl.get?_restored, hctrl.files]
    case own => exact h.own
    case ctrl =>
      unfold AtCtrl keyAt
      have hkek : currentKek derive (rotCopyDirFlat .fine plan.backup s.dir).1 = some plan.oldKek := by
        rw [currentKek_congr ((hctrl.get?_restored _).trans hctrl.master), hctrl.oldKek]
      rw [hkek]
      exact (hctrl.kept hsafe).congr rfl fun principal => hctrl.get?_restored _
  | _ => exact h

/-- Every step keeps the invariant, if it takes nothing back. -/
theorem Inv.step (hC : C.Correct) (h : Inv C server derive s) {event : Event} (hsafe : Safe C server derive s event) :
    Inv C server derive (step C server derive s event) := by
  cases event with
  | obtain writer minted => exact h.obtain writer minted
  | write writer w io =>
    change Inv C server derive (match s.held writer with | none => s | some serverKek => writeStep C s serverKek w io)
    cases hheld : s.held writer with
    | none => exact h
    | some serverKek => exact h.write hC hheld hsafe
  | backup newMaster => exact h.backup newMaster
  | list opened => exact h.list hsafe
  | rekey io => exact h.rekey hC hsafe
  | swap probeList probeGet written => exact h.swap probeList probeGet written
  | fail => exact h.fail
  | restore => exact h.restore hsafe

theorem Inv.run (hC : C.Correct) {events : List Event} (h : Inv C server derive s)
    (hsafe : SafeRun C server derive s events) :
    Inv C server derive (run C server derive s events) := by
  induction events generalizing s with
  | nil => exact h
  | cons event rest ih => exact ih (h.step hC hsafe.1) hsafe.2

theorem get_missing (principal : CString) (kek : Kek) (agent cred : CString) :
    get C Io.fine principal kek agent cred (secretMax + 1) none = .noEntry ∧
      getServer C Io.fine principal kek agent cred (secretMax + 1) none = .noEntry := by
  exact ⟨rfl, rfl⟩

theorem Inv.writesInEffect (h : Inv C server derive s) : WritesInEffect C server derive s := by
  intro hidle principal slot pr hpr
  have hctrl := h.ctrl
  unfold AtCtrl keyAt at hctrl
  simp only [hidle] at hctrl
  have hkept := hctrl principal slot pr hpr
  have hlength : 0 < secretMax + 1 := Nat.succ_pos _
  cases pr with
  | none =>
    intro kek
    cases hfile : s.dir.fileOf principal with
    | none => exact get_missing principal kek slot.1 slot.2
    | some content =>
      obtain ⟨v, rfl, hsmall, hfind⟩ := hkept content hfile
      rw [VaultFile.get_text C hsmall principal kek slot.1 slot.2 hlength,
        VaultFile.getServer_text C hsmall principal kek slot.1 slot.2 hlength, hfind]
      exact ⟨rfl, rfl⟩
  | some q =>
    obtain ⟨v, t, hfile, hsmall, hfind, hopens⟩ := hkept
    unfold InEffect
    rw [hfile]
    refine ⟨fun kek hkek => ?_, fun hserver => ?_⟩
    · rw [VaultFile.get_text C hsmall principal kek slot.1 slot.2 hlength, hfind]
      exact hopens.user kek hkek
    · obtain ⟨k, hk, hread⟩ := hopens.server hserver
      refine ⟨k, hk, ?_⟩
      rw [serverRead_text hsmall k principal slot.1 slot.2 hlength, hfind]
      exact hread

end Runs

/-- In every run whose steps take nothing back, each successful write is in effect when no rotation is
    going on. -/
theorem writesInEffect_of_safeRun {C : Crypto} (hC : C.Correct) (server : CString)
    (derive : MasterKey → Kek) (dir : VaultDir)
    (hvaults : Vaults dir) (hnames : Named dir) (events : List Event)
    (hsafe : SafeRun C server derive (start dir) events) :
    WritesInEffect C server derive (run C server derive (start dir) events) :=
  ((Inv.start hvaults hnames).run hC hsafe).writesInEffect

/-! ## A writer and a rotation -/

section Sample

def emptyVault : VaultFile := VaultFile.fresh (key "server") sampleSalt

/-- A credential of the server itself. -/
def ownWrite : Write := ⟨key "server", key "a", key "c", key "s", sampleDraw, .setOwn⟩

/-- The rotation after its backup, with no step failing. -/
def rotation : List Event := [.backup nextKek, .list true, .rekey Io.fine, .swap Io.fine Io.fine true]

theorem small_emptyVault : emptyVault.Small := by
  have hlength : emptyVault.text.length ≤ 200 := by decide +kernel
  exact hlength.trans (by decide)

theorem exec_ownWrite :
    ownWrite.exec taggedCrypto sampleKek Io.fine (some emptyVault.text) = ⟨some (serverVault (key "s")).text, 0⟩ := by
  change setImpl taggedCrypto Io.fine (key "server") (some sampleKek) none (key "a") (key "c") (key "s")
    false sampleDraw
    (some emptyVault.text) = _
  rw [VaultFile.setImpl_text taggedCrypto small_emptyVault]
  rfl

/-- What the write makes of a file with this text. -/
theorem small_set_emptyVault {v v' : VaultFile} (htext : v.text = emptyVault.text)
    (hset : v.set taggedCrypto (key "server") (some sampleKek) none (key "a") (key "c") (key "s")
      sampleDraw = some v') : v'.Small := by
  have hjson : v.json = emptyVault.json := by
    have hparse : CJson.parse (CString.ofBytes v.text) = some v.json := Call.parse_printed v.sound_json
    rw [htext, show CJson.parse (CString.ofBytes emptyVault.text) =
      some emptyVault.json from Call.parse_printed emptyVault.sound_json] at hparse
    exact (Option.some.inj hparse).symm
  have hstage := VaultFile.stageCredential_json taggedCrypto (key "server") v (some sampleKek) none
    (key "a") (key "c") (key "s") sampleDraw
  rw [hjson, VaultFile.stage_of_set hset] at hstage
  have hsame : v'.json = (serverVault (key "s")).json := (Option.some.inj hstage).symm
  have hsmall : (serverVault (key "s")).Small := small_serverVault (by decide)
  rw [VaultFile.Small, VaultFile.text, hsame]
  exact hsmall

theorem writeStep_ownWrite {s : State} (hfile : s.dir.fileOf (key "server") = some emptyVault.text) :
    writeStep taggedCrypto s sampleKek ownWrite Io.fine =
      { s with
        dir := s.dir.put (vaultFileName (key "server")) (serverVault (key "s")).text
        written := true
        promised := fun slot => if slot = ownWrite.slot then some (some ⟨key "s", none, true⟩) else
          s.promised slot } := by
  have hserver : ownWrite.principal = key "server" := rfl
  unfold writeStep
  rw [hserver, hfile, exec_ownWrite]
  rfl

theorem currentKek_serverDir (v : VaultFile) : currentKek id (serverDir v) = some sampleKek := by
  rfl

theorem vaults_serverDir (v : VaultFile) : Vaults (serverDir v) := by
  intro principal content hcontent
  rw [fileOf_serverDir] at hcontent
  split at hcontent
  · exact ⟨v, (Option.some.inj hcontent).symm⟩
  · cases hcontent

theorem named_serverDir (v : VaultFile) : Named (serverDir v) := by
  intro name principal hsome hname
  rw [serverDir, KeyMap.get?_put, KeyMap.get?_put] at hsome
  have hserver := principalOfName_vaultFileName (show key "server" ≠ .empty by decide) (by decide)
  by_cases hvault : vaultFileName (key "server") = name
  · rw [← hvault, hserver] at hname
    rw [← hvault, Option.some.inj hname]
  · rw [if_neg hvault] at hsome
    split at hsome
    case isTrue hmaster =>
      rw [← hmaster] at hname
      cases hname
    case isFalse => cases hsome

theorem put_serverDir (v v' : VaultFile) :
    (serverDir v).put (vaultFileName (key "server")) v'.text = serverDir v' := Table.ext rfl

theorem step_obtain (v : VaultFile) :
    step taggedCrypto (key "server") id (start (serverDir v)) (.obtain 0 sampleKek) =
      ⟨serverDir v, .idle, fun i => if i = 0 then some sampleKek else none, fun _ => none, false⟩ := by
  simp only [step, start, get?_masterName_serverDir, currentKek_serverDir]

theorem step_write {s : State} {writer : ℕ} (hheld : s.held writer = some sampleKek) (w : Write) (io : Io) :
    step taggedCrypto (key "server") id s (.write writer w io) = writeStep taggedCrypto s sampleKek w io := by
  simp only [step, hheld]

def samplePlan (v : VaultFile) :
    Plan := ⟨(rotCopyDirFlat .fine (serverDir v) KeyMap.empty).1, sampleKek, nextKek, nextKek⟩

theorem step_backup (v : VaultFile) (held : ℕ → Option Kek)
    (promised : CString × Slot → Option (Option Promise)) (written : Bool) :
    step taggedCrypto (key "server") id ⟨serverDir v, .idle, held, promised, written⟩ (.backup nextKek) =
      ⟨serverDir v, .backedUp (samplePlan v), held, promised, false⟩ := by
  rfl

theorem step_list (v : VaultFile) (held : ℕ → Option Kek)
    (promised : CString × Slot → Option (Option Promise)) (written : Bool) :
    step taggedCrypto (key "server") id ⟨serverDir v, .backedUp (samplePlan v), held, promised, written⟩ (.list true) =
      ⟨serverDir v, .rekeying (samplePlan v) [key "server"], held, promised, written⟩ := by
  simp [step, listPrincipals_serverDir]

/-- A write of the server after the rotation listed the vaults and before it reaches this one. -/
theorem writesInEffect_rotation :
    WritesInEffect taggedCrypto (key "server") id (run taggedCrypto (key "server") id (start (serverDir emptyVault))
      [.obtain 0 sampleKek, .backup nextKek, .list true, .write 0 ownWrite Io.fine, .rekey Io.fine,
        .swap Io.fine Io.fine true]) := by
  refine writesInEffect_of_safeRun taggedCrypto_correct (key "server") id (serverDir emptyVault)
    (vaults_serverDir _) (named_serverDir _) _ ?_
  have hfile : (serverDir emptyVault).fileOf (key "server") = some emptyVault.text := by
    rw [fileOf_serverDir, if_pos rfl]
  have hsmall : (serverVault (key "s")).Small := small_serverVault (by decide)
  refine ⟨trivial, trivial, ?_⟩
  rw [step_obtain, step_backup]
  refine ⟨fun plan hplan principal slot pr hpr => (by cases hpr), ?_⟩
  rw [step_list]
  refine ⟨?_, ?_⟩
  · intro serverKek hheld
    cases hheld
    refine ⟨rfl, fun _ => ⟨rfl, fun _ v v' hv hset => ?_⟩, fun hdelete => absurd hdelete (by decide), fun _ => ?_⟩
    · have htext : v.text = emptyVault.text := Option.some.inj (hv.symm.trans hfile)
      exact small_set_emptyVault htext hset
    · exact ⟨rfl, List.mem_singleton_self _⟩
  · rw [step_write rfl, writeStep_ownWrite hfile, put_serverDir]
    refine ⟨?_, trivial, trivial⟩
    intro plan principal todo hctrl slot pr hpr hserver
    cases hctrl
    dsimp only
    rw [fileOf_serverDir, if_pos rfl, VaultFile.loadVault_small hsmall]
    rfl

def Ctrl.isIdle : Ctrl → Bool
  | .idle => true
  | _ => false

theorem Ctrl.eq_idle {c : Ctrl} (h : c.isIdle = true) : c = .idle := by
  cases c with
  | idle => rfl
  | _ => cases h

theorem not_writesInEffect {s : State} (hidle : s.ctrl.isIdle = true) {principal : CString} {slot : Slot} {pr : Promise}
    (hpromised : s.promised (principal, slot) = some (some pr)) (hserver : pr.server = true)
    (hlost : ∀ kek ∈ currentKek id s.dir, serverRead taggedCrypto (key "server") kek principal slot.1 slot.2
      (secretMax + 1)
      (s.dir.fileOf principal) ≠ .ok pr.secret.val) : ¬WritesInEffect taggedCrypto (key "server") id s := by
  intro h
  obtain ⟨kek, hkek, hread⟩ := (h (Ctrl.eq_idle hidle) _ _ _ hpromised).2 hserver
  exact hlost kek hkek hread

/-- The writer got the server key before the rotation and wrote after it. -/
theorem not_writesInEffect_late :
    ¬WritesInEffect taggedCrypto (key "server") id (run taggedCrypto (key "server") id (start (serverDir emptyVault))
      (.obtain 0 sampleKek :: (rotation ++ [.write 0 ownWrite Io.fine]))) := by
  have hpromised : (run taggedCrypto (key "server") id (start (serverDir emptyVault))
      (.obtain 0 sampleKek :: (rotation ++ [.write 0 ownWrite Io.fine]))).promised (key "server", key "a", key "c") =
      some (some ⟨key "s", none, true⟩) := by decide +kernel
  exact not_writesInEffect (by decide +kernel) hpromised rfl (by decide +kernel)

end Sample

end Interleaved

end VaultStore
