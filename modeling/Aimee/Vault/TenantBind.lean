-- SUMMARY: Moving the instance credentials out of the tenant backend, step by step: nothing is lost while the local vault can be read.
import Aimee.Lib.KeyMap
import Aimee.Vault.FileFaults
import Aimee.Vault.FileMap

/-!
# Binding the tenant backend

`vault_store_bind_tenant_backend` copies every credential of the server principal into the local vault
and deletes it in the backend. Each of its calls is a step here; the world says how the call ends, and
a run may be interrupted before any of them and started again.
-/

namespace VaultStore

namespace TenantBind

/-- `VAULT_SERVER_PRINCIPAL`. -/
def serverPrincipal : CString := key "server"

abbrev Slot := CString × CString

def maxEntries : ℕ := 4096

/-- The call a run makes next, with what it holds: the credential at hand and the ones to come. -/
inductive Ctrl where
  | idle
  | list
  | get (todo : List Slot)
  | read (slot : Slot) (old : CString) (rest : List Slot)
  | salt (slot : Slot) (old : CString) (rest : List Slot)
  | set (slot : Slot) (old : CString) (rest : List Slot)
  | delete (slot : Slot) (old : CString) (rest : List Slot)
  | done
  | failed
  deriving DecidableEq

structure State where
  tenant : KeyMap Slot CString
  file : File
  ctrl : Ctrl

def start (tenant : KeyMap Slot CString) (file : File) : State := ⟨tenant, file, .idle⟩

/-- How a delete in the backend ends: it may have happened although it reports a failure. -/
inductive DeleteAnswer where
  | deleted
  | lost
  | failed
  deriving DecidableEq, Repr

/-- What the world decides of one call. -/
structure World where
  /-- the pairs `list` answers with, in the order of the backend, unless it fails -/
  order : Option (List Slot)
  /-- `get` of the backend goes through -/
  got : Bool
  /-- the steps of a call of the local store -/
  io : Io
  salt : Salt
  draw : Draw
  deleted : DeleteAnswer

inductive Event where
  | start
  | next (w : World)
  | interrupt

/-- An entry of the list has room for 63 bytes of a name. -/
def entry (slot : Slot) : Slot := (slot.1.truncate 63, slot.2.truncate 63)

variable (C : Crypto) (kek : Kek)

/-- `jsonfile_get` of the server principal, under the instance key. -/
def localGet (io : Io) (slot : Slot) (file : File) : ReadResult :=
  VaultStore.get C io serverPrincipal kek slot.1 slot.2 (secretMax + 1) file

/-- The next call of a run. -/
def next (s : State) (w : World) : State :=
  match s.ctrl with
  | .list =>
    match w.order with
    | none => { s with ctrl := .failed }
    | some order =>
      -- an answer that is not the list of the pairs is a failure
      if ¬order.Perm (s.tenant.rows.map Prod.fst) then { s with ctrl := .failed }
      else
        let entries := (order.map entry).take (maxEntries + 1)
        if maxEntries < entries.length then { s with ctrl := .failed } else { s with ctrl := .get entries }
  | .get [] => { s with ctrl := .done }
  | .get (slot :: rest) =>
    match s.tenant.get? slot with
    | none => { s with ctrl := .failed }
    | some old =>
      if w.got ∧ old.val.length ≤ secretMax then { s with ctrl := .read slot old rest } else { s with ctrl := .failed }
  | .read slot old rest =>
    match localGet C kek w.io slot s.file with
    | .noEntry => { s with ctrl := .salt slot old rest }
    | .ok pt => if CString.ofBytes pt = old then { s with ctrl := .delete slot old rest } else
        { s with ctrl := .failed }
    | .error => { s with ctrl := .failed }
  | .salt slot old rest =>
    let o := getOrCreateSalt w.io serverPrincipal w.salt s.file
    { s with file := o.file, ctrl := if o.rc = 0 then .set slot old rest else .failed }
  | .set slot old rest =>
    let o := setImpl C w.io serverPrincipal (some kek) none slot.1 slot.2 old true w.draw s.file
    { s with file := o.file, ctrl := if o.rc = 0 then .delete slot old rest else .failed }
  | .delete slot _ rest =>
    match w.deleted with
    | .deleted => { s with tenant := s.tenant.erase slot, ctrl := .get rest }
    | .lost => { s with tenant := s.tenant.erase slot, ctrl := .failed }
    | .failed => { s with ctrl := .failed }
  | .idle => s
  | .done => s
  | .failed => s

def step (s : State) : Event → State
  | .start =>
    match s.ctrl with
    | .idle => { s with ctrl := .list }
    | .done => { s with ctrl := .list }
    | .failed => { s with ctrl := .list }
    | _ => s
  | .next w => next C kek s w
  | .interrupt => { s with ctrl := .idle }

def run (s : State) (events : List Event) : State := events.foldl (step C kek) s

/-! ## What is asked of a run -/

/-- The entry of a slot in a vault file. -/
def localEntry (file : File) (slot : Slot) :
    Option CJson := (loadVault Io.fine file).bind fun root => findCred root slot.1 slot.2

/-- The local vault returns this secret. -/
def LocalReads (file : File) (slot : Slot) (secret : CString) : Prop :=
  ∃ pt, localGet C kek Io.fine slot file = .ok pt ∧ CString.ofBytes pt = secret

/-- No credential is lost at any point, a local value stays and one that differs fails the run, and a
    run that returns 0 has moved them all. -/
structure Moves (tenant : KeyMap Slot CString) (file : File) (s : State) : Prop where
  kept : ∀ slot secret, tenant.get? slot = some secret → s.tenant.get? slot = some secret ∨
    LocalReads C kek s.file slot secret
  untouched : ∀ slot e, localEntry file slot = some e → localEntry s.file slot = some e
  conflict : ∀ slot secret, tenant.get? slot = some secret → (localEntry file slot).isSome →
    ¬LocalReads C kek file slot secret →
    s.tenant.get? slot = some secret ∧ s.ctrl ≠ .done
  done : s.ctrl = .done → s.tenant.rows = [] ∧ ∀ slot secret, tenant.get? slot = some secret →
    LocalReads C kek s.file slot secret

/-- What the text of a credential's entry takes. -/
def room (slot : Slot) (secret : CString) : ℕ :=
  (CJson.printString slot.1).length + (CJson.printString slot.2).length + (4 * secret.val.length + 2) / 3 + 163

/-- Names the local store takes. -/
def Named (slot : Slot) : Prop := slot.1 ≠ .empty ∧ slot.2 ≠ .empty ∧ (buildAad serverPrincipal slot.1 slot.2).isSome

/-- A copy that is written leaves a local vault that can be read: with the new entry, and a comma if it
    is not the first, the text is within what a read takes. -/
def Fits (s : State) : Event → Prop
  | .next w => ∀ slot old rest, s.ctrl = .set slot old rest → Named slot → w.io.lock = true → w.io.Renames →
      ∀ root items, loadVault w.io s.file = some root → credsArray root = some items →
        root.printed.length + room slot old + (if items = [] then 0 else 1) ≤ readMax
  | _ => True

def Fitting (s : State) : List Event → Prop
  | [] => True
  | event :: rest => Fits s event ∧ Fitting (step C kek s event) rest

/-! ## The local vault -/

theorem not_isNumber_of_credsArray {root : CJson} {items : List CJson} (h : credsArray root = some items) :
    ¬root.IsNumber := by
  rintro ⟨lexeme, rfl⟩
  cases h

/-- What was loaded with some failure is what a fault-free load finds. -/
theorem loadVault_fine {io : Io} {file : File} {root : CJson} (h : loadVault io file = some root)
    (hroot : ¬root.IsNumber) :
    loadVault Io.fine file = some root := by
  cases file with
  | none => cases h
  | some content =>
    have hparse := Call.parse_of_loadVault h hroot
    obtain ⟨txt, htxt, -⟩ := Option.bind_eq_some_iff.mp h
    have hlength : ¬readMax < content.length := by
      intro hlong
      rw [readWholeFile, if_pos (Or.inr hlong)] at htxt
      cases htxt
    rw [loadVault, readWholeFile, if_neg fun hbad => hbad.elim (fun hopen => hopen rfl) hlength]
    exact hparse

theorem localEntry_of_loadVault {file : File} {root : CJson} (h : loadVault Io.fine file = some root) (slot : Slot) :
    localEntry file slot = findCred root slot.1 slot.2 := by
  rw [localEntry, h]
  rfl

theorem localGet_of_loadVault {io : Io} {file : File} {root : CJson} (h : loadVault io file = some root) (slot : Slot) :
    localGet C kek io slot file =
      match findCred root slot.1 slot.2 with
      | none => .noEntry
      | some e => openEntry C serverPrincipal kek "wrapped_dek" .error slot.1 slot.2 (secretMax + 1) e := by
  rewrite [localGet, VaultStore.get, readCred, if_neg (Nat.succ_ne_zero _), h]
  rfl

variable {C kek}

theorem not_ok_of_unloaded {io : Io} {file : File} (h : loadVault io file = none) (slot : Slot) (pt : List UInt8) :
    localGet C kek io slot file ≠ .ok pt := by
  rw [localGet, VaultStore.get, readCred, if_neg (Nat.succ_ne_zero _), h]
  dsimp only
  split <;> exact fun hok => by cases hok

theorem entry_of_ok {io : Io} {file : File} {slot : Slot} {pt : List UInt8} (h : localGet C kek io slot file = .ok pt) :
    ∃ e, localEntry file slot = some e ∧
      openEntry C serverPrincipal kek "wrapped_dek" .error slot.1 slot.2 (secretMax + 1) e = .ok pt := by
  cases hload : loadVault io file with
  | none => exact absurd h (not_ok_of_unloaded hload slot pt)
  | some root =>
    rw [localGet_of_loadVault C kek hload] at h
    cases hfind : findCred root slot.1 slot.2 with
    | none =>
      rw [hfind] at h
      cases h
    | some e =>
      rw [hfind] at h
      obtain ⟨items, hitems, -⟩ := Option.bind_eq_some_iff.mp hfind
      have hfine := loadVault_fine hload (not_isNumber_of_credsArray hitems)
      exact ⟨e, (localEntry_of_loadVault hfine slot).trans hfind, h⟩

theorem localReads_iff {file : File} {slot : Slot} {secret : CString} :
    LocalReads C kek file slot secret ↔
      ∃ e pt, localEntry file slot = some e ∧
        openEntry C serverPrincipal kek "wrapped_dek" .error slot.1 slot.2 (secretMax + 1) e = .ok pt ∧
          CString.ofBytes pt = secret := by
  constructor
  · rintro ⟨pt, hget, hpt⟩
    obtain ⟨e, hentry, hopen⟩ := entry_of_ok hget
    exact ⟨e, pt, hentry, hopen, hpt⟩
  · rintro ⟨e, pt, hentry, hopen, hpt⟩
    obtain ⟨root, hload, hfind⟩ := Option.bind_eq_some_iff.mp hentry
    refine ⟨pt, ?_, hpt⟩
    rw [localGet_of_loadVault C kek hload, hfind]
    exact hopen

/-- What a vault returns for a slot depends on its entry alone. -/
theorem localReads_congr {file file' : File} {slot : Slot} {secret : CString}
    (h : localEntry file' slot = localEntry file slot) :
    LocalReads C kek file' slot secret ↔ LocalReads C kek file slot secret := by
  rw [localReads_iff, localReads_iff, h]

theorem localReads_mono {file file' : File} {slot : Slot} {secret : CString}
    (h : ∀ e, localEntry file slot = some e → localEntry file' slot = some e)
    (hreads : LocalReads C kek file slot secret) :
    LocalReads C kek file' slot secret := by
  obtain ⟨e, pt, hentry, hopen, hpt⟩ := localReads_iff.mp hreads
  exact localReads_iff.mpr ⟨e, pt, h e hentry, hopen, hpt⟩

/-! ## A copy -/

theorem openEntry_sealedEntry (hC : C.Correct) {aad : List UInt8} {slot : Slot} {secret : CString} (draw : Draw)
    (haad : buildAad serverPrincipal slot.1 slot.2 = some aad) (hlength : secret.val.length ≤ secretMax) :
    openEntry C serverPrincipal kek "wrapped_dek" .error slot.1 slot.2 (secretMax + 1)
      (sealedEntry C aad (some kek) none slot.1 slot.2 secret draw) = .ok secret.val := by
  rw [Sealed.json_stage, Sealed.openEntry_json C serverPrincipal kek .error slot.1 slot.2 (secretMax + 1) _
    (Sealed.stringItem_user _)]
  have hct := hC.length_encrypt draw.dek aad draw.nonce secret.val
  have hfits : ¬secretMax + 1 ≤ (C.encrypt draw.dek aad draw.nonce secret.val).1.length := by
    omega
  simp [Sealed.openWith, Sealed.stage, haad, hfits, hC.unwrap_wrap, hC.decrypt_encrypt]

/-- The vault with a credential more. -/
def copied (C : Crypto) (kek : Kek) (root : CJson) (items : List CJson) (aad : List UInt8) (slot : Slot)
    (old : CString) (draw : Draw) : CJson :=
  setCreds root (items ++ [sealedEntry C aad (some kek) none slot.1 slot.2 old draw])

theorem removeCred_of_find? {root : CJson} {items : List CJson} {slot : Slot} (hitems : credsArray root = some items)
    (hfind : findCred root slot.1 slot.2 = none) : removeCred items slot.1 slot.2 = items := by
  rw [findCred_of_credsArray hitems, List.find?_eq_none] at hfind
  exact List.eraseP_of_forall_not hfind

/-- A copy is refused, or it is written behind the entries that were there. -/
theorem setImpl_cases (io : Io) (slot : Slot) (old : CString) (draw : Draw) (file : File) :
    ((setImpl C io serverPrincipal (some kek) none slot.1 slot.2 old true draw file).file = file ∧
        (setImpl C io serverPrincipal (some kek) none slot.1 slot.2 old true draw file).rc ≠ 0) ∨
      ∃ root items aad, Named slot ∧ old.val.length ≤ secretMax ∧ io.lock = true ∧ io.Renames ∧
        loadVault io file = some root ∧
        credsArray root = some items ∧ findCred root slot.1 slot.2 = none ∧
          buildAad serverPrincipal slot.1 slot.2 = some aad ∧
        (copied C kek root items aad slot old draw).Sound ∧
        (setImpl C io serverPrincipal (some kek) none slot.1 slot.2 old true draw file).file =
          some (copied C kek root items aad slot old draw).printed := by
  let call : Call := .set (some kek) none slot.1 slot.2 old true draw
  have hfail : (⟨file, -1⟩ : Outcome).file = file ∧ (⟨file, -1⟩ : Outcome).rc ≠ 0 := ⟨rfl, show (-1 : ℤ) ≠ 0 by decide⟩
  change ((call.exec C serverPrincipal io file).file = file ∧ (call.exec C serverPrincipal io file).rc ≠ 0) ∨
    ∃ root items aad, Named slot ∧ old.val.length ≤ secretMax ∧ io.lock = true ∧ io.Renames ∧
      loadVault io file = some root ∧
      credsArray root = some items ∧ findCred root slot.1 slot.2 = none ∧
        buildAad serverPrincipal slot.1 slot.2 = some aad ∧
      (copied C kek root items aad slot old draw).Sound ∧
      (call.exec C serverPrincipal io file).file = some (copied C kek root items aad slot old draw).printed
  by_cases htakes : call.Takes serverPrincipal ∧ io.lock = true
  swap
  · rw [Call.exec_refused C serverPrincipal call htakes]
    exact .inl hfail
  obtain ⟨htakes, hlock⟩ := htakes
  cases hload : loadVault io file with
  | none =>
    rcases Call.exec_unloaded C serverPrincipal call htakes hlock hload with ⟨hlenient, -⟩ | ⟨-, hexec⟩
    · exact hlenient.elim
    · rw [hexec]
      exact .inl hfail
  | some root =>
    have hexec := Call.exec_loaded C serverPrincipal call htakes hlock hload
    have hsound : ∀ {root' n}, call.edit C serverPrincipal root = .write root' n → root'.Sound :=
      fun h => Call.sound_edit call (sound_of_loadVault hload) h
    rw [hexec]
    rcases hfind : findCred root slot.1 slot.2 with _ | e
    swap
    · have hedit : call.edit C serverPrincipal root = .refuse := if_pos ⟨rfl, by rw [hfind]; rfl⟩
      rw [hedit]
      exact .inl hfail
    have hedit : call.edit C serverPrincipal root =
        match stageCredential C root serverPrincipal (some kek) none slot.1 slot.2 old draw with
        | none => .refuse
        | some root => .write root 0 := if_neg fun h => by rw [hfind] at h; exact absurd h.2 (by decide)
    cases hstage : stageCredential C root serverPrincipal (some kek) none slot.1 slot.2 old draw with
    | none =>
      rw [hedit, hstage]
      exact .inl hfail
    | some root' =>
      rw [hstage] at hedit
      obtain ⟨aad, haad, hstage⟩ := Option.bind_eq_some_iff.mp hstage
      obtain ⟨items, hitems, hstage⟩ := Option.bind_eq_some_iff.mp hstage
      cases hstage
      rw [removeCred_of_find? hitems hfind] at hedit
      have hcopied := hsound hedit
      rw [hedit, Call.settle_write_zero, Call.writeVaultFile_of_sound hcopied]
      by_cases hrenames : io.Renames
      · rw [if_pos hrenames]
        have hnames := not_or.mp (not_or.mp htakes.1).2
        exact .inr ⟨root, items, aad, ⟨hnames.1, hnames.2, by rw [haad]; rfl⟩, htakes.2, hlock,
          hrenames, rfl, hitems, hfind, haad, hcopied, rfl⟩
      · rw [if_neg hrenames]
        exact .inl hfail

theorem setImpl_keeps (hC : C.Correct) {s : State} {w : World} {slot : Slot} {old : CString} {rest : List Slot}
    (hctrl : s.ctrl = .set slot old rest) (hfits : Fits s (.next w)) :
    (∀ slot' e, localEntry s.file slot' = some e →
        localEntry (setImpl C w.io serverPrincipal (some kek) none slot.1 slot.2 old true w.draw
          s.file).file slot' = some e) ∧
      ((setImpl C w.io serverPrincipal (some kek) none slot.1 slot.2 old true w.draw s.file).rc = 0 →
        LocalReads C kek (setImpl C w.io serverPrincipal (some kek) none slot.1 slot.2 old true w.draw
          s.file).file slot old) := by
  rcases setImpl_cases w.io slot old w.draw s.file with
    ⟨hfile, hrc⟩ | ⟨root, items, aad, hnamed, hold, hlock, hrenames, hload, hitems, hfind, haad, hsound, hfile⟩
  · rw [hfile]
    exact ⟨fun _ _ h => h, fun h => absurd h hrc⟩
  · have hfine := loadVault_fine hload (not_isNumber_of_credsArray hitems)
    have hsmall : (copied C kek root items aad slot old w.draw).printed.length ≤ readMax := by
      have hroom := hfits slot old rest hctrl hnamed hlock hrenames root items hload hitems
      have hentry := VaultFile.length_printed_sealedEntry hC kek aad slot.1 slot.2 old w.draw
      have happend := length_printed_append items (sealedEntry C aad (some kek) none slot.1 slot.2 old w.draw)
      have htext := length_printed_setCreds hitems
        (items ++ [sealedEntry C aad (some kek) none slot.1 slot.2 old w.draw])
      rw [copied]
      rw [room] at hroom
      omega
    have hafter := loadVault_printed hsound hsmall
    have hcreds := credsArray_setCreds hitems (items ++ [sealedEntry C aad (some kek) none slot.1 slot.2 old w.draw])
    have hentries : ∀ slot' : Slot, localEntry (some (copied C kek root items aad slot old w.draw).printed) slot' =
        (items ++ [sealedEntry C aad (some kek) none slot.1 slot.2 old w.draw]).find? (isSlot slot'.1 slot'.2) := by
      intro slot'
      rw [localEntry_of_loadVault hafter]
      exact findCred_of_credsArray hcreds slot'.1 slot'.2
    rw [hfile]
    constructor
    · intro slot' e hentry
      rw [localEntry_of_loadVault hfine, findCred_of_credsArray hitems] at hentry
      rw [hentries, List.find?_append, hentry]
      rfl
    · intro _
      rw [findCred_of_credsArray hitems] at hfind
      refine localReads_iff.mpr ⟨_, old.val, ?_, openEntry_sealedEntry hC w.draw haad hold,
        CString.ofBytes_of_not_mem old.property⟩
      rw [hentries, List.find?_append, hfind, Sealed.json_stage, Option.none_or, List.find?_cons_of_pos]
      rw [Sealed.isSlot_json]
      exact decide_eq_true rfl

theorem getOrCreateSalt_file (io : Io) (salt : Salt) (file : File) :
    (getOrCreateSalt io serverPrincipal salt file).file = file ∨ file = none := by
  cases file with
  | none => exact .inr rfl
  | some content =>
    left
    unfold getOrCreateSalt
    split
    · rfl
    · split
      · rfl
      · rfl

theorem getOrCreateSalt_keeps (io : Io) (salt : Salt) (file : File) (slot : Slot) (e : CJson)
    (h : localEntry file slot = some e) :
    localEntry (getOrCreateSalt io serverPrincipal salt file).file slot = some e := by
  rcases getOrCreateSalt_file io salt file with hfile | rfl
  · rwa [hfile]
  · cases h

/-! ## Runs -/

/-- What is known at a call: the credential at hand is in the backend, with as many to come as it holds
    more, and before a delete its copy can be read. -/
def AtCtrl (C : Crypto) (kek : Kek) (s : State) : Prop :=
  match s.ctrl with
  | .get todo => s.tenant.size = todo.length
  | .read slot old rest => s.tenant.get? slot = some old ∧ s.tenant.size = rest.length + 1
  | .salt slot old rest => s.tenant.get? slot = some old ∧ s.tenant.size = rest.length + 1
  | .set slot old rest => s.tenant.get? slot = some old ∧ s.tenant.size = rest.length + 1
  | .delete slot old rest => (s.tenant.get? slot = some old ∧ s.tenant.size = rest.length + 1) ∧
      LocalReads C kek s.file slot old
  | .done => s.tenant.size = 0
  | _ => True

/-- Between the calls of a run, for the backend and the vault it began with. -/
structure Inv (C : Crypto) (kek : Kek) (tenant : KeyMap Slot CString) (file : File) (s : State) : Prop where
  shrinks : ∀ slot secret, s.tenant.get? slot = some secret → tenant.get? slot = some secret
  kept : ∀ slot secret, tenant.get? slot = some secret → s.tenant.get? slot = some secret ∨
    LocalReads C kek s.file slot secret
  untouched : ∀ slot e, localEntry file slot = some e → localEntry s.file slot = some e
  stuck : ∀ slot secret, tenant.get? slot = some secret → (localEntry file slot).isSome →
    ¬LocalReads C kek file slot secret →
    s.tenant.get? slot = some secret
  ctrl : AtCtrl C kek s

section Inv

variable {tenant : KeyMap Slot CString} {file : File} {s : State}

theorem Inv.start (tenant : KeyMap Slot CString) (file : File) : Inv C kek tenant file (start tenant file) where
  shrinks _ _ h := h
  kept _ _ h := .inl h
  untouched _ _ h := h
  stuck _ _ h _ _ := h
  ctrl := trivial

/-- A call that changes no store. -/
theorem Inv.withCtrl (h : Inv C kek tenant file s) {ctrl : Ctrl} (hctrl : AtCtrl C kek { s with ctrl := ctrl }) :
    Inv C kek tenant file { s with ctrl := ctrl } where
  shrinks := h.shrinks
  kept := h.kept
  untouched := h.untouched
  stuck := h.stuck
  ctrl := hctrl

/-- A call of the local store that keeps the entries there are. -/
theorem Inv.withFile (h : Inv C kek tenant file s) {file' : File} {ctrl : Ctrl}
    (hkeeps : ∀ slot e, localEntry s.file slot = some e → localEntry file' slot = some e)
    (hctrl : AtCtrl C kek { s with file := file', ctrl := ctrl }) :
    Inv C kek tenant file { s with file := file', ctrl := ctrl } where
  shrinks := h.shrinks
  kept slot secret hheld := (h.kept slot secret hheld).imp_right (localReads_mono (hkeeps slot))
  untouched slot e hentry := hkeeps slot e (h.untouched slot e hentry)
  stuck := h.stuck
  ctrl := hctrl

/-- A credential leaves the backend once the local vault returns it. -/
theorem Inv.erase (h : Inv C kek tenant file s) {slot : Slot} {old : CString} {ctrl : Ctrl}
    (hheld : s.tenant.get? slot = some old)
    (hreads : LocalReads C kek s.file slot old)
    (hctrl : AtCtrl C kek { s with tenant := s.tenant.erase slot, ctrl := ctrl }) :
    Inv C kek tenant file { s with tenant := s.tenant.erase slot, ctrl := ctrl } where
  shrinks slot' secret hget := by
    rw [KeyMap.get?_erase] at hget
    split at hget
    · cases hget
    · exact h.shrinks slot' secret hget
  kept slot' secret hheld' := by
    rw [KeyMap.get?_erase]
    by_cases hslot : slot = slot'
    · subst hslot
      have hsecret := (h.shrinks slot old hheld).symm.trans hheld'
      cases hsecret
      exact .inr hreads
    · rw [if_neg hslot]
      exact h.kept slot' secret hheld'
  untouched := h.untouched
  stuck slot' secret hheld' hentry hdiffers := by
    rw [KeyMap.get?_erase, if_neg]
    · exact h.stuck slot' secret hheld' hentry hdiffers
    · rintro rfl
      have hsecret := (h.shrinks slot old hheld).symm.trans hheld'
      cases hsecret
      obtain ⟨e, he⟩ := Option.isSome_iff_exists.mp hentry
      exact hdiffers ((localReads_congr ((h.untouched slot e he).trans he.symm)).mp hreads)
  ctrl := hctrl

variable (hC : C.Correct)

include hC

theorem Inv.next (h : Inv C kek tenant file s) {w : World} (hfits : Fits s (.next w)) :
    Inv C kek tenant file (TenantBind.next C kek s w) := by
  have hctrl := h.ctrl
  unfold TenantBind.next
  cases hs : s.ctrl with
  | list =>
    cases w.order with
    | none => exact h.withCtrl trivial
    | some order =>
      dsimp only
      by_cases hperm : order.Perm (s.tenant.rows.map Prod.fst)
      · rw [if_neg (not_not.mpr hperm)]
        by_cases hmany : maxEntries < ((order.map entry).take (maxEntries + 1)).length
        · rw [if_pos hmany]
          exact h.withCtrl trivial
        · rw [if_neg hmany]
          refine h.withCtrl ?_
          have hlength := hperm.length_eq
          rw [List.length_map] at hlength
          rw [List.length_take, List.length_map] at hmany
          change s.tenant.size = ((order.map entry).take (maxEntries + 1)).length
          rw [List.length_take, List.length_map, KeyMap.size]
          omega
      · rw [if_pos hperm]
        exact h.withCtrl trivial
  | get todo =>
    rw [AtCtrl, hs] at hctrl
    cases todo with
    | nil => exact h.withCtrl hctrl
    | cons slot rest =>
      dsimp only
      cases hget : s.tenant.get? slot with
      | none => exact h.withCtrl trivial
      | some old =>
        dsimp only
        split
        · exact h.withCtrl ⟨hget, hctrl⟩
        · exact h.withCtrl trivial
  | read slot old rest =>
    rw [AtCtrl, hs] at hctrl
    dsimp only
    cases hget : localGet C kek w.io slot s.file with
    | noEntry => exact h.withCtrl hctrl
    | error => exact h.withCtrl trivial
    | ok pt =>
      dsimp only
      by_cases heq : CString.ofBytes pt = old
      · rw [if_pos heq]
        obtain ⟨e, hentry, hopen⟩ := entry_of_ok hget
        exact h.withCtrl ⟨hctrl, localReads_iff.mpr ⟨e, pt, hentry, hopen, heq⟩⟩
      · rw [if_neg heq]
        exact h.withCtrl trivial
  | salt slot old rest =>
    rw [AtCtrl, hs] at hctrl
    refine h.withFile (getOrCreateSalt_keeps w.io w.salt s.file) ?_
    split
    · exact hctrl
    · trivial
  | set slot old rest =>
    rw [AtCtrl, hs] at hctrl
    obtain ⟨hkeeps, hreads⟩ := setImpl_keeps hC hs hfits
    refine h.withFile hkeeps ?_
    split
    case isTrue hrc => exact ⟨hctrl, hreads hrc⟩
    case isFalse => trivial
  | delete slot old rest =>
    rw [AtCtrl, hs] at hctrl
    obtain ⟨⟨hheld, hsize⟩, hreads⟩ := hctrl
    cases w.deleted with
    | deleted =>
      refine h.erase hheld hreads ?_
      have hless := KeyMap.size_erase hheld
      change (s.tenant.erase slot).size = rest.length
      omega
    | lost => exact h.erase hheld hreads trivial
    | failed => exact h.withCtrl trivial
  | idle => exact h
  | done => exact h
  | failed => exact h

theorem Inv.step (h : Inv C kek tenant file s) {event : Event} (hfits : Fits s event) :
    Inv C kek tenant file (TenantBind.step C kek s event) := by
  cases event with
  | start =>
    unfold TenantBind.step
    dsimp only
    split
    · exact h.withCtrl trivial
    · exact h.withCtrl trivial
    · exact h.withCtrl trivial
    · exact h
  | next w => exact Inv.next hC h hfits
  | interrupt => exact h.withCtrl trivial

theorem Inv.run (h : Inv C kek tenant file s) {events : List Event} (hfits : Fitting C kek s events) :
    Inv C kek tenant file (TenantBind.run C kek s events) := by
  induction events generalizing s with
  | nil => exact h
  | cons event rest ih => exact ih (Inv.step hC h hfits.1) hfits.2

omit hC in
theorem Inv.moves (h : Inv C kek tenant file s) : Moves C kek tenant file s := by
  have hempty : s.ctrl = .done → s.tenant.rows = [] := by
    intro hdone
    have hctrl := h.ctrl
    rw [AtCtrl, hdone] at hctrl
    exact List.eq_nil_of_length_eq_zero hctrl
  have hgone : s.ctrl = .done → ∀ slot secret, ¬s.tenant.get? slot = some secret := by
    intro hdone slot secret hget
    have hmem := KeyMap.get?_eq_some_iff.mp hget
    rw [hempty hdone] at hmem
    cases hmem
  constructor
  case kept => exact h.kept
  case untouched => exact h.untouched
  case conflict =>
    intro slot secret hheld hentry hdiffers
    have hstuck := h.stuck slot secret hheld hentry hdiffers
    exact ⟨hstuck, fun hdone => hgone hdone slot secret hstuck⟩
  case done =>
    intro hdone
    refine ⟨hempty hdone, fun slot secret hheld => ?_⟩
    exact (h.kept slot secret hheld).resolve_left (hgone hdone slot secret)

/-- As long as every copy fits, moving the credentials loses none, whatever fails and however often it
    is interrupted. -/
theorem moves_of_fitting (tenant : KeyMap Slot CString) (file : File) (events : List Event)
    (hfits : Fitting C kek (TenantBind.start tenant file) events) :
    Moves C kek tenant file (TenantBind.run C kek (TenantBind.start tenant file) events) :=
  (Inv.run hC (Inv.start tenant file) hfits).moves

end Inv

/-! ## One credential -/

/-- A backend with one credential. -/
def single (slot : Slot) (secret : CString) : KeyMap Slot CString := KeyMap.empty.put slot secret

/-- Every call goes through. -/
def fine (slot : Slot) : World := ⟨some [slot], true, Io.fine, sampleSalt, sampleDraw, .deleted⟩

/-- The calls that move it: none is interrupted, and none fails. -/
def moveOne (slot : Slot) : List Event := .start :: List.replicate 7 (.next (fine slot))

/-- The local store accepts the credential: it has no entry of it, a vault, and then a copy. -/
structure Accepts (C : Crypto) (kek : Kek) (slot : Slot) (secret : CString) (file file' file'' : File) : Prop where
  names : entry slot = slot
  length : secret.val.length ≤ secretMax
  absent : localGet C kek Io.fine slot file = .noEntry
  salted : getOrCreateSalt Io.fine serverPrincipal sampleSalt file = ⟨file', 0⟩
  copied : setImpl C Io.fine serverPrincipal (some kek) none slot.1 slot.2 secret true sampleDraw file' = ⟨file'', 0⟩

section MoveOne

variable {slot : Slot} {secret : CString} {file file' file'' : File} (h : Accepts C kek slot secret file file' file'')

include h

theorem next_list : next C kek ⟨single slot secret, file, .list⟩ (fine slot) =
    ⟨single slot secret, file, .get [slot]⟩ := by
  have hkeys : [slot].Perm ((single slot secret).rows.map Prod.fst) := List.Perm.refl _
  simp only [next, fine]
  rw [if_neg (not_not.mpr hkeys), List.map_singleton, h.names]
  rfl

theorem next_get : next C kek ⟨single slot secret, file, .get [slot]⟩ (fine slot) =
    ⟨single slot secret, file, .read slot secret []⟩ := by
  have hget : (single slot secret).get? slot = some secret := KeyMap.get?_put_self _ _ _
  simp only [next, hget]
  rw [if_pos ⟨rfl, h.length⟩]

theorem next_read : next C kek ⟨single slot secret, file, .read slot secret []⟩ (fine slot) =
    ⟨single slot secret, file, .salt slot secret []⟩ := by
  simp only [next, fine, h.absent]

theorem next_salt : next C kek ⟨single slot secret, file, .salt slot secret []⟩ (fine slot) =
    ⟨single slot secret, file', .set slot secret []⟩ := by
  simp [next, fine, h.salted]

theorem next_set : next C kek ⟨single slot secret, file', .set slot secret []⟩ (fine slot) =
    ⟨single slot secret, file'', .delete slot secret []⟩ := by
  simp [next, fine, h.copied]

theorem run_moveOne :
    run C kek (start (single slot secret) file) (moveOne slot) = ⟨(single slot secret).erase slot, file'', .done⟩ := by
  change next C kek (next C kek (next C kek (next C kek (next C kek (next C kek (next C kek
    ⟨single slot secret, file, .list⟩ (fine slot)) (fine slot)) (fine slot)) (fine slot)) (fine slot))
      (fine slot)) (fine slot) = _
  rw [next_list h, next_get h, next_read h, next_salt h, next_set h]
  rfl

omit h in
theorem fits_of_ctrl {s : State} {event : Event} (hs : ∀ slot old rest, s.ctrl ≠ .set slot old rest) :
    Fits s event := by
  cases event with
  | next w => exact fun slot old rest hset => absurd hset (hs slot old rest)
  | _ => trivial

theorem fitting_moveOne (hroom : Fits ⟨single slot secret, file', .set slot secret []⟩ (.next (fine slot))) :
    Fitting C kek (start (single slot secret) file) (moveOne slot) := by
  refine ⟨trivial, fits_of_ctrl nofun, ?_⟩
  change Fitting C kek (next C kek ⟨single slot secret, file, .list⟩ (fine slot)) _
  rw [next_list h]
  refine ⟨fits_of_ctrl nofun, ?_⟩
  change Fitting C kek (next C kek ⟨single slot secret, file, .get [slot]⟩ (fine slot)) _
  rw [next_get h]
  refine ⟨fits_of_ctrl nofun, ?_⟩
  change Fitting C kek (next C kek ⟨single slot secret, file, .read slot secret []⟩ (fine slot)) _
  rw [next_read h]
  refine ⟨fits_of_ctrl nofun, ?_⟩
  change Fitting C kek (next C kek ⟨single slot secret, file, .salt slot secret []⟩ (fine slot)) _
  rw [next_salt h]
  refine ⟨hroom, ?_⟩
  change Fitting C kek (next C kek ⟨single slot secret, file', .set slot secret []⟩ (fine slot)) _
  rw [next_set h]
  exact ⟨fits_of_ctrl nofun, fits_of_ctrl nofun, trivial⟩

end MoveOne

theorem setImpl_onlyIfAbsent {io : Io} (slot : Slot) {old : CString} {draw : Draw} {file : File} {root : CJson}
    (hload : loadVault io file = some root) (hfind : findCred root slot.1 slot.2 = none) :
    setImpl C io serverPrincipal (some kek) none slot.1 slot.2 old true draw file =
      setImpl C io serverPrincipal (some kek) none slot.1 slot.2 old false draw file := by
  rw [setImpl, setImpl, hload]
  simp [hfind]

section Full

open MapHistory (filled slotName longSecret readable_filled exists_filled set_filled slotName_injective)

/-- Between the first of the longest secrets and the ninety-sixth the vault gets too long. -/
theorem exists_last_readable : ∃ n < 96, Readable (filled n).file ∧ ¬Readable (filled (n + 1)).file := by
  by_contra hnone
  have hall : ∀ n ≤ 96, Readable (filled n).file := by
    intro n
    induction n with
    | zero =>
      intro _ content hcontent
      cases hcontent
      exact (by decide +kernel : (VaultFile.fresh (key "server") sampleSalt).Small)
    | succ n ih =>
      intro hn
      by_contra hlong
      exact hnone ⟨n, by omega, ih (by omega), hlong⟩
  exact MapHistory.not_readable_fill (hall 96 le_rfl)

/-- One more secret than the vault has room for: it is copied, deleted in the backend, and lost with all the others. -/
theorem not_moves_filled : ∃ n < 96,
    ¬Moves sampleCrypto sampleKek (single (key "a", slotName n) longSecret) (filled n).file
      (run sampleCrypto sampleKek (start (single (key "a", slotName n) longSecret) (filled n).file)
        (moveOne (key "a", slotName n))) := by
  obtain ⟨n, hn, hread, hlong⟩ := exists_last_readable
  refine ⟨n, hn, fun h => ?_⟩
  obtain ⟨v, hfile, hslots, -⟩ := exists_filled (by omega) hread
  rw [hfile] at hread
  have hv := readable_text.mp hread
  have hload := VaultFile.loadVault_small hv
  have hfind : findCred v.json (key "a") (slotName n) = none := by
    rw [VaultFile.findCred_json, Table.find?_eq_none_iff.mpr]
    · rfl
    · intro s hs hslot
      have hmem : s.slot ∈ (List.range n).map fun i => (key "a", slotName i) := hslots ▸ List.mem_map_of_mem hs
      obtain ⟨i, hi, hname⟩ := List.mem_map.mp hmem
      exact (List.mem_range.mp hi).ne (slotName_injective (congrArg Prod.snd (hname.trans hslot)))
  obtain ⟨aad, hset⟩ := set_filled hv (show n < 100 by omega)
  have hafter : (filled (n + 1)).file = some (v.put (MapHistory.filledEntry aad n)).text := by
    rw [MapHistory.filled_succ, MapHistory.file_set, hfile, hset]
  have hentry : entry (key "a", slotName n) = (key "a", slotName n) := by
    have hshort := (MapHistory.slotName_short n (by omega)).1
    rw [entry, CString.truncate_of_length_le (show (key "a").val.length ≤ 63 by decide),
      CString.truncate_of_length_le (show (slotName n).val.length ≤ 63 by omega)]
  have hsecret : longSecret.val.length ≤ secretMax := by rw [longSecret, List.length_replicate]
  have habsent : localGet sampleCrypto sampleKek Io.fine (key "a", slotName n) (some v.text) = .noEntry := by
    rw [localGet_of_loadVault _ _ hload, hfind]
  have hsalt := VaultFile.getOrCreateSalt_text hv (show serverPrincipal ≠ .empty by decide) sampleSalt
  have hcopy := (setImpl_onlyIfAbsent (key "a", slotName n) hload hfind).trans hset
  rw [hfile, run_moveOne ⟨hentry, hsecret, habsent, hsalt, hcopy⟩] at h
  rcases h.kept (key "a", slotName n) longSecret (KeyMap.get?_put_self _ _ _) with hheld | ⟨pt, hget, -⟩
  · rw [KeyMap.get?_erase, if_pos rfl] at hheld
    cases hheld
  · rw [hafter] at hlong
    refine not_ok_of_unloaded ?_ _ pt hget
    rw [VaultFile.loadVault_text, if_neg fun hsmall => hlong (readable_text.mpr hsmall)]

end Full

/-- The first credential of all fits. -/
theorem moves_of_fitting_first : Moves sampleCrypto sampleKek (single (key "a", key "c") (key "s")) none
    (run sampleCrypto sampleKek (start (single (key "a", key "c") (key "s")) none) (moveOne (key "a", key "c"))) := by
  have hsmall : (VaultFile.fresh serverPrincipal sampleSalt).Small := by decide +kernel
  have hload := VaultFile.loadVault_small hsmall
  have haccepts : Accepts sampleCrypto sampleKek (key "a", key "c") (key "s") none
      (some (VaultFile.fresh serverPrincipal sampleSalt).text)
      (setImpl sampleCrypto Io.fine serverPrincipal (some sampleKek) none (key "a") (key "c") (key "s") true sampleDraw
        (some (VaultFile.fresh serverPrincipal sampleSalt).text)).file := by
    have hargs : ¬(serverPrincipal = .empty ∨ ¬Io.fine.lock = true) := by decide
    have hsalt : getOrCreateSalt Io.fine serverPrincipal sampleSalt none =
      ⟨some (VaultFile.fresh serverPrincipal sampleSalt).text, 0⟩ := by
      rw [getOrCreateSalt, if_neg hargs]
      exact VaultFile.writeVaultFile_json (VaultFile.fresh serverPrincipal sampleSalt) none
    refine ⟨by decide, by decide, rfl, hsalt, ?_⟩
    rw [setImpl_onlyIfAbsent (key "a", key "c") hload (by decide), VaultFile.setImpl_text _ hsmall]
    rfl
  refine moves_of_fitting sampleCrypto_correct _ _ _ (fitting_moveOne haccepts ?_)
  intro slot old rest hctrl _ _ _ root items hroot hitems
  cases hctrl
  cases hload.symm.trans hroot
  cases (VaultFile.fresh serverPrincipal sampleSalt).credsArray_json.symm.trans hitems
  decide +kernel

end TenantBind

end VaultStore
