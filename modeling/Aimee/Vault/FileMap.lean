-- SUMMARY: The file vault as a map from slots to secrets: what every history of writes leaves readable, and where it stops.
import Aimee.Vault.FileOps

/-!
# The vault as a map

The credentials of a principal are a map from slots to secrets, each readable by its owner, by the
server, or by both. A history of writes with one pair of keys keeps the file and the map together
while the file stays short enough to be read; once it is longer, no read finds anything.
-/

namespace VaultStore

/-- What a slot holds: the secret and the two ways of reading it. -/
structure Stored where
  secret : CString
  user : Bool
  server : Bool

abbrev Slots := CString × CString → Option Stored

/-- What a read under the user key returns. -/
def Slots.get (m : Slots) (agent cred : CString) : ReadResult :=
  match m (agent, cred) with
  | none => .noEntry
  | some st => if st.user then .ok st.secret.val else .error

/-- What a read under the server key returns. -/
def Slots.getServer (m : Slots) (agent cred : CString) : ReadResult :=
  match m (agent, cred) with
  | none => .noEntry
  | some st => if st.server then .ok st.secret.val else .noEntry

/-- The wrap of a key, if there is to be one. -/
def wrapIf (C : Crypto) (kek : Kek) (dek : Dek) (there : Bool) :
    Option WrappedDek := if there then some (C.wrap kek dek) else none

namespace MapHistory

/-- An operation of a history, with what it draws. -/
inductive Op where
  | getOrCreateSalt (salt : Salt)
  | set (agent cred secret : CString) (draw : Draw)
  | setDual (agent cred secret : CString) (draw : Draw)
  | setServer (agent cred secret : CString) (draw : Draw)
  | writeBatch (agent : CString) (writes : List BatchWrite)
  | delete (agent cred : CString)
  | addServerWraps

/-- What a batch makes of the slots. -/
def batchEffect (agent : CString) (m : Slots) (w : BatchWrite) : Slots :=
  Function.update m (agent, w.credential) (w.secret.map fun secret => ⟨secret, true, false⟩)

/-- What an operation that succeeds makes of the slots. -/
def Op.effect (m : Slots) : Op → Slots
  | .getOrCreateSalt _ => m
  | .set agent cred secret _ => Function.update m (agent, cred) (some ⟨secret, true, false⟩)
  | .setDual agent cred secret _ => Function.update m (agent, cred) (some ⟨secret, true, true⟩)
  | .setServer agent cred secret _ => Function.update m (agent, cred) (some ⟨secret, false, true⟩)
  | .writeBatch agent writes => writes.foldl (batchEffect agent) m
  | .delete agent cred => Function.update m (agent, cred) none
  | .addServerWraps => fun slot => (m slot).map fun st => { st with server := true }

/-- The slots an operation is on. -/
def Op.on : Op → CString × CString → Prop
  | .getOrCreateSalt _, _ => False
  | .set agent cred _ _, slot => slot = (agent, cred)
  | .setDual agent cred _ _, slot => slot = (agent, cred)
  | .setServer agent cred _ _, slot => slot = (agent, cred)
  | .writeBatch agent writes, slot => ∃ w ∈ writes, slot = (agent, w.credential)
  | .delete agent cred, slot => slot = (agent, cred)
  | .addServerWraps, _ => True

section

variable (C : Crypto) (principal : CString) (userKek serverKek : Kek)

/-- The operation with its keys. -/
def Op.toOp : Op → VaultStore.Op
  | .getOrCreateSalt salt => .getOrCreateSalt salt
  | .set agent cred secret draw => .set (some userKek) none agent cred secret draw
  | .setDual agent cred secret draw => .set (some userKek) (some serverKek) agent cred secret draw
  | .setServer agent cred secret draw => .set none (some serverKek) agent cred secret draw
  | .writeBatch agent writes => .writeBatch userKek agent writes
  | .delete agent cred => .delete agent cred
  | .addServerWraps => .addServerWraps userKek serverKek

/-- The file, and the map of the writes that succeeded. -/
structure State where
  file : File
  slots : Slots

def step (s : State) (op : Op) : State :=
  let done := (op.toOp userKek serverKek).exec C principal s.file
  ⟨done.file, if done.rc = 0 then op.effect s.slots else s.slots⟩

/-- From no vault at all. -/
def start : State := ⟨none, fun _ => none⟩

def run (history : List Op) : State := history.foldl (step C principal userKek serverKek) start

/-- Both reads of every slot return what the map says, into any buffer the secret fits in. -/
def ReadsMap (s : State) : Prop :=
  ∀ agent cred outLen, 0 < outLen → (∀ st ∈ s.slots (agent, cred), st.secret.val.length < outLen) →
    get C Io.fine principal userKek agent cred outLen s.file = s.slots.get agent cred ∧
      getServer C Io.fine principal serverKek agent cred outLen s.file = s.slots.getServer agent cred

/-- No read of a slot the last operation is not on changes over it. -/
def LeavesOthers (history : List Op) : Prop :=
  ∀ before op, history = before ++ [op] → ∀ agent cred, ¬op.on (agent, cred) → ∀ outLen,
    get C Io.fine principal userKek agent cred outLen (run C principal userKek serverKek history).file =
        get C Io.fine principal userKek agent cred outLen (run C principal userKek serverKek before).file ∧
      getServer C Io.fine principal serverKek agent cred outLen (run C principal userKek serverKek history).file =
        getServer C Io.fine principal serverKek agent cred outLen (run C principal userKek serverKek before).file

end

/-! ## Entries -/

/-- The entry holds what the slot holds. -/
structure Holds (C : Crypto) (principal : CString) (userKek serverKek : Kek) (s : Sealed) (st : Stored)
    (aad : List UInt8) (dek : Dek) :
    Prop where
  bound : buildAad principal s.agent s.cred = some aad
  decrypt : C.decrypt dek aad s.nonce s.ciphertext s.tag = some st.secret.val
  length : s.ciphertext.length = st.secret.val.length
  user : s.user = wrapIf C userKek dek st.user
  server : s.server = wrapIf C serverKek dek st.server

def Opens (C : Crypto) (principal : CString) (userKek serverKek : Kek) (s : Sealed) (st : Stored) : Prop :=
  ∃ aad dek, Holds C principal userKek serverKek s st aad dek

/-- The entries hold what the map says, slot by slot. -/
def Agrees (C : Crypto) (principal : CString) (userKek serverKek : Kek) (v : VaultFile) (m : Slots) : Prop :=
  ∀ slot, Option.Rel (Opens C principal userKek serverKek) (v.creds.find? slot) (m slot)

/-- What a read returns of a slot. -/
def readOf (absent : ReadResult) (there : Bool) (outLen : ℕ) (secret : CString) : ReadResult :=
  if there then if outLen ≤ secret.val.length then .error else .ok secret.val else absent

section Entries

variable {C : Crypto} (hC : C.Correct) {principal : CString} {userKek serverKek : Kek} {s : Sealed} {st : Stored}

include hC

theorem openWith_wrapIf {aad : List UInt8} {dek : Dek}
    (h : Holds C principal userKek serverKek s st aad dek) (kek : Kek)
    (absent : ReadResult) (there : Bool) (outLen : ℕ) :
    s.openWith C principal kek absent s.agent s.cred outLen (wrapIf C kek dek there) =
      readOf absent there outLen st.secret := by
  cases there with
  | false => rfl
  | true =>
    simp only [Sealed.openWith, wrapIf, readOf, if_true, h.bound, h.length, hC.unwrap_wrap, Option.bind_some, h.decrypt]

/-- The entry a write stages holds what was written. -/
theorem opens_stage {agent cred secret : CString} {aad : List UInt8} (haad : buildAad principal agent cred = some aad)
    (user server : Bool) (draw : Draw) :
    Opens C principal userKek serverKek
      (Sealed.stage C aad (if user then some userKek else none) (if server then some serverKek else none)
        agent cred secret draw)
      ⟨secret, user, server⟩ := by
  refine ⟨aad, draw.dek, haad, hC.decrypt_encrypt _ _ _ _, hC.length_encrypt _ _ _ _, ?_, ?_⟩
  · cases user <;> rfl
  · cases server <;> rfl

/-- An entry that is given a server wrap holds the same secret. -/
theorem opens_addServer {s' : Sealed} (h : Opens C principal userKek serverKek s st)
    (hadd : s.addServer C userKek serverKek = some s') :
    Opens C principal userKek serverKek s' { st with server := true } := by
  obtain ⟨aad, dek, h⟩ := h
  unfold Sealed.addServer at hadd
  split at hadd
  · next hserver =>
    obtain rfl := Option.some.inj hadd
    refine ⟨aad, dek, h.bound, h.decrypt, h.length, h.user, ?_⟩
    rw [h.server] at hserver ⊢
    cases hflag : st.server with
    | true => rfl
    | false => simp [hflag, wrapIf] at hserver
  · obtain ⟨dek', hdek', rfl⟩ := Option.map_eq_some_iff.mp hadd
    obtain ⟨w, hw, hunwrap⟩ := Option.bind_eq_some_iff.mp hdek'
    refine ⟨aad, dek, h.bound, h.decrypt, h.length, h.user, ?_⟩
    rw [h.user] at hw
    cases hflag : st.user with
    | false => simp [hflag, wrapIf] at hw
    | true =>
      rw [hflag] at hw
      obtain rfl := Option.some.inj hw
      rw [hC.unwrap_wrap] at hunwrap
      obtain rfl := Option.some.inj hunwrap
      rfl

end Entries

/-! ## Operations -/

section Operations

variable {C : Crypto} (hC : C.Correct) {principal : CString} {userKek serverKek : Kek} {v v' : VaultFile} {m : Slots}

theorem agrees_fresh (salt : Salt) :
    Agrees C principal userKek serverKek (VaultFile.fresh principal salt) fun _ => none :=
  fun _ => .none

theorem agrees_put {s : Sealed} {st : Stored} (h : Agrees C principal userKek serverKek v m)
    (hs : Opens C principal userKek serverKek s st) :
    Agrees C principal userKek serverKek (v.put s) (Function.update m s.slot (some st)) := by
  intro slot
  have hfind := Table.find?_replace v.creds s slot
  change (v.put s).creds.find? slot = _ at hfind
  rw [hfind, Function.update_apply]
  split
  · exact .some hs
  · exact h slot

theorem agrees_remove (h : Agrees C principal userKek serverKek v m) (agent cred : CString) :
    Agrees C principal userKek serverKek (v.remove agent cred) (Function.update m (agent, cred) none) := by
  intro slot
  have hfind := Table.find?_remove v.creds (agent, cred) slot
  change (v.remove agent cred).creds.find? slot = _ at hfind
  rw [hfind, Function.update_apply]
  split
  · exact .none
  · exact h slot

include hC

section

variable (h : Agrees C principal userKek serverKek v m)
include h

theorem agrees_stage (user server : Bool) {agent cred secret : CString} {draw : Draw}
    (hstage : v.stage C principal (if user then some userKek else none) (if server then some serverKek else
      none) agent cred secret draw =
      some v') :
    Agrees C principal userKek serverKek v' (Function.update m (agent, cred) (some ⟨secret, user, server⟩)) := by
  obtain ⟨aad, haad, rfl⟩ := Option.map_eq_some_iff.mp hstage
  exact agrees_put h (opens_stage hC haad user server draw)

theorem agrees_stageWrite {agent : CString} {w : BatchWrite}
    (hw : v.stageWrite C principal userKek agent w = some v') :
    Agrees C principal userKek serverKek v' (batchEffect agent m w) := by
  unfold VaultFile.stageWrite at hw
  unfold batchEffect
  cases hsecret : w.secret with
  | some secret =>
    rw [hsecret] at hw
    exact agrees_stage hC h true false hw
  | none =>
    rw [hsecret] at hw
    cases hw
    exact agrees_remove h agent w.credential

theorem agrees_stageWrites {agent : CString} {writes : List BatchWrite}
    (hw : writes.foldlM (VaultFile.stageWrite C principal userKek agent) v = some v') :
    Agrees C principal userKek serverKek v' (writes.foldl (batchEffect agent) m) := by
  induction writes generalizing v m with
  | nil =>
    cases hw
    exact h
  | cons w writes ih =>
    obtain ⟨v₁, hv₁, hrest⟩ := Option.bind_eq_some_iff.mp hw
    exact ih (agrees_stageWrite hC h hv₁) hrest

theorem agrees_addServers (hadd : v.addServers C userKek serverKek = some v') :
    Agrees C principal userKek serverKek v' fun slot => (m slot).map fun st => { st with server := true } := by
  obtain ⟨creds, hcreds, rfl⟩ := Option.map_eq_some_iff.mp hadd
  intro slot
  have hfind := Table.find?_traverse hcreds slot
  change (v.withCreds creds).creds.find? slot = _ at hfind
  have hrel := h slot
  rw [hfind]
  change Option.Rel _ _ ((m slot).map _)
  cases hslot : v.creds.find? slot with
  | none =>
    rw [hslot] at hrel
    generalize m slot = st at hrel ⊢
    cases hrel
    exact .none
  | some s =>
    rw [hslot] at hrel
    generalize m slot = st at hrel ⊢
    cases hrel with
    | some hs =>
      obtain ⟨s', hs'⟩ := Option.isSome_iff_exists.mp (Table.isSome_of_traverse hcreds (Table.mem_of_find? hslot))
      rw [Option.bind_some, hs']
      exact .some (opens_addServer hC hs hs')

end

end Operations

/-! ## Steps -/

section Steps

variable (C : Crypto) (principal : CString) (userKek serverKek : Kek)

/-- On no slots nothing comes of an operation that finds no vault. -/
theorem effect_of_missing (op : Op) (h : ((op.toOp userKek serverKek).exec C principal none).rc = 0) :
    op.effect (fun _ => none) = fun _ => none := by
  have hcases := VaultStore.Op.exec_unloaded C principal (loadVault_none Io.fine) (op.toOp userKek serverKek)
  cases op with
  | getOrCreateSalt salt => rfl
  | delete agent cred => exact Function.update_eq_self _ _
  | addServerWraps => rfl
  | _ =>
    -- A write is refused.
    rcases hcases with hcases | ⟨-, ⟨agent, cred, hop⟩ | ⟨kek, serverKek, hop⟩⟩ | ⟨-, salt, hop, -⟩
    · rw [hcases] at h
      cases h
    · cases hop
    · cases hop
    · cases hop

variable {C principal userKek serverKek} (hC : C.Correct)

include hC

theorem agrees_apply {v v' : VaultFile} {m : Slots} (h : Agrees C principal userKek serverKek v m) {op : Op}
    (hop : (op.toOp userKek serverKek).apply C principal v = some v') :
    Agrees C principal userKek serverKek v' (op.effect m) := by
  have hset (user server : Bool) {agent cred secret : CString} {draw : Draw}
      (hset : v.set C principal (if user then some userKek else none) (if server then some serverKek else
        none) agent cred secret draw =
        some v') : Agrees C principal userKek serverKek v'
          (Function.update m (agent, cred) (some ⟨secret, user, server⟩)) :=
    agrees_stage hC h user server (VaultFile.stage_of_set hset)
  cases op with
  | getOrCreateSalt salt =>
    rw [Op.toOp, VaultStore.Op.apply] at hop
    split at hop
    · cases hop
    · cases hop
      exact h
  | set agent cred secret draw => exact hset true false hop
  | setDual agent cred secret draw => exact hset true true hop
  | setServer agent cred secret draw => exact hset false true hop
  | writeBatch agent writes =>
    rw [Op.toOp, VaultStore.Op.apply, VaultFile.writeBatch] at hop
    split at hop
    · exact agrees_stageWrites hC h hop
    · cases hop
  | delete agent cred =>
    cases hop
    exact agrees_remove h agent cred
  | addServerWraps => exact agrees_addServers hC h hop

end Steps

/-- The file is one the store wrote, and holds the map while it can be read. -/
def Tracks (C : Crypto) (principal : CString) (userKek serverKek : Kek) (s : State) : Prop :=
  s = start ∨ ∃ v : VaultFile, s.file = some v.text ∧ (v.Small → Agrees C principal userKek serverKek v s.slots)

section Runs

variable {C : Crypto} (hC : C.Correct) {principal : CString} {userKek serverKek : Kek}

include hC

theorem tracks_step {s : State} (h : Tracks C principal userKek serverKek s) (op : Op) :
    Tracks C principal userKek serverKek (step C principal userKek serverKek s op) := by
  rcases h with rfl | ⟨v, hfile, hagrees⟩
  · have hslots : (step C principal userKek serverKek start op).slots = fun _ => none := by
      rw [step]
      split
      · next hrc => exact effect_of_missing C principal userKek serverKek op hrc
      · rfl
    have hstart (h : ((op.toOp userKek serverKek).exec C principal none).file = none) :
        step C principal userKek serverKek start op = start := congrArg₂ State.mk h hslots
    rcases VaultStore.Op.exec_unloaded C principal (loadVault_none Io.fine) (op.toOp userKek serverKek) with
      h | ⟨h, -⟩ | ⟨-, salt, -, h⟩
    · exact .inl (hstart (by rw [h]))
    · exact .inl (hstart (by rw [h]))
    · refine .inr ⟨VaultFile.fresh principal salt, congrArg Outcome.file h, fun _ => ?_⟩
      rw [hslots]
      exact agrees_fresh salt
  · right
    by_cases hv : v.Small
    · have hexec := VaultStore.Op.exec_text C principal hv (op.toOp userKek serverKek)
      rw [step, hfile, hexec]
      cases hop : (op.toOp userKek serverKek).apply C principal v with
      | none => exact ⟨v, rfl, hagrees⟩
      | some v' => exact ⟨v', rfl, fun _ => agrees_apply hC (hagrees hv) hop⟩
    · refine ⟨v, ?_, fun h => absurd h hv⟩
      rw [step, hfile]
      exact VaultStore.Op.file_exec_long C principal hv (op.toOp userKek serverKek)

theorem tracks_foldl {s : State} (h : Tracks C principal userKek serverKek s) (history : List Op) :
    Tracks C principal userKek serverKek (history.foldl (step C principal userKek serverKek) s) := by
  induction history generalizing s with
  | nil => exact h
  | cons op history ih => exact ih (tracks_step hC h op)

theorem tracks_run (history : List Op) :
    Tracks C principal userKek serverKek (run C principal userKek serverKek history) :=
  tracks_foldl hC (.inl rfl) history

omit hC in
/-- A file that can be read after an operation could be read before it. -/
theorem readable_of_step {s : State} (h : Tracks C principal userKek serverKek s) (op : Op)
    (hread : Readable (step C principal userKek serverKek s op).file) : Readable s.file := by
  rcases h with rfl | ⟨v, hfile, -⟩
  · exact fun content hcontent => by cases hcontent
  · rw [hfile, readable_text]
    by_contra hv
    rw [step, hfile] at hread
    dsimp only at hread
    rw [VaultStore.Op.file_exec_long C principal hv, readable_text] at hread
    exact hv hread

end Runs

/-! ## Reads -/

/-- What a read of a slot returns into a buffer of that length. -/
def Slots.read (m : Slots) (absent : ReadResult) (there : Stored → Bool) (agent cred : CString)
    (outLen : ℕ) : ReadResult :=
  match m (agent, cred) with
  | none => .noEntry
  | some st => readOf absent (there st) outLen st.secret

theorem Slots.read_get {m : Slots} {agent cred : CString} {outLen : ℕ}
    (h : ∀ st ∈ m (agent, cred), st.secret.val.length < outLen) :
    Slots.read m .error Stored.user agent cred outLen = m.get agent cred := by
  rw [Slots.read, VaultStore.Slots.get]
  cases hslot : m (agent, cred) with
  | none => rfl
  | some st => simp only [readOf, if_neg (not_le.mpr (h st hslot))]

theorem Slots.read_getServer {m : Slots} {agent cred : CString} {outLen : ℕ}
    (h : ∀ st ∈ m (agent, cred), st.secret.val.length < outLen) :
    Slots.read m .noEntry Stored.server agent cred outLen = m.getServer agent cred := by
  rw [Slots.read, VaultStore.Slots.getServer]
  cases hslot : m (agent, cred) with
  | none => rfl
  | some st => simp only [readOf, if_neg (not_le.mpr (h st hslot))]

theorem Slots.read_congr {m m' : Slots} {agent cred : CString} (h : m' (agent, cred) = m (agent, cred))
    (absent : ReadResult)
    (there : Stored → Bool) (outLen : ℕ) :
    Slots.read m' absent there agent cred outLen = Slots.read m absent there agent cred outLen := by
  rw [Slots.read, Slots.read, h]

section Reads

variable {C : Crypto} (hC : C.Correct) {principal : CString} {userKek serverKek : Kek} {v : VaultFile} {m : Slots}

include hC

section

variable (h : Agrees C principal userKek serverKek v m)
include h

theorem read_of_agrees (kek : Kek) (absent : ReadResult) (there : Stored → Bool)
    (wrap : Sealed → Option WrappedDek) (agent cred : CString) (outLen : ℕ)
    (hwrap : ∀ s st aad dek, Holds C principal userKek serverKek s st aad dek → wrap s = wrapIf C kek dek (there st)) :
    (match v.creds.find? (agent, cred) with
      | none => .noEntry
      | some s => s.openWith C principal kek absent agent cred outLen (wrap s)) =
          Slots.read m absent there agent cred outLen := by
  have hrel := h (agent, cred)
  rw [Slots.read]
  generalize m (agent, cred) = st at hrel ⊢
  cases hslot : v.creds.find? (agent, cred) with
  | none =>
    rw [hslot] at hrel
    cases hrel
    rfl
  | some s =>
    rw [hslot] at hrel
    cases hrel with
    | some hs =>
      obtain ⟨aad, dek, hs⟩ := hs
      have hkey : s.slot = (agent, cred) := Table.key_of_find? hslot
      obtain ⟨rfl, rfl⟩ := Prod.ext_iff.mp hkey
      dsimp only
      rw [hwrap s _ aad dek hs]
      exact openWith_wrapIf hC hs kek absent _ outLen

theorem get_of_agrees (hv : v.Small) (agent cred : CString) {outLen : ℕ}
    (hlen : 0 < outLen) :
    get C Io.fine principal userKek agent cred outLen (some v.text) = Slots.read m .error Stored.user agent
      cred outLen := by
  rw [VaultFile.get_text C hv principal userKek agent cred hlen]
  exact read_of_agrees hC h userKek .error Stored.user Sealed.user agent cred outLen fun _ _ _ _ hs => hs.user

theorem getServer_of_agrees (hv : v.Small) (agent cred : CString) {outLen : ℕ}
    (hlen : 0 < outLen) :
    getServer C Io.fine principal serverKek agent cred outLen (some v.text) =
      Slots.read m .noEntry Stored.server agent cred outLen := by
  rw [VaultFile.getServer_text C hv principal serverKek agent cred hlen]
  exact read_of_agrees hC h serverKek .noEntry Stored.server Sealed.server agent cred outLen fun _ _ _ _ hs => hs.server

end

omit hC in
theorem readCred_missing (C : Crypto) (principal : CString) (kek : Kek) (field : String)
    (absent : ReadResult) (agent cred : CString)
    {outLen : ℕ} (hlen : 0 < outLen) :
    readCred C Io.fine principal kek field absent agent cred outLen none = .noEntry := by
  rw [readCred, if_neg hlen.ne']
  rfl

omit hC in
theorem readCred_long {v : VaultFile} (hv : ¬v.Small) (C : Crypto) (principal : CString) (kek : Kek)
    (field : String) (absent : ReadResult) (agent cred : CString) (outLen : ℕ) :
    readCred C Io.fine principal kek field absent agent cred outLen (some v.text) = .error := by
  rw [readCred, v.loadVault_text, if_neg hv]
  split <;> rfl

theorem reads_of_tracks {s : State} (h : Tracks C principal userKek serverKek s) (hread : Readable s.file)
    (agent cred : CString) {outLen : ℕ} (hlen : 0 < outLen) :
    get C Io.fine principal userKek agent cred outLen s.file = Slots.read s.slots .error Stored.user agent cred outLen ∧
      getServer C Io.fine principal serverKek agent cred outLen s.file =
        Slots.read s.slots .noEntry Stored.server agent cred outLen := by
  rcases h with rfl | ⟨v, hfile, hagrees⟩
  · exact ⟨readCred_missing C principal userKek _ _ agent cred hlen, readCred_missing C principal serverKek
      _ _ agent cred hlen⟩
  · have hv : v.Small := hread _ hfile
    rw [hfile]
    exact ⟨get_of_agrees hC (hagrees hv) hv agent cred hlen, getServer_of_agrees hC (hagrees hv) hv agent cred hlen⟩

omit hC in
/-- What the operation is not on keeps its place in the map. -/
theorem effect_of_not_on (m : Slots) (op : Op) {slot : CString × CString} (h : ¬op.on slot) :
    op.effect m slot = m slot := by
  cases op with
  | getOrCreateSalt salt => rfl
  | set agent cred secret draw => exact Function.update_of_ne h _ _
  | setDual agent cred secret draw => exact Function.update_of_ne h _ _
  | setServer agent cred secret draw => exact Function.update_of_ne h _ _
  | writeBatch agent writes =>
    change writes.foldl (batchEffect agent) m slot = m slot
    replace h : ∀ w ∈ writes, slot ≠ (agent, w.credential) := fun w hw hslot => h ⟨w, hw, hslot⟩
    induction writes generalizing m with
    | nil => rfl
    | cons w writes ih =>
      obtain ⟨hw, hrest⟩ := List.forall_mem_cons.mp h
      rw [List.foldl_cons, ih _ hrest]
      exact Function.update_of_ne hw _ _
  | delete agent cred => exact Function.update_of_ne h _ _
  | addServerWraps => exact absurd trivial h

end Reads

/-- Whatever the map says, the server read of a slot is never an error. -/
theorem not_readsMap_of_long {C : Crypto} {principal : CString} {userKek serverKek : Kek} {s : State}
    (h : Tracks C principal userKek serverKek s) (hlong : ¬Readable s.file) :
    ¬ReadsMap C principal userKek serverKek s := by
  intro hreads
  rcases h with rfl | ⟨v, hfile, -⟩
  · exact hlong fun content hcontent => by cases hcontent
  · have hv : ¬v.Small := fun hv => hlong (by rw [hfile]; exact readable_text.mpr hv)
    let outLen := ((s.slots (.empty, .empty)).elim 0 fun st => st.secret.val.length) + 1
    have hfits : ∀ st ∈ s.slots (.empty, .empty), st.secret.val.length < outLen := by
      intro st hst
      simp only [outLen, Option.mem_def.mp hst, Option.elim_some]
      exact Nat.lt_succ_self _
    have hread := (hreads .empty .empty outLen (Nat.succ_pos _) hfits).2
    rw [hfile, getServer, readCred_long hv, VaultStore.Slots.getServer] at hread
    split at hread
    · cases hread
    · split at hread <;> cases hread

section Main

variable {C : Crypto} (hC : C.Correct) (principal : CString) (userKek serverKek : Kek)

include hC

/-- A history of writes with one pair of keys is a map: every slot reads as what was written to it last,
    and no operation changes what another slot reads as, exactly as long as the file can be read. -/
theorem readsMap_iff (history : List Op) :
    ReadsMap C principal userKek serverKek (run C principal userKek serverKek history) ∧
        LeavesOthers C principal userKek serverKek history ↔
      Readable (run C principal userKek serverKek history).file := by
  have htracks : Tracks C principal userKek serverKek (run C principal userKek serverKek history) :=
    tracks_run hC history
  constructor
  · rintro ⟨hreads, -⟩
    by_contra hlong
    exact not_readsMap_of_long htracks hlong hreads
  · intro hread
    refine ⟨fun agent cred outLen hlen hfits => ?_, ?_⟩
    · obtain ⟨hget, hgetServer⟩ := reads_of_tracks hC htracks hread agent cred hlen
      exact ⟨hget.trans (Slots.read_get hfits), hgetServer.trans (Slots.read_getServer hfits)⟩
    · rintro before op rfl agent cred hon outLen
      rcases Nat.eq_zero_or_pos outLen with rfl | hlen
      · exact ⟨rfl, rfl⟩
      · have hbefore : Tracks C principal userKek serverKek (run C principal userKek serverKek before) :=
          tracks_run hC before
        have hlast : run C principal userKek serverKek (before ++ [op]) =
            step C principal userKek serverKek (run C principal userKek serverKek before) op := by
          rw [run, List.foldl_append]
          rfl
        have hreadBefore : Readable (run C principal userKek serverKek before).file := by
          rw [hlast] at hread
          exact readable_of_step hbefore op hread
        have hslot : (run C principal userKek serverKek (before ++ [op])).slots (agent, cred) =
            (run C principal userKek serverKek before).slots (agent, cred) := by
          rw [hlast, step]
          dsimp only
          split
          · exact effect_of_not_on _ op hon
          · rfl
        obtain ⟨hget, hgetServer⟩ := reads_of_tracks hC htracks hread agent cred hlen
        obtain ⟨hget', hgetServer'⟩ := reads_of_tracks hC hbefore hreadBefore agent cred hlen
        rw [hget, hgetServer, hget', hgetServer']
        exact ⟨Slots.read_congr hslot _ _ outLen, Slots.read_congr hslot _ _ outLen⟩

end Main

/-! ## Past the limit -/

/-- A slot of its own for every number. -/
def slotName (i : ℕ) : CString := CString.decimal i

/-- The longest secret there is. -/
def longSecret : CString := ⟨List.replicate secretMax 120, fun h => absurd (List.eq_of_mem_replicate h) (by decide)⟩

/-- A new vault, and as many of the longest secrets. -/
def fill (n : ℕ) : List Op :=
  .getOrCreateSalt sampleSalt :: (List.range n).map fun i => .set (key "a") (slotName i) longSecret sampleDraw

section Fill

/-- The state after the fill, for the server principal. -/
def filled (n : ℕ) : State := run sampleCrypto (key "server") sampleKek sampleKek (fill n)

/-- The entry a write of it leaves. -/
def filledEntry (aad : List UInt8) (n : ℕ) : Sealed :=
  Sealed.stage sampleCrypto aad (some sampleKek) none (key "a") (slotName n) longSecret sampleDraw

theorem slotName_short : ∀ i < 100, (slotName i).val.length ≤ 2 ∧ 124 ∉ (slotName i).val ∧ slotName i ≠ .empty := by
  decide

theorem slotName_injective {i j : ℕ} (h : slotName i = slotName j) : i = j := Wire.decimal_inj (congrArg Subtype.val h)

theorem buildAad_slotName {i : ℕ} (h : i < 100) : ∃ aad, buildAad (key "server") (key "a") (slotName i) = some aad := by
  obtain ⟨hshort, hplain, -⟩ := slotName_short i h
  have hbar : ¬(124 ∈ (key "server").val ∨ 124 ∈ (key "a").val ∨ 124 ∈ (slotName i).val) := by
    rintro (hmem | hmem | hmem)
    · exact absurd hmem (by decide)
    · exact absurd hmem (by decide)
    · exact hplain hmem
  have hlength : ((key "server").val ++ [124] ++ (key "a").val ++ [124] ++ (slotName i).val).length < aadMax := by
    have hp : (key "server").val.length = 6 := by decide
    have ha : (key "a").val.length = 1 := by decide
    simp only [List.length_append, List.length_singleton, hp, ha, aadMax]
    omega
  exact ⟨_, by rw [buildAad, if_neg hbar, if_neg (not_le.mpr hlength)]⟩

/-- One more of them is accepted. -/
theorem set_filled {v : VaultFile} (hv : v.Small) {n : ℕ} (hn : n < 100) :
    ∃ aad, setImpl sampleCrypto Io.fine (key "server") (some sampleKek) none (key "a") (slotName n)
      longSecret false sampleDraw
      (some v.text) = ⟨some (v.put (filledEntry aad n)).text, 0⟩ := by
  obtain ⟨aad, haad⟩ := buildAad_slotName hn
  have hargs : ¬((some sampleKek = none ∧ (none : Option Kek) = none) ∨ key "a" = .empty ∨ slotName n = .empty ∨
      secretMax < longSecret.val.length) := by
    rintro (⟨hkek, -⟩ | hagent | hcred | hlong)
    · cases hkek
    · exact absurd hagent (by decide)
    · exact (slotName_short n hn).2.2 hcred
    · exact absurd hlong (by rw [longSecret, List.length_replicate]; exact lt_irrefl _)
  have hset : v.set sampleCrypto (key "server") (some sampleKek) none (key "a") (slotName n) longSecret sampleDraw =
      some (v.put (filledEntry aad n)) := by
    rw [VaultFile.set, if_neg hargs, VaultFile.stage, haad]
    rfl
  exact ⟨aad, by rw [VaultFile.setImpl_text _ hv, hset]; rfl⟩

theorem file_set (s : State) (n : ℕ) :
    (step sampleCrypto (key "server") sampleKek sampleKek s (.set (key "a") (slotName n) longSecret sampleDraw)).file =
      (setImpl sampleCrypto Io.fine (key "server") (some sampleKek) none (key "a") (slotName n) longSecret
        false sampleDraw s.file).file := by
  rw [step, Op.toOp, VaultStore.Op.exec]

theorem filled_zero : (filled 0).file = some (VaultFile.fresh (key "server") sampleSalt).text := by
  have hwrite := (VaultFile.fresh (key "server") sampleSalt).writeVaultFile_json none
  change (writeVaultFile Io.fine (freshVault (key "server") sampleSalt) none).file = _
  rw [← VaultFile.json_fresh, hwrite]

theorem filled_succ (n : ℕ) :
    filled (n + 1) = step sampleCrypto (key "server") sampleKek sampleKek (filled n)
      (.set (key "a") (slotName n) longSecret sampleDraw) := by
  rw [filled, filled, run, run, fill, List.range_succ, List.map_append, List.foldl_cons, List.foldl_append]
  rfl

/-- A file that can be read with one more of them could be read without it. -/
theorem readable_filled {n : ℕ} (h : Readable (filled (n + 1)).file) : Readable (filled n).file := by
  have htracks : Tracks sampleCrypto (key "server") sampleKek sampleKek (filled n) := tracks_run sampleCrypto_correct _
  rw [filled_succ] at h
  exact readable_of_step htracks _ h

/-- While the file can be read, it has an entry for every write. -/
theorem exists_filled {n : ℕ} (hn : n ≤ 100) (hread : Readable (filled n).file) :
    ∃ v : VaultFile, (filled n).file = some v.text ∧
      v.creds.rows.map Sealed.slot = (List.range n).map (fun i => (key "a", slotName i)) ∧
      ∀ s ∈ v.creds.rows, s.ciphertext.length = secretMax := by
  induction n with
  | zero => exact ⟨VaultFile.fresh _ _, filled_zero, rfl, fun s hs => absurd hs List.not_mem_nil⟩
  | succ n ih =>
    have hbefore := readable_filled hread
    obtain ⟨v, hfile, hslots, hlengths⟩ := ih (by omega) hbefore
    rw [hfile] at hbefore
    obtain ⟨aad, hset⟩ := set_filled (readable_text.mp hbefore) (show n < 100 by omega)
    have hfresh : ∀ s ∈ v.creds.rows, ¬s.slot = (key "a", slotName n) := by
      intro s hs hslot
      have hmem : s.slot ∈ (List.range n).map fun i => (key "a", slotName i) := hslots ▸ List.mem_map_of_mem hs
      obtain ⟨i, hi, hname⟩ := List.mem_map.mp hmem
      have hi' := slotName_injective (congrArg Prod.snd (hname.trans hslot))
      exact absurd (List.mem_range.mp hi) (by omega)
    have hrows : (v.put (filledEntry aad n)).creds.rows = v.creds.rows ++ [filledEntry aad n] := by
      refine (Table.rows_replace v.creds (filledEntry aad n)).trans ?_
      rw [List.eraseP_of_forall_not fun s hs => by rw [decide_eq_true_eq]; exact hfresh s hs]
    refine ⟨v.put (filledEntry aad n), ?_, ?_, ?_⟩
    · rw [filled_succ, file_set, hfile, hset]
    · rw [hrows, List.map_append, hslots, List.range_succ, List.map_append]
      rfl
    · intro s hs
      rw [hrows, List.mem_append, List.mem_singleton] at hs
      rcases hs with hs | rfl
      · exact hlengths s hs
      · exact List.length_replicate

/-- Ninety-six of the longest secrets are more than a read takes. -/
theorem not_readable_fill : ¬Readable (filled 96).file := by
  intro hread
  obtain ⟨v, hfile, hslots, hlengths⟩ := exists_filled (show 96 ≤ 100 by norm_num) hread
  have hsmall : v.text.length ≤ readMax := hread _ hfile
  have hcount : v.creds.rows.length = 96 := by
    have hlength := congrArg List.length hslots
    rwa [List.length_map, List.length_map, List.length_range] at hlength
  have hsum := List.card_nsmul_le_sum (v.creds.rows.map fun s => s.json.printed.length) 87382 fun n hn => by
    obtain ⟨s, hs, rfl⟩ := List.mem_map.mp hn
    have hentry := VaultFile.length_ciphertext_le s
    rw [hlengths s hs, secretMax] at hentry
    omega
  have htext := v.sum_length_le
  rw [List.length_map, hcount, nsmul_eq_mul] at hsum
  rw [readMax] at hsmall
  omega

end Fill

/-- Writes that were all accepted, and nothing can be read any more. -/
theorem readsMap_fill :
    ¬ReadsMap sampleCrypto (key "server") sampleKek sampleKek
    (run sampleCrypto (key "server") sampleKek sampleKek (fill 96)) :=
  not_readsMap_of_long (tracks_run sampleCrypto_correct (fill 96)) not_readable_fill

/-- A credential for both, one for the server, and the first deleted. -/
def sampleHistory : List Op :=
  [.getOrCreateSalt sampleSalt, .setDual (key "a") (key "c") (key "s") sampleDraw,
    .setServer (key "a") (key "d") (key "t") sampleDraw, .delete (key "a") (key "c")]

theorem readsMap_iff_sampleHistory :
    ReadsMap sampleCrypto (key "server") sampleKek sampleKek
      (run sampleCrypto (key "server") sampleKek sampleKek sampleHistory) ∧
      LeavesOthers sampleCrypto (key "server") sampleKek sampleKek sampleHistory := by
  refine (readsMap_iff sampleCrypto_correct (key "server") sampleKek sampleKek sampleHistory).mpr ?_
  have hsmall : ((run sampleCrypto (key "server") sampleKek sampleKek sampleHistory).file.all fun content =>
    content.length ≤ readMax) = true := by
    decide +kernel
  intro content hcontent
  rw [Option.mem_def.mp hcontent] at hsmall
  simpa using hsmall

end MapHistory

end VaultStore
