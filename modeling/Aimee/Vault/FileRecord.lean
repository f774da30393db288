-- SUMMARY: The vault files the store writes, as records: their text, what a load makes of it, and the operations on the record they amount to.
import Mathlib.Algebra.Order.BigOperators.Group.List
import Aimee.Lib.TableRewrite
import Aimee.Vault.FileEdits

/-!
# Vault files as records

Everything the store writes is the text of a record: the salt, the verifier of the user key, and one
sealed entry per slot. On such a text an operation of `FileStore` is an operation on the record, as
long as the text is not too long to be read.
-/

namespace VaultStore

/-- An entry of a vault file. -/
structure Sealed where
  agent : CString
  cred : CString
  user : Option WrappedDek
  server : Option WrappedDek
  nonce : Nonce
  ciphertext : List UInt8
  tag : Tag

namespace Sealed

def slot (s : Sealed) : CString × CString := (s.agent, s.cred)

/-- A binary field, if it is there. -/
def field (name : String) (bs : Option (List UInt8)) : List (CString × CJson) :=
  bs.toList.map fun b => (key name, .string (b64 b))

def json (s : Sealed) : CJson :=
  .object ([(key "agent", .string s.agent), (key "cred", .string s.cred)] ++
    field "wrapped_dek" (s.user.map Subtype.val) ++
    [(key "nonce", .string (b64 s.nonce.val)), (key "ciphertext", .string (b64 s.ciphertext)),
      (key "tag", .string (b64 s.tag.val))] ++
    field "wrapped_dek_server" (s.server.map Subtype.val))

section Items

variable (s : Sealed)

theorem stringItem_agent : stringItem s.json "agent" = some s.agent := rfl

theorem stringItem_cred : stringItem s.json "cred" = some s.cred := rfl

theorem stringItem_user : stringItem s.json "wrapped_dek" = s.user.map fun w => b64 w.val := by
  obtain ⟨agent, cred, user, server, nonce, ciphertext, tag⟩ := s
  cases user <;> cases server <;> rfl

theorem stringItem_nonce : stringItem s.json "nonce" = some (b64 s.nonce.val) := by
  obtain ⟨agent, cred, user, server, nonce, ciphertext, tag⟩ := s
  cases user <;> rfl

theorem stringItem_ciphertext : stringItem s.json "ciphertext" = some (b64 s.ciphertext) := by
  obtain ⟨agent, cred, user, server, nonce, ciphertext, tag⟩ := s
  cases user <;> rfl

theorem stringItem_tag : stringItem s.json "tag" = some (b64 s.tag.val) := by
  obtain ⟨agent, cred, user, server, nonce, ciphertext, tag⟩ := s
  cases user <;> rfl

theorem stringItem_server : stringItem s.json "wrapped_dek_server" = s.server.map fun w => b64 w.val := by
  obtain ⟨agent, cred, user, server, nonce, ciphertext, tag⟩ := s
  cases user <;> cases server <;> rfl

end Items

theorem isSlot_json (s : Sealed) (agent cred : CString) :
    isSlot agent cred s.json = decide (s.slot = (agent, cred)) := by
  rw [isSlot, stringItem_agent, stringItem_cred, slot]
  simp [Prod.ext_iff]

/-- The entry a credential is sealed in. -/
def stage (C : Crypto) (aad : List UInt8) (kek serverKek : Option Kek) (agent cred secret : CString)
    (draw : Draw) : Sealed where
  agent := agent
  cred := cred
  user := kek.map fun k => C.wrap k draw.dek
  server := serverKek.map fun k => C.wrap k draw.dek
  nonce := draw.nonce
  ciphertext := (C.encrypt draw.dek aad draw.nonce secret.val).1
  tag := (C.encrypt draw.dek aad draw.nonce secret.val).2

theorem json_stage (C : Crypto) (aad : List UInt8) (kek serverKek : Option Kek)
    (agent cred secret : CString) (draw : Draw) :
    sealedEntry C aad kek serverKek agent cred secret draw =
      (stage C aad kek serverKek agent cred secret draw).json := by
  cases kek <;> cases serverKek <;> rfl

/-! ## Wraps -/

def withUser (s : Sealed) (w : WrappedDek) : Sealed := { s with user := some w }

def withServer (s : Sealed) (w : WrappedDek) : Sealed := { s with server := some w }

theorem unwrapField_user (C : Crypto) (kek : Kek) (s : Sealed) :
    unwrapField C kek "wrapped_dek" s.json = s.user.bind (C.unwrap kek) := by
  rw [unwrapField, stringItem_user]
  cases s.user with
  | none => rfl
  | some w => simp [decodeBlock_b64]

theorem unwrapField_server (C : Crypto) (kek : Kek) (s : Sealed) :
    unwrapField C kek "wrapped_dek_server" s.json = s.server.bind (C.unwrap kek) := by
  rw [unwrapField, stringItem_server]
  cases s.server with
  | none => rfl
  | some w => simp [decodeBlock_b64]

theorem addB64Field_server {s : Sealed} (h : s.server = none) (w : WrappedDek) :
    addB64Field s.json "wrapped_dek_server" w.val = (s.withServer w).json := by
  obtain ⟨agent, cred, user, server, nonce, ciphertext, tag⟩ := s
  cases h
  cases user <;> rfl

theorem setB64Field_user {s : Sealed} (h : s.user.isSome) (w : WrappedDek) :
    setB64Field s.json "wrapped_dek" w.val = (s.withUser w).json := by
  obtain ⟨agent, cred, user, server, nonce, ciphertext, tag⟩ := s
  obtain ⟨u, rfl⟩ := Option.isSome_iff_exists.mp h
  cases server <;> rfl

theorem setB64Field_server {s : Sealed} (h : s.server.isSome) (w : WrappedDek) :
    setB64Field s.json "wrapped_dek_server" w.val = (s.withServer w).json := by
  obtain ⟨agent, cred, user, server, nonce, ciphertext, tag⟩ := s
  obtain ⟨u, rfl⟩ := Option.isSome_iff_exists.mp h
  cases user <;> rfl

/-- A server wrap is added where there is none. -/
def addServer (C : Crypto) (userKek serverKek : Kek) (s : Sealed) : Option Sealed :=
  if s.server.isSome then some s else (s.user.bind (C.unwrap userKek)).map fun dek =>
    s.withServer (C.wrap serverKek dek)

theorem slot_of_addServer (C : Crypto) (userKek serverKek : Kek) (s s' : Sealed)
    (h : s.addServer C userKek serverKek = some s') :
    s'.slot = s.slot := by
  unfold addServer at h
  split at h
  · rw [Option.some.inj h]
  · obtain ⟨dek, -, rfl⟩ := Option.map_eq_some_iff.mp h
    rfl

theorem addServerWrap_json (C : Crypto) (userKek serverKek : Kek) (s : Sealed) :
    addServerWrap C userKek serverKek s.json = (s.addServer C userKek serverKek).map json := by
  rw [addServerWrap, addServer, stringItem_server, unwrapField_user, Option.isSome_map]
  cases hserver : s.server with
  | some w => rfl
  | none =>
    simp only [Option.isSome_none, Bool.false_eq_true, if_false, Option.map_map]
    congr 1
    funext dek
    exact addB64Field_server hserver _

/-- The user wrap made under another key. -/
def rewrapUser (C : Crypto) (oldKek newKek : Kek) (s : Sealed) : Option Sealed :=
  (s.user.bind (C.unwrap oldKek)).map fun dek => s.withUser (C.wrap newKek dek)

theorem slot_of_rewrapUser (C : Crypto) (oldKek newKek : Kek) (s s' : Sealed)
    (h : s.rewrapUser C oldKek newKek = some s') :
    s'.slot = s.slot := by
  obtain ⟨dek, -, rfl⟩ := Option.map_eq_some_iff.mp h
  rfl

theorem rewrap_json (C : Crypto) (oldKek newKek : Kek) (s : Sealed) :
    rewrap C oldKek newKek "wrapped_dek" s.json = (s.rewrapUser C oldKek newKek).map json := by
  rw [rewrap, rewrapUser, unwrapField_user]
  cases huser : s.user with
  | none => rfl
  | some w =>
    simp only [Option.bind_some, Option.map_map]
    congr 1
    funext dek
    exact setB64Field_user (by rw [huser]; rfl) _

/-! ## Reading -/

/-- What a read makes of the entry, given the wrap it opens. -/
def openWith (C : Crypto) (principal : CString) (kek : Kek) (absent : ReadResult) (agent cred : CString) (outLen : ℕ)
    (wrap : Option WrappedDek) (s : Sealed) : ReadResult :=
  match wrap with
  | none => absent
  | some wrapped =>
    match buildAad principal agent cred with
    | none => .error
    | some aad =>
      if outLen ≤ s.ciphertext.length then .error
      else
        match (C.unwrap kek wrapped).bind fun dek => C.decrypt dek aad s.nonce s.ciphertext s.tag with
        | none => .error
        | some pt => .ok pt

theorem decode_b64 (bs : List UInt8) : Base64.decode ((b64 bs).val.length + 1) (b64 bs).val = some bs := by
  refine Base64.decode_encode ?_
  have hlength : (b64 bs).val.length = (4 * bs.length + 2) / 3 := Base64.length_encode bs
  omega

theorem openEntry_json (C : Crypto) (principal : CString) (kek : Kek) {field : String} (absent : ReadResult)
    (agent cred : CString)
    (outLen : ℕ) (s : Sealed) {wrap : Option WrappedDek}
    (hwrap : stringItem s.json field = wrap.map fun w => b64 w.val) :
    openEntry C principal kek field absent agent cred outLen s.json =
      s.openWith C principal kek absent agent cred outLen wrap := by
  unfold openEntry openWith
  rw [hwrap]
  cases wrap with
  | none => rfl
  | some w =>
    simp only [Option.map_some, stringItem_nonce, stringItem_ciphertext, stringItem_tag, decodeBlock_b64, decode_b64]
    cases buildAad principal agent cred with
    | none => rfl
    | some aad =>
      dsimp only
      split
      · rfl
      · cases C.unwrap kek w with
        | none => rfl
        | some dek => rfl

end Sealed

/-- A vault file the store wrote. -/
structure VaultFile where
  principal : CString
  salt : Salt
  kekCheck : Option WrappedDek
  creds : Table Sealed Sealed.slot

namespace VaultFile

def json (v : VaultFile) : CJson :=
  .object ([(key "version", versionNumber), (key "principal", .string v.principal),
    (key "kdf_version", .string (kdfVersion v.principal)),
    (key "salt", .string (b64 v.salt.val)), (key "creds", .array (v.creds.rows.map Sealed.json))] ++
    Sealed.field "kek_check" (v.kekCheck.map Subtype.val))

def text (v : VaultFile) : List UInt8 := v.json.printed

/-- Short enough to be read back. -/
def Small (v : VaultFile) : Prop := v.text.length ≤ readMax

instance (v : VaultFile) : Decidable v.Small := inferInstanceAs (Decidable (_ ≤ _))

def fresh (principal : CString) (salt : Salt) : VaultFile := ⟨principal, salt, none, Table.empty⟩

theorem json_fresh (principal : CString) (salt : Salt) : (fresh principal salt).json = freshVault principal salt := rfl

def withCreds (v : VaultFile) (creds : Table Sealed Sealed.slot) : VaultFile := { v with creds := creds }

def withKekCheck (v : VaultFile) (w : WrappedDek) : VaultFile := { v with kekCheck := some w }

def put (v : VaultFile) (s : Sealed) : VaultFile := v.withCreds (v.creds.replace s)

def remove (v : VaultFile) (agent cred : CString) : VaultFile := v.withCreds (v.creds.remove (agent, cred))

section Items

variable (v : VaultFile)

theorem stringItem_salt : stringItem v.json "salt" = some (b64 v.salt.val) := by
  unfold stringItem
  rfl

theorem credsArray_json : credsArray v.json = some (v.creds.rows.map Sealed.json) := rfl

theorem stringItem_kekCheck : stringItem v.json "kek_check" = v.kekCheck.map fun w => b64 w.val := by
  obtain ⟨principal, salt, kekCheck, creds⟩ := v
  cases kekCheck <;> rfl

theorem setCreds_json (creds : Table Sealed Sealed.slot) :
    setCreds v.json (creds.rows.map Sealed.json) = (v.withCreds creds).json := rfl

theorem kekCheckSet_json (C : Crypto) (kek : Kek) :
    kekCheckSet C v.json kek = (v.withKekCheck (C.wrap kek kekCheckSentinel)).json := by
  obtain ⟨principal, salt, kekCheck, creds⟩ := v
  cases kekCheck <;> rfl

theorem findCred_json (agent cred : CString) :
    findCred v.json agent cred = (v.creds.find? (agent, cred)).map Sealed.json := by
  rw [findCred_of_credsArray v.credsArray_json, List.find?_map]
  congr 2
  funext s
  exact s.isSlot_json agent cred

theorem removeCred_json (agent cred : CString) :
    removeCred (v.creds.rows.map Sealed.json) agent cred = (v.creds.remove (agent, cred)).rows.map Sealed.json := by
  rw [removeCred, List.eraseP_map, Table.rows_remove]
  congr 2
  funext s
  exact s.isSlot_json agent cred

theorem kekCheckMatches_json (C : Crypto) (kek : Kek) :
    kekCheckMatches C v.json kek = decide (v.kekCheck.bind (C.unwrap kek) = some kekCheckSentinel) := by
  rw [kekCheckMatches, unwrapField, stringItem_kekCheck]
  cases v.kekCheck with
  | none => rfl
  | some w => simp [decodeBlock_b64]

end Items

/-! ## The text -/

theorem fit_json (s : Sealed) : Fit s.json := by
  obtain ⟨agent, cred, user, server, nonce, ciphertext, tag⟩ := s
  cases user <;> cases server <;>
    exact ⟨by simp [Sealed.json, Sealed.field, CJson.Lexed, CJson.LexedMembers], by
      show _ ≤ 998
      simp [Sealed.json, Sealed.field, CJson.height, CJson.heightMembers]⟩

theorem sound_json (v : VaultFile) : v.json.Sound := by
  obtain ⟨principal, salt, kekCheck, creds⟩ := v
  have hcreds : (setCreds (freshVault principal salt) (creds.rows.map Sealed.json)).Sound := by
    refine sound_setCreds (sound_freshVault principal salt) fun e he => ?_
    obtain ⟨s, -, rfl⟩ := List.mem_map.mp he
    exact fit_json s
  cases kekCheck with
  | none => exact hcreds
  | some w => exact ⟨lexed_addItem hcreds.lexed trivial,
      height_addItem hcreds.height (height_string_le (by decide) (b64 w.val))⟩

/-- A file the store wrote is read back, unless it is too long. -/
theorem loadVault_text (v : VaultFile) : loadVault Io.fine (some v.text) = if v.Small then some v.json else none := by
  split
  · next h => exact loadVault_printed v.sound_json h
  · next h =>
    have hlong : ¬Io.fine.openRead = true ∨ readMax < v.text.length := .inr (not_le.mp h)
    rw [loadVault, readWholeFile, if_pos hlong]
    rfl

theorem writeVaultFile_json (v : VaultFile) (file : File) : writeVaultFile Io.fine v.json file = ⟨some v.text, 0⟩ := by
  rw [writeVaultFile, printUnformatted_of_sound v.sound_json]
  rfl

/-- An entry is at least as long as its encoded ciphertext. -/
theorem length_ciphertext_le (s : Sealed) : (4 * s.ciphertext.length + 2) / 3 ≤ s.json.printed.length := by
  have hstring := CJson.length_le_printString (b64 s.ciphertext)
  have hlength : (b64 s.ciphertext).val.length = (4 * s.ciphertext.length + 2) / 3 := Base64.length_encode s.ciphertext
  rw [Sealed.json, CJson.printed, List.length_cons, List.length_append, CJson.length_printedMembers]
  simp only [List.map_append, List.sum_append, List.map_cons, List.sum_cons, CJson.printed, List.length_singleton]
  omega

theorem sum_length_le (v : VaultFile) : (v.creds.rows.map fun s => s.json.printed.length).sum ≤ v.text.length := by
  have hentries : (v.creds.rows.map fun s => s.json.printed.length).sum ≤
    (CJson.array (v.creds.rows.map Sealed.json)).printed.length := by
    rw [CJson.printed, List.length_cons, List.length_append, CJson.length_printedElements, List.map_map]
    have hle : (v.creds.rows.map fun s => s.json.printed.length).sum ≤
        (v.creds.rows.map ((fun j : CJson => j.printed.length + 1) ∘ Sealed.json)).sum :=
      List.sum_le_sum fun s _ => Nat.le_succ _
    omega
  rw [text, json, CJson.printed, List.length_cons, List.length_append, CJson.length_printedMembers]
  simp only [List.map_append, List.sum_append, List.map_cons, List.sum_cons, List.length_singleton]
  omega

theorem length_printString_b64 (bs : List UInt8) :
    (CJson.printString (b64 bs)).length = (4 * bs.length + 2) / 3 + 2 := by
  have hplain : ∀ c ∈ (b64 bs).val, CJson.Plain c := Base64.encode_printable bs
  rw [CJson.length_printString_of_plain hplain]
  exact congrArg (· + 2) (Base64.length_encode bs)

theorem length_printed_sealedEntry {C : Crypto} (hC : C.Correct) (kek : Kek) (aad : List UInt8)
    (agent cred secret : CString) (draw : Draw) :
    (sealedEntry C aad (some kek) none agent cred secret draw).printed.length =
      (CJson.printString agent).length + (CJson.printString cred).length + (4 * secret.val.length + 2) / 3 + 163 := by
  have hct := hC.length_encrypt draw.dek aad draw.nonce secret.val
  have hwrapped := (C.wrap kek draw.dek).property
  have hdrawn := draw.nonce.property
  have htagged := (C.encrypt draw.dek aad draw.nonce secret.val).2.property
  have hagentName : (CJson.printString (key "agent")).length = 7 := by decide
  have hcredName : (CJson.printString (key "cred")).length = 6 := by decide
  have hwrap : (CJson.printString (key "wrapped_dek")).length = 13 := by decide
  have hnonce : (CJson.printString (key "nonce")).length = 7 := by decide
  have htext : (CJson.printString (key "ciphertext")).length = 12 := by decide
  have htag : (CJson.printString (key "tag")).length = 5 := by decide
  rw [sealedEntry, length_printed_object]
  simp only [Option.toList_some, Option.toList_none, List.map_cons, List.map_nil, List.map_append,
    List.sum_append, List.sum_cons,
    List.sum_nil, CJson.printed, length_printString_b64, hct, hagentName, hcredName, hwrap, hnonce, htext, htag,
    hwrapped, hdrawn, htagged]
  omega

theorem length_json_withUser {s : Sealed} (h : s.user.isSome) (w : WrappedDek) :
    (s.withUser w).json.printed.length = s.json.printed.length := by
  obtain ⟨agent, cred, user, server, nonce, ciphertext, tag⟩ := s
  obtain ⟨u, rfl⟩ := Option.isSome_iff_exists.mp h
  simp [Sealed.json, Sealed.withUser, Sealed.field, CJson.printed, CJson.length_printedMembers,
    length_printString_b64, u.property, w.property]

/-- Entries as long in the same order, with a verifier in either, make a text as long. -/
theorem length_text_congr {v v' : VaultFile} (hprincipal : v'.principal = v.principal)
    (hcheck : v'.kekCheck.isSome = v.kekCheck.isSome)
    (hcreds : (v'.creds.rows.map fun s => s.json.printed.length) = v.creds.rows.map fun s => s.json.printed.length) :
    v'.text.length = v.text.length := by
  have harray : (CJson.array (v'.creds.rows.map Sealed.json)).printed.length =
    (CJson.array (v.creds.rows.map Sealed.json)).printed.length := by
    have hsum : (v'.creds.rows.map Sealed.json).map (fun j => j.printed.length + 1) =
        (v.creds.rows.map Sealed.json).map fun j => j.printed.length + 1 := by
      have hsucc := congrArg (List.map (· + 1)) hcreds
      rw [List.map_map, List.map_map] at hsucc ⊢
      exact hsucc
    rw [CJson.printed, CJson.printed, List.length_cons, List.length_cons, List.length_append, List.length_append,
      CJson.length_printedElements, CJson.length_printedElements, hsum]
  have hsalt : (CJson.string (b64 v'.salt.val)).printed.length = (CJson.string (b64 v.salt.val)).printed.length := by
    rw [CJson.printed, CJson.printed, length_printString_b64, length_printString_b64, v.salt.property, v'.salt.property]
  have hfield : (Sealed.field "kek_check" (v'.kekCheck.map Subtype.val)).map
        (fun m => (CJson.printString m.1).length + m.2.printed.length + 2) =
      (Sealed.field "kek_check" (v.kekCheck.map Subtype.val)).map fun m =>
        (CJson.printString m.1).length + m.2.printed.length + 2 := by
    cases hw : v.kekCheck with
    | none =>
      rw [hw] at hcheck
      have hw' : v'.kekCheck = none := by simpa using hcheck
      rw [hw']
    | some w =>
      rw [hw] at hcheck
      obtain ⟨w', hw'⟩ := Option.isSome_iff_exists.mp hcheck
      simp [hw', Sealed.field, CJson.printed, length_printString_b64, w.property, w'.property]
  rw [text, text, json, json, CJson.printed, CJson.printed, List.length_cons, List.length_cons,
    List.length_append, List.length_append, CJson.length_printedMembers, CJson.length_printedMembers]
  simp only [List.map_append, List.map_cons, hprincipal, harray, hsalt, hfield]

/-- A vault with some of the entries is not longer. -/
theorem length_text_withCreds_le {v : VaultFile} {creds : Table Sealed Sealed.slot}
    (h : creds.rows.Sublist v.creds.rows) : (v.withCreds creds).text.length ≤ v.text.length := by
  have htext := length_printed_setCreds v.credsArray_json (creds.rows.map Sealed.json)
  rw [setCreds_json] at htext
  have hsum := ((h.map Sealed.json).map fun j : CJson => j.printed.length + 1).sum_le_sum fun _ _ => Nat.zero_le _
  simp only [CJson.printed, List.length_cons, List.length_append, CJson.length_printedElements,
    List.length_nil] at htext
  change (v.withCreds creds).json.printed.length ≤ v.json.printed.length
  omega

/-! ## Operations -/

/-- What a fault-free operation leaves that changes the record so, or refuses. -/
def outcome (v : VaultFile) : Option VaultFile → Outcome
  | some v' => ⟨some v'.text, 0⟩
  | none => ⟨some v.text, -1⟩

/-- `vault_stage_credential`, on the record. -/
def stage (C : Crypto) (principal : CString) (kek serverKek : Option Kek) (agent cred secret : CString)
    (draw : Draw) (v : VaultFile) :
    Option VaultFile :=
  (buildAad principal agent cred).map fun aad => v.put (Sealed.stage C aad kek serverKek agent cred secret draw)

/-- A write with arguments a set takes. -/
def set (C : Crypto) (principal : CString) (kek serverKek : Option Kek) (agent cred secret : CString)
    (draw : Draw) (v : VaultFile) :
    Option VaultFile :=
  if (kek = none ∧ serverKek = none) ∨ agent = .empty ∨ cred = .empty ∨ secretMax < secret.val.length then none
  else v.stage C principal kek serverKek agent cred secret draw

theorem stage_of_set {C : Crypto} {principal : CString} {kek serverKek : Option Kek}
    {agent cred secret : CString} {draw : Draw}
    {v v' : VaultFile} (h : v.set C principal kek serverKek agent cred secret draw = some v') :
    v.stage C principal kek serverKek agent cred secret draw = some v' := by
  unfold set at h
  split at h
  · cases h
  · exact h

/-- One write of a batch. -/
def stageWrite (C : Crypto) (principal : CString) (kek : Kek) (agent : CString) (v : VaultFile)
    (w : BatchWrite) : Option VaultFile :=
  match w.secret with
  | some secret => v.stage C principal (some kek) none agent w.credential secret w.draw
  | none => some (v.remove agent w.credential)

def writeBatch (C : Crypto) (principal : CString) (kek : Kek) (agent : CString) (writes : List BatchWrite)
    (v : VaultFile) :
    Option VaultFile :=
  if BatchWrite.valid principal agent writes then writes.foldlM (stageWrite C principal kek agent) v else none

def addServers (C : Crypto) (userKek serverKek : Kek) (v : VaultFile) : Option VaultFile :=
  (v.creds.traverse (Sealed.addServer C userKek serverKek)
    (Sealed.slot_of_addServer C userKek serverKek)).map v.withCreds

/-- The verifier made for the key, or checked against it. -/
def unlock (C : Crypto) (kek : Kek) (v : VaultFile) : Option VaultFile :=
  match v.kekCheck with
  | some w => if C.unwrap kek w = some kekCheckSentinel then some v else none
  | none => some (v.withKekCheck (C.wrap kek kekCheckSentinel))

/-- The verifier and every user wrap made under another key. -/
def rekey (C : Crypto) (oldKek newKek : Kek) (v : VaultFile) : Option VaultFile :=
  if v.kekCheck.bind (C.unwrap oldKek) = some kekCheckSentinel then
    (v.creds.traverse (Sealed.rewrapUser C oldKek newKek) (Sealed.slot_of_rewrapUser C oldKek newKek)).map
      (v.withKekCheck (C.wrap newKek kekCheckSentinel)).withCreds
  else none

section Steps

variable (C : Crypto) (principal : CString) (v : VaultFile)

theorem stageCredential_json (kek serverKek : Option Kek) (agent cred secret : CString) (draw : Draw) :
    stageCredential C v.json principal kek serverKek agent cred secret draw =
      (v.stage C principal kek serverKek agent cred secret draw).map json := by
  rw [stageCredential, stage]
  cases buildAad principal agent cred with
  | none => rfl
  | some aad =>
    have hput : (v.creds.remove (agent, cred)).rows.map Sealed.json ++
        [(Sealed.stage C aad kek serverKek agent cred secret draw).json] =
        (v.creds.replace (Sealed.stage C aad kek serverKek agent cred secret draw)).rows.map Sealed.json := by
      rw [Table.replace, List.map_append]
      rfl
    simp only [Option.bind_eq_bind, Option.bind_some, credsArray_json, Option.map_some, Sealed.json_stage,
      removeCred_json, hput]
    rfl

theorem stageWrite_json (kek : Kek) (agent : CString) (w : BatchWrite) :
    VaultStore.stageWrite C principal kek agent v.json w = (v.stageWrite C principal kek agent w).map json := by
  rw [VaultStore.stageWrite, stageWrite]
  cases w.secret with
  | some secret => exact v.stageCredential_json C principal _ _ agent w.credential secret w.draw
  | none =>
    rw [credsArray_json, Option.map_some, removeCred_json]
    rfl

theorem foldlM_stageWrite_json (kek : Kek) (agent : CString) (writes : List BatchWrite) :
    writes.foldlM (VaultStore.stageWrite C principal kek agent) v.json =
      (writes.foldlM (stageWrite C principal kek agent) v).map json := by
  induction writes generalizing v with
  | nil => rfl
  | cons w writes ih =>
    rw [List.foldlM_cons, List.foldlM_cons, stageWrite_json]
    cases v.stageWrite C principal kek agent w with
    | none => rfl
    | some v' => exact ih v'

end Steps

/-! ## The operations of the store -/

theorem remove_of_none {v : VaultFile} {agent cred : CString} (h : v.creds.find? (agent, cred) = none) :
    v.remove agent cred = v := by
  have hrows : (v.creds.remove (agent, cred)).rows = v.creds.rows := by
    rw [Table.rows_remove]
    refine List.eraseP_of_forall_not fun s hs => ?_
    simpa using Table.find?_eq_none_iff.mp h s hs
  rw [remove, Table.ext hrows]
  rfl

theorem addServers_of_all {C : Crypto} {userKek serverKek : Kek} {v : VaultFile}
    (h : ∀ s ∈ v.creds.rows, s.server.isSome) :
    v.addServers C userKek serverKek = some v := by
  have hself : v.creds.rows.mapM (Sealed.addServer C userKek serverKek) = some v.creds.rows := by
    refine List.mapM_eq_some_iff_forall₂.mpr (List.forall₂_same.mpr fun s hs => ?_)
    rw [Sealed.addServer, if_pos (h s hs)]
  have hrows := Table.rows_traverse _ (Sealed.slot_of_addServer C userKek serverKek) v.creds
  rw [hself] at hrows
  obtain ⟨creds, hcreds, hsame⟩ := Option.map_eq_some_iff.mp hrows
  rw [addServers, hcreds, Table.ext hsame]
  rfl

section Files

variable (C : Crypto) {v : VaultFile} (hv : v.Small)

include hv

theorem loadVault_small : loadVault Io.fine (some v.text) = some v.json := by
  rw [v.loadVault_text, if_pos hv]

theorem setImpl_text (principal : CString) (kek serverKek : Option Kek) (agent cred secret : CString) (draw : Draw) :
    setImpl C Io.fine principal kek serverKek agent cred secret false draw (some v.text) =
      v.outcome (v.set C principal kek serverKek agent cred secret draw) := by
  have hrefuses {a b c d : Prop} : (a ∨ b ∨ c) ∨ d ↔ a ∨ b ∨ c ∨ d := or_assoc.trans (or_congr_right or_assoc)
  unfold setImpl set
  by_cases hargs : (kek = none ∧ serverKek = none) ∨ agent = .empty ∨ cred = .empty
  · rw [if_pos hargs, if_pos (hrefuses.mp (.inl hargs))]
    rfl
  · rw [if_neg hargs]
    by_cases hlong : secretMax < secret.val.length
    · rw [if_pos hlong, if_pos (hrefuses.mp (.inr hlong))]
      rfl
    · rw [if_neg hlong, if_neg (by decide), loadVault_small hv,
        if_neg fun h => (hrefuses.mpr h).elim hargs hlong]
      simp only [Bool.false_eq_true, false_and, if_false, stageCredential_json]
      cases v.stage C principal kek serverKek agent cred secret draw with
      | none => rfl
      | some v' => exact v'.writeVaultFile_json _

theorem writeBatch_text (principal : CString) (kek : Kek) (agent : CString) (writes : List BatchWrite) :
    VaultStore.writeBatch C Io.fine principal kek agent writes (some v.text) =
      v.outcome (v.writeBatch C principal kek agent writes) := by
  unfold VaultStore.writeBatch writeBatch
  cases hvalid : BatchWrite.valid principal agent writes with
  | false => rfl
  | true =>
    rw [if_pos rfl, loadVault_small hv]
    simp only [foldlM_stageWrite_json]
    cases writes.foldlM (stageWrite C principal kek agent) v with
    | none => rfl
    | some v' => exact v'.writeVaultFile_json _

theorem delete_text (agent cred : CString) :
    delete Io.fine agent cred (some v.text) = ⟨some (v.remove agent cred).text, 0⟩ := by
  have hfind : ((v.creds.rows.map Sealed.json).find? (isSlot agent cred)) =
    (v.creds.find? (agent, cred)).map Sealed.json := by
    rw [← v.findCred_json, findCred_of_credsArray v.credsArray_json]
  unfold delete
  rw [loadVault_small hv]
  simp only [credsArray_json, hfind, Option.isSome_map, removeCred_json, setCreds_json]
  cases hslot : v.creds.find? (agent, cred) with
  | none =>
    rw [remove_of_none hslot]
    rfl
  | some s => exact (v.remove agent cred).writeVaultFile_json _

theorem addServerWraps_text (userKek serverKek : Kek) :
    addServerWraps C Io.fine userKek serverKek (some v.text) = v.outcome (v.addServers C userKek serverKek) := by
  have hmap : (v.creds.rows.map Sealed.json).mapM (addServerWrap C userKek serverKek) =
      ((v.creds.traverse (Sealed.addServer C userKek serverKek)
        (Sealed.slot_of_addServer C userKek serverKek)).map Table.rows).map
        (List.map Sealed.json) := by
    rw [Table.rows_traverse]
    exact List.mapM_map_of_eq fun s _ => s.addServerWrap_json C userKek serverKek
  have hall : ((v.creds.rows.map Sealed.json).all fun e => (stringItem e "wrapped_dek_server").isSome) =
      v.creds.rows.all fun s => s.server.isSome := by
    rw [List.all_map]
    congr 1
    funext s
    simp [Sealed.stringItem_server]
  unfold addServerWraps
  rw [loadVault_small hv]
  simp only [credsArray_json, hmap, hall]
  by_cases hdone : ∀ s ∈ v.creds.rows, s.server.isSome
  · have hself : v.addServers C userKek serverKek = some v := addServers_of_all hdone
    rw [hself]
    obtain ⟨creds, hcreds, -⟩ := Option.map_eq_some_iff.mp hself
    rw [hcreds, List.all_eq_true.mpr hdone]
    rfl
  · have hsome : (v.creds.rows.all fun s => s.server.isSome) = false := by
      rw [← Bool.not_eq_true, List.all_eq_true]
      exact hdone
    rw [hsome, addServers]
    cases v.creds.traverse (Sealed.addServer C userKek serverKek) (Sealed.slot_of_addServer C userKek serverKek) with
    | none => rfl
    | some creds => exact (v.withCreds creds).writeVaultFile_json _

theorem rekey_text (oldKek newKek : Kek) :
    VaultStore.rekey C Io.fine oldKek newKek (some v.text) = v.outcome (v.rekey C oldKek newKek) := by
  have hmap : (v.creds.rows.map Sealed.json).mapM (rewrap C oldKek newKek "wrapped_dek") =
      ((v.creds.traverse (Sealed.rewrapUser C oldKek newKek)
        (Sealed.slot_of_rewrapUser C oldKek newKek)).map Table.rows).map
        (List.map Sealed.json) := by
    rw [Table.rows_traverse]
    exact List.mapM_map_of_eq fun s _ => s.rewrap_json C oldKek newKek
  unfold VaultStore.rekey rekey
  rw [if_neg (by decide), loadVault_small hv]
  simp only [stringItem_kekCheck, Option.isSome_map, kekCheckMatches_json, decide_eq_true_eq]
  by_cases hkek : v.kekCheck.bind (C.unwrap oldKek) = some kekCheckSentinel
  · have hset : v.kekCheck.isSome := by
      cases hcheck : v.kekCheck with
      | none => simp [hcheck] at hkek
      | some w => rfl
    rw [if_neg (by tauto), if_pos hkek, kekCheckSet_json]
    have hcreds : credsArray (v.withKekCheck (C.wrap newKek kekCheckSentinel)).json =
      some (v.creds.rows.map Sealed.json) := rfl
    simp only [hcreds, hmap]
    cases v.creds.traverse (Sealed.rewrapUser C oldKek newKek) (Sealed.slot_of_rewrapUser C oldKek newKek) with
    | none => rfl
    | some creds => exact ((v.withKekCheck (C.wrap newKek kekCheckSentinel)).withCreds creds).writeVaultFile_json _
  · rw [if_pos (by tauto), if_neg hkek]
    rfl

theorem unlockCheck_text (kek : Kek) : unlockCheck C Io.fine kek (some v.text) = v.outcome (v.unlock C kek) := by
  unfold unlockCheck unlock
  rw [if_neg (by decide), loadVault_small hv]
  simp only [stringItem_kekCheck, Option.isSome_map, kekCheckMatches_json, kekCheckSet_json]
  cases v.kekCheck with
  | none => exact (v.withKekCheck _).writeVaultFile_json _
  | some w =>
    simp only [Option.isSome_some, if_true, Option.bind_some, decide_eq_true_eq]
    split <;> rfl

theorem getOrCreateSalt_text {principal : CString} (hprincipal : principal ≠ .empty) (salt : Salt) :
    getOrCreateSalt Io.fine principal salt (some v.text) = ⟨some v.text, 0⟩ := by
  unfold getOrCreateSalt
  rw [if_neg (by simpa using ⟨hprincipal, rfl⟩), loadVault_small hv]
  simp [stringItem_salt, decodeBlock_b64]

theorem get_text (principal : CString) (kek : Kek) (agent cred : CString) {outLen : ℕ} (hlen : 0 < outLen) :
    get C Io.fine principal kek agent cred outLen (some v.text) =
      match v.creds.find? (agent, cred) with
      | none => .noEntry
      | some s => s.openWith C principal kek .error agent cred outLen s.user := by
  unfold get readCred
  rw [if_neg hlen.ne', loadVault_small hv]
  simp only [findCred_json]
  cases v.creds.find? (agent, cred) with
  | none => rfl
  | some s => exact s.openEntry_json C principal kek .error agent cred outLen s.stringItem_user

theorem getServer_text (principal : CString) (kek : Kek) (agent cred : CString) {outLen : ℕ} (hlen : 0 < outLen) :
    getServer C Io.fine principal kek agent cred outLen (some v.text) =
      match v.creds.find? (agent, cred) with
      | none => .noEntry
      | some s => s.openWith C principal kek .noEntry agent cred outLen s.server := by
  unfold getServer readCred
  rw [if_neg hlen.ne', loadVault_small hv]
  simp only [findCred_json]
  cases v.creds.find? (agent, cred) with
  | none => rfl
  | some s => exact s.openEntry_json C principal kek .noEntry agent cred outLen s.stringItem_server

end Files

end VaultFile

end VaultStore
