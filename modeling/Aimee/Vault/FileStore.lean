-- SUMMARY: The per-principal JSON file store of the credential vault: file access with its failing steps, the edits on the parsed file, and the operations.
import Aimee.Core.Base64
import Aimee.Ir.Frame

/-!
# The file store

`vault_store.c`, the jsonfile backend. The file of a principal is its bytes, or nothing while it
does not exist. An operation reads and parses it, edits the parsed value, prints it and replaces
the file; `Io` says which of the steps on the way go through. The primitives of `vault_crypto.c`
are parameters, and the key and nonce an operation draws are its arguments.
-/

namespace VaultStore

abbrev Kek := Block 32
abbrev Dek := Block 32
abbrev WrappedDek := Block 40
abbrev Nonce := Block 12
abbrev Tag := Block 16
abbrev Salt := Block 16

/-- `vault_crypto.h`: AES key wrap and AES-GCM. -/
structure Crypto where
  wrap : Kek → Dek → WrappedDek
  unwrap : Kek → WrappedDek → Option Dek
  encrypt : Dek → (aad : List UInt8) → Nonce → (plaintext : List UInt8) → List UInt8 × Tag
  decrypt : Dek → (aad : List UInt8) → Nonce → (ciphertext : List UInt8) → Tag → Option (List UInt8)

/-- What is assumed of them: each undoes its counterpart, and a ciphertext is as long as its text. -/
structure Crypto.Correct (C : Crypto) : Prop where
  unwrap_wrap (kek : Kek) (dek : Dek) : C.unwrap kek (C.wrap kek dek) = some dek
  decrypt_encrypt (dek : Dek) (aad : List UInt8) (nonce : Nonce) (plaintext : List UInt8) :
    C.decrypt dek aad nonce (C.encrypt dek aad nonce plaintext).1 (C.encrypt dek aad nonce plaintext).2 = some plaintext
  length_encrypt (dek : Dek) (aad : List UInt8) (nonce : Nonce) (plaintext : List UInt8) :
    (C.encrypt dek aad nonce plaintext).1.length = plaintext.length

def kekCheckSentinel : Dek :=
  ⟨[0x61, 0x69, 0x6d, 0x65, 0x65, 0x2d, 0x76, 0x61, 0x75, 0x6c, 0x74, 0x2d, 0x6b, 0x65, 0x6b, 0x2d,
    0x63, 0x68, 0x65, 0x63, 0x6b, 0x2d, 0x76, 0x31, 0x00, 0x11, 0x22, 0x33, 0x44, 0x55, 0x66, 0x77], rfl⟩

/-- A verifier opens under no key but its own. -/
def Crypto.Checks (C : Crypto) : Prop :=
  ∀ kek kek', C.unwrap kek' (C.wrap kek kekCheckSentinel) = some kekCheckSentinel → kek' = kek

/-- What the key of a credential and its nonce are drawn as. -/
structure Draw where
  dek : Dek
  nonce : Nonce

/-! ## JSON values -/

/-- A name of the source. -/
def key (name : String) : CString := CString.ofAscii name

/-- `cJSON_GetObjectItemCaseSensitive`. -/
def item (j : CJson) (name : String) : Option CJson := j.getObjectItemCaseSensitive (key name)

/-- The text of an item `cJSON_IsString` holds of. -/
def stringItem (j : CJson) (name : String) : Option CString := (item j name).bind CJson.stringValue?

/-- `cJSON_AddItemToObject`. Any container takes a child; only an object prints its name. -/
def addItem (j : CJson) (name : String) (value : CJson) : CJson :=
  match j with
  | .object members => .object (members ++ [(key name, value)])
  | .array items => .array (items ++ [value])
  | j => j

/-- The members with the value of the first one of that name replaced. -/
def replaceFirst (name : CString) (value : CJson) : List (CString × CJson) → List (CString × CJson)
  | [] => []
  | m :: rest => if m.1 = name then (m.1, value) :: rest else m :: replaceFirst name value rest

/-- An item changed in place. -/
def setItem (j : CJson) (name : String) (value : CJson) : CJson :=
  match j with
  | .object members => .object (replaceFirst (key name) value members)
  | j => j

/-- `b64url_encode`. -/
def b64 (bs : List UInt8) : CString :=
  ⟨Base64.encode bs, fun h => absurd (Base64.encode_printable bs 0 h).1 (by decide)⟩

/-- `b64url_decode` into a buffer of `n` bytes that it has to fill. -/
def decodeBlock (n : ℕ) (s : CString) : Option (Block n) :=
  match Base64.decode n s.val with
  | some bs => if h : bs.length = n then some ⟨bs, h⟩ else none
  | none => none

def addB64Field (j : CJson) (name : String) (bs : List UInt8) : CJson := addItem j name (.string (b64 bs))

/-- `cJSON_SetValuestring` on the item of that name. -/
def setB64Field (j : CJson) (name : String) (bs : List UInt8) : CJson := setItem j name (.string (b64 bs))

def credsArray (root : CJson) : Option (List CJson) :=
  match item root "creds" with
  | some (.array items) => some items
  | _ => none

/-- The root after its creds array was edited. -/
def setCreds (root : CJson) (items : List CJson) : CJson := setItem root "creds" (.array items)

def isSlot (agent cred : CString) (e : CJson) : Bool :=
  stringItem e "agent" = some agent && stringItem e "cred" = some cred

def findCred (root : CJson) (agent cred : CString) : Option CJson :=
  (credsArray root).bind fun items => items.find? (isSlot agent cred)

/-- `remove_cred(creds, find_cred(root, agent, cred))`. -/
def removeCred (items : List CJson) (agent cred : CString) : List CJson := items.eraseP (isSlot agent cred)

/-! ## Files -/

/-- The steps of an operation that may fail, and whether they go through. -/
structure Io where
  /-- `vault_write_lock` -/
  lock : Bool
  /-- `fopen`, `fseek`, `ftell` and `malloc` of the read -/
  openRead : Bool
  /-- the bytes `fread` stops after, if it does -/
  shortRead : Option ℕ
  /-- the directory and the temporary file -/
  openWrite : Bool
  write : Bool
  fsync : Bool
  rename : Bool
  /-- opening and syncing the directory after the rename -/
  syncDir : Bool
  /-- `lstat` tells that a missing file is missing -/
  lstat : Bool
  deriving DecidableEq, Repr

/-- Every step goes through. -/
def Io.fine : Io where
  lock := true
  openRead := true
  shortRead := none
  openWrite := true
  write := true
  fsync := true
  rename := true
  syncDir := true
  lstat := true

/-- A vault file, or `none` while it does not exist. -/
abbrev File := Option (List UInt8)

/-- The largest file `read_whole_file` takes. -/
def readMax : ℕ := 8 * 1024 * 1024

def readWholeFile (io : Io) (file : File) : Option (List UInt8) :=
  match file with
  | none => none
  | some content =>
    if ¬io.openRead ∨ readMax < content.length then none
    else some (match io.shortRead with
      | none => content
      | some n => content.take n)

def vaultFileMissing (io : Io) (file : File) : Bool := file.isNone && io.lstat

/-- What an operation leaves and returns. -/
structure Outcome where
  file : File
  rc : ℤ

/-- `write_vault_file`: once the rename went through, the file is the new one. -/
def writeVaultFile (io : Io) (root : CJson) (file : File) : Outcome :=
  match CJson.printUnformatted root with
  | none => ⟨file, -1⟩
  | some txt =>
    if io.openWrite ∧ io.write ∧ io.fsync ∧ io.rename then ⟨some txt, if io.syncDir then 0 else -1⟩
    else ⟨file, -1⟩

def loadVault (io : Io) (file : File) : Option CJson :=
  (readWholeFile io file).bind fun txt => CJson.parse (CString.ofBytes txt)

theorem loadVault_none (io : Io) : loadVault io none = none := rfl

/-! ## Writing credentials -/

def secretMax : ℕ := 64 * 1024

def aadMax : ℕ := 320

/-- `build_aad`: a component with the delimiter in it is refused. -/
def buildAad (principal agent cred : CString) : Option (List UInt8) :=
  if 124 ∈ principal.val ∨ 124 ∈ agent.val ∨ 124 ∈ cred.val then none
  else
    let text := principal.val ++ [124] ++ agent.val ++ [124] ++ cred.val
    if aadMax ≤ text.length then none else some text

/-- The entry of a credential: the user wrap and the server wrap are there for the keys that are. -/
def sealedEntry (C : Crypto) (aad : List UInt8) (kek serverKek : Option Kek) (agent cred secret : CString)
    (draw : Draw) : CJson :=
  let sealedText := C.encrypt draw.dek aad draw.nonce secret.val
  .object ([(key "agent", .string agent), (key "cred", .string cred)] ++
    kek.toList.map (fun k => (key "wrapped_dek", .string (b64 (C.wrap k draw.dek).val))) ++
    [(key "nonce", .string (b64 draw.nonce.val)), (key "ciphertext", .string (b64 sealedText.1)),
      (key "tag", .string (b64 sealedText.2.val))] ++
    serverKek.toList.map (fun k => (key "wrapped_dek_server", .string (b64 (C.wrap k draw.dek).val))))

def stageCredential (C : Crypto) (root : CJson) (principal : CString) (kek serverKek : Option Kek)
    (agent cred secret : CString) (draw : Draw) : Option CJson := do
  let aad ← buildAad principal agent cred
  let items ← credsArray root
  return setCreds root (removeCred items agent cred ++ [sealedEntry C aad kek serverKek agent cred secret draw])

def setImpl (C : Crypto) (io : Io) (principal : CString) (kek serverKek : Option Kek) (agent cred secret : CString)
    (onlyIfAbsent : Bool) (draw : Draw) (file : File) : Outcome :=
  if (kek = none ∧ serverKek = none) ∨ agent = .empty ∨ cred = .empty then ⟨file, -1⟩
  else if secretMax < secret.val.length then ⟨file, -1⟩
  else if ¬io.lock then ⟨file, -1⟩
  else
    match loadVault io file with
    | none => ⟨file, -1⟩
    | some root =>
      if onlyIfAbsent ∧ (findCred root agent cred).isSome then ⟨file, -1⟩
      else
        match stageCredential C root principal kek serverKek agent cred secret draw with
        | none => ⟨file, -1⟩
        | some root => writeVaultFile io root file

/-- A write of a batch: a text to store, or a name to remove. -/
structure BatchWrite where
  credential : CString
  secret : Option CString
  draw : Draw

/-- The arguments `vault_store_write_batch` takes. -/
def BatchWrite.valid (principal agent : CString) (writes : List BatchWrite) : Bool :=
  principal ≠ .empty && agent ≠ .empty && writes ≠ [] && writes.length ≤ 16 &&
    writes.all (fun w => w.credential ≠ .empty && w.secret.all fun s => s.val.length ≤ secretMax) &&
    (writes.map BatchWrite.credential).Nodup

/-- One turn of the loop of `vault_store_write_batch`. -/
def stageWrite (C : Crypto) (principal : CString) (kek : Kek) (agent : CString) (root : CJson)
    (w : BatchWrite) : Option CJson :=
  match w.secret with
  | some secret => stageCredential C root principal (some kek) none agent w.credential secret w.draw
  | none => (credsArray root).map fun items => setCreds root (removeCred items agent w.credential)

def writeBatch (C : Crypto) (io : Io) (principal : CString) (kek : Kek) (agent : CString)
    (writes : List BatchWrite) (file : File) :
    Outcome :=
  if ¬BatchWrite.valid principal agent writes then ⟨file, -1⟩
  else if ¬io.lock then ⟨file, -1⟩
  else
    match loadVault io file with
    | none => ⟨file, -1⟩
    | some root =>
      match writes.foldlM (stageWrite C principal kek agent) root with
      | none => ⟨file, -1⟩
      | some root => writeVaultFile io root file

/-! ## Reading credentials -/

/-- What a read returns: 0 and the secret, `VAULT_STORE_NO_ENTRY`, or -1. -/
inductive ReadResult where
  | ok (secret : List UInt8)
  | noEntry
  | error
  deriving DecidableEq, Repr

/-- The part the two reads share, behind the entry: the wrap they open is in `field`, and what they
    say of an entry without it is `absent`. -/
def openEntry (C : Crypto) (principal : CString) (kek : Kek) (field : String) (absent : ReadResult)
    (agent cred : CString) (outLen : ℕ) (e : CJson) : ReadResult :=
  match stringItem e field with
  | none => absent
  | some wrapped =>
    match stringItem e "nonce", stringItem e "ciphertext", stringItem e "tag" with
    | some nonce, some ciphertext, some tag =>
      match decodeBlock 40 wrapped, decodeBlock 12 nonce, decodeBlock 16 tag with
      | some wrapped, some nonce, some tag =>
        match Base64.decode (ciphertext.val.length + 1) ciphertext.val, buildAad principal agent cred with
        | some ct, some aad =>
          if outLen ≤ ct.length then .error
          else
            match C.unwrap kek wrapped with
            | none => .error
            | some dek =>
              match C.decrypt dek aad nonce ct tag with
              | none => .error
              | some pt => .ok pt
        | _, _ => .error
      | _, _, _ => .error
    | _, _, _ => .error

/-- A read: no vault is no entry, an unreadable one is an error. -/
def readCred (C : Crypto) (io : Io) (principal : CString) (kek : Kek) (field : String) (absent : ReadResult)
    (agent cred : CString) (outLen : ℕ) (file : File) : ReadResult :=
  if outLen = 0 then .error
  else
    match loadVault io file with
    | none => if vaultFileMissing io file then .noEntry else .error
    | some root =>
      match findCred root agent cred with
      | none => .noEntry
      | some e => openEntry C principal kek field absent agent cred outLen e

def get (C : Crypto) (io : Io) (principal : CString) (kek : Kek) (agent cred : CString) (outLen : ℕ)
    (file : File) : ReadResult :=
  readCred C io principal kek "wrapped_dek" .error agent cred outLen file

/-- An entry from before the server wrap is reported as absent. -/
def getServer (C : Crypto) (io : Io) (principal : CString) (serverKek : Kek) (agent cred : CString)
    (outLen : ℕ) (file : File) :
    ReadResult :=
  readCred C io principal serverKek "wrapped_dek_server" .noEntry agent cred outLen file

/-! ## Wraps -/

/-- The key a wrap of the entry holds. -/
def unwrapField (C : Crypto) (kek : Kek) (field : String) (e : CJson) : Option Dek :=
  (stringItem e field).bind fun wrapped => (decodeBlock 40 wrapped).bind (C.unwrap kek)

/-- One turn of the loop of `jsonfile_add_server_wraps`. -/
def addServerWrap (C : Crypto) (userKek serverKek : Kek) (e : CJson) : Option CJson :=
  if (stringItem e "wrapped_dek_server").isSome then some e
  else (unwrapField C userKek "wrapped_dek" e).map fun dek =>
    addB64Field e "wrapped_dek_server" (C.wrap serverKek dek).val

def addServerWraps (C : Crypto) (io : Io) (userKek serverKek : Kek) (file : File) : Outcome :=
  if ¬io.lock then ⟨file, -1⟩
  else
    match loadVault io file with
    | none => ⟨file, 0⟩
    | some root =>
      match credsArray root with
      | none => ⟨file, 0⟩
      | some items =>
        match items.mapM (addServerWrap C userKek serverKek) with
        | none => ⟨file, -1⟩
        | some items' =>
          if items.all fun e => (stringItem e "wrapped_dek_server").isSome then ⟨file, 0⟩
          else writeVaultFile io (setCreds root items') file

/-- A wrap that is there made under another key. -/
def rewrap (C : Crypto) (oldKek newKek : Kek) (field : String) (e : CJson) : Option CJson :=
  (unwrapField C oldKek field e).map fun dek => setB64Field e field (C.wrap newKek dek).val

/-- One turn of the loop of `jsonfile_rekey_field`. -/
def rekeyEntry (C : Crypto) (oldKek newKek : Kek) (field : String) (e : CJson) : Option CJson :=
  if (stringItem e field).isSome then rewrap C oldKek newKek field e else some e

/-- It returns how many wraps it remade. -/
def rekeyField (C : Crypto) (io : Io) (field : String) (oldKek newKek : Kek) (file : File) : Outcome :=
  if field = "" ∨ ¬io.lock then ⟨file, -1⟩
  else
    match loadVault io file with
    | none => ⟨file, 0⟩
    | some root =>
      match credsArray root with
      | none => ⟨file, 0⟩
      | some items =>
        match items.mapM (rekeyEntry C oldKek newKek field) with
        | none => ⟨file, -1⟩
        | some items' =>
          let count := items.countP fun e => (stringItem e field).isSome
          if count = 0 then ⟨file, 0⟩
          else
            let written := writeVaultFile io (setCreds root items') file
            if written.rc = 0 then ⟨written.file, count⟩ else ⟨written.file, -1⟩

/-! ## The vault as a whole -/

def versionNumber : CJson := .number (ascii "1")

/-- `kdf_version`: logins derive their key from the password. -/
def kdfVersion (principal : CString) : CString :=
  if (ascii "webuser:").isPrefixOf principal.val then key "scrypt-n17-r8-p1-v1" else key "hkdf-sha256-v1"

def freshVault (principal : CString) (salt : Salt) : CJson :=
  .object [(key "version", versionNumber), (key "principal", .string principal),
    (key "kdf_version", .string (kdfVersion principal)),
    (key "salt", .string (b64 salt.val)), (key "creds", .array [])]

/-- `salt` is what is drawn when there is no vault yet. -/
def getOrCreateSalt (io : Io) (principal : CString) (salt : Salt) (file : File) : Outcome :=
  if principal = .empty ∨ ¬io.lock then ⟨file, -1⟩
  else
    match loadVault io file with
    | some root => ⟨file, if ((stringItem root "salt").bind (decodeBlock 16)).isSome then 0 else -1⟩
    | none => if vaultFileMissing io file then writeVaultFile io (freshVault principal salt) file else ⟨file, -1⟩

def kekCheckMatches (C : Crypto) (root : CJson) (kek : Kek) :
    Bool := unwrapField C kek "kek_check" root = some kekCheckSentinel

def kekCheckSet (C : Crypto) (root : CJson) (kek : Kek) : CJson :=
  let wrapped := (C.wrap kek kekCheckSentinel).val
  if (stringItem root "kek_check").isSome then setB64Field root "kek_check" wrapped else
    addB64Field root "kek_check" wrapped

def unlockCheck (C : Crypto) (io : Io) (kek : Kek) (file : File) : Outcome :=
  if ¬io.lock then ⟨file, -1⟩
  else
    match loadVault io file with
    | none => ⟨file, -1⟩
    | some root =>
      if (stringItem root "kek_check").isSome then ⟨file, if kekCheckMatches C root kek then 0 else -1⟩
      else writeVaultFile io (kekCheckSet C root kek) file

/-- The verifier first, then every user wrap: one that cannot be remade stops it all. -/
def rekey (C : Crypto) (io : Io) (oldKek newKek : Kek) (file : File) : Outcome :=
  if ¬io.lock then ⟨file, -1⟩
  else
    match loadVault io file with
    | none => ⟨file, -1⟩
    | some root =>
      if ¬((stringItem root "kek_check").isSome ∧ kekCheckMatches C root oldKek) then ⟨file, -1⟩
      else
        let root := kekCheckSet C root newKek
        match credsArray root with
        | none => writeVaultFile io root file
        | some items =>
          match items.mapM (rewrap C oldKek newKek "wrapped_dek") with
          | none => ⟨file, -1⟩
          | some items' => writeVaultFile io (setCreds root items') file

def delete (io : Io) (agent cred : CString) (file : File) : Outcome :=
  if ¬io.lock then ⟨file, -1⟩
  else
    match loadVault io file with
    | none => ⟨file, 0⟩
    | some root =>
      match credsArray root with
      | none => ⟨file, 0⟩
      | some items =>
        if (items.find? (isSlot agent cred)).isSome then
          writeVaultFile io (setCreds root (removeCred items agent cred)) file
        else ⟨file, 0⟩

/-- `vault_store_entry_t`. -/
structure ListEntry where
  agent : CString
  cred : CString
  deriving DecidableEq

/-- Names are copied into fields of 64 bytes. -/
def list (io : Io) (max : ℕ) (file : File) : List ListEntry :=
  match loadVault io file with
  | none => []
  | some root =>
    (((credsArray root).getD []).filterMap fun e =>
      match stringItem e "agent", stringItem e "cred" with
      | some agent, some cred => some ⟨agent.truncate 63, cred.truncate 63⟩
      | _, _ => none).take max

end VaultStore
