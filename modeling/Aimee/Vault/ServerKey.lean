-- SUMMARY: The vault directory and the rotation of the server master key: file names, copies of the directory, and file_rotate with its failing steps.
import Aimee.Lib.KeyMap
import Aimee.Vault.FileStore

/-!
# The server key

`vault_server_key.c`, the file custody. The server key is derived from a master key that lies in the
vault directory. A rotation backs the directory up, makes the server wraps of every principal anew,
probes one of them and swaps the master key; if a step fails it copies the backup back. The directory
is its regular files, in the order `readdir` lists them.
-/

namespace VaultStore

abbrev VaultDir := KeyMap CString (List UInt8)

abbrev MasterKey := Block 32

def principalMax : ℕ := 160

/-- `vault_file_path`, below the vault directory. -/
def vaultFileName (principal : CString) : CString :=
  ⟨Base64.encode principal.val ++ ascii ".json", fun h => by
    rcases List.mem_append.mp h with h | h
    · exact absurd (Base64.encode_printable principal.val 0 h).1 (by decide)
    · exact absurd h (by decide)⟩

/-- The principal `jsonfile_list_principals` reads off a file name. -/
def principalOfName (name : CString) : Option CString :=
  let stem := name.val.take (name.val.length - 5)
  if name.val.length ≤ 5 ∨ name.val.drop (name.val.length - 5) ≠ ascii ".json" then none
  else if 256 ≤ stem.length then none
  else
    match Base64.decode (principalMax - 1) stem with
    | none => none
    | some decoded => if decoded = [] then none else some (CString.ofBytes decoded)

namespace VaultDir

/-- The vault file of a principal. -/
def fileOf (dir : VaultDir) (principal : CString) : File := dir.get? (vaultFileName principal)

/-- A file as an operation left it; none is ever removed. -/
def store (dir : VaultDir) (name : CString) (file : File) : VaultDir :=
  match file with
  | some content => dir.put name content
  | none => dir

/-- `jsonfile_list_principals`. -/
def listPrincipals (dir : VaultDir) (max : ℕ) :
    List CString := ((dir.rows.map Prod.fst).filterMap principalOfName).take max

/-- `.server-master.key` -/
def masterName : CString := key ".server-master.key"

end VaultDir

/-! ## Copies of the directory -/

/-- What becomes of one file of a copy. -/
inductive CopyStep where
  | copied
  /-- `lstat` fails on it, or `readdir` ends before it -/
  | skipped
  /-- `rot_copy_file` fails, and may leave a part -/
  | failed (left : File)
  deriving DecidableEq

structure CopyIo where
  /-- the directories are created and opened -/
  opened : Bool
  step : CString → CopyStep

def CopyIo.fine : CopyIo := ⟨true, fun _ => .copied⟩

/-- The loop of `rot_copy_dir_flat`. -/
def copyFiles (step : CString → CopyStep) : List (CString × List UInt8) → VaultDir → VaultDir × Bool
  | [], dst => (dst, true)
  | (name, content) :: rest, dst =>
    match step name with
    | .copied => copyFiles step rest (dst.put name content)
    | .skipped => copyFiles step rest dst
    | .failed left => (dst.store name left, false)

/-- `rot_copy_dir_flat`: the destination, and whether it returned 0. -/
def rotCopyDirFlat (io : CopyIo) (src dst : VaultDir) : VaultDir × Bool :=
  if io.opened then copyFiles io.step src.rows dst else (dst, false)

/-! ## Rotation -/

/-- The steps of a rotation that may fail. -/
structure RotateIo where
  /-- the paths are resolved -/
  paths : Bool
  /-- the master key file is opened and read -/
  readMaster : Bool
  /-- the new master key is drawn, and both server keys are derived -/
  keys : Bool
  backup : CopyIo
  alloc : Bool
  /-- `opendir` of the listing; without it there are no principals -/
  openDir : Bool
  rekey : CString → Io
  probeList : Io
  probeGet : Io
  writeMaster : Bool
  restore : CopyIo

def RotateIo.fine : RotateIo where
  paths := true
  readMaster := true
  keys := true
  backup := .fine
  alloc := true
  openDir := true
  rekey _ := Io.fine
  probeList := Io.fine
  probeGet := Io.fine
  writeMaster := true
  restore := .fine

/-- `mk_read_t`. -/
inductive MasterRead where
  | ok (master : MasterKey)
  | absent
  | bad

def masterKeyRead (io : RotateIo) (dir : VaultDir) : MasterRead :=
  match dir.get? VaultDir.masterName with
  | none => .absent
  | some content =>
    if ¬io.readMaster then .bad
    else if h : content.length = 32 then .ok ⟨content, h⟩ else .bad

/-- The field the server key holds a wrap in: the primary one for its own principal. -/
def heldField (server principal : CString) :
    String := if principal = server then "wrapped_dek" else "wrapped_dek_server"

def maxPrincipals : ℕ := 256

def probeMax : ℕ := 8192

section

variable (C : Crypto) (server : CString)

/-- The wraps of one principal made anew. -/
def rekeyPrincipal (io : RotateIo) (oldKek newKek : Kek) (principal : CString) (dir : VaultDir) : VaultDir × ℤ :=
  let o := rekeyField C (io.rekey principal) (heldField server principal) oldKek newKek (dir.fileOf principal)
  (dir.store (vaultFileName principal) o.file, o.rc)

/-- The loop over the principals: the first that fails ends it. -/
def rekeyPrincipals (io : RotateIo) (oldKek newKek : Kek) : List CString → VaultDir → VaultDir × Bool
  | [], dir => (dir, true)
  | principal :: rest, dir =>
    let done := rekeyPrincipal C server io oldKek newKek principal dir
    if done.2 < 0 then (done.1, false) else rekeyPrincipals io oldKek newKek rest done.1

/-- The read that is tried before the swap, of the first credential of the server principal. -/
def probe (io : RotateIo) (newKek : Kek) (dir : VaultDir) : Bool :=
  match list io.probeList 1 (dir.fileOf server) with
  | [] => true
  | e :: _ =>
    match get C io.probeGet server newKek e.agent e.cred probeMax (dir.fileOf server) with
    | .ok _ => true
    | _ => false

/-- What follows the backup: the directory, and whether the new master key is in place. -/
def rewrapAndSwap (io : RotateIo) (oldKek newKek : Kek) (newMaster : MasterKey) (dir : VaultDir) : VaultDir × Bool :=
  if ¬io.alloc then (dir, false)
  else
    let done := rekeyPrincipals C server io oldKek newKek (if io.openDir then
      dir.listPrincipals maxPrincipals else []) dir
    if ¬done.2 then (done.1, false)
    else if ¬probe C server io newKek done.1 then (done.1, false)
    else if ¬io.writeMaster then (done.1, false)
    else (done.1.put VaultDir.masterName newMaster.val, true)

/-- What a rotation leaves and returns, and how its restore copy went if there was one. -/
structure Rotation where
  dir : VaultDir
  rc : ℤ
  restored : Option Bool

/-- `file_rotate`. `backupExists` tells of a directory left by an earlier rotation of the process. -/
def fileRotate (derive : MasterKey → Kek) (io : RotateIo) (backupExists : Bool) (newMaster : MasterKey)
    (dir : VaultDir) : Rotation :=
  if server = .empty ∨ ¬io.paths then ⟨dir, -1, none⟩
  else
    match masterKeyRead io dir with
    | .absent => ⟨dir, 0, none⟩
    | .bad => ⟨dir, -1, none⟩
    | .ok oldMaster =>
      if ¬io.keys ∨ backupExists then ⟨dir, -1, none⟩
      else
        let backup := rotCopyDirFlat io.backup dir KeyMap.empty
        if ¬backup.2 then ⟨dir, -1, none⟩
        else
          let done := rewrapAndSwap C server io (derive oldMaster) (derive newMaster) newMaster dir
          if done.2 then ⟨done.1, 0, none⟩
          else
            let restored := rotCopyDirFlat io.restore backup.1 done.1
            ⟨restored.1, -1, some restored.2⟩

end

/-! ## Names -/

theorem vaultFileName_injective {p q : CString} (h : vaultFileName p = vaultFileName q) : p = q := by
  have hval : Base64.encode p.val ++ ascii ".json" = Base64.encode q.val ++ ascii ".json" := congrArg Subtype.val h
  have hencode := List.append_cancel_right hval
  have hp : Base64.decode (p.val.length + q.val.length) (Base64.encode p.val) = some p.val :=
    Base64.decode_encode (by omega)
  have hq : Base64.decode (p.val.length + q.val.length) (Base64.encode q.val) = some q.val :=
    Base64.decode_encode (by omega)
  rw [hencode, hq] at hp
  exact Subtype.ext (Option.some.inj hp).symm

theorem principalOfName_vaultFileName {p : CString} (hne : p ≠ .empty) (hlength : p.val.length ≤ principalMax - 1) :
    principalOfName (vaultFileName p) = some p := by
  have hjson : (ascii ".json").length = 5 := by decide
  have hstem : (vaultFileName p).val.length - 5 = (Base64.encode p.val).length := by
    rw [vaultFileName, List.length_append]
    omega
  have htake : (vaultFileName p).val.take ((vaultFileName p).val.length - 5) = Base64.encode p.val := by
    rw [hstem, vaultFileName, List.take_left]
  have hdrop : (vaultFileName p).val.drop ((vaultFileName p).val.length - 5) = ascii ".json" := by
    rw [hstem, vaultFileName, List.drop_left]
  have hpos : p.val ≠ [] := fun h => hne (Subtype.ext h)
  have hencode := Base64.length_encode p.val
  have hlong : ¬(vaultFileName p).val.length ≤ 5 := by
    have h := List.length_pos_of_ne_nil hpos
    omega
  have hshort : ¬256 ≤ (Base64.encode p.val).length := by
    rw [principalMax] at hlength
    omega
  unfold principalOfName
  simp only [htake, hdrop]
  rw [if_neg (not_or.mpr ⟨hlong, not_not.mpr rfl⟩), if_neg hshort, Base64.decode_encode hlength]
  dsimp only
  rw [if_neg hpos, CString.ofBytes_of_not_mem p.property]

theorem vaultFileName_ne_masterName (p : CString) : vaultFileName p ≠ VaultDir.masterName := by
  intro h
  have hend : (vaultFileName p).val.drop ((vaultFileName p).val.length - 5) = ascii ".json" := by
    have hjson : (ascii ".json").length = 5 := by decide
    have hstem : (vaultFileName p).val.length - 5 = (Base64.encode p.val).length := by
      rw [vaultFileName, List.length_append]
      omega
    rw [hstem, vaultFileName, List.drop_left]
  rw [h] at hend
  exact absurd hend (by decide)

end VaultStore
