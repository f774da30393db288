-- SUMMARY: The vault operations with steps that fail: when what they report of the file is the truth.
import Aimee.Vendor.CJsonPrefix
import Aimee.Vault.FileOps

/-!
# Failing steps

Every operation loads the file, edits what it parsed, and writes the result; what it makes of a file
it cannot load differs. A call is truthful if a failure leaves the file as it was and a success means
what the operation promises of the file. The file here is any bytes, and any of the steps may fail.
-/

namespace VaultStore

/-- A call of one of the operations that change a vault file, with what it draws. -/
inductive Call where
  | set (kek serverKek : Option Kek) (agent cred secret : CString) (onlyIfAbsent : Bool) (draw : Draw)
  | writeBatch (kek : Kek) (agent : CString) (writes : List BatchWrite)
  | delete (agent cred : CString)
  | rekey (oldKek newKek : Kek)
  | rekeyField (field : String) (oldKek newKek : Kek)
  | addServerWraps (userKek serverKek : Kek)
  | unlockCheck (kek : Kek)

/-- The new file gets its name. -/
def Io.Renames (io : Io) : Prop := io.openWrite = true ∧ io.write = true ∧ io.fsync = true ∧ io.rename = true

instance (io : Io) : Decidable io.Renames := inferInstanceAs (Decidable (_ ∧ _))

/-- What becomes of a vault that was loaded. -/
inductive Edit where
  | refuse
  | keep
  | write (root : CJson) (rc : ℕ)

namespace Call

section

variable (C : Crypto) (principal : CString)

/-- What the store does. -/
def exec (io : Io) (file : File) : Call → Outcome
  | .set kek serverKek agent cred secret onlyIfAbsent draw =>
      setImpl C io principal kek serverKek agent cred secret onlyIfAbsent draw file
  | .writeBatch kek agent writes => VaultStore.writeBatch C io principal kek agent writes file
  | .delete agent cred => VaultStore.delete io agent cred file
  | .rekey oldKek newKek => VaultStore.rekey C io oldKek newKek file
  | .rekeyField field oldKek newKek => VaultStore.rekeyField C io field oldKek newKek file
  | .addServerWraps userKek serverKek => VaultStore.addServerWraps C io userKek serverKek file
  | .unlockCheck kek => VaultStore.unlockCheck C io kek file

/-- The arguments it takes. -/
def Takes : Call → Prop
  | .set kek serverKek agent cred secret _ _ =>
    ¬((kek = none ∧ serverKek = none) ∨ agent = .empty ∨ cred = .empty) ∧ secret.val.length ≤ secretMax
  | .writeBatch _ agent writes => BatchWrite.valid principal agent writes = true
  | .rekeyField field _ _ => field ≠ ""
  | _ => True

/-- It has nothing to do where there is no vault. -/
def Lenient : Call → Prop
  | .delete _ _ => True
  | .rekeyField _ _ _ => True
  | .addServerWraps _ _ => True
  | _ => False

def edit (root : CJson) : Call → Edit
  | .set kek serverKek agent cred secret onlyIfAbsent draw =>
    if onlyIfAbsent ∧ (findCred root agent cred).isSome then .refuse
    else
      match stageCredential C root principal kek serverKek agent cred secret draw with
      | none => .refuse
      | some root => .write root 0
  | .writeBatch kek agent writes =>
    match writes.foldlM (stageWrite C principal kek agent) root with
    | none => .refuse
    | some root => .write root 0
  | .delete agent cred =>
    match credsArray root with
    | none => .keep
    | some items =>
      if (items.find? (isSlot agent cred)).isSome then .write (setCreds root (removeCred items agent cred)) 0 else .keep
  | .rekey oldKek newKek =>
    if ¬((stringItem root "kek_check").isSome ∧ kekCheckMatches C root oldKek) then .refuse
    else
      match credsArray (kekCheckSet C root newKek) with
      | none => .write (kekCheckSet C root newKek) 0
      | some items =>
        match items.mapM (rewrap C oldKek newKek "wrapped_dek") with
        | none => .refuse
        | some items' => .write (setCreds (kekCheckSet C root newKek) items') 0
  | .rekeyField field oldKek newKek =>
    match credsArray root with
    | none => .keep
    | some items =>
      match items.mapM (rekeyEntry C oldKek newKek field) with
      | none => .refuse
      | some items' =>
        if items.countP (fun e => (stringItem e field).isSome) = 0 then .keep
        else .write (setCreds root items') (items.countP fun e => (stringItem e field).isSome)
  | .addServerWraps userKek serverKek =>
    match credsArray root with
    | none => .keep
    | some items =>
      match items.mapM (addServerWrap C userKek serverKek) with
      | none => .refuse
      | some items' =>
        if items.all fun e => (stringItem e "wrapped_dek_server").isSome then .keep else .write (setCreds root items') 0
  | .unlockCheck kek =>
    if (stringItem root "kek_check").isSome then if kekCheckMatches C root kek then .keep else .refuse
    else .write (kekCheckSet C root kek) 0

/-- What a success promises of the file. -/
def Post (root : CJson) : Call → Prop
  | .set kek serverKek agent cred secret _ draw =>
    ∃ aad items, buildAad principal agent cred = some aad ∧ credsArray root = some items ∧
      items.filter (isSlot agent cred) = [sealedEntry C aad kek serverKek agent cred secret draw]
  | .writeBatch kek agent writes =>
    ∃ items, credsArray root = some items ∧ ∀ w ∈ writes,
      match w.secret with
      | some secret => ∃ aad, buildAad principal agent w.credential = some aad ∧
          items.filter (isSlot agent w.credential) =
            [sealedEntry C aad (some kek) none agent w.credential secret w.draw]
      | none => items.filter (isSlot agent w.credential) = []
  | .delete agent cred => findCred root agent cred = none
  | .rekey _ newKek =>
    kekCheckMatches C root newKek = true ∧
      ∀ e ∈ (credsArray root).getD [], (unwrapField C newKek "wrapped_dek" e).isSome
  | .rekeyField field _ newKek =>
    ∀ e ∈ (credsArray root).getD [], (stringItem e field).isSome → (unwrapField C newKek field e).isSome
  | .addServerWraps _ _ => ∀ e ∈ (credsArray root).getD [], (stringItem e "wrapped_dek_server").isSome
  | .unlockCheck kek => kekCheckMatches C root kek = true

/-- A failure leaves the file as it was; a success found the file if there is one, and keeps its promise. -/
structure Truthful (io : Io) (file : File) (call : Call) : Prop where
  failure : (call.exec C principal io file).rc < 0 → (call.exec C principal io file).file = file
  loaded : 0 ≤ (call.exec C principal io file).rc → file.isSome → (loadVault io file).isSome
  success : 0 ≤ (call.exec C principal io file).rc → ∀ content ∈ (call.exec C principal io file).file,
    ∃ root, CJson.parse (CString.ofBytes content) = some root ∧ call.Post C principal root

/-- What has to hold of a vault for its edit to do what the call promises. -/
def Shape (root : CJson) : Call → Prop
  | .set _ _ agent cred _ _ _ => ((credsArray root).getD []).countP (isSlot agent cred) ≤ 1
  | .writeBatch _ agent writes => ∀ w ∈ writes, ((credsArray root).getD []).countP (isSlot agent w.credential) ≤ 1
  | .delete agent cred => ((credsArray root).getD []).countP (isSlot agent cred) ≤ 1
  | .addServerWraps _ _ =>
    ∀ e ∈ (credsArray root).getD [], (item e "wrapped_dek_server").isSome → (stringItem e "wrapped_dek_server").isSome
  | .unlockCheck _ => (∃ members, root = .object members) ∧ ((item root "kek_check").isSome →
      (stringItem root "kek_check").isSome)
  | _ => True

/-- The condition under which a call is truthful: a call that has nothing to do without a vault finds the
    file it has, one that keeps the file has parsed all of it, and one that replaces the file either gets
    the directory synced, on a vault of the right shape, or writes the bytes that were there. -/
def Safe (io : Io) (file : File) (call : Call) : Prop :=
  call.Takes principal → io.lock = true →
    (loadVault io file = none → call.Lenient → file = none) ∧
      ∀ root, loadVault io file = some root →
        match call.edit C principal root with
        | .refuse => True
        | .keep => ∀ content ∈ file, (CJson.parse (CString.ofBytes content)).isSome
        | .write root' _ => io.Renames → if io.syncDir then call.Shape root else file = some root'.printed

end

/-! ## One call -/

section Exec

variable (C : Crypto) (principal : CString) {io : Io} {file : File}

theorem writeVaultFile_of_sound {root : CJson} (h : root.Sound) (io : Io) (file : File) :
    writeVaultFile io root file =
      if io.Renames then ⟨some root.printed, if io.syncDir then 0 else -1⟩ else ⟨file, -1⟩ := by
  rw [writeVaultFile, printUnformatted_of_sound h]
  by_cases hrenames : io.Renames
  · rw [if_pos hrenames]
    exact if_pos hrenames
  · rw [if_neg hrenames]
    exact if_neg hrenames

theorem writeVaultFile_rc (io : Io) (root : CJson) (file : File) :
    (writeVaultFile io root file).rc = 0 ∨ (writeVaultFile io root file).rc = -1 := by
  unfold writeVaultFile
  split
  · exact .inr rfl
  · split_ifs
    · exact .inl rfl
    · exact .inr rfl
    · exact .inr rfl

/-- What is left of a loaded vault. -/
def settle (io : Io) (file : File) : Edit → Outcome
  | .refuse => ⟨file, -1⟩
  | .keep => ⟨file, 0⟩
  | .write root n =>
    if (writeVaultFile io root file).rc = 0 then ⟨(writeVaultFile io root file).file, n⟩ else
      ⟨(writeVaultFile io root file).file, -1⟩

theorem settle_write_zero (io : Io) (file : File) (root : CJson) :
    settle io file (.write root 0) = writeVaultFile io root file := by
  rw [settle]
  rcases writeVaultFile_rc io root file with h | h
  · rw [if_pos h]
    exact congrArg (Outcome.mk _) h.symm
  · rw [if_neg (by rw [h]; decide)]
    exact congrArg (Outcome.mk _) h.symm

theorem exec_refused (call : Call) (h : ¬(call.Takes principal ∧ io.lock = true)) :
    call.exec C principal io file = ⟨file, -1⟩ := by
  cases call with
  | set kek serverKek agent cred secret onlyIfAbsent draw =>
    rw [exec, setImpl]
    by_cases hargs : (kek = none ∧ serverKek = none) ∨ agent = .empty ∨ cred = .empty
    · rw [if_pos hargs]
    · rw [if_neg hargs]
      by_cases hlong : secretMax < secret.val.length
      · rw [if_pos hlong]
      · rw [if_neg hlong, if_pos fun hlock => h ⟨⟨hargs, not_lt.mp hlong⟩, hlock⟩]
  | writeBatch kek agent writes =>
    rw [exec, VaultStore.writeBatch]
    by_cases hvalid : BatchWrite.valid principal agent writes = true
    · rw [if_neg (not_not.mpr hvalid), if_pos fun hlock => h ⟨hvalid, hlock⟩]
    · rw [if_pos hvalid]
  | delete agent cred =>
    exact if_pos fun hlock => h ⟨trivial, hlock⟩
  | rekey oldKek newKek =>
    exact if_pos fun hlock => h ⟨trivial, hlock⟩
  | rekeyField field oldKek newKek =>
    refine if_pos ?_
    by_contra hargs
    rw [not_or, not_not] at hargs
    exact h hargs
  | addServerWraps userKek serverKek =>
    exact if_pos fun hlock => h ⟨trivial, hlock⟩
  | unlockCheck kek =>
    exact if_pos fun hlock => h ⟨trivial, hlock⟩

theorem exec_unloaded (call : Call) (htakes : call.Takes principal) (hlock : io.lock = true)
    (hload : loadVault io file = none) :
    call.Lenient ∧ call.exec C principal io file = ⟨file, 0⟩ ∨
      ¬call.Lenient ∧ call.exec C principal io file = ⟨file, -1⟩ := by
  cases call with
  | set kek serverKek agent cred secret onlyIfAbsent draw =>
    refine .inr ⟨fun h => h, ?_⟩
    rw [exec, setImpl, if_neg htakes.1, if_neg (not_lt.mpr htakes.2), if_neg (not_not.mpr hlock), hload]
  | writeBatch kek agent writes =>
    have hvalid : BatchWrite.valid principal agent writes = true := htakes
    refine .inr ⟨fun h => h, ?_⟩
    rw [exec, VaultStore.writeBatch, if_neg (not_not.mpr hvalid), if_neg (not_not.mpr hlock), hload]
  | delete agent cred =>
    refine .inl ⟨trivial, ?_⟩
    rw [exec, VaultStore.delete, if_neg (not_not.mpr hlock), hload]
  | rekey oldKek newKek =>
    refine .inr ⟨fun h => h, ?_⟩
    rw [exec, VaultStore.rekey, if_neg (not_not.mpr hlock), hload]
  | rekeyField field oldKek newKek =>
    refine .inl ⟨trivial, ?_⟩
    rw [exec, VaultStore.rekeyField, if_neg (not_or.mpr ⟨htakes, not_not.mpr hlock⟩), hload]
  | addServerWraps userKek serverKek =>
    refine .inl ⟨trivial, ?_⟩
    rw [exec, VaultStore.addServerWraps, if_neg (not_not.mpr hlock), hload]
  | unlockCheck kek =>
    refine .inr ⟨fun h => h, ?_⟩
    rw [exec, VaultStore.unlockCheck, if_neg (not_not.mpr hlock), hload]

theorem exec_loaded (call : Call) (htakes : call.Takes principal) (hlock : io.lock = true) {root : CJson}
    (hload : loadVault io file = some root) :
    call.exec C principal io file = settle io file (call.edit C principal root) := by
  cases call with
  | set kek serverKek agent cred secret onlyIfAbsent draw =>
    rw [exec, setImpl, if_neg htakes.1, if_neg (not_lt.mpr htakes.2), if_neg (not_not.mpr hlock), hload, edit]
    dsimp only
    by_cases hpresent : onlyIfAbsent = true ∧ (findCred root agent cred).isSome = true
    · rw [if_pos hpresent, if_pos hpresent]
      rfl
    · rw [if_neg hpresent, if_neg hpresent]
      cases stageCredential C root principal kek serverKek agent cred secret draw with
      | none => rfl
      | some root' => exact (settle_write_zero io file root').symm
  | writeBatch kek agent writes =>
    have hvalid : BatchWrite.valid principal agent writes = true := htakes
    rw [exec, VaultStore.writeBatch, if_neg (not_not.mpr hvalid), if_neg (not_not.mpr hlock), hload, edit]
    dsimp only
    cases writes.foldlM (stageWrite C principal kek agent) root with
    | none => rfl
    | some root' => exact (settle_write_zero io file root').symm
  | delete agent cred =>
    rw [exec, VaultStore.delete, if_neg (not_not.mpr hlock), hload, edit]
    dsimp only
    cases credsArray root with
    | none => rfl
    | some items =>
      dsimp only
      cases items.find? (isSlot agent cred) with
      | none => rfl
      | some e => exact (settle_write_zero io file _).symm
  | rekey oldKek newKek =>
    rw [exec, VaultStore.rekey, if_neg (not_not.mpr hlock), hload, edit]
    dsimp only
    by_cases hkek : (stringItem root "kek_check").isSome = true ∧ kekCheckMatches C root oldKek = true
    · rw [if_neg (not_not.mpr hkek), if_neg (not_not.mpr hkek)]
      cases credsArray (kekCheckSet C root newKek) with
      | none => exact (settle_write_zero io file _).symm
      | some items =>
        dsimp only
        cases items.mapM (rewrap C oldKek newKek "wrapped_dek") with
        | none => rfl
        | some items' => exact (settle_write_zero io file _).symm
    · rw [if_pos hkek, if_pos hkek]
      rfl
  | rekeyField field oldKek newKek =>
    rw [exec, VaultStore.rekeyField, if_neg (not_or.mpr ⟨htakes, not_not.mpr hlock⟩), hload, edit]
    dsimp only
    cases credsArray root with
    | none => rfl
    | some items =>
      dsimp only
      cases items.mapM (rekeyEntry C oldKek newKek field) with
      | none => rfl
      | some items' =>
        dsimp only
        by_cases hcount : items.countP (fun e => (stringItem e field).isSome) = 0
        · rw [if_pos hcount, if_pos hcount]
          rfl
        · rw [if_neg hcount, if_neg hcount]
          rfl
  | addServerWraps userKek serverKek =>
    rw [exec, VaultStore.addServerWraps, if_neg (not_not.mpr hlock), hload, edit]
    dsimp only
    cases credsArray root with
    | none => rfl
    | some items =>
      dsimp only
      cases items.mapM (addServerWrap C userKek serverKek) with
      | none => rfl
      | some items' =>
        cases items.all fun e => (stringItem e "wrapped_dek_server").isSome with
        | true => rfl
        | false => exact (settle_write_zero io file _).symm
  | unlockCheck kek =>
    rw [exec, VaultStore.unlockCheck, if_neg (not_not.mpr hlock), hload, edit]
    dsimp only
    cases stringItem root "kek_check" with
    | none => exact (settle_write_zero io file _).symm
    | some s => cases kekCheckMatches C root kek <;> rfl

end Exec

/-! ## What the edits write -/

section Filter

variable {α : Type} {p q : α → Bool}

theorem filter_eraseP (l : List α) : (l.eraseP p).filter p = (l.filter p).tail := by
  induction l with
  | nil => rfl
  | cons a l ih =>
    cases hp : p a with
    | true => rw [List.eraseP_cons_of_pos hp, List.filter_cons_of_pos hp, List.tail_cons]
    | false =>
      have hneg : ¬p a = true := by rw [hp]; decide
      rw [List.eraseP_cons_of_neg hneg, List.filter_cons_of_neg hneg, List.filter_cons_of_neg hneg, ih]

theorem filter_eraseP_of_disjoint (h : ∀ a, p a = true → ¬q a = true) (l : List α) :
    (l.eraseP p).filter q = l.filter q := by
  induction l with
  | nil => rfl
  | cons a l ih =>
    cases hp : p a with
    | true => rw [List.eraseP_cons_of_pos hp, List.filter_cons_of_neg (h a hp)]
    | false =>
      rw [List.eraseP_cons_of_neg (by rw [hp]; decide), List.filter_cons, List.filter_cons, ih]

theorem tail_filter_eq_nil (l : List α) : (l.filter p).tail = [] ↔ l.countP p ≤ 1 := by
  rw [List.countP_eq_length_filter]
  cases l.filter p with
  | nil => simp
  | cons a rest => cases rest <;> simp

end Filter

theorem isSlot_sealedEntry (C : Crypto) (aad : List UInt8) (kek serverKek : Option Kek)
    (agent cred secret : CString) (draw : Draw) (agent' cred' : CString) :
    isSlot agent' cred' (sealedEntry C aad kek serverKek agent cred secret draw) =
      decide ((agent, cred) = (agent', cred')) := by
  rw [Sealed.json_stage]
  exact Sealed.isSlot_json _ agent' cred'

section Edits

variable {C : Crypto} (hC : C.Correct) {principal : CString} {root root' : CJson}

theorem stageCredential_eq_some {kek serverKek : Option Kek} {agent cred secret : CString} {draw : Draw}
    (h : stageCredential C root principal kek serverKek agent cred secret draw = some root') :
    ∃ aad items, buildAad principal agent cred = some aad ∧ credsArray root = some items ∧
      root' = setCreds root (removeCred items agent cred ++ [sealedEntry C aad kek serverKek agent cred secret draw]) ∧
      credsArray root' = some (removeCred items agent cred ++
        [sealedEntry C aad kek serverKek agent cred secret draw]) := by
  obtain ⟨aad, haad, h⟩ := Option.bind_eq_some_iff.mp h
  obtain ⟨items, hitems, h⟩ := Option.bind_eq_some_iff.mp h
  cases h
  exact ⟨aad, items, haad, hitems, rfl, credsArray_setCreds hitems _⟩

theorem filter_staged (items : List CJson) (aad : List UInt8) (kek serverKek : Option Kek)
    (agent cred secret : CString) (draw : Draw) :
    (removeCred items agent cred ++ [sealedEntry C aad kek serverKek agent cred secret draw]).filter
      (isSlot agent cred) =
      (items.filter (isSlot agent cred)).tail ++ [sealedEntry C aad kek serverKek agent cred secret draw] := by
  have hself : isSlot agent cred (sealedEntry C aad kek serverKek agent cred secret draw) = true := by
    rw [isSlot_sealedEntry]
    exact decide_eq_true rfl
  rw [List.filter_append, removeCred, filter_eraseP, List.filter_cons_of_pos hself, List.filter_nil]

/-- Two credential names share no entry. -/
theorem isSlot_disjoint {agent cred cred' : CString} (h : cred ≠ cred') (e : CJson) (he : isSlot agent cred e = true) :
    ¬isSlot agent cred' e = true := by
  rw [isSlot, Bool.and_eq_true, decide_eq_true_eq, decide_eq_true_eq] at he ⊢
  rintro ⟨-, hcred⟩
  rw [he.2] at hcred
  exact h (Option.some.inj hcred)

theorem filter_staged_of_ne (items : List CJson) (aad : List UInt8) (kek serverKek : Option Kek)
    (agent secret : CString) (draw : Draw) {cred cred' : CString} (h : cred ≠ cred') :
    (removeCred items agent cred ++ [sealedEntry C aad kek serverKek agent cred secret draw]).filter
      (isSlot agent cred') =
      items.filter (isSlot agent cred') := by
  have hother : ¬isSlot agent cred' (sealedEntry C aad kek serverKek agent cred secret draw) = true := by
    rw [isSlot_sealedEntry, decide_eq_true_eq]
    exact fun hslot => h (Prod.ext_iff.mp hslot).2
  rw [List.filter_append, removeCred, filter_eraseP_of_disjoint (isSlot_disjoint h),
    List.filter_cons_of_neg hother, List.filter_nil, List.append_nil]

variable {items : List CJson} {kek : Kek} {agent : CString} {writes : List BatchWrite} {field : String}
    {oldKek newKek : Kek} {e e' : CJson} {userKek serverKek : Kek} {n : ℕ}

theorem sound_staged (hroot : root.Sound) (hitems : credsArray root = some items) (aad : List UInt8)
    (kek serverKek : Option Kek) (agent cred secret : CString) (draw : Draw) :
    (setCreds root (removeCred items agent cred ++
      [sealedEntry C aad kek serverKek agent cred secret draw])).Sound := by
  refine sound_setCreds hroot fun e he => ?_
  rcases List.mem_append.mp he with he | he
  · exact fit_of_credsArray hroot hitems e (List.mem_of_mem_eraseP he)
  · rw [List.mem_singleton.mp he]
    exact fit_sealedEntry C aad kek serverKek agent cred secret draw

theorem sound_removed (hroot : root.Sound) (hitems : credsArray root = some items) (agent cred : CString) :
    (setCreds root (removeCred items agent cred)).Sound :=
  sound_setCreds hroot fun e he => fit_of_credsArray hroot hitems e (List.mem_of_mem_eraseP he)

theorem sound_stageWrites (hroot : root.Sound)
    (h : writes.foldlM (stageWrite C principal kek agent) root = some root') : root'.Sound := by
  induction writes generalizing root with
  | nil =>
    cases h
    exact hroot
  | cons w writes ih =>
    obtain ⟨root₁, hroot₁, hrest⟩ := Option.bind_eq_some_iff.mp h
    refine ih ?_ hrest
    unfold stageWrite at hroot₁
    split at hroot₁
    · obtain ⟨aad, items, -, hitems, rfl, -⟩ := stageCredential_eq_some hroot₁
      exact sound_staged hroot hitems aad _ _ agent _ _ _
    · obtain ⟨items, hitems, rfl⟩ := Option.map_eq_some_iff.mp hroot₁
      exact sound_removed hroot hitems agent _

/-- Entries made from fit entries by a function that keeps them fit. -/
theorem fit_of_mapM {f : CJson → Option CJson} (hf : ∀ e e', Fit e → f e = some e' → Fit e') {items items' : List CJson}
    (h : items.mapM f = some items') (hitems : ∀ e ∈ items, Fit e) : ∀ e ∈ items', Fit e := by
  intro e' he'
  obtain ⟨e, he, hfe⟩ := Table.exists_mem_of_forall₂ (List.mapM_eq_some_iff_forall₂.mp h) he'
  exact hf e e' (hitems e he) hfe

theorem fit_rewrap (he : Fit e) (h : rewrap C oldKek newKek field e = some e') :
    Fit e' := by
  obtain ⟨dek, -, rfl⟩ := Option.map_eq_some_iff.mp h
  exact fit_setB64Field field _ he

theorem fit_rekeyEntry (he : Fit e) (h : rekeyEntry C oldKek newKek field e = some e') :
    Fit e' := by
  unfold rekeyEntry at h
  split at h
  · exact fit_rewrap he h
  · cases h
    exact he

theorem fit_addServerWrap (he : Fit e) (h : addServerWrap C userKek serverKek e = some e') :
    Fit e' := by
  unfold addServerWrap at h
  split at h
  · cases h
    exact he
  · obtain ⟨dek, -, rfl⟩ := Option.map_eq_some_iff.mp h
    exact fit_addB64Field "wrapped_dek_server" _ he

/-- What an edit writes can be printed and read back. -/
theorem sound_edit (call : Call) (hroot : root.Sound) (h : call.edit C principal root = .write root' n) :
    root'.Sound := by
  revert h
  fun_cases edit C principal root call <;> intro h <;> cases h
  case case3 kek serverKek agent cred secret onlyIfAbsent draw _ hstage =>
    obtain ⟨aad, items, -, hitems, rfl, -⟩ := stageCredential_eq_some hstage
    exact sound_staged hroot hitems aad kek serverKek agent cred secret draw
  case case5 hstage => exact sound_stageWrites hroot hstage
  case case7 agent cred items hitems _ => exact sound_removed hroot hitems agent cred
  case case10 newKek _ _ => exact sound_kekCheckSet C newKek hroot
  case case12 newKek _ items hitems items' hmap =>
    have hset := sound_kekCheckSet C newKek hroot
    exact sound_setCreds hset (fit_of_mapM (fun _ _ he => fit_rewrap he) hmap (fit_of_credsArray hset hitems))
  case case16 hitems items' hmap _ =>
    exact sound_setCreds hroot (fit_of_mapM (fun _ _ he => fit_rekeyEntry he) hmap (fit_of_credsArray hroot hitems))
  case case20 hitems items' hmap _ =>
    exact sound_setCreds hroot (fit_of_mapM (fun _ _ he => fit_addServerWrap he) hmap (fit_of_credsArray hroot hitems))
  case case23 kek _ => exact sound_kekCheckSet C kek hroot

/-! ## What the edits promise -/

theorem stageWrite_eq_some {w : BatchWrite} (h : stageWrite C principal kek agent root w = some root') :
    ∃ items items', credsArray root = some items ∧ credsArray root' = some items' ∧
      (∀ cred, w.credential ≠ cred → items'.filter (isSlot agent cred) = items.filter (isSlot agent cred)) ∧
      match w.secret with
      | some secret => ∃ aad, buildAad principal agent w.credential = some aad ∧
          items'.filter (isSlot agent w.credential) =
          (items.filter (isSlot agent w.credential)).tail ++
            [sealedEntry C aad (some kek) none agent w.credential secret w.draw]
      | none => items'.filter (isSlot agent w.credential) = (items.filter (isSlot agent w.credential)).tail := by
  unfold stageWrite at h
  cases hsecret : w.secret with
  | some secret =>
    rw [hsecret] at h
    obtain ⟨aad, items, haad, hitems, -, hitems'⟩ := stageCredential_eq_some h
    exact ⟨items, _, hitems, hitems', fun cred hne => filter_staged_of_ne items aad _ _ agent secret w.draw hne,
      aad, haad, filter_staged items aad _ _ agent w.credential secret w.draw⟩
  | none =>
    rw [hsecret] at h
    obtain ⟨items, hitems, rfl⟩ := Option.map_eq_some_iff.mp h
    exact ⟨items, _, hitems, credsArray_setCreds hitems _,
      fun cred hne => filter_eraseP_of_disjoint (isSlot_disjoint hne) items, filter_eraseP items⟩

/-- A whole batch, its names being different. -/
theorem stageWrites_eq_some
    (hnodup : (writes.map BatchWrite.credential).Nodup) (hitems : credsArray root = some items)
    (h : writes.foldlM (stageWrite C principal kek agent) root = some root') :
    ∃ items', credsArray root' = some items' ∧
      (∀ cred, cred ∉ writes.map BatchWrite.credential →
        items'.filter (isSlot agent cred) = items.filter (isSlot agent cred)) ∧
      ∀ w ∈ writes,
        match w.secret with
        | some secret => ∃ aad, buildAad principal agent w.credential = some aad ∧
            items'.filter (isSlot agent w.credential) =
            (items.filter (isSlot agent w.credential)).tail ++
              [sealedEntry C aad (some kek) none agent w.credential secret w.draw]
        | none => items'.filter (isSlot agent w.credential) = (items.filter (isSlot agent w.credential)).tail := by
  induction writes generalizing root items with
  | nil =>
    cases h
    exact ⟨items, hitems, fun _ _ => rfl, fun w hw => absurd hw List.not_mem_nil⟩
  | cons w writes ih =>
    rw [List.map_cons, List.nodup_cons] at hnodup
    obtain ⟨root₁, hroot₁, hrest⟩ := Option.bind_eq_some_iff.mp h
    obtain ⟨items₀, items₁, hitems₀, hitems₁, hothers, hself⟩ := stageWrite_eq_some hroot₁
    rw [hitems] at hitems₀
    cases hitems₀
    obtain ⟨items', hitems', hkept, hwrites⟩ := ih hnodup.2 hitems₁ hrest
    refine ⟨items', hitems', fun cred hcred => ?_, fun w' hw' => ?_⟩
    · rw [List.map_cons, List.mem_cons, not_or] at hcred
      rw [hkept cred hcred.2, hothers cred (Ne.symm hcred.1)]
    · rcases List.mem_cons.mp hw' with rfl | hw'
      · -- The later writes are on other names.
        rw [hkept _ hnodup.1]
        exact hself
      · have hne : w.credential ≠ w'.credential := fun heq => hnodup.1 (heq ▸ List.mem_map_of_mem hw')
        have hw := hwrites w' hw'
        rw [hothers _ hne] at hw
        exact hw

theorem post_set_iff {kek serverKek : Option Kek} {agent cred secret : CString} {onlyIfAbsent : Bool} {draw : Draw}
    (h : stageCredential C root principal kek serverKek agent cred secret draw = some root') :
    Post C principal root' (.set kek serverKek agent cred secret onlyIfAbsent draw) ↔
      Shape root (.set kek serverKek agent cred secret onlyIfAbsent draw) := by
  obtain ⟨aad, items, haad, hitems, -, hitems'⟩ := stageCredential_eq_some h
  rw [Shape, hitems, ← tail_filter_eq_nil]
  constructor
  · rintro ⟨aad', found, haad', hfound, hfilter⟩
    rw [haad] at haad'
    cases haad'
    rw [hitems'] at hfound
    cases hfound
    rw [filter_staged] at hfilter
    exact List.append_left_eq_self.mp hfilter
  · intro hnil
    refine ⟨aad, _, haad, hitems', ?_⟩
    rw [filter_staged]
    exact List.append_left_eq_self.mpr hnil

theorem post_writeBatch_iff
    (hvalid : BatchWrite.valid principal agent writes = true)
    (h : writes.foldlM (stageWrite C principal kek agent) root = some root') :
    Post C principal root' (.writeBatch kek agent writes) ↔ Shape root (.writeBatch kek agent writes) := by
  have hargs := hvalid
  simp only [BatchWrite.valid, Bool.and_eq_true, decide_eq_true_eq] at hargs
  obtain ⟨items, hitems⟩ : ∃ items, credsArray root = some items := by
    cases writes with
    | nil => exact absurd rfl hargs.1.1.1.2
    | cons w writes =>
      obtain ⟨root₁, hroot₁, -⟩ := Option.bind_eq_some_iff.mp h
      obtain ⟨items, -, hitems, -⟩ := stageWrite_eq_some hroot₁
      exact ⟨items, hitems⟩
  obtain ⟨items', hitems', -, hwrites⟩ := stageWrites_eq_some hargs.2 hitems h
  have hone : ∀ w ∈ writes,
      (match w.secret with
        | some secret => ∃ aad, buildAad principal agent w.credential = some aad ∧
            items'.filter (isSlot agent w.credential) =
              [sealedEntry C aad (some kek) none agent w.credential secret w.draw]
        | none => items'.filter (isSlot agent w.credential) = []) ↔ items.countP (isSlot agent w.credential) ≤ 1 := by
    intro w hw
    have hself := hwrites w hw
    rw [← tail_filter_eq_nil]
    cases hsecret : w.secret with
    | some secret =>
      rw [hsecret] at hself
      obtain ⟨aad, haad, hfilter⟩ := hself
      constructor
      · rintro ⟨aad', haad', hone⟩
        rw [haad] at haad'
        cases haad'
        rw [hfilter] at hone
        exact List.append_left_eq_self.mp hone
      · intro hnil
        exact ⟨aad, haad, by rw [hfilter, hnil, List.nil_append]⟩
    | none =>
      rw [hsecret] at hself
      rw [hself]
  rw [Shape, hitems]
  constructor
  · rintro ⟨found, hfound, hall⟩ w hw
    rw [hitems'] at hfound
    cases hfound
    exact (hone w hw).mp (hall w hw)
  · intro hshape
    exact ⟨items', hitems', fun w hw => (hone w hw).mpr (hshape w hw)⟩

theorem post_delete_iff {agent cred : CString} (hitems : credsArray root = some items) :
    Post C principal (setCreds root (removeCred items agent cred)) (.delete agent cred) ↔
      Shape root (.delete agent cred) := by
  rw [Post, Shape, findCred_of_credsArray (credsArray_setCreds hitems _), hitems, Option.getD_some,
    ← tail_filter_eq_nil, ← filter_eraseP, List.find?_eq_none, List.filter_eq_nil_iff]
  rfl

theorem unwrapField_of_stringItem (hC : C.Correct) {e : CJson} {dek : Dek}
    (h : stringItem e field = some (b64 (C.wrap kek dek).val)) : unwrapField C kek field e = some dek := by
  rw [unwrapField, h, Option.bind_some, decodeBlock_b64, Option.bind_some, hC.unwrap_wrap]

theorem isSome_stringItem_of_unwrapField {e : CJson} {dek : Dek} (h : unwrapField C kek field e = some dek) :
    (stringItem e field).isSome := by
  obtain ⟨s, hs, -⟩ := Option.bind_eq_some_iff.mp h
  rw [hs]
  rfl

/-- A wrap that was remade opens under the new key. -/
theorem unwrapField_rewrap (hC : C.Correct)
    (h : rewrap C oldKek newKek field e = some e') :
    ∃ dek, unwrapField C oldKek field e = some dek ∧ unwrapField C newKek field e' = some dek := by
  obtain ⟨dek, hdek, rfl⟩ := Option.map_eq_some_iff.mp h
  exact ⟨dek, hdek, unwrapField_of_stringItem hC
    (stringItem_setB64Field_self _ (isSome_stringItem_of_unwrapField hdek))⟩

theorem kekCheckMatches_setB64Field (hC : C.Correct) (h : (stringItem root "kek_check").isSome) (kek : Kek) :
    kekCheckMatches C (kekCheckSet C root kek) kek = true := by
  have hset : kekCheckSet C root kek = setB64Field root "kek_check" (C.wrap kek kekCheckSentinel).val := if_pos h
  rw [kekCheckMatches, hset, unwrapField_of_stringItem hC (stringItem_setB64Field_self _ h)]
  exact decide_eq_true rfl

/-- The verifier stays where the entries change. -/
theorem kekCheckMatches_setCreds (kek : Kek) (items : List CJson) :
    kekCheckMatches C (setCreds root items) kek = kekCheckMatches C root kek := by
  rw [kekCheckMatches, kekCheckMatches, unwrapField_setCreds C kek root items (by decide)]

include hC

theorem post_rekey (h : edit C principal root (.rekey oldKek newKek) = .write root' n) :
    Post C principal root' (.rekey oldKek newKek) := by
  rw [edit] at h
  split at h
  · cases h
  · next hkek =>
    rw [not_not] at hkek
    have hcheck := kekCheckMatches_setB64Field hC hkek.1 newKek
    split at h
    · next hnone =>
      cases h
      refine ⟨hcheck, fun e he => ?_⟩
      rw [hnone] at he
      exact absurd he List.not_mem_nil
    · next items hitems =>
      split at h
      · cases h
      · next items' hmap =>
        cases h
        refine ⟨(kekCheckMatches_setCreds newKek items').trans hcheck, fun e he => ?_⟩
        rw [credsArray_setCreds hitems] at he
        obtain ⟨e₀, -, hrewrap⟩ := Table.exists_mem_of_forall₂ (List.mapM_eq_some_iff_forall₂.mp hmap) he
        obtain ⟨dek, -, hdek⟩ := unwrapField_rewrap hC hrewrap
        rw [hdek]
        rfl

theorem post_rekeyField {items items' : List CJson} (hitems : credsArray root = some items)
    (h : items.mapM (rekeyEntry C oldKek newKek field) = some items') :
    Post C principal (setCreds root items') (.rekeyField field oldKek newKek) := by
  intro e he hstring
  rw [credsArray_setCreds hitems] at he
  obtain ⟨e₀, -, hentry⟩ := Table.exists_mem_of_forall₂ (List.mapM_eq_some_iff_forall₂.mp h) he
  unfold rekeyEntry at hentry
  split at hentry
  · obtain ⟨dek, -, hdek⟩ := unwrapField_rewrap hC hentry
    rw [hdek]
    rfl
  · next hnone =>
    cases hentry
    exact absurd hstring hnone

omit hC in
/-- A server wrap is found where it was added unless something else stands in its place. -/
theorem isSome_addServerWrap (h : addServerWrap C userKek serverKek e = some e') :
    (stringItem e' "wrapped_dek_server").isSome ↔
      ((item e "wrapped_dek_server").isSome → (stringItem e "wrapped_dek_server").isSome) := by
  unfold addServerWrap at h
  split at h
  · next hsome =>
    cases h
    exact iff_of_true hsome fun _ => hsome
  · next hnone =>
    obtain ⟨dek, hdek, rfl⟩ := Option.map_eq_some_iff.mp h
    have hobject : ∃ members, e = .object members := by
      obtain ⟨s, hs⟩ := Option.isSome_iff_exists.mp (isSome_stringItem_of_unwrapField hdek)
      obtain ⟨members, he, -⟩ := mem_of_item (stringItem_eq_some.mp hs)
      exact ⟨members, he⟩
    obtain ⟨members, rfl⟩ := hobject
    cases hitem : item (.object members) "wrapped_dek_server" with
    | none =>
      refine iff_of_true ?_ fun h => by cases h
      rw [stringItem, addB64Field, item_addItem_self hitem]
      rfl
    | some x =>
      refine iff_of_false ?_ fun h => hnone (h rfl)
      rw [stringItem, hitem] at hnone
      rw [stringItem, addB64Field, item_addItem_of_some hitem]
      exact hnone

omit hC in
theorem post_addServerWraps_iff {items items' : List CJson} (hitems : credsArray root = some items)
    (h : items.mapM (addServerWrap C userKek serverKek) = some items') :
    Post C principal (setCreds root items') (.addServerWraps userKek serverKek) ↔
      Shape root (.addServerWraps userKek serverKek) := by
  rw [Post, Shape, credsArray_setCreds hitems, hitems, Option.getD_some, Option.getD_some]
  have hall := List.mapM_eq_some_iff_forall₂.mp h
  clear h hitems
  induction hall with
  | nil => simp
  | cons he _ ih =>
    rw [List.forall_mem_cons, List.forall_mem_cons]
    exact and_congr (isSome_addServerWrap he) ih

theorem post_unlockCheck_iff (h : ¬(stringItem root "kek_check").isSome = true) :
    Post C principal (kekCheckSet C root kek) (.unlockCheck kek) ↔ Shape root (.unlockCheck kek) := by
  have hset : kekCheckSet C root kek = addB64Field root "kek_check" (C.wrap kek kekCheckSentinel).val := if_neg h
  have hmatches (hnone : stringItem (kekCheckSet C root kek) "kek_check" = none) :
      ¬Post C principal (kekCheckSet C root kek) (.unlockCheck kek) := by
    rw [Post, kekCheckMatches, unwrapField, hnone]
    simp
  cases hitem : item root "kek_check" with
  | some x =>
    refine iff_of_false (hmatches ?_) fun hshape => h (hshape.2 (by rw [hitem]; rfl))
    have hstring := h
    rw [stringItem, hitem] at hstring
    rw [hset, stringItem, addB64Field, item_addItem_of_some hitem]
    simpa using hstring
  | none =>
    by_cases hobject : ∃ members, root = .object members
    · refine iff_of_true ?_ ⟨hobject, fun hsome => by rw [hitem] at hsome; cases hsome⟩
      obtain ⟨members, rfl⟩ := hobject
      have hstring : stringItem (kekCheckSet C (.object members) kek) "kek_check" =
        some (b64 (C.wrap kek kekCheckSentinel).val) := by
        rw [hset, stringItem, addB64Field, item_addItem_self hitem]
        rfl
      rw [Post, kekCheckMatches, unwrapField_of_stringItem hC hstring]
      exact decide_eq_true rfl
    · refine iff_of_false (hmatches ?_) fun hshape => hobject hshape.1
      cases root with
      | object members => exact absurd ⟨members, rfl⟩ hobject
      | _ => rfl

/-- What is written keeps the promise of the call if and only if the vault had the right shape. -/
theorem post_write_iff (call : Call) (htakes : call.Takes principal) (h : call.edit C principal root = .write root' n) :
    call.Post C principal root' ↔ call.Shape root := by
  have hedit := h
  revert h
  fun_cases edit C principal root call <;> intro h <;> cases h
  case case3 hstage => exact post_set_iff hstage
  case case5 hstage => exact post_writeBatch_iff htakes hstage
  case case7 hitems _ => exact post_delete_iff hitems
  case case16 hitems items' hmap _ => exact iff_of_true (post_rekeyField hC hitems hmap) trivial
  case case20 hitems items' hmap _ => exact post_addServerWraps_iff hitems hmap
  case case23 hnone => exact post_unlockCheck_iff hC hnone
  all_goals exact iff_of_true (post_rekey hC hedit) trivial

omit hC in
/-- A vault that is kept has what the call promises. -/
theorem post_keep (call : Call) (h : call.edit C principal root = .keep) : call.Post C principal root := by
  have hnone (hcreds : credsArray root = none) (P : CJson → Prop) : ∀ e ∈ (credsArray root).getD [], P e := by
    rw [hcreds]
    exact fun e he => absurd he List.not_mem_nil
  revert h
  fun_cases edit C principal root call <;> intro h <;> cases h
  case case6 hcreds =>
    rw [Post, findCred, hcreds]
    rfl
  case case8 hitems hfind =>
    rw [Post, findCred_of_credsArray hitems]
    simpa using hfind
  case case13 hcreds => exact hnone hcreds _
  case case15 items hitems items' _ hcount =>
    intro e he hstring
    rw [hitems, Option.getD_some] at he
    exact absurd hstring (List.countP_eq_zero.mp hcount e he)
  case case17 hcreds => exact hnone hcreds _
  case case19 items hitems items' _ hall =>
    intro e he
    rw [hitems, Option.getD_some] at he
    exact List.all_eq_true.mp hall e he
  case case21 hmatches => exact hmatches

omit hC in
/-- A number holds nothing that a kept vault would have to hold. -/
theorem post_number (call : Call) (h : call.edit C principal root = .keep) (hroot : root.IsNumber)
    {j : CJson} (hj : j.IsNumber) :
    call.Post C principal j := by
  obtain ⟨lexeme, rfl⟩ := hroot
  obtain ⟨lexeme', rfl⟩ := hj
  cases call with
  | set kek serverKek agent cred secret onlyIfAbsent draw =>
      exact absurd (post_keep _ h) fun ⟨_, _, _, hitems, _⟩ => by cases hitems
  | writeBatch kek agent writes => exact absurd (post_keep _ h) fun ⟨_, hitems, _⟩ => by cases hitems
  | delete agent cred => rfl
  | rekey oldKek newKek => exact absurd (post_keep _ h).1 (by
      simp [kekCheckMatches, unwrapField, stringItem, item, CJson.getObjectItemCaseSensitive])
  | rekeyField field oldKek newKek => exact fun e he => absurd he List.not_mem_nil
  | addServerWraps userKek serverKek => exact fun e he => absurd he List.not_mem_nil
  | unlockCheck kek => cases h

end Edits

/-! ## Truth -/

/-- What was loaded is the whole file, unless it is a number. -/
theorem parse_of_loadVault {io : Io} {content : List UInt8} {root : CJson} (h : loadVault io (some content) = some root)
    (hroot : ¬root.IsNumber) : CJson.parse (CString.ofBytes content) = some root := by
  obtain ⟨txt, htxt, hparse⟩ := Option.bind_eq_some_iff.mp h
  rw [readWholeFile] at htxt
  split at htxt
  · cases htxt
  · cases htxt
    cases hshort : io.shortRead with
    | none => rwa [hshort] at hparse
    | some n =>
      rw [hshort] at hparse
      exact CJson.parse_take hparse hroot

theorem isNumber_of_loadVault {io : Io} {content : List UInt8} {root j : CJson}
    (h : loadVault io (some content) = some root)
    (hroot : root.IsNumber) (hj : CJson.parse (CString.ofBytes content) = some j) : j.IsNumber := by
  obtain ⟨txt, htxt, hparse⟩ := Option.bind_eq_some_iff.mp h
  rw [readWholeFile] at htxt
  split at htxt
  · cases htxt
  · cases htxt
    cases hshort : io.shortRead with
    | none =>
      rw [hshort] at hparse
      rw [hparse] at hj
      cases hj
      exact hroot
    | some n =>
      rw [hshort] at hparse
      exact CJson.isNumber_of_take hparse hroot hj

theorem parse_printed {root : CJson} (h : root.Sound) : CJson.parse (CString.ofBytes root.printed) = some root :=
  CJson.parse_printed h (by rw [CString.ofBytes_of_not_mem (nul_notMem_printed h.lexed)])

theorem truthful_of_failure {C : Crypto} {principal : CString} {io : Io} {file : File} {call : Call}
    (h : call.exec C principal io file = ⟨file, -1⟩) : Truthful C principal io file call := by
  have hneg (hrc : 0 ≤ (call.exec C principal io file).rc) : False := by
    rw [h] at hrc
    dsimp only at hrc
    omega
  exact ⟨fun _ => by rw [h], fun hrc => (hneg hrc).elim, fun hrc => (hneg hrc).elim⟩

section Truth

variable {C : Crypto} (hC : C.Correct) (principal : CString) (io : Io) (file : File) (call : Call)

/-- A call that keeps the file it has loaded tells the truth if all of the file parses. -/
theorem truthful_keep_iff {root : CJson} (hload : loadVault io file = some root)
    (hkeep : call.edit C principal root = .keep) (hexec : call.exec C principal io file = ⟨file, 0⟩) :
    Truthful C principal io file call ↔ ∀ content ∈ file, (CJson.parse (CString.ofBytes content)).isSome := by
  constructor
  · intro h content hcontent
    obtain ⟨j, hj, -⟩ := h.success (by rw [hexec]) content (by rw [hexec]; exact hcontent)
    rw [hj]
    rfl
  · intro h
    refine ⟨fun _ => by rw [hexec], fun _ _ => by rw [hload]; rfl, fun _ content hcontent => ?_⟩
    rw [hexec] at hcontent
    obtain ⟨j, hj⟩ := Option.isSome_iff_exists.mp (h content hcontent)
    cases hcontent
    by_cases hnumber : root.IsNumber
    · exact ⟨j, hj, post_number call hkeep hnumber (isNumber_of_loadVault hload hnumber hj)⟩
    · exact ⟨root, parse_of_loadVault hload hnumber, post_keep call hkeep⟩

include hC

/-- A call that replaces the file tells the truth if the directory is synced and the vault had the right
    shape, or if nothing changes. -/
theorem truthful_write_iff {root root' : CJson} {n : ℕ} (htakes : call.Takes principal)
    (hload : loadVault io file = some root)
    (hwrite : call.edit C principal root = .write root' n)
    (hexec : call.exec C principal io file = settle io file (.write root' n)) :
    Truthful C principal io file call ↔
      (io.Renames → if io.syncDir then call.Shape root else file = some root'.printed) := by
  have hsound := sound_edit call (sound_of_loadVault hload) hwrite
  have hpost := post_write_iff hC call htakes hwrite
  rw [settle, writeVaultFile_of_sound hsound] at hexec
  by_cases hrenames : io.Renames
  · rw [if_pos hrenames] at hexec
    cases hsync : io.syncDir with
    | true =>
      simp only [hsync, if_true] at hexec
      rw [← hpost]
      constructor
      · intro h _
        obtain ⟨j, hj, hkept⟩ :=
          h.success (by rw [hexec]; exact Int.natCast_nonneg n) root'.printed (by rw [hexec]; rfl)
        rw [parse_printed hsound] at hj
        cases hj
        exact hkept
      · intro h
        refine ⟨fun hrc => ?_, fun _ _ => by rw [hload]; rfl, fun _ content hcontent => ?_⟩
        · rw [hexec] at hrc
          exact absurd hrc (not_lt.mpr (Int.natCast_nonneg n))
        · rw [hexec] at hcontent
          cases hcontent
          exact ⟨root', parse_printed hsound, h hrenames⟩
    | false =>
      simp only [hsync, Bool.false_eq_true, if_false] at hexec
      constructor
      · intro h _
        have hsame := h.failure (by rw [hexec]; exact neg_one_lt_zero)
        rw [hexec] at hsame
        exact hsame.symm
      · intro h
        have hfile := h hrenames
        rw [← hfile] at hexec
        exact truthful_of_failure hexec
  · rw [if_neg hrenames] at hexec
    exact iff_of_true (truthful_of_failure hexec) fun h => absurd h hrenames

/-- A call tells the truth about the file, whatever the file and whichever steps fail, exactly under the
    condition `Safe`. -/
theorem truthful_iff : Truthful C principal io file call ↔ Safe C principal io file call := by
  by_cases hargs : call.Takes principal ∧ io.lock = true
  · obtain ⟨htakes, hlock⟩ := hargs
    cases hload : loadVault io file with
    | none =>
      rcases exec_unloaded C principal call htakes hlock hload with ⟨hlenient, hexec⟩ | ⟨hstrict, hexec⟩
      · constructor
        · intro h _ _
          refine ⟨fun _ _ => ?_, fun root hroot => (Option.some_ne_none root (hroot.symm.trans hload)).elim⟩
          by_contra hfile
          have hloaded := h.loaded (by rw [hexec]) (Option.isSome_iff_ne_none.mpr hfile)
          rw [hload] at hloaded
          cases hloaded
        · intro h
          obtain rfl := (h htakes hlock).1 hload hlenient
          refine ⟨fun _ => by rw [hexec], fun _ hsome => absurd hsome (by decide), fun _ content hcontent => ?_⟩
          rw [hexec] at hcontent
          cases hcontent
      · refine iff_of_true (truthful_of_failure hexec) fun _ _ =>
          ⟨fun _ hlenient => absurd hlenient hstrict, fun root hroot => ?_⟩
        rw [hload] at hroot
        cases hroot
    | some root =>
      have hexec := exec_loaded C principal call htakes hlock hload
      have hsafe : Safe C principal io file call ↔
          match call.edit C principal root with
          | .refuse => True
          | .keep => ∀ content ∈ file, (CJson.parse (CString.ofBytes content)).isSome
          | .write root' _ => io.Renames → if io.syncDir then call.Shape root else file = some root'.printed := by
        constructor
        · exact fun h => (h htakes hlock).2 root hload
        · intro h _ _
          refine ⟨fun hnone => (Option.some_ne_none root (hload.symm.trans hnone)).elim, fun root' hroot' => ?_⟩
          rw [hload] at hroot'
          cases hroot'
          exact h
      rw [hsafe]
      cases hedit : call.edit C principal root with
      | refuse =>
        rw [hedit] at hexec
        exact iff_of_true (truthful_of_failure hexec) trivial
      | keep =>
        rw [hedit] at hexec
        exact truthful_keep_iff principal io file call hload hedit hexec
      | write root' n =>
        rw [hedit] at hexec
        exact truthful_write_iff hC principal io file call htakes hload hedit hexec
  · exact iff_of_true (truthful_of_failure (exec_refused C principal call hargs)) fun htakes hlock =>
      absurd ⟨htakes, hlock⟩ hargs

end Truth

def freshFile : File := some (VaultFile.fresh (key "p") sampleSalt).text

/-- A credential for a vault that holds none. -/
def firstSet : Call := .set (some sampleKek) none (key "a") (key "c") (key "s") false sampleDraw

theorem safe_firstSet {io : Io} (hload : loadVault io freshFile = loadVault Io.fine freshFile)
    (hsync : io.syncDir = true) :
    Safe sampleCrypto (key "p") io freshFile firstSet := by
  have hfresh : loadVault Io.fine freshFile = some (VaultFile.fresh (key "p") sampleSalt).json :=
    VaultFile.loadVault_small (by decide +kernel)
  refine fun _ _ => ⟨fun hnone _ =>
    (Option.some_ne_none _ (hfresh.symm.trans (hload.symm.trans hnone))).elim, fun root hroot => ?_⟩
  rw [hload, hfresh] at hroot
  cases hroot
  have hitems : credsArray (VaultFile.fresh (key "p") sampleSalt).json = some [] := rfl
  cases hedit : firstSet.edit sampleCrypto (key "p") (VaultFile.fresh (key "p") sampleSalt).json with
  | refuse => trivial
  | keep =>
    unfold firstSet edit at hedit
    dsimp only at hedit
    split at hedit
    · cases hedit
    · split at hedit <;> cases hedit
  | write root' n =>
    intro _
    rw [if_pos hsync, firstSet, Shape, hitems]
    exact Nat.zero_le _

/-- The credential is written, and the file stays as it was when it cannot be synced. -/
theorem truthful_iff_fresh :
    Truthful sampleCrypto (key "p") Io.fine freshFile firstSet ∧
      Truthful sampleCrypto (key "p") { Io.fine with fsync := false } freshFile firstSet ∧
      (firstSet.exec sampleCrypto (key "p") Io.fine freshFile).rc = 0 ∧
      (firstSet.exec sampleCrypto (key "p") { Io.fine with fsync := false } freshFile).rc = -1 :=
  ⟨(truthful_iff sampleCrypto_correct (key "p") Io.fine freshFile firstSet).mpr (safe_firstSet rfl rfl),
    (truthful_iff sampleCrypto_correct (key "p") _ freshFile firstSet).mpr
      (safe_firstSet rfl rfl), by decide +kernel, by decide +kernel⟩

/-- The file is one open brace: the delete cannot parse it, and reports that the entry is gone. -/
theorem not_truthful_brace :
    ¬Truthful sampleCrypto (key "p") Io.fine (some (ascii "\x7b")) (.delete (key "a") (key "c")) := by
  intro h
  have hload : loadVault Io.fine (some (ascii "\x7b")) = none := by decide +kernel
  have hloaded := h.loaded (by decide +kernel) rfl
  rw [hload] at hloaded
  cases hloaded

end Call

end VaultStore
