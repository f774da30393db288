-- SUMMARY: What the edits of the vault file change and leave alone: items, entries, printability, and reading back what was written.
import Mathlib.Data.List.Basic
import Aimee.Vault.FileStore

/-!
# Edits

An edit replaces one item of an object, or appends one. Everything a read looks at is an item of an
entry or of the root, so these lemmas say what each operation changes.
-/

namespace VaultStore

/-! ## Items -/

section Items

variable {name other : String} {value j : CJson} {members : List (CString × CJson)}

theorem find?_replaceFirst_self (h : ((members.find? fun m => m.1 = key name).map (·.2)).isSome) :
    ((replaceFirst (key name) value members).find? fun m => m.1 = key name).map (·.2) = some value := by
  induction members with
  | nil => simp at h
  | cons m rest ih =>
    by_cases hm : m.1 = key name
    · simp [replaceFirst, hm]
    · simp only [replaceFirst, hm, if_false]
      rw [List.find?_cons_of_neg (by simpa using hm)] at h ⊢
      exact ih h

theorem find?_replaceFirst_of_ne {n k : CString} (h : k ≠ n) :
    ((replaceFirst n value members).find? fun m => m.1 = k).map (·.2) = (members.find? fun m => m.1 = k).map (·.2) := by
  induction members with
  | nil => rfl
  | cons m rest ih =>
    by_cases hm : m.1 = n
    · have hk : ¬m.1 = k := fun hk => h (hk.symm.trans hm)
      simp only [replaceFirst, hm, if_true]
      rw [List.find?_cons_of_neg (by simpa using Ne.symm h), List.find?_cons_of_neg (by simpa using hk)]
    · simp only [replaceFirst, hm, if_false]
      by_cases hk : m.1 = k
      · rw [List.find?_cons_of_pos (by simpa using hk), List.find?_cons_of_pos (by simpa using hk)]
      · rw [List.find?_cons_of_neg (by simpa using hk), List.find?_cons_of_neg (by simpa using hk)]
        exact ih

theorem item_setItem_self (h : (item j name).isSome) : item (setItem j name value) name = some value := by
  cases j with
  | object members => exact find?_replaceFirst_self h
  | _ => simp [item, CJson.getObjectItemCaseSensitive] at h

theorem item_setItem_of_ne (j : CJson) (h : key other ≠ key name) :
    item (setItem j name value) other = item j other := by
  cases j with
  | object members => exact find?_replaceFirst_of_ne h
  | _ => rfl

theorem item_addItem_self (h : item (.object members) name = none) :
    item (addItem (.object members) name value) name = some value := by
  simp only [item, addItem, CJson.getObjectItemCaseSensitive, List.find?_append] at h ⊢
  cases hfind : members.find? fun m => m.1 = key name with
  | some m =>
    rw [hfind] at h
    cases h
  | none => simp

theorem item_addItem_of_some {x : CJson} (h : item j name = some x) : item (addItem j name value) name = some x := by
  cases j with
  | object members =>
    simp only [item, addItem, CJson.getObjectItemCaseSensitive, List.find?_append] at h ⊢
    cases hfind : members.find? fun m => m.1 = key name with
    | some m =>
      rw [hfind] at h
      exact h
    | none =>
      rw [hfind] at h
      cases h
  | _ => simp [item, CJson.getObjectItemCaseSensitive] at h

end Items

variable {j : CJson} {n : ℕ} {root : CJson} {items : List CJson}

theorem stringItem_eq_some {name : String} {s : CString} : stringItem j name = some s ↔
    item j name = some (.string s) := by
  unfold stringItem
  cases item j name with
  | none => simp
  | some x => cases x <;> simp [CJson.stringValue?]

theorem isSome_item_of_stringItem {name : String} (h : (stringItem j name).isSome) : (item j name).isSome := by
  obtain ⟨s, hs⟩ := Option.isSome_iff_exists.mp h
  rw [stringItem_eq_some.mp hs]
  rfl

theorem stringItem_setB64Field_self {name : String} (bs : List UInt8) (h : (stringItem j name).isSome) :
    stringItem (setB64Field j name bs) name = some (b64 bs) := by
  rw [stringItem, setB64Field, item_setItem_self (isSome_item_of_stringItem h)]
  rfl

theorem decodeBlock_b64 (b : Block n) : decodeBlock n (b64 b.val) = some b := by
  have h : Base64.decode n (b64 b.val).val = some b.val := Base64.decode_encode b.property.le
  rw [decodeBlock, h]
  simp [b.property]

/-! ## The creds array -/

theorem credsArray_eq_some : credsArray root = some items ↔ item root "creds" = some (.array items) := by
  unfold credsArray
  cases item root "creds" with
  | none => simp
  | some x => cases x <;> simp

theorem credsArray_setCreds (h : credsArray root = some items) (items' : List CJson) :
    credsArray (setCreds root items') = some items' := by
  rw [credsArray_eq_some] at h ⊢
  exact item_setItem_self (by rw [h]; rfl)

theorem item_setCreds_of_ne {name : String} (root : CJson) (items : List CJson) (h : key name ≠ key "creds") :
    item (setCreds root items) name = item root name := item_setItem_of_ne root h

theorem unwrapField_setCreds (C : Crypto) (kek : Kek) {name : String} (root : CJson) (items : List CJson)
    (h : key name ≠ key "creds") : unwrapField C kek name (setCreds root items) = unwrapField C kek name root := by
  rw [unwrapField, unwrapField, stringItem, stringItem, item_setCreds_of_ne root items h]

theorem findCred_of_credsArray (h : credsArray root = some items) (agent cred : CString) :
    findCred root agent cred = items.find? (isSlot agent cred) := by
  rw [findCred, h]
  rfl

/-! ## Printability -/

/-- Fit to stand in a creds array. -/
def Fit (e : CJson) : Prop := e.Lexed ∧ e.height ≤ CJson.nestingLimit - 2

theorem replaceFirst_forall {P : CJson → Prop} {name : CString} {value : CJson} {members : List (CString × CJson)}
    (h : ∀ m ∈ members, P m.2) (hv : P value) : ∀ m ∈ replaceFirst name value members, P m.2 := by
  induction members with
  | nil => exact fun m hm => absurd hm List.not_mem_nil
  | cons m rest ih =>
    obtain ⟨hm, hrest⟩ := List.forall_mem_cons.mp h
    unfold replaceFirst
    split
    · exact List.forall_mem_cons.mpr ⟨hv, hrest⟩
    · exact List.forall_mem_cons.mpr ⟨hm, ih hrest⟩

theorem lexed_setItem {j value : CJson} {name : String} (h : j.Lexed) (hv : value.Lexed) :
    (setItem j name value).Lexed := by
  cases j with
  | object members => exact CJson.lexedMembers_iff.mpr (replaceFirst_forall (CJson.lexedMembers_iff.mp h) hv)
  | _ => exact h

theorem height_setItem {j value : CJson} {name : String} (h : j.height ≤ n) (hv : value.height + 1 ≤ n) :
    (setItem j name value).height ≤ n := by
  cases j with
  | object members =>
    rw [CJson.height] at h
    obtain ⟨n, rfl⟩ : ∃ k, n = k + 1 := ⟨n - 1, by omega⟩
    have hall : ∀ m ∈ members, m.2.height ≤ n := CJson.heightMembers_le_iff.mp (by omega)
    have hvalue : value.height ≤ n := by omega
    exact Nat.succ_le_succ
      (CJson.heightMembers_le_iff.mpr (replaceFirst_forall (P := fun x => x.height ≤ n) hall hvalue))
  | _ => exact h

theorem lexed_addItem {j value : CJson} {name : String} (h : j.Lexed) (hv : value.Lexed) :
    (addItem j name value).Lexed := by
  cases j with
  | object members =>
    refine CJson.lexedMembers_iff.mpr fun m hm => ?_
    rcases List.mem_append.mp hm with hm | hm
    · exact CJson.lexedMembers_iff.mp h m hm
    · rw [List.mem_singleton.mp hm]
      exact hv
  | array items =>
    refine CJson.lexedElements_iff.mpr fun m hm => ?_
    rcases List.mem_append.mp hm with hm | hm
    · exact CJson.lexedElements_iff.mp h m hm
    · rw [List.mem_singleton.mp hm]
      exact hv
  | _ => exact h

theorem height_addItem {j value : CJson} {name : String} (h : j.height ≤ n) (hv : value.height + 1 ≤ n) :
    (addItem j name value).height ≤ n := by
  obtain ⟨n, rfl⟩ : ∃ k, n = k + 1 := ⟨n - 1, by omega⟩
  cases j with
  | object members =>
    rw [CJson.height] at h
    refine Nat.succ_le_succ (CJson.heightMembers_le_iff.mpr fun m hm => ?_)
    rcases List.mem_append.mp hm with hm | hm
    · exact CJson.heightMembers_le_iff.mp (by omega) m hm
    · rw [List.mem_singleton.mp hm]
      dsimp only
      omega
  | array items =>
    rw [CJson.height] at h
    refine Nat.succ_le_succ (CJson.heightElements_le_iff.mpr fun m hm => ?_)
    rcases List.mem_append.mp hm with hm | hm
    · exact CJson.heightElements_le_iff.mp (by omega) m hm
    · rw [List.mem_singleton.mp hm]
      omega
  | _ => exact h

theorem height_string_le (h : 1 ≤ n) (s : CString) : (CJson.string s).height + 1 ≤ n := by
  simpa [CJson.height] using h

theorem fit_setB64Field {e : CJson} (name : String) (bs : List UInt8) (h : Fit e) : Fit (setB64Field e name bs) :=
  ⟨lexed_setItem h.1 trivial, height_setItem h.2 (height_string_le (by decide) _)⟩

theorem fit_addB64Field {e : CJson} (name : String) (bs : List UInt8) (h : Fit e) : Fit (addB64Field e name bs) :=
  ⟨lexed_addItem h.1 trivial, height_addItem h.2 (height_string_le (by decide) _)⟩

theorem mem_of_item {j x : CJson} {name : String} (h : item j name = some x) :
    ∃ members, j = .object members ∧ ∃ n, (n, x) ∈ members := by
  cases j with
  | object members =>
    obtain ⟨m, hm, rfl⟩ := Option.map_eq_some_iff.mp h
    exact ⟨members, rfl, m.1, List.mem_of_find?_eq_some hm⟩
  | _ => cases h

theorem fit_of_credsArray (hroot : root.Sound) (h : credsArray root = some items) :
    ∀ e ∈ items, Fit e := by
  obtain ⟨members, rfl, n, hmem⟩ := mem_of_item (credsArray_eq_some.mp h)
  have hlexed := CJson.lexedMembers_iff.mp hroot.lexed _ hmem
  have hheight : CJson.heightMembers members + 1 ≤ CJson.nestingLimit := hroot.height
  have harray := CJson.heightMembers_le_iff.mp (le_refl _) _ hmem
  intro e he
  refine ⟨CJson.lexedElements_iff.mp hlexed e he, ?_⟩
  have hentry := CJson.heightElements_le_iff.mp (le_refl _) e he
  rw [CJson.height] at harray
  omega

theorem sound_setCreds (hroot : root.Sound) (h : ∀ e ∈ items, Fit e) :
    (setCreds root items).Sound := by
  refine ⟨lexed_setItem hroot.lexed (CJson.lexedElements_iff.mpr fun e he => (h e he).1),
    height_setItem hroot.height ?_⟩
  have hall : CJson.heightElements items ≤ CJson.nestingLimit - 2 :=
    CJson.heightElements_le_iff.mpr fun e he => (h e he).2
  rw [CJson.height]
  have hlimit : 2 ≤ CJson.nestingLimit := by decide
  omega

theorem sound_kekCheckSet (C : Crypto) (kek : Kek) (hroot : root.Sound) : (kekCheckSet C root kek).Sound := by
  unfold kekCheckSet
  split
  · exact ⟨lexed_setItem hroot.lexed trivial, height_setItem hroot.height (height_string_le (by decide) _)⟩
  · exact ⟨lexed_addItem hroot.lexed trivial, height_addItem hroot.height (height_string_le (by decide) _)⟩

theorem sound_freshVault (principal : CString) (salt : Salt) : (freshVault principal salt).Sound := by
  have hnumber : CJson.validNumberToken (ascii "1") = true ∧ ∀ c ∈ ascii "1", CJson.isNumberChar c = true :=
    ⟨by decide, List.all_eq_true.mp (by decide)⟩
  refine ⟨⟨hnumber, trivial, trivial, trivial, trivial, trivial⟩, ?_⟩
  show _ ≤ 1000
  simp [freshVault, versionNumber, CJson.height, CJson.heightMembers, CJson.heightElements]

theorem fit_sealedEntry (C : Crypto) (aad : List UInt8) (kek serverKek : Option Kek)
    (agent cred secret : CString) (draw : Draw) :
    Fit (sealedEntry C aad kek serverKek agent cred secret draw) := by
  cases kek <;> cases serverKek <;>
    exact ⟨by simp [sealedEntry, CJson.Lexed, CJson.LexedMembers], by
      show _ ≤ 998
      simp [sealedEntry, CJson.height, CJson.heightMembers]⟩

/-! ## Lengths -/

/-- An entry more, and its comma. -/
theorem length_printed_append (items : List CJson) (e : CJson) :
    (CJson.array (items ++ [e])).printed.length =
      (CJson.array items).printed.length + e.printed.length + (if items = [] then 0 else 1) := by
  simp only [CJson.printed, List.length_cons, List.length_append, CJson.length_printedElements,
    List.length_nil, List.map_append,
    List.sum_append, List.map_cons, List.map_nil, List.sum_cons, List.sum_nil]
  cases items with
  | nil =>
    simp
    omega
  | cons item rest =>
    rw [if_neg (List.cons_ne_nil _ _), List.map_cons, List.sum_cons]
    omega

theorem sum_replaceFirst {name : CString} {old : CJson} (f : CString × CJson → ℕ) (value : CJson)
    (members : List (CString × CJson)) (h : (members.find? fun m => m.1 = name).map (·.2) = some old) :
    ((replaceFirst name value members).map f).sum + f (name, old) = (members.map f).sum + f (name, value) := by
  induction members with
  | nil => cases h
  | cons m rest ih =>
    obtain ⟨n, x⟩ := m
    by_cases hm : n = name
    · subst hm
      simp only [List.find?_cons, decide_true] at h
      cases h
      simp only [replaceFirst, if_true, List.map_cons, List.sum_cons]
      omega
    · rw [List.find?_cons_of_neg (by simpa using hm)] at h
      have hrest := ih h
      simp only [replaceFirst, hm, if_false, List.map_cons, List.sum_cons]
      omega

theorem length_printed_object (members : List (CString × CJson)) :
    (CJson.object members).printed.length =
      (members.map fun m => (CJson.printString m.1).length + m.2.printed.length + 2).sum - 1 + 2 := by
  rw [CJson.printed, List.length_cons, List.length_append, CJson.length_printedMembers]
  rfl

/-- The text of a vault grows with its creds array. -/
theorem length_printed_setCreds (h : credsArray root = some items) (items' : List CJson) :
    (setCreds root items').printed.length + (CJson.array items).printed.length =
      root.printed.length + (CJson.array items').printed.length := by
  have hitem := credsArray_eq_some.mp h
  obtain ⟨members, rfl, -⟩ := mem_of_item hitem
  have hpos : ∀ l : List (CString × CJson), l ≠ [] →
    1 ≤ (l.map fun m => (CJson.printString m.1).length + m.2.printed.length + 2).sum := by
    intro l hl
    obtain ⟨m, rest, rfl⟩ := List.exists_cons_of_ne_nil hl
    rw [List.map_cons, List.sum_cons]
    omega
  have hne : members ≠ [] := by
    rintro rfl
    cases hitem
  have hreplaced : replaceFirst (key "creds") (.array items') members ≠ [] := by
    cases members with
    | nil => exact hne
    | cons m rest =>
      unfold replaceFirst
      split <;> exact List.cons_ne_nil _ _
  have hbefore := hpos _ hne
  have hafter := hpos _ hreplaced
  have hsum := sum_replaceFirst (fun m => (CJson.printString m.1).length + m.2.printed.length + 2)
    (.array items') members hitem
  dsimp only at hsum
  rw [length_printed_object, setCreds, setItem, length_printed_object]
  omega

/-! ## Reading back what was written -/

theorem nul_notMem_escapeByte {c : UInt8} (h : c ≠ 0) : (0 : UInt8) ∉ CJson.escapeByte c := by
  have hhex : ∀ n < 16, CJson.hexChar n ≠ 0 := by decide
  unfold CJson.escapeByte
  split_ifs
  · simpa using Ne.symm h
  all_goals try decide
  have h1 := hhex _ (CJson.hex_lt c).1
  have h2 := hhex _ (CJson.hex_lt c).2
  simp [Ne.symm h1, Ne.symm h2]

theorem nul_notMem_printString (s : CString) : (0 : UInt8) ∉ CJson.printString s := by
  rw [CJson.printString, List.mem_cons, List.mem_append, List.mem_flatMap, List.mem_singleton]
  rintro (h | ⟨c, hc, h⟩ | h)
  · cases h
  · refine nul_notMem_escapeByte ?_ h
    rintro rfl
    exact s.property hc
  · cases h

theorem nul_notMem_elements (h : ∀ j ∈ items, (0 : UInt8) ∉ j.printed) : (0 : UInt8) ∉ CJson.printedElements items := by
  induction items with
  | nil => exact List.not_mem_nil
  | cons j rest ih =>
    obtain ⟨hj, hrest⟩ := List.forall_mem_cons.mp h
    rw [CJson.printedElements, List.mem_append]
    rintro (h | h)
    · exact hj h
    · split at h
      · cases h
      · rcases List.mem_cons.mp h with h | h
        · cases h
        · exact ih hrest h

theorem nul_notMem_members {members : List (CString × CJson)} (h : ∀ m ∈ members, (0 : UInt8) ∉ m.2.printed) :
    (0 : UInt8) ∉ CJson.printedMembers members := by
  induction members with
  | nil => exact List.not_mem_nil
  | cons m rest ih =>
    obtain ⟨name, value⟩ := m
    obtain ⟨hm, hrest⟩ := List.forall_mem_cons.mp h
    rw [CJson.printedMembers, List.mem_append, List.mem_cons, List.mem_append]
    rintro (h | h | h | h)
    · exact nul_notMem_printString name h
    · cases h
    · exact hm h
    · split at h
      · cases h
      · rcases List.mem_cons.mp h with h | h
        · cases h
        · exact ih hrest h

theorem nul_notMem_printed : ∀ {j : CJson}, j.Lexed → (0 : UInt8) ∉ j.printed
  | .null, _ => by decide
  | .bool b, _ => by cases b <;> decide
  | .number lexeme, h => fun h0 => absurd (h.2 0 h0) (by decide)
  | .string s, _ => nul_notMem_printString s
  | .array items, h => by
      have hitems := nul_notMem_elements fun j hj => nul_notMem_printed (CJson.lexedElements_iff.mp h j hj)
      simpa [CJson.printed] using hitems
  | .object members, h => by
      have hmembers := nul_notMem_members fun m hm => nul_notMem_printed (CJson.lexedMembers_iff.mp h m hm)
      simpa [CJson.printed] using hmembers
termination_by j => sizeOf j
decreasing_by
  · have hlt := List.sizeOf_lt_of_mem hj
    simp only [CJson.array.sizeOf_spec]
    omega
  · have hlt := List.sizeOf_lt_of_mem hm
    have hsnd : sizeOf m.2 < sizeOf m := by
      obtain ⟨name, value⟩ := m
      simp only [Prod.mk.sizeOf_spec]
      omega
    simp only [CJson.object.sizeOf_spec]
    omega

/-- What a fault-free load makes of a file that was printed. -/
theorem loadVault_printed (hroot : root.Sound) (hsmall : root.printed.length ≤ readMax) :
    loadVault Io.fine (some root.printed) = some root := by
  have hnul := nul_notMem_printed hroot.lexed
  have hread : readWholeFile Io.fine (some root.printed) = some root.printed := by
    rw [readWholeFile, if_neg]
    · rfl
    · rintro (h | h)
      · exact h rfl
      · exact absurd h (not_lt.mpr hsmall)
  rw [loadVault, hread]
  exact CJson.parse_printed hroot (by rw [CString.ofBytes_of_not_mem hnul])

theorem sound_of_loadVault {io : Io} {file : File} (h : loadVault io file = some root) : root.Sound := by
  obtain ⟨txt, -, hparse⟩ := Option.bind_eq_some_iff.mp h
  exact CJson.sound_of_parse hparse

theorem printUnformatted_of_sound (h : root.Sound) : root.printUnformatted = some root.printed := by
  rw [CJson.printUnformatted_eq, if_pos h.height]

end VaultStore
