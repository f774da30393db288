-- SUMMARY: The cache of key-encryption keys: its slots, lazy expiry, and what a hit says about the calls before it.
import Aimee.Lib.Bytes
import Mathlib.Data.List.Induction

/-!
# The KEK cache

`vault_kek_cache.c`. A call holds the lock from its first look at a slot to its last, so a run is a
sequence of calls. The clock is an argument of each call and may go back. `now + TTL` wraps.
-/

namespace VaultKekCache

/-- `VAULT_KEK_CACHE_SLOTS`, `VAULT_KEK_CACHE_TTL_SECONDS` and `VAULT_PRINCIPAL_MAX`. -/
def slotCount : ℕ := 64
def ttlSeconds : Int64 := 900
def principalMax : ℕ := 160

/-- `VAULT_KEK_LEN` bytes. -/
abbrev Kek := Block 32

/-- A used slot. -/
structure Entry where
  principal : CString
  kek : Kek
  expiresEpoch : Int64

abbrev Slots := List (Option Entry)

/-- `g_slots`, and whether `cache_ready` succeeds. -/
structure Cache where
  slots : Slots
  length_slots : slots.length = slotCount
  ready : Bool

/-! ## Slots -/

/-- `slot_find_live`: the index of the slot it returns, and the slots it leaves. -/
def slotFindLive (principal : CString) (now : Int64) : Slots → Option ℕ × Slots
  | [] => (none, [])
  | slot :: rest =>
    match slot.filter (·.principal = principal) with
    | some e => if e.expiresEpoch ≤ now then (none, none :: rest) else (some 0, slot :: rest)
    | none =>
      let (i, rest) := slotFindLive principal now rest
      (i.map (· + 1), slot :: rest)

/-- `slot_clear` on the slots in use that a condition picks. -/
def clearWhere (p : Entry → Bool) (slots : Slots) : Slots := slots.map (·.filter (!p ·))

/-- Whether a slot is over its time. -/
def Entry.expired (now : Int64) (e : Entry) : Bool := e.expiresEpoch ≤ now

theorem length_slotFindLive (principal : CString) (now : Int64) (slots : Slots) :
    (slotFindLive principal now slots).2.length = slots.length := by
  induction slots with
  | nil => rfl
  | cons slot rest ih =>
    rw [slotFindLive]
    split
    case h_1 => split <;> rfl
    case h_2 => exact congrArg (· + 1) ih

namespace Cache

def setSlots (c : Cache) (slots : Slots) (h : slots.length = c.slots.length) :
    Cache := { c with slots, length_slots := h.trans c.length_slots }

/-- The checks of `vault_kek_cache_put` on its arguments. -/
def accepts (c : Cache) (principal : CString) :
    Bool := c.ready && principal ≠ .empty && principal.val.length < principalMax

/-- The slot that `put` writes: a live one of the principal, or the first that is free once the scan has reaped. -/
def putSlot (principal : CString) (now : Int64) (slots : Slots) : Option ℕ × Slots :=
  match slotFindLive principal now slots with
  | (some i, slots) => (some i, slots)
  | (none, slots) =>
    let slots := clearWhere (Entry.expired now) slots
    (slots.findIdx? Option.isNone, slots)

theorem length_putSlot (principal : CString) (now : Int64) (slots : Slots) :
    (putSlot principal now slots).2.length = slots.length := by
  have hfind := length_slotFindLive principal now slots
  unfold putSlot
  split
  case h_1 i slots' heq => rw [← hfind, heq]
  case h_2 slots' heq => rw [← hfind, heq, clearWhere, List.length_map]

/-- `vault_kek_cache_put`. -/
def put (principal : CString) (kek : Kek) (now : Int64) (c : Cache) : Bool × Cache :=
  if !c.accepts principal then (false, c)
  else
    let c' := c.setSlots (putSlot principal now c.slots).2 (length_putSlot principal now c.slots)
    match (putSlot principal now c.slots).1 with
    | none => (false, c')
    | some i => (true, c'.setSlots (c'.slots.set i (some ⟨principal, kek, now + ttlSeconds⟩)) List.length_set)

/-- `slot_find_live` under the lock. -/
def findLive (principal : CString) (now : Int64) (c : Cache) : Option Entry × Cache :=
  if !c.ready then (none, c)
  else
    let found := slotFindLive principal now c.slots
    (found.1.bind fun i => (found.2[i]?).join, c.setSlots found.2 (length_slotFindLive principal now c.slots))

/-- `vault_kek_cache_get` and `vault_kek_cache_has`. -/
def get (principal : CString) (now : Int64) (c : Cache) : Option Kek × Cache :=
  ((c.findLive principal now).1.map Entry.kek, (c.findLive principal now).2)

def has (principal : CString) (now : Int64) (c : Cache) : Bool × Cache :=
  ((c.findLive principal now).1.isSome, (c.findLive principal now).2)

def clearSlots (p : Entry → Bool) (c : Cache) : Cache :=
  if !c.ready then c else c.setSlots (clearWhere p c.slots) (List.length_map _)

/-- `vault_kek_cache_evict` and `vault_kek_cache_clear`. -/
def evict (principal : CString) (c : Cache) : Cache := c.clearSlots (·.principal = principal)

def clear (c : Cache) : Cache := c.clearSlots fun _ => true

/-- `vault_kek_cache_count`. -/
def count (now : Int64) (c : Cache) : ℕ × Cache :=
  let c' := c.clearSlots (Entry.expired now)
  (if !c.ready then 0 else c'.slots.countP Option.isSome, c')

def empty (ready : Bool) : Cache := ⟨List.replicate slotCount none, List.length_replicate, ready⟩

end Cache

/-! ## Runs -/

inductive Call where
  | put (principal : CString) (kek : Kek) (now : Int64)
  | get (principal : CString) (now : Int64)
  | has (principal : CString) (now : Int64)
  | evict (principal : CString)
  | clear
  | count (now : Int64)

def step (c : Cache) : Call → Cache
  | .put principal kek now => (c.put principal kek now).2
  | .get principal now => (c.get principal now).2
  | .has principal now => (c.has principal now).2
  | .evict principal => c.evict principal
  | .clear => c.clear
  | .count now => (c.count now).2

def run (ready : Bool) (calls : List Call) : Cache := calls.foldl step (.empty ready)

/-- At most one slot in use for a principal. -/
def Unique (slots : Slots) : Prop :=
  ∀ (i j : ℕ) (e e' : Entry), slots[i]? = some (some e) → slots[j]? = some (some e') →
    e.principal = e'.principal → i = j

/-- A slot of the principal that is not over its time. -/
def Live (c : Cache) (principal : CString) (now : Int64) : Prop :=
  ∃ e, some e ∈ c.slots ∧ e.principal = principal ∧ ¬e.expired now

/-- The call looks whether the slot of this principal is over its time, by this clock. A `put` of a principal
    without a live slot looks at all of them. -/
def Call.looksAt (c : Cache) (principal : CString) (now : Int64) : Call → Prop
  | .put q _ t => t = now ∧ c.accepts q ∧ (q = principal ∨ ¬Live c q now)
  | .get q t => t = now ∧ q = principal
  | .has q t => t = now ∧ q = principal
  | .count t => t = now
  | .evict _ => False
  | .clear => False

/-- The call ends what an earlier `put` of the principal at `since` has cached. -/
inductive Call.Ends (c : Cache) (principal : CString) (since : Int64) : Call → Prop
  | replaced {kek : Kek} {now : Int64} : (c.put principal kek now).1 →
      Call.Ends c principal since (.put principal kek now)
  | evicted : Call.Ends c principal since (.evict principal)
  | cleared : Call.Ends c principal since .clear
  | expired {call : Call} {now : Int64} : call.looksAt c principal now → since + ttlSeconds ≤ now →
      Call.Ends c principal since call

/-- The last successful `put` of the principal had this key at this time, and nothing has ended it. -/
def Cached (ready : Bool) (calls : List Call) (principal : CString) (kek : Kek) (since : Int64) : Prop :=
  ∃ before after, calls = before ++ .put principal kek since :: after ∧ ((run ready before).put principal kek since).1 ∧
    ∀ mid call rest, after = mid ++ call :: rest →
      ¬call.Ends (run ready (before ++ .put principal kek since :: mid)) principal since

/-! ## Slots that are cleared -/

section

variable {slots slots' : Slots} {e : Entry} {principal : CString} {now : Int64} {i : ℕ}

/-- Some slots were cleared, and the others left alone. -/
def Reaped (slots slots' : Slots) : Prop := ∀ (i : ℕ) (e : Entry), slots'[i]? = some (some e) →
    slots[i]? = some (some e)

theorem Reaped.refl : Reaped slots slots := fun _ _ h => h

section

variable (h : Reaped slots slots')
include h

theorem Reaped.trans {slots'' : Slots} (h' : Reaped slots' slots'') : Reaped slots slots'' :=
  fun i e he => h i e (h' i e he)

theorem Reaped.cons {slot : Option Entry} : Reaped (slot :: slots) (slot :: slots') := by
  intro i e he
  cases i with
  | zero => exact he
  | succ i => exact h i e he

theorem Reaped.mem (he : some e ∈ slots') : some e ∈ slots := by
  obtain ⟨i, hi⟩ := List.mem_iff_getElem?.mp he
  exact List.mem_of_getElem? (h i e hi)

theorem Reaped.unique (hu : Unique slots) : Unique slots' :=
  fun i j e e' he he' => hu i j e e' (h i e he) (h j e' he')

end

theorem Unique.tail {slot : Option Entry} (h : Unique (slot :: slots)) : Unique slots :=
  fun i j e e' he he' heq => Nat.succ.inj (h (i + 1) (j + 1) e e' he he' heq)

theorem mem_clearWhere {p : Entry → Bool} : some e ∈ clearWhere p slots ↔ some e ∈ slots ∧ p e = false := by
  simp only [clearWhere, List.mem_map, Option.filter_eq_some_iff]
  constructor
  · rintro ⟨slot, hslot, rfl, hp⟩
    exact ⟨hslot, by simpa using hp⟩
  · rintro ⟨hmem, hp⟩
    exact ⟨some e, hmem, rfl, by simpa using hp⟩

theorem reaped_clearWhere (p : Entry → Bool) (slots : Slots) : Reaped slots (clearWhere p slots) := by
  intro i e he
  rw [clearWhere, List.getElem?_map] at he
  obtain ⟨slot, hslot, hfilter⟩ := Option.map_eq_some_iff.mp he
  rw [hslot, (Option.filter_eq_some_iff.mp hfilter).1]

theorem reaped_slotFindLive (principal : CString) (now : Int64) (slots : Slots) :
    Reaped slots (slotFindLive principal now slots).2 := by
  induction slots with
  | nil => exact Reaped.refl
  | cons slot rest ih =>
    rw [slotFindLive]
    split
    case h_1 e _ =>
      split
      case isTrue =>
        intro i e' he'
        cases i with
        | zero => cases he'
        | succ i => exact he'
      case isFalse => exact Reaped.refl
    case h_2 => exact ih.cons

/-- The slot that is found holds the principal, and is not over its time. -/
theorem slotFindLive_some (h : (slotFindLive principal now slots).1 = some i) :
    ∃ e, (slotFindLive principal now slots).2[i]? = some (some e) ∧ e.principal = principal ∧ ¬e.expired now := by
  induction slots generalizing i with
  | nil => cases h
  | cons slot rest ih =>
    rw [slotFindLive] at h ⊢
    cases hslot : slot.filter (·.principal = principal) with
    | some e =>
      obtain ⟨rfl, hprincipal⟩ := Option.filter_eq_some_iff.mp hslot
      simp only [hslot] at h ⊢
      by_cases hexpired : e.expiresEpoch ≤ now
      · simp [hexpired] at h
      · simp only [hexpired, if_false, Option.some.injEq] at h ⊢
        subst h
        exact ⟨e, rfl, by simpa using hprincipal, by simpa [Entry.expired] using hexpired⟩
    | none =>
      simp only [hslot] at h ⊢
      obtain ⟨i', hi', rfl⟩ := Option.map_eq_some_iff.mp h
      exact ih hi'

/-- A slot of the principal that is left is not over its time, and one that was not found is not left. -/
theorem slotFindLive_left (hu : Unique slots) (he : some e ∈ (slotFindLive principal now slots).2)
    (hprincipal : e.principal = principal) :
    ¬e.expired now ∧ (slotFindLive principal now slots).1.isSome := by
  induction slots with
  | nil => cases he
  | cons slot rest ih =>
    rw [slotFindLive] at he ⊢
    cases hslot : slot.filter (·.principal = principal) with
    | some e' =>
      obtain ⟨rfl, hprincipal'⟩ := Option.filter_eq_some_iff.mp hslot
      simp only [hslot] at he ⊢
      have hfirst : some e ∉ rest := by
        intro hmem
        obtain ⟨i, hi⟩ := List.mem_iff_getElem?.mp hmem
        have hzero := hu 0 (i + 1) e' e rfl hi
          ((by simpa using hprincipal' : e'.principal = principal).trans hprincipal.symm)
        cases hzero
      by_cases hexpired : e'.expiresEpoch ≤ now
      · simp only [hexpired, if_true, List.mem_cons, reduceCtorEq, false_or] at he
        exact absurd he hfirst
      · simp only [hexpired, if_false, List.mem_cons, Option.some.injEq] at he ⊢
        obtain rfl := he.resolve_right hfirst
        exact ⟨by simpa [Entry.expired] using hexpired, rfl⟩
    | none =>
      simp only [hslot] at he ⊢
      rcases List.mem_cons.mp he with rfl | he
      · simp [hprincipal] at hslot
      · rw [Option.isSome_map]
        exact ih hu.tail he

theorem Unique.set (hu : Unique slots) {e : Entry}
    (hother : ∀ (j : ℕ) (e' : Entry), slots[j]? = some (some e') → e'.principal = e.principal → j = i) :
    Unique (slots.set i (some e)) := by
  intro j k a b ha hb heq
  rw [List.getElem?_set] at ha hb
  split at ha
  case isTrue hj =>
    split at ha
    case isFalse => cases ha
    case isTrue =>
      cases ha
      split at hb
      case isTrue hk => exact hj.symm.trans hk
      case isFalse => exact (hj.symm.trans (hother k b hb heq.symm).symm)
  case isFalse =>
    split at hb
    case isTrue hk =>
      split at hb
      case isFalse => cases hb
      case isTrue =>
        cases hb
        exact (hother j a ha heq).trans hk
    case isFalse => exact hu j k a b ha hb heq

end

/-! ## The slot of a put -/

namespace Cache

section

variable {c : Cache} {slots : Slots} {e : Entry} {principal : CString} {kek : Kek} {now : Int64} {i : ℕ}

theorem reaped_putSlot (principal : CString) (now : Int64) (slots : Slots) :
    Reaped slots (putSlot principal now slots).2 := by
  have hfind := reaped_slotFindLive principal now slots
  unfold putSlot
  split
  case h_1 i slots' heq =>
    rw [heq] at hfind
    exact hfind
  case h_2 slots' heq =>
    rw [heq] at hfind
    exact hfind.trans (reaped_clearWhere _ _)

theorem live_of_slotFindLive (h : (slotFindLive principal now slots).1 = some i) :
    ∃ e, some e ∈ slots ∧ e.principal = principal ∧ ¬e.expired now := by
  obtain ⟨e, hat, hprincipal, hlive⟩ := slotFindLive_some h
  exact ⟨e, (reaped_slotFindLive principal now slots).mem (List.mem_of_getElem? hat), hprincipal, hlive⟩

theorem putSlot_other (hu : Unique slots) (h : (putSlot principal now slots).1 = some i) {j : ℕ} {e : Entry}
    (he : (putSlot principal now slots).2[j]? = some (some e)) (hprincipal : e.principal = principal) : j = i := by
  have hleft : some e ∈ (slotFindLive principal now slots).2 →
    ¬e.expired now ∧ (slotFindLive principal now slots).1.isSome :=
    fun hmem => slotFindLive_left hu hmem hprincipal
  have hfound : ∀ i', (slotFindLive principal now slots).1 = some i' →
      ∃ e, (slotFindLive principal now slots).2[i']? = some (some e) ∧ e.principal = principal ∧ ¬e.expired now :=
    fun i' h => slotFindLive_some h
  have hreaped := reaped_slotFindLive principal now slots
  unfold putSlot at h he
  cases hfind : slotFindLive principal now slots with
  | mk found slots' =>
    rw [hfind] at h he hleft hfound hreaped
    cases found with
    | some i' =>
      cases h
      obtain ⟨e', hat, hprincipal', _⟩ := hfound i rfl
      exact hreaped.unique hu j i e e' he hat (hprincipal.trans hprincipal'.symm)
    | none =>
      have hmem := (mem_clearWhere.mp (List.mem_of_getElem? he)).1
      cases (hleft hmem).2

/-- What is left where a put looked is not over its time. -/
theorem putSlot_left (hu : Unique c.slots) (he : some e ∈ (putSlot principal now c.slots).2)
    (h : principal = e.principal ∨ ¬Live c principal now) :
    ¬e.expired now := by
  have hleft : some e ∈ (slotFindLive principal now c.slots).2 → e.principal = principal →
      ¬e.expired now ∧ (slotFindLive principal now c.slots).1.isSome :=
    fun hmem hprincipal => slotFindLive_left hu hmem hprincipal
  have hfound : ∀ i, (slotFindLive principal now c.slots).1 = some i →
    Live c principal now := fun i h => live_of_slotFindLive h
  unfold putSlot at he
  cases hfind : slotFindLive principal now c.slots with
  | mk found slots' =>
    rw [hfind] at he hleft hfound
    cases found with
    | some i =>
      rcases h with h | h
      · exact (hleft he h.symm).1
      · exact absurd (hfound i rfl) h
    | none => simpa using (mem_clearWhere.mp he).2

/-- A put that finds no slot has found all of them live, and none the principal's. -/
theorem putSlot_none (hu : Unique slots) (h : (putSlot principal now slots).1 = none) {slot : Option Entry}
    (hslot : slot ∈ slots) :
    ∃ e, slot = some e ∧ e.principal ≠ principal ∧ ¬e.expired now := by
  obtain ⟨j, hj⟩ := List.mem_iff_getElem?.mp hslot
  have hlen := length_slotFindLive principal now slots
  have hleft : ∀ e, some e ∈ (slotFindLive principal now slots).2 → e.principal = principal →
      ¬e.expired now ∧ (slotFindLive principal now slots).1.isSome := fun e hmem hprincipal =>
        slotFindLive_left hu hmem hprincipal
  have hreaped := reaped_slotFindLive principal now slots
  unfold putSlot at h
  cases hfind : slotFindLive principal now slots with
  | mk found slots' =>
    rw [hfind] at h hlen hleft hreaped
    cases found with
    | some i => cases h
    | none =>
      have hlt : j < (clearWhere (Entry.expired now) slots').length := by
        rw [clearWhere, List.length_map, hlen]
        exact (List.getElem?_eq_some_iff.mp hj).1
      have hnone := List.findIdx?_eq_none_iff.mp h _ (List.getElem_mem hlt)
      obtain ⟨e, he⟩ := Option.isSome_iff_exists.mp
        (by simpa using hnone : ((clearWhere (Entry.expired now) slots')[j]).isSome)
      have hat : (clearWhere (Entry.expired now) slots')[j]? = some (some e) := by rw [List.getElem?_eq_getElem hlt, he]
      have hmem := mem_clearWhere.mp (List.mem_of_getElem? hat)
      have hsame := hreaped j e (reaped_clearWhere _ _ j e hat)
      refine ⟨e, Option.some.inj (hj.symm.trans hsame), fun hprincipal => ?_, by simpa using hmem.2⟩
      cases (hleft e hmem.1 hprincipal).2

/-! ## The calls -/

theorem mem_put (hu : Unique c.slots) (h : some e ∈ (c.put principal kek now).2.slots) :
    ((c.put principal kek now).1 ∧ e = ⟨principal, kek, now + ttlSeconds⟩) ∨
      (some e ∈ c.slots ∧ ((c.put principal kek now).1 → e.principal ≠ principal) ∧
        (c.accepts principal → principal = e.principal ∨ ¬Live c principal now → ¬e.expired now)) := by
  have hreaped := reaped_putSlot principal now c.slots
  unfold put at h ⊢
  cases haccepts : c.accepts principal with
  | false => exact .inr ⟨by simpa [haccepts] using h, by simp, nofun⟩
  | true =>
    simp only [haccepts, Bool.not_true, Bool.false_eq_true, if_false] at h ⊢
    cases hslot : (putSlot principal now c.slots).1 with
    | none =>
      rw [hslot] at h
      exact .inr ⟨hreaped.mem h, nofun, fun _ => putSlot_left hu h⟩
    | some i =>
      rw [hslot] at h
      obtain ⟨j, hj⟩ := List.mem_iff_getElem?.mp h
      change ((putSlot principal now c.slots).2.set i (some ⟨principal, kek, now + ttlSeconds⟩))[j]? =
        some (some e) at hj
      rw [List.getElem?_set] at hj
      split at hj
      case isTrue =>
        split at hj
        case isTrue =>
          cases hj
          exact .inl ⟨rfl, rfl⟩
        case isFalse => cases hj
      case isFalse hij =>
        have hmem := List.mem_of_getElem? hj
        exact .inr ⟨hreaped.mem hmem, fun _ heq => hij (putSlot_other hu hslot hj heq).symm, fun _ =>
          putSlot_left hu hmem⟩

theorem unique_put (hu : Unique c.slots) : Unique (c.put principal kek now).2.slots := by
  have hreaped := (reaped_putSlot principal now c.slots).unique hu
  unfold put
  split
  case isTrue => exact hu
  case isFalse =>
    split
    case h_1 => exact hreaped
    case h_2 i hslot => exact hreaped.set fun j e he heq => putSlot_other hu hslot he heq

theorem put_refused (hu : Unique c.slots) (haccepts : c.accepts principal)
    (h : (c.put principal kek now).1 = false) {slot : Option Entry}
    (hslot : slot ∈ c.slots) : ∃ e, slot = some e ∧ e.principal ≠ principal ∧ ¬e.expired now := by
  unfold put at h
  simp only [haccepts, Bool.not_true, Bool.false_eq_true, if_false] at h
  split at h
  case h_1 hnone => exact putSlot_none hu hnone hslot
  case h_2 => cases h

theorem reaped_findLive (principal : CString) (now : Int64) (c : Cache) :
    Reaped c.slots (c.findLive principal now).2.slots := by
  unfold findLive
  split
  case isTrue => exact Reaped.refl
  case isFalse => exact reaped_slotFindLive principal now c.slots

theorem findLive_left (hu : Unique c.slots) (hready : c.ready)
    (he : some e ∈ (c.findLive principal now).2.slots) (hprincipal : e.principal = principal) :
    ¬e.expired now := by
  simp only [findLive, hready, Bool.not_true, Bool.false_eq_true, if_false] at he
  exact (slotFindLive_left hu he hprincipal).1

theorem findLive_some (h : (c.findLive principal now).1 = some e) :
    some e ∈ c.slots ∧ e.principal = principal ∧ ¬e.expired now := by
  unfold findLive at h
  split at h
  case isTrue => cases h
  case isFalse =>
    obtain ⟨i, hi, hjoin⟩ := Option.bind_eq_some_iff.mp h
    obtain ⟨e', hat, hprincipal, hlive⟩ := slotFindLive_some hi
    rw [hat] at hjoin
    obtain rfl : e' = e := Option.some.inj hjoin
    exact ⟨(reaped_slotFindLive principal now c.slots).mem (List.mem_of_getElem? hat), hprincipal, hlive⟩

theorem reaped_clearSlots (p : Entry → Bool) (c : Cache) : Reaped c.slots (c.clearSlots p).slots := by
  unfold clearSlots
  split
  case isTrue => exact Reaped.refl
  case isFalse => exact reaped_clearWhere p c.slots

theorem clearSlots_left {p : Entry → Bool} (hready : c.ready) (he : some e ∈ (c.clearSlots p).slots) : p e = false := by
  simp only [clearSlots, hready, Bool.not_true, Bool.false_eq_true, if_false] at he
  exact (mem_clearWhere.mp he).2

end

end Cache

/-! ## Steps and runs -/

section

variable {c : Cache} {e : Entry} {call : Call} {calls : List Call}

theorem unique_step (hu : Unique c.slots) (call : Call) : Unique (step c call).slots := by
  cases call with
  | put principal kek now => exact Cache.unique_put hu
  | get principal now => exact (Cache.reaped_findLive principal now c).unique hu
  | has principal now => exact (Cache.reaped_findLive principal now c).unique hu
  | evict principal => exact (Cache.reaped_clearSlots _ c).unique hu
  | clear => exact (Cache.reaped_clearSlots _ c).unique hu
  | count now => exact (Cache.reaped_clearSlots _ c).unique hu

theorem mem_step (hready : c.ready) (hu : Unique c.slots) (he : some e ∈ (step c call).slots) :
    (some e ∈ c.slots ∧ ∀ since, e.expiresEpoch = since + ttlSeconds → ¬call.Ends c e.principal since) ∨
      ∃ now, call = .put e.principal e.kek now ∧ (c.put e.principal e.kek now).1 ∧
        e.expiresEpoch = now + ttlSeconds := by
  cases call with
  | put principal kek now =>
    rcases Cache.mem_put hu he with ⟨hput, rfl⟩ | ⟨hmem, hother, hleft⟩
    · exact .inr ⟨now, rfl, hput, rfl⟩
    · refine .inl ⟨hmem, fun since hsince hends => ?_⟩
      cases hends with
      | replaced hput => exact hother hput rfl
      | expired hlooks hdue =>
        obtain ⟨rfl, haccepts, hlooks⟩ := hlooks
        refine hleft haccepts hlooks ?_
        rw [Entry.expired, hsince]
        exact decide_eq_true hdue
  | get principal now =>
    refine .inl ⟨(Cache.reaped_findLive principal now c).mem he, fun since hsince hends => ?_⟩
    cases hends with
    | expired hlooks hdue =>
      obtain ⟨rfl, rfl⟩ := hlooks
      refine Cache.findLive_left hu hready he rfl ?_
      rw [Entry.expired, hsince]
      exact decide_eq_true hdue
  | has principal now =>
    refine .inl ⟨(Cache.reaped_findLive principal now c).mem he, fun since hsince hends => ?_⟩
    cases hends with
    | expired hlooks hdue =>
      obtain ⟨rfl, rfl⟩ := hlooks
      refine Cache.findLive_left hu hready he rfl ?_
      rw [Entry.expired, hsince]
      exact decide_eq_true hdue
  | evict principal =>
    refine .inl ⟨(Cache.reaped_clearSlots _ c).mem he, fun since hsince hends => ?_⟩
    cases hends with
    | evicted => simpa using Cache.clearSlots_left hready he
    | expired hlooks => exact hlooks
  | clear =>
    cases Cache.clearSlots_left hready he
  | count now =>
    refine .inl ⟨(Cache.reaped_clearSlots _ c).mem he, fun since hsince hends => ?_⟩
    cases hends with
    | expired hlooks hdue =>
      obtain rfl := hlooks
      have hleft := Cache.clearSlots_left hready he
      rw [Entry.expired, hsince] at hleft
      exact of_decide_eq_false hleft hdue

theorem run_concat (ready : Bool) (calls : List Call) (call : Call) :
    run ready (calls ++ [call]) = step (run ready calls) call := by
  rw [run, List.foldl_append]
  rfl

theorem Cache.ready_put {principal : CString} {kek : Kek} {now : Int64} :
    (c.put principal kek now).2.ready = c.ready := by
  unfold Cache.put
  split
  case isTrue => rfl
  case isFalse =>
    split <;> rfl

theorem Cache.ready_findLive {principal : CString} {now : Int64} : (c.findLive principal now).2.ready = c.ready := by
  unfold Cache.findLive
  split <;> rfl

theorem Cache.ready_clearSlots {p : Entry → Bool} : (c.clearSlots p).ready = c.ready := by
  unfold Cache.clearSlots
  split <;> rfl

theorem ready_step (call : Call) : (step c call).ready = c.ready := by
  cases call with
  | put principal kek now => exact Cache.ready_put
  | get principal now => exact Cache.ready_findLive
  | has principal now => exact Cache.ready_findLive
  | evict principal => exact Cache.ready_clearSlots
  | clear => exact Cache.ready_clearSlots
  | count now => exact Cache.ready_clearSlots

theorem ready_run (ready : Bool) (calls : List Call) : (run ready calls).ready = ready := by
  induction calls using List.reverseRecOn with
  | nil => rfl
  | append_singleton calls call ih => rw [run_concat, ready_step, ih]

theorem not_mem_empty (ready : Bool) : some e ∉ (Cache.empty ready).slots := by
  intro h
  cases List.eq_of_mem_replicate h

theorem unique_run (ready : Bool) (calls : List Call) : Unique (run ready calls).slots := by
  induction calls using List.reverseRecOn with
  | nil => exact fun i j e e' he => absurd (List.mem_of_getElem? he) (not_mem_empty ready)
  | append_singleton calls call ih =>
    rw [run_concat]
    exact unique_step ih call

theorem Cached.concat {ready : Bool} {principal : CString} {kek : Kek} {since : Int64}
    (h : Cached ready calls principal kek since)
    (hkept : ¬call.Ends (run ready calls) principal since) : Cached ready (calls ++ [call]) principal kek since := by
  obtain ⟨before, after, rfl, hput, hafter⟩ := h
  refine ⟨before, after ++ [call], by simp, hput, fun mid c rest heq => ?_⟩
  rcases List.eq_nil_or_concat rest with rfl | ⟨rest, last, rfl⟩
  · obtain ⟨rfl, hlast⟩ := List.append_inj' heq rfl
    cases hlast
    exact hkept
  · rw [List.concat_eq_append, ← List.cons_append, ← List.append_assoc] at heq
    exact hafter mid c rest (List.append_inj' heq rfl).1

/-- Every slot in use was put there, and nothing since has ended it. -/
theorem cached_of_mem (calls : List Call) : ∀ {e : Entry}, some e ∈ (run true calls).slots →
    ∃ since, e.expiresEpoch = since + ttlSeconds ∧ Cached true calls e.principal e.kek since := by
  induction calls using List.reverseRecOn with
  | nil => exact fun he => absurd he (not_mem_empty true)
  | append_singleton calls call ih =>
    intro e he
    rw [run_concat] at he
    rcases mem_step (ready_run true calls) (unique_run true calls) he with ⟨hmem, hkept⟩ | ⟨now, rfl, hput, hexpires⟩
    · obtain ⟨since, hsince, hcached⟩ := ih hmem
      exact ⟨since, hsince, hcached.concat (hkept since hsince)⟩
    · exact ⟨now, hexpires, calls, [], rfl, hput, fun mid c rest heq => by simp at heq⟩

/-- A time that wraps is early. -/
theorem lt_of_not_expired {now since : Int64} (h : ¬since + ttlSeconds ≤ now) : now.toInt < since.toInt + 900 := by
  have hlt : now.toInt < (since + ttlSeconds).toInt := Int64.lt_iff_toInt_lt.mp (Int64.not_le.mp h)
  have hmin := since.le_toInt
  rw [Int64.toInt_add] at hlt
  have hwrap : (since.toInt + 900).bmod (2 ^ 64) ≤ since.toInt + 900 := by
    rw [Int.bmod_def]
    omega
  exact Int.lt_of_lt_of_le hlt hwrap

end

/-- After any calls: one slot in use at most for a principal; a hit is the key of the last successful put of the
    principal, within its time, that no evict, no clear and no call that saw it expired has ended; and a put of a
    principal the cache accepts is refused only if every slot is live for another. -/
theorem kekCache_refines (ready : Bool) (calls : List Call) :
    Unique (run ready calls).slots ∧
      (∀ principal now kek, ((run ready calls).get principal now).1 = some kek →
        ∃ since, Cached ready calls principal kek since ∧ now.toInt < since.toInt + 900) ∧
      ∀ principal kek now, (run ready calls).accepts principal → ((run ready calls).put principal kek now).1 = false →
        ∀ slot ∈ (run ready calls).slots, ∃ e, slot = some e ∧ e.principal ≠ principal ∧ ¬e.expired now := by
  refine ⟨unique_run ready calls, fun principal now kek h => ?_, fun principal kek now haccepts h slot hslot => ?_⟩
  · obtain ⟨e, hfound, rfl⟩ := Option.map_eq_some_iff.mp h
    obtain ⟨hmem, rfl, hlive⟩ := Cache.findLive_some hfound
    cases ready with
    | false => simp [Cache.findLive, ready_run] at hfound
    | true =>
      obtain ⟨since, hsince, hcached⟩ := cached_of_mem calls hmem
      rw [Entry.expired, hsince, decide_eq_true_eq] at hlive
      exact ⟨since, hcached, lt_of_not_expired hlive⟩
  · exact Cache.put_refused (unique_run ready calls) haccepts h hslot

/-- The empty principal is refused by a cache with every slot free. -/
theorem put_empty_refused :
    ((Cache.empty true).put .empty ⟨List.replicate 32 0, by simp⟩ 0).1 = false ∧
      ∀ slot ∈ (Cache.empty true).slots, slot = none :=
  ⟨by decide, fun _ h => List.eq_of_mem_replicate h⟩

end VaultKekCache
