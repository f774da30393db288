-- SUMMARY: Runs of the knowledge registry: the list of scopes it tracks, and when an advance reaches a recorded basis.
import Aimee.Core.TurnIntegrity

/-!
# Runs of the knowledge registry

A slot is never given back, so the slots in use are the front of the table. `Tracks` relates
a table to that list, and `advanceUsed` is the advance as an operation on it: the list is
searched by the full names and extended, while it is shorter than the table, by the names cut
to their buffers. What a run does to the epoch of a scope is proved of the list.
-/

namespace TurnIntegrity

/-! ## Scopes -/

/-- The names of a scope, of any length. -/
structure Scope where
  domain : CString
  scopeId : CString
  deriving DecidableEq

/-- The names as a slot or a basis holds them. -/
def Scope.bounded (k : Scope) : Scope where
  domain := (copyBounded (some k.domain) : CBuffer domainMax).val
  scopeId := (copyBounded (some k.scopeId) : CBuffer scopeMax).val

def KnowledgeSlot.scope (slot : KnowledgeSlot) : Scope where
  domain := slot.domain.val
  scopeId := slot.scopeId.val

theorem copyBounded_val {cap : Nat} [NeZero cap] (s : CBuffer cap) : copyBounded (some s.val) = s := by
  have hlen : s.val.val.length ≤ cap - 1 := Nat.le_sub_one_of_lt s.property
  exact Subtype.ext (CString.truncate_of_length_le hlen)

theorem KnowledgeSlot.bounded_scope (slot : KnowledgeSlot) : slot.scope.bounded = slot.scope := by
  simp only [Scope.bounded, scope, copyBounded_val]

theorem Scope.bounded_bounded (k : Scope) : k.bounded.bounded = k.bounded := by
  simp only [bounded, copyBounded_val]

theorem KnowledgeSlot.named_eq (k : Scope) (slot : KnowledgeSlot) :
    slot.named k.domain k.scopeId = (slot.inUse && decide (slot.scope = k)) := by
  obtain ⟨domain, scopeId⟩ := k
  simp [named, scope]

/-! ## The slots in use -/

/-- The slots in use, in the order in which their scopes were first advanced. -/
abbrev Used := List KnowledgeSlot

/-- The epoch of a scope that has a slot. -/
def epochOf (used : Used) (k : Scope) : Option UInt64 :=
  (used.find? (·.scope = k)).map (·.epoch)

theorem epochOf_cons (slot : KnowledgeSlot) (used : Used) (k : Scope) :
    epochOf (slot :: used) k = if slot.scope = k then some slot.epoch else epochOf used k := by
  by_cases h : slot.scope = k <;> simp [epochOf, h]

/-- A slot for a scope that was advanced once. -/
def KnowledgeSlot.first (k : Scope) : KnowledgeSlot where
  domain := copyBounded (some k.domain)
  scopeId := copyBounded (some k.scopeId)
  epoch := 1
  inUse := true

def KnowledgeSlot.bump (slot : KnowledgeSlot) : KnowledgeSlot :=
  { slot with epoch := slot.epoch + 1 }

/-- Advance the first slot of the scope. -/
def bumpFirst (k : Scope) : Used → Used
  | [] => []
  | slot :: used => if slot.scope = k then slot.bump :: used else slot :: bumpFirst k used

/-- The advance of a scope on the slots in use. -/
def advanceUsed (k : Scope) (used : Used) : Used :=
  if (epochOf used k).isSome then bumpFirst k used
  else if used.length < knowledgeSlots then used ++ [.first k]
  else used

theorem length_bumpFirst (k : Scope) (used : Used) : (bumpFirst k used).length = used.length := by
  induction used with
  | nil => rfl
  | cons slot used ih =>
    unfold bumpFirst
    split
    · rfl
    · rw [List.length_cons, List.length_cons, ih]

theorem epochOf_bumpFirst (j k : Scope) (used : Used) :
    epochOf (bumpFirst k used) j =
      if j = k then (epochOf used j).map (· + 1) else epochOf used j := by
  induction used with
  | nil => simp [epochOf, bumpFirst]
  | cons slot used ih =>
    unfold bumpFirst
    by_cases hk : slot.scope = k
    · have hscope : slot.bump.scope = slot.scope := rfl
      rw [if_pos hk, epochOf_cons, epochOf_cons, hscope, hk]
      by_cases hj : j = k
      · simp [hj, KnowledgeSlot.bump]
      · simp [hj, Ne.symm hj]
    · rw [if_neg hk, epochOf_cons, epochOf_cons, ih]
      by_cases hj : slot.scope = j
      · have hjk : j ≠ k := fun h => hk (hj.trans h)
        simp [hj, hjk]
      · simp [hj]

theorem epochOf_append_first (j k : Scope) (used : Used) :
    epochOf (used ++ [.first k]) j =
      (epochOf used j).or (if j = k.bounded then some 1 else none) := by
  induction used with
  | nil =>
    have hscope : (KnowledgeSlot.first k).scope = k.bounded := rfl
    rw [List.nil_append, epochOf_cons, hscope]
    by_cases hj : j = k.bounded
    · simp [hj, epochOf, KnowledgeSlot.first]
    · simp [hj, Ne.symm hj, epochOf]
  | cons slot used ih =>
    rw [List.cons_append, epochOf_cons, epochOf_cons, ih]
    split
    · rfl
    · rfl

/-- A slot holds bounded names, so a scope with longer ones never has one. -/
theorem epochOf_eq_none_of_bounded_ne {k : Scope} (h : k.bounded ≠ k) (used : Used) :
    epochOf used k = none := by
  rw [epochOf, Option.map_eq_none_iff, List.find?_eq_none]
  intro slot _ hslot
  rw [decide_eq_true_eq] at hslot
  exact h (hslot ▸ slot.bounded_scope)

/-! ## What an advance does to one scope -/

section Advance

variable {b k : Scope} {used : Used}

theorem epochOf_advanceUsed_of_ne (hb : b.bounded = b) (h : k.bounded ≠ b) :
    epochOf (advanceUsed k used) b = epochOf used b := by
  have hne : b ≠ k := fun hbk => h (hbk ▸ hb)
  unfold advanceUsed
  split
  · rw [epochOf_bumpFirst, if_neg hne]
  · split
    · rw [epochOf_append_first, if_neg (Ne.symm h), Option.or_none]
    · rfl

/-- A scope whose names are longer than the buffers adds one more slot of the same bounded
    names, and a lookup still finds the first one. -/
theorem epochOf_advanceUsed_of_some (h : k.bounded = b) {e : UInt64}
    (he : epochOf used b = some e) :
    epochOf (advanceUsed k used) b = some (if k = b then e + 1 else e) := by
  by_cases hkb : k = b
  · subst hkb
    rw [advanceUsed, he, Option.isSome_some, if_pos rfl, epochOf_bumpFirst, if_pos rfl, he,
      if_pos rfl]
    rfl
  · have hk : epochOf used k = none := epochOf_eq_none_of_bounded_ne (fun h' => hkb (h'.symm.trans h)) used
    rw [advanceUsed, hk, Option.isSome_none, if_neg Bool.false_ne_true]
    split
    · rw [epochOf_append_first, he, Option.some_or]
    · exact he

theorem epochOf_advanceUsed_of_none (h : k.bounded = b) (he : epochOf used b = none) :
    epochOf (advanceUsed k used) b = if used.length < knowledgeSlots then some 1 else none := by
  have hk : epochOf used k = none := by
    by_cases hkb : k = b
    · exact hkb ▸ he
    · exact epochOf_eq_none_of_bounded_ne (fun h' => hkb (h'.symm.trans h)) used
  rw [advanceUsed, hk, Option.isSome_none, if_neg Bool.false_ne_true]
  split
  · rw [epochOf_append_first, he, if_pos h.symm, Option.none_or]
  · exact he

theorem length_le_length_advanceUsed : used.length ≤ (advanceUsed k used).length := by
  unfold advanceUsed
  split
  · rw [length_bumpFirst]
  · split
    · rw [List.length_append]
      exact Nat.le_add_right _ _
    · exact Nat.le_refl _

end Advance

/-! ## What a run does to one scope -/

/-- The advances of a list of scopes, one after the other. -/
def runUsed (used : Used) (ks : List Scope) : Used := ks.foldl (fun used k => advanceUsed k used) used

/-- The advances that can reach the slot of `b`. -/
def hits (b : Scope) (ks : List Scope) : Nat := ks.countP fun k => k.bounded = b

theorem hits_append (b : Scope) (ks ks' : List Scope) : hits b (ks ++ ks') = hits b ks + hits b ks' :=
  List.countP_append

theorem hits_cons (b k : Scope) (ks : List Scope) : hits b (k :: ks) = hits b [k] + hits b ks :=
  hits_append b [k] ks

/-- The epoch of a scope counts at most the advances that reached its slot. -/
def Counted (b : Scope) (n : Nat) (used : Used) : Prop :=
  ∀ e, epochOf used b = some e → 1 ≤ e.toNat ∧ e.toNat ≤ n

/-- A scope keeps its slot, and its epoch does not fall. -/
def Grows (b : Scope) (used used' : Used) : Prop :=
  ∀ e, epochOf used b = some e → ∃ e', epochOf used' b = some e' ∧ e.toNat ≤ e'.toNat

theorem Grows.trans {b : Scope} {u₁ u₂ u₃ : Used} (h : Grows b u₁ u₂) (h' : Grows b u₂ u₃) :
    Grows b u₁ u₃ := by
  intro e he
  obtain ⟨e₂, he₂, hle⟩ := h e he
  obtain ⟨e₃, he₃, hle'⟩ := h' e₂ he₂
  exact ⟨e₃, he₃, hle.trans hle'⟩

theorem advanceUsed_counted {b k : Scope} (hb : b.bounded = b) {n : Nat} {used : Used}
    (hcount : Counted b n used) (hn : n + hits b [k] < 2 ^ 64) :
    Counted b (n + hits b [k]) (advanceUsed k used) ∧ Grows b used (advanceUsed k used) := by
  by_cases hk : k.bounded = b
  · have hhits : hits b [k] = 1 := by simp [hits, hk]
    rw [hhits] at hn ⊢
    cases he : epochOf used b with
    | none =>
      refine ⟨?_, fun e h => by simp [he] at h⟩
      intro e h
      rw [epochOf_advanceUsed_of_none hk he] at h
      split at h
      · cases h
        exact ⟨Nat.le_refl 1, Nat.le_add_left 1 n⟩
      · cases h
    | some e =>
      obtain ⟨hpos, hle⟩ := hcount e he
      have hafter := epochOf_advanceUsed_of_some hk he
      have hsucc : (e + 1).toNat = e.toNat + 1 := by
        exact Nat.mod_eq_of_lt (by simpa using by omega)
      have hbounds : e.toNat ≤ (if k = b then e + 1 else e).toNat ∧
          (if k = b then e + 1 else e).toNat ≤ n + 1 := by
        split
        · omega
        · omega
      refine ⟨?_, ?_⟩
      · intro e' h
        rw [hafter] at h
        cases h
        exact ⟨hpos.trans hbounds.1, hbounds.2⟩
      · intro e' h
        rw [he] at h
        cases h
        exact ⟨_, hafter, hbounds.1⟩
  · have hhits : hits b [k] = 0 := by simp [hits, hk]
    have hafter : epochOf (advanceUsed k used) b = epochOf used b := epochOf_advanceUsed_of_ne hb hk
    rw [hhits] at *
    refine ⟨?_, ?_⟩
    · intro e h
      exact hcount e (hafter ▸ h)
    · intro e h
      exact ⟨e, hafter.trans h, Nat.le_refl _⟩

theorem runUsed_counted {b : Scope} (hb : b.bounded = b) {n : Nat} {used : Used} (ks : List Scope)
    (hcount : Counted b n used) (hn : n + hits b ks < 2 ^ 64) :
    Counted b (n + hits b ks) (runUsed used ks) ∧ Grows b used (runUsed used ks) := by
  induction ks generalizing n used with
  | nil => exact ⟨hcount, fun e h => ⟨e, h, Nat.le_refl _⟩⟩
  | cons k ks ih =>
    rw [hits_cons, ← Nat.add_assoc] at hn ⊢
    have hstep : n + hits b [k] < 2 ^ 64 := Nat.lt_of_le_of_lt (Nat.le_add_right _ _) hn
    obtain ⟨hcount', hgrows⟩ := advanceUsed_counted hb hcount hstep
    obtain ⟨hcount'', hgrows'⟩ := ih hcount' hn
    exact ⟨hcount'', hgrows.trans hgrows'⟩

/-- A scope without a slot does not get one while the table is full. -/
theorem runUsed_full {b : Scope} (hb : b.bounded = b) {used : Used}
    (hfull : knowledgeSlots ≤ used.length) (he : epochOf used b = none) (ks : List Scope) :
    epochOf (runUsed used ks) b = none := by
  induction ks generalizing used with
  | nil => exact he
  | cons k ks ih =>
    refine ih (hfull.trans length_le_length_advanceUsed) ?_
    by_cases hk : k.bounded = b
    · rw [epochOf_advanceUsed_of_none hk he, if_neg (Nat.not_lt.mpr hfull)]
    · rw [epochOf_advanceUsed_of_ne hb hk, he]

/-- The scope has a slot under its bounded names, or there is room for one. -/
def Trackable (k : Scope) (used : Used) : Prop :=
  (epochOf used k.bounded).isSome ∨ used.length < knowledgeSlots

theorem runUsed_append (used : Used) (ks ks' : List Scope) :
    runUsed used (ks ++ ks') = runUsed (runUsed used ks) ks' :=
  List.foldl_append

/-- A scope that has no slot now had none before. -/
theorem Grows.none {b : Scope} {used used' : Used} (h : Grows b used used')
    (he : epochOf used' b = none) : epochOf used b = none := by
  cases hb : epochOf used b with
  | none => rfl
  | some e =>
    obtain ⟨e', he', -⟩ := h e hb
    rw [he] at he'
    cases he'

/-- The epoch that is looked up for `k` is zero, or the one of its bounded names. -/
theorem epochOf_getD_cases (k : Scope) (used : Used) :
    (epochOf used k).getD 0 = 0 ∧ k.bounded ≠ k ∨ epochOf used k = epochOf used k.bounded := by
  by_cases hk : k.bounded = k
  · exact .inr (by rw [hk])
  · exact .inl ⟨by rw [epochOf_eq_none_of_bounded_ne hk]; rfl, hk⟩

/-- An advance of a trackable scope takes the epoch of its bounded names past the one that
    was recorded. -/
theorem advanceUsed_passes {k : Scope} {n : Nat} {recorded used : Used} (hcount : Counted k.bounded n used)
    (hgrows : Grows k.bounded recorded used) (hn : n + 1 < 2 ^ 64) (htrack : Trackable k used) :
    ∃ e, epochOf (advanceUsed k used) k.bounded = some e ∧
      ((epochOf recorded k).getD 0).toNat < e.toNat := by
  cases he : epochOf used k.bounded with
  | none =>
    have hroom : used.length < knowledgeSlots := by simpa [Trackable, he] using htrack
    refine ⟨1, by rw [epochOf_advanceUsed_of_none rfl he, if_pos hroom], ?_⟩
    have hzero : (epochOf recorded k).getD 0 = 0 := by
      rcases epochOf_getD_cases k recorded with ⟨h, -⟩ | h
      · exact h
      · rw [h, hgrows.none he]
        rfl
    rw [hzero]
    exact Nat.one_pos
  | some e =>
    obtain ⟨hpos, hle⟩ := hcount e he
    refine ⟨_, epochOf_advanceUsed_of_some rfl he, ?_⟩
    by_cases hk : k = k.bounded
    · have hsucc : (e + 1).toNat = e.toNat + 1 := by
        exact Nat.mod_eq_of_lt (by simpa using by omega)
      rw [if_pos hk, hsucc]
      cases hrec : epochOf recorded k with
      | none => exact Nat.succ_pos _
      | some e₀ =>
        obtain ⟨e', he', hle'⟩ := hgrows e₀ (by rw [← hk, hrec])
        rw [he] at he'
        cases he'
        exact Nat.lt_succ_of_le hle'
    · rw [if_neg hk, epochOf_eq_none_of_bounded_ne (Ne.symm hk)]
      exact hpos

/-- The epoch recorded for a scope differs from the one its bounded names have behind an
    advance exactly when that advance finds the scope trackable. -/
theorem epochOf_ne_iff_trackable {k : Scope} {pre mid post : List Scope}
    (hn : hits k.bounded (pre ++ mid ++ k :: post) < 2 ^ 64) :
    (epochOf (runUsed [] (pre ++ mid ++ k :: post)) k.bounded).getD 0 ≠
        (epochOf (runUsed [] pre) k).getD 0 ↔ Trackable k (runUsed [] (pre ++ mid)) := by
  have hb := k.bounded_bounded
  have hone : hits k.bounded [k] = 1 := by simp [hits]
  rw [hits_append, hits_append, hits_cons] at hn
  have hnil : Counted k.bounded 0 [] := fun e h => by cases h
  obtain ⟨hpre, -⟩ := runUsed_counted hb pre hnil (by omega)
  obtain ⟨hmid, hgrows⟩ := runUsed_counted hb mid hpre (by omega)
  rw [runUsed_append, runUsed_append]
  generalize runUsed [] pre = recorded at *
  generalize runUsed recorded mid = used at *
  have hcons : runUsed used (k :: post) = runUsed (advanceUsed k used) post := rfl
  rw [hcons]
  constructor
  · intro hne
    by_contra htrack
    obtain ⟨hnone, hfull⟩ := not_or.mp htrack
    rw [Option.not_isSome_iff_eq_none] at hnone
    refine hne ?_
    have hafter := runUsed_full hb (Nat.not_lt.mp hfull) hnone (k :: post)
    rw [hcons] at hafter
    rw [hafter]
    rcases epochOf_getD_cases k recorded with ⟨h, -⟩ | h
    · exact h.symm
    · rw [h, hgrows.none hnone]
  · intro htrack heq
    obtain ⟨e, he, hlt⟩ := advanceUsed_passes hmid hgrows (by omega) htrack
    have hstep := advanceUsed_counted (k := k) hb hmid (by rw [hone]; omega)
    obtain ⟨-, hgrows'⟩ := runUsed_counted hb post hstep.1 (by omega)
    obtain ⟨e', he', hle⟩ := hgrows' e he
    rw [he'] at heq
    rw [← heq] at hlt
    exact Nat.lt_irrefl _ (Nat.lt_of_lt_of_le hlt hle)

/-! ## The table tracks the list -/

/-- The slots in use are the front of the table, and no other slot was ever written. -/
structure Tracks (slots : Registry) (used : Used) : Prop where
  slots_eq : slots.val = used ++ List.replicate (knowledgeSlots - used.length) .zero
  inUse : ∀ slot ∈ used, slot.inUse = true

theorem tracks_initial : Tracks .initial [] := ⟨rfl, fun _ h => by cases h⟩

theorem findIdx?_scope {k : Scope} {used : Used} {i : Nat}
    (h : used.findIdx? (·.scope = k) = some i) :
    ∃ slot, used[i]? = some slot ∧ epochOf used k = some slot.epoch ∧
      bumpFirst k used = used.set i slot.bump := by
  induction used generalizing i with
  | nil => cases h
  | cons slot used ih =>
    rw [List.findIdx?_cons] at h
    rw [epochOf_cons, bumpFirst]
    by_cases hk : slot.scope = k
    · simp only [hk, decide_true, if_true, Option.some.injEq] at h ⊢
      subst h
      exact ⟨slot, rfl, rfl, rfl⟩
    · simp only [hk, decide_false, Bool.false_eq_true, if_false, Option.map_eq_some_iff] at h ⊢
      obtain ⟨j, hj, rfl⟩ := h
      obtain ⟨found, hget, hepoch, hbump⟩ := ih hj
      exact ⟨found, by simpa using hget, hepoch, by rw [hbump]; rfl⟩

theorem findIdx?_scope_none {k : Scope} {used : Used}
    (h : used.findIdx? (·.scope = k) = none) : epochOf used k = none := by
  rw [epochOf, Option.map_eq_none_iff, List.find?_eq_none]
  intro slot hslot
  rw [List.findIdx?_eq_none_iff.mp h slot hslot]
  exact Bool.false_ne_true

theorem Registry.set_set (slots : Registry) (i : Nat) (a b : KnowledgeSlot) :
    (slots.set i a).set i b = slots.set i b :=
  Subtype.ext (List.set_set a)

namespace Tracks

variable {slots : Registry} {used : Used}

section

variable (h : Tracks slots used)
include h

theorem findIdx?_named (k : Scope) :
    slots.val.findIdx? (·.named k.domain k.scopeId) = used.findIdx? (·.scope = k) := by
  have hfree : (List.replicate (knowledgeSlots - used.length) KnowledgeSlot.zero).findIdx?
      (·.named k.domain k.scopeId) = none := by
    rw [List.findIdx?_eq_none_iff]
    intro slot hslot
    rw [List.eq_of_mem_replicate hslot]
    rfl
  have hused : used.findIdx? (·.named k.domain k.scopeId) = used.findIdx? (·.scope = k) := by
    have hinUse := h.inUse
    clear hfree h
    induction used with
    | nil => rfl
    | cons slot used ih =>
      rw [List.findIdx?_cons, List.findIdx?_cons, ih fun s hs => hinUse s (by simp [hs]),
        KnowledgeSlot.named_eq, hinUse slot (by simp), Bool.true_and]
  rw [h.slots_eq, List.findIdx?_append, hfree, hused]
  simp

theorem findIdx?_free :
    slots.val.findIdx? (¬ ·.inUse) =
      if used.length < knowledgeSlots then some used.length else none := by
  have hused : used.findIdx? (¬ ·.inUse) = none := by
    rw [List.findIdx?_eq_none_iff]
    intro slot hslot
    simp [h.inUse slot hslot]
  rw [h.slots_eq, List.findIdx?_append, hused]
  by_cases hroom : used.length < knowledgeSlots
  · simp [KnowledgeSlot.zero]
  · have hzero : knowledgeSlots - used.length = 0 := by omega
    rw [hzero, if_neg hroom]
    rfl

theorem getElem? {i : Nat} {slot : KnowledgeSlot}
    (hi : used[i]? = some slot) : slots.val[i]? = some slot := by
  have hlt : i < used.length := (List.getElem?_eq_some_iff.mp hi).1
  rw [h.slots_eq, List.getElem?_append_left hlt, hi]

theorem set {i : Nat} (hi : i < used.length) {slot : KnowledgeSlot}
    (hslot : slot.inUse = true) : Tracks (slots.set i slot) (used.set i slot) := by
  refine ⟨?_, ?_⟩
  · simp [Registry.set, h.slots_eq, List.set_append_left _ _ hi]
  · intro s hs
    rcases List.mem_or_eq_of_mem_set hs with hs | rfl
    · exact h.inUse s hs
    · exact hslot

theorem push (hroom : used.length < knowledgeSlots) {slot : KnowledgeSlot}
    (hslot : slot.inUse = true) : Tracks (slots.set used.length slot) (used ++ [slot]) := by
  refine ⟨?_, ?_⟩
  · obtain ⟨n, hn⟩ : ∃ n, knowledgeSlots - used.length = n + 1 :=
      ⟨knowledgeSlots - used.length - 1, by omega⟩
    have hrest : knowledgeSlots - (used ++ [slot]).length = n := by
      rw [List.length_append, List.length_singleton]
      omega
    simp only [Registry.set, h.slots_eq, hn, hrest, List.replicate_succ]
    simp
  · intro s hs
    rcases List.mem_append.mp hs with hs | hs
    · exact h.inUse s hs
    · rw [List.mem_singleton.mp hs]
      exact hslot

theorem epochCurrent {domain scopeId : CString}
    (hdomain : present? (some domain) = some domain)
    (hscope : present? (some scopeId) = some scopeId) :
    knowledgeEpochCurrent (some domain) (some scopeId) slots =
      (epochOf used ⟨domain, scopeId⟩).getD 0 := by
  have hindex := h.findIdx?_named ⟨domain, scopeId⟩
  simp only [knowledgeEpochCurrent, hdomain, hscope, knowledgeFindLocked, hindex]
  cases hfind : used.findIdx? (·.scope = ⟨domain, scopeId⟩) with
  | none =>
    rw [findIdx?_scope_none hfind]
    rfl
  | some i =>
    obtain ⟨slot, hget, hepoch, -⟩ := findIdx?_scope hfind
    simp only [h.getElem? hget, hepoch]
    rfl

theorem epochAdvance {domain scopeId reason : Option CString} {d s : CString}
    (hdomain : present? domain = some d) (hscope : present? scopeId = some s) :
    Tracks (knowledgeEpochAdvance domain scopeId reason slots).slots (advanceUsed ⟨d, s⟩ used) := by
  have hindex := h.findIdx?_named ⟨d, s⟩
  simp only [knowledgeEpochAdvance, hdomain, hscope, knowledgeFindLocked, hindex]
  cases hfind : used.findIdx? (·.scope = ⟨d, s⟩) with
  | none =>
    have hnone := findIdx?_scope_none hfind
    simp only [h.findIdx?_free, advanceUsed, hnone, Option.isSome_none]
    by_cases hroom : used.length < knowledgeSlots
    · have hpush : Tracks (slots.set used.length (.first ⟨d, s⟩)) (used ++ [.first ⟨d, s⟩]) :=
        h.push hroom rfl
      simp only [hroom, if_true, not_true_eq_false, if_false, Bool.false_eq_true, Registry.set_set]
      exact hpush
    · simp only [hroom, if_false]
      exact h
  | some i =>
    obtain ⟨slot, hget, hepoch, hbump⟩ := findIdx?_scope hfind
    obtain ⟨hlt, hslot⟩ := List.getElem?_eq_some_iff.mp hget
    simp only [h.getElem? hget, advanceUsed, hepoch, Option.isSome_some, if_true, hbump]
    exact h.set hlt (h.inUse slot (hslot ▸ List.getElem_mem hlt))

end

end Tracks

/-! ## Histories of calls -/

/-- A call of `ti_knowledge_epoch_advance`. -/
structure Call where
  domain : Option CString
  scopeId : Option CString
  reason : Option CString

/-- The table behind a sequence of calls. -/
def runCalls (slots : Registry) (calls : List Call) : Registry :=
  calls.foldl (fun slots c => (knowledgeEpochAdvance c.domain c.scopeId c.reason slots).slots) slots

/-- The scope a call advances, if its names are there. -/
def Call.scope? (c : Call) : Option Scope :=
  match present? c.domain, present? c.scopeId with
  | some domain, some scopeId => some ⟨domain, scopeId⟩
  | _, _ => none

theorem Tracks.step {slots : Registry} {used : Used} (h : Tracks slots used) (c : Call) :
    Tracks (knowledgeEpochAdvance c.domain c.scopeId c.reason slots).slots
      (c.scope?.elim used fun k => advanceUsed k used) := by
  unfold Call.scope?
  split
  · rename_i d s hd hs
    exact h.epochAdvance hd hs
  · rename_i hnames
    unfold knowledgeEpochAdvance
    split
    · rename_i d s hd hs
      exact absurd hs (hnames d s hd)
    · exact h

theorem Tracks.runCalls {slots : Registry} {used : Used} (h : Tracks slots used)
    (calls : List Call) :
    Tracks (runCalls slots calls) (runUsed used (calls.filterMap Call.scope?)) := by
  induction calls generalizing slots used with
  | nil => exact h
  | cons c calls ih =>
    have hstep := h.step c
    cases hk : c.scope? with
    | some k =>
      rw [List.filterMap_cons_some hk]
      rw [hk] at hstep
      exact ih hstep
    | none =>
      rw [List.filterMap_cons_none hk]
      rw [hk] at hstep
      exact ih hstep

/-! ## Invalidation of a recorded basis -/

/-- The advance of the scope reaches a slot: its bounded names have one, or one is free. An
    empty name is no scope. -/
def HasRoom (domain scopeId : CString) (slots : Registry) : Prop :=
  domain = .empty ∨ scopeId = .empty ∨ (∃ slot ∈ slots.val, slot.inUse = false) ∨
    ∃ slot ∈ slots.val, slot.inUse = true ∧ slot.domain = copyBounded (some domain) ∧
      slot.scopeId = copyBounded (some scopeId)

instance (domain scopeId : CString) (slots : Registry) : Decidable (HasRoom domain scopeId slots) :=
  inferInstanceAs (Decidable (_ ∨ _ ∨ _ ∨ _))

theorem Tracks.hasRoom_iff {slots : Registry} {used : Used} (h : Tracks slots used)
    {domain scopeId : CString} (hdomain : domain ≠ .empty) (hscope : scopeId ≠ .empty) :
    HasRoom domain scopeId slots ↔ Trackable ⟨domain, scopeId⟩ used := by
  have hfree : (∃ slot ∈ slots.val, slot.inUse = false) ↔ used.length < knowledgeSlots := by
    have hindex := h.findIdx?_free
    constructor
    · rintro ⟨slot, hslot, hinUse⟩
      by_contra hfull
      rw [if_neg hfull, List.findIdx?_eq_none_iff] at hindex
      simpa [hinUse] using hindex slot hslot
    · intro hroom
      rw [if_pos hroom, List.findIdx?_eq_some_iff_getElem] at hindex
      obtain ⟨hlt, hslot, -⟩ := hindex
      exact ⟨_, List.getElem_mem hlt, by simpa using hslot⟩
  have hslot : (∃ slot ∈ slots.val, slot.inUse = true ∧ slot.domain = copyBounded (some domain) ∧
      slot.scopeId = copyBounded (some scopeId)) ↔
      (epochOf used (Scope.bounded ⟨domain, scopeId⟩)).isSome := by
    have hscopeEq : ∀ slot : KnowledgeSlot, slot.scope = Scope.bounded ⟨domain, scopeId⟩ ↔
        slot.domain = copyBounded (some domain) ∧ slot.scopeId = copyBounded (some scopeId) := by
      intro slot
      simp only [KnowledgeSlot.scope, Scope.bounded, Scope.mk.injEq, Subtype.ext_iff]
    rw [epochOf, Option.isSome_map, List.find?_isSome]
    constructor
    · rintro ⟨slot, hmem, hinUse, hnames⟩
      rw [h.slots_eq, List.mem_append] at hmem
      rcases hmem with hmem | hmem
      · exact ⟨slot, hmem, by simpa using (hscopeEq slot).mpr hnames⟩
      · rw [List.eq_of_mem_replicate hmem] at hinUse
        cases hinUse
    · rintro ⟨slot, hmem, hnames⟩
      refine ⟨slot, ?_, h.inUse slot hmem, (hscopeEq slot).mp (by simpa using hnames)⟩
      rw [h.slots_eq]
      exact List.mem_append_left _ hmem
  rw [HasRoom, hfree, hslot, Trackable]
  simp [hdomain, hscope, or_comm]

/-- A call whose names are the given ones once they are cut to their buffers. -/
def Call.sameBuffers (domain scopeId : CString) (c : Call) : Bool :=
  (copyBounded c.domain : CBuffer domainMax) = copyBounded (some domain) ∧
    (copyBounded c.scopeId : CBuffer scopeMax) = copyBounded (some scopeId)

theorem present?_some {s : CString} (h : s ≠ .empty) : present? (some s) = some s := by
  simp [present?, Option.filter, h]

theorem present?_eq_some {s : Option CString} {t : CString} (h : present? s = some t) : s = some t :=
  (Option.filter_eq_some_iff.mp h).1

/-- A name that is not empty stays so when it is cut to its buffer. -/
theorem copyBounded_ne_empty {cap : Nat} [NeZero cap] (hcap : 1 < cap) {s : CString}
    (h : s ≠ .empty) : (copyBounded (some s) : CBuffer cap).val ≠ .empty := by
  intro hempty
  have hval : s.val.take (cap - 1) = [] := congrArg Subtype.val hempty
  rcases List.take_eq_nil_iff.mp hval with h0 | hnil
  · omega
  · exact h (Subtype.ext hnil)

theorem knowledgeBasisFreshness_ne_current {basis : KnowledgeBasis} {slots : Registry}
    (hdomain : basis.domain.val ≠ .empty) (hscope : basis.scopeId.val ≠ .empty) :
    knowledgeBasisFreshness basis slots ≠ .current ↔
      knowledgeEpochCurrent (some basis.domain.val) (some basis.scopeId.val) slots ≠ basis.epoch := by
  rw [knowledgeBasisFreshness, if_neg (not_or.mpr ⟨hdomain, hscope⟩)]
  split
  · rename_i heq
    simp [heq]
  · rename_i hne
    simp [hne]

/-- Whether a basis is current is decided by two lookups in the lists behind the tables. -/
theorem Tracks.freshness_ne_current_iff {slots slots' : Registry} {used used' : Used}
    (h : Tracks slots used) (h' : Tracks slots' used') {domain scopeId : CString}
    (hdomain : domain ≠ .empty) (hscope : scopeId ≠ .empty) :
    knowledgeBasisFreshness (recordBasis domain scopeId slots) slots' ≠ .current ↔
      (epochOf used' (Scope.bounded ⟨domain, scopeId⟩)).getD 0 ≠
        (epochOf used ⟨domain, scopeId⟩).getD 0 := by
  have hdomain' : (copyBounded (some domain) : CBuffer domainMax).val ≠ .empty :=
    copyBounded_ne_empty (by decide) hdomain
  have hscope' : (copyBounded (some scopeId) : CBuffer scopeMax).val ≠ .empty :=
    copyBounded_ne_empty (by decide) hscope
  have hcurrent := h'.epochCurrent (present?_some hdomain') (present?_some hscope')
  rw [← h.epochCurrent (present?_some hdomain) (present?_some hscope),
    knowledgeBasisFreshness_ne_current hdomain' hscope']
  exact not_congr ⟨hcurrent.symm.trans, hcurrent.trans⟩

theorem hits_filterMap_le (domain scopeId : CString) (calls : List Call) :
    hits (Scope.bounded ⟨domain, scopeId⟩) (calls.filterMap Call.scope?) ≤
      calls.countP (Call.sameBuffers domain scopeId) := by
  rw [hits, List.countP_filterMap]
  refine List.countP_mono_left ?_
  intro c _ hc
  cases hk : c.scope? with
  | none => simp [hk] at hc
  | some k =>
    unfold Call.scope? at hk
    split at hk
    · rename_i d s hd hs
      have hnames : Scope.bounded ⟨d, s⟩ = Scope.bounded ⟨domain, scopeId⟩ := by
        simpa [Call.scope?, hd, hs] using hc
      simp only [Scope.bounded, Scope.mk.injEq] at hnames
      simp only [Call.sameBuffers, present?_eq_some hd, present?_eq_some hs, Subtype.ext_iff,
        decide_eq_true_eq]
      simpa only [Subtype.ext_iff] using hnames
    · cases hk

/-- Over every history of advances in which fewer than `2 ^ 64` of them name the buffers of
    the basis: a basis that was recorded is not current behind a later advance of its scope
    exactly when that advance had room for the scope. -/
theorem knowledgeBasisFreshness_ne_current_iff {pre mid post : List Call}
    {domain scopeId : CString} {reason : Option CString}
    (hcount : (pre ++ mid ++ ⟨some domain, some scopeId, reason⟩ :: post).countP
      (Call.sameBuffers domain scopeId) < 2 ^ 64) :
    knowledgeBasisFreshness (recordBasis domain scopeId (runCalls .initial pre))
        (runCalls .initial (pre ++ mid ++ ⟨some domain, some scopeId, reason⟩ :: post)) ≠ .current ↔
      HasRoom domain scopeId (runCalls .initial (pre ++ mid)) := by
  by_cases hempty : domain = .empty ∨ scopeId = .empty
  · have hbasis : (recordBasis domain scopeId (runCalls .initial pre)).domain.val = .empty ∨
        (recordBasis domain scopeId (runCalls .initial pre)).scopeId.val = .empty := by
      rcases hempty with rfl | rfl
      · exact .inl rfl
      · exact .inr rfl
    rw [knowledgeBasisFreshness, if_pos hbasis]
    exact ⟨fun _ => by rw [HasRoom, ← or_assoc]; exact .inl hempty, fun _ => by simp⟩
  obtain ⟨hdomain, hscope⟩ := not_or.mp hempty
  have hk : Call.scope? ⟨some domain, some scopeId, reason⟩ = some ⟨domain, scopeId⟩ := by
    simp [Call.scope?, present?_some hdomain, present?_some hscope]
  have hhits := Nat.lt_of_le_of_lt (hits_filterMap_le domain scopeId _) hcount
  have hpre := tracks_initial.runCalls pre
  have hmid := tracks_initial.runCalls (pre ++ mid)
  have hall := tracks_initial.runCalls (pre ++ mid ++ ⟨some domain, some scopeId, reason⟩ :: post)
  rw [List.filterMap_append, List.filterMap_append, List.filterMap_cons_some hk] at hhits hall
  rw [List.filterMap_append] at hmid
  rw [hmid.hasRoom_iff hdomain hscope, ← epochOf_ne_iff_trackable hhits]
  exact hpre.freshness_ne_current_iff hall hdomain hscope

/-- The calls that advance `d/0`, `d/1`, ... once each. -/
def fillingCalls (n : Nat) : List Call :=
  (List.range n).map fun i => ⟨some (.ofAscii "d"), some (.decimal i), none⟩

theorem sampleBasis_ne_current :
    knowledgeBasisFreshness
        (recordBasis (.ofAscii "repository") (.ofAscii "aimee") (runCalls .initial (fillingCalls 2)))
        (runCalls .initial (fillingCalls 2 ++ [] ++
          [⟨some (.ofAscii "repository"), some (.ofAscii "aimee"), none⟩])) ≠ .current :=
  (knowledgeBasisFreshness_ne_current_iff (by decide +kernel)).mpr (by decide +kernel)

/-! ## A full table -/

/-- New scopes with bounded names take one slot each. -/
theorem runUsed_of_fresh {used : Used} {ks : List Scope} (hbounded : ∀ k ∈ ks, k.bounded = k)
    (hnodup : ks.Nodup) (hfresh : ∀ slot ∈ used, slot.scope ∉ ks)
    (hroom : used.length + ks.length ≤ knowledgeSlots) :
    runUsed used ks = used ++ ks.map .first := by
  induction ks generalizing used with
  | nil => exact (List.append_nil used).symm
  | cons k ks ih =>
    obtain ⟨hk, hks⟩ := List.nodup_cons.mp hnodup
    rw [List.length_cons] at hroom
    have hnone : epochOf used k = none := by
      rw [epochOf, Option.map_eq_none_iff, List.find?_eq_none]
      intro slot hslot heq
      exact hfresh slot hslot (by simp [of_decide_eq_true heq])
    have hstep : advanceUsed k used = used ++ [.first k] := by
      rw [advanceUsed, hnone, Option.isSome_none, if_neg Bool.false_ne_true, if_pos (by omega)]
    have hrest : runUsed (used ++ [.first k]) ks = used ++ [.first k] ++ ks.map .first := by
      refine ih (fun j hj => hbounded j (by simp [hj])) hks ?_ ?_
      · intro slot hslot hmem
        rcases List.mem_append.mp hslot with hslot | hslot
        · exact hfresh slot hslot (by simp [hmem])
        · rw [List.mem_singleton.mp hslot] at hmem
          have hscope : (KnowledgeSlot.first k).scope = k := hbounded k (by simp)
          exact hk (hscope ▸ hmem)
      · rw [List.length_append, List.length_singleton]
        omega
    have hcons : runUsed used (k :: ks) = runUsed (advanceUsed k used) ks := rfl
    rw [hcons, hstep, hrest, List.append_assoc]
    rfl

def fillingScopes : List Scope := (fillingCalls knowledgeSlots).filterMap Call.scope?

theorem runUsed_fillingScopes : runUsed [] fillingScopes = fillingScopes.map .first := by
  refine runUsed_of_fresh (by decide +kernel) ?_ (fun _ h => by cases h) (by decide +kernel)
  have hscopes : fillingScopes =
      (List.range knowledgeSlots).map fun i => ⟨.ofAscii "d", .decimal i⟩ := by decide +kernel
  rw [hscopes]
  refine List.pairwise_map.mpr (List.nodup_range.imp fun hne h => hne (Wire.decimal_inj ?_))
  exact congrArg (fun k : Scope => k.scopeId.val) h

theorem sampleBasis_current_of_full :
    knowledgeBasisFreshness
        (recordBasis (.ofAscii "repository") (.ofAscii "aimee")
          (runCalls .initial (fillingCalls knowledgeSlots)))
        (runCalls .initial (fillingCalls knowledgeSlots ++ [] ++
          [⟨some (.ofAscii "repository"), some (.ofAscii "aimee"), none⟩])) = .current := by
  have hpre := tracks_initial.runCalls (fillingCalls knowledgeSlots)
  have hall := tracks_initial.runCalls (fillingCalls knowledgeSlots ++ [] ++
    [⟨some (.ofAscii "repository"), some (.ofAscii "aimee"), none⟩])
  by_contra hne
  refine (hpre.freshness_ne_current_iff hall (by decide) (by decide)).mp hne ?_
  have hused : runUsed [] ((fillingCalls knowledgeSlots).filterMap Call.scope?) =
      fillingScopes.map .first := runUsed_fillingScopes
  have hnone : epochOf (fillingScopes.map .first) ⟨.ofAscii "repository", .ofAscii "aimee"⟩ = none := by
    decide
  have hbounded : Scope.bounded ⟨.ofAscii "repository", .ofAscii "aimee"⟩ =
      ⟨.ofAscii "repository", .ofAscii "aimee"⟩ := by decide
  rw [List.filterMap_append, List.filterMap_append, runUsed_append, List.filterMap_nil,
    List.append_nil, hused, hnone, hbounded, runUsed_full hbounded (by decide +kernel) hnone]

end TurnIntegrity
