-- SUMMARY: Chains of items linked by the digest of their predecessor: the head of a chain determines the chain.
import Mathlib.Data.List.Chain

/-!
# Hash-linked chains

An item has a digest, names the digest of the item before it, and carries its
position. If a digest binds whatever is of interest about an item, including its
position and the digest it names, then two chains with equal last digests agree
item by item, and they have the same length because the position of the last item
is that length. No assumption about the digest of the first predecessor is needed.
-/

namespace HashChain

variable {α D : Type*}

/-- How items are linked: the digest of an item, the digest it names as its
    predecessor's, and its position in the chain, counted from one. -/
structure Links (α D : Type*) where
  digest : α → D
  pred : α → D
  position : α → Nat

/-- Each item follows the one before it. -/
def Links.Follows (L : Links α D) (a b : α) : Prop :=
  L.position b = L.position a + 1 ∧ L.pred b = L.digest a

/-- A chain, oldest item first. -/
def Links.IsChain (L : Links α D) (items : List α) : Prop :=
  items.IsChain L.Follows ∧ ∀ a ∈ items.head?, L.position a = 1

/-! ## Positions -/

variable {items : List α}

theorem Links.IsChain.position_getElem? {L : Links α D} (h : L.IsChain items)
    {i : Nat} {a : α} (ha : items[i]? = some a) : L.position a = i + 1 := by
  obtain ⟨hchain, hfirst⟩ := h
  induction i generalizing a with
  | zero => exact hfirst a (List.head?_eq_getElem? ▸ ha)
  | succ i ih =>
    obtain ⟨hi, rfl⟩ := List.getElem?_eq_some_iff.mp ha
    have hprev := ih (List.getElem?_eq_getElem (Nat.lt_of_succ_lt hi))
    rw [(List.isChain_iff_getElem.mp hchain i hi).1, hprev]

theorem Links.IsChain.exists_position_iff {L : Links α D} (h : L.IsChain items)
    {n : Nat} : (∃ a ∈ items, L.position a = n) ↔ 1 ≤ n ∧ n ≤ items.length := by
  constructor
  · rintro ⟨a, ha, rfl⟩
    obtain ⟨i, hi⟩ := List.getElem?_of_mem ha
    have hlt := (List.getElem?_eq_some_iff.mp hi).1
    rw [h.position_getElem? hi]
    exact ⟨Nat.succ_pos i, hlt⟩
  · rintro ⟨hpos, hle⟩
    have hlt : n - 1 < items.length := Nat.lt_of_lt_of_le (Nat.sub_lt hpos Nat.one_pos) hle
    refine ⟨items[n - 1], List.getElem_mem hlt, ?_⟩
    rw [h.position_getElem? (List.getElem?_eq_getElem hlt), Nat.sub_add_cancel hpos]

theorem Links.IsChain.eq_of_position {L : Links α D} (h : L.IsChain items)
    {a b : α} (ha : a ∈ items) (hb : b ∈ items) (hpos : L.position a = L.position b) : a = b := by
  obtain ⟨i, hi⟩ := List.getElem?_of_mem ha
  obtain ⟨j, hj⟩ := List.getElem?_of_mem hb
  rw [h.position_getElem? hi, h.position_getElem? hj] at hpos
  obtain rfl : i = j := Nat.succ.inj hpos
  exact Option.some.inj (hi.symm.trans hj)

theorem Links.IsChain.follows {L : Links α D} (h : L.IsChain items) {a b : α}
    (ha : a ∈ items) (hb : b ∈ items) (hpos : L.position b = L.position a + 1) :
    L.Follows a b := by
  obtain ⟨i, hi⟩ := List.getElem?_of_mem ha
  obtain ⟨j, hj⟩ := List.getElem?_of_mem hb
  rw [h.position_getElem? hi, h.position_getElem? hj] at hpos
  obtain rfl : j = i + 1 := Nat.succ.inj hpos
  obtain ⟨hlt, rfl⟩ := List.getElem?_eq_some_iff.mp hi
  obtain ⟨hlt', rfl⟩ := List.getElem?_eq_some_iff.mp hj
  exact List.isChain_iff_getElem.mp h.1 i hlt'

/-! ## The head of a chain -/

/-- A chain read from its newest item. -/
private def Links.Linked (L : Links α D) : List α → Prop
  | [] => True
  | [a] => L.position a = 1
  | a :: b :: items => L.Follows b a ∧ L.Linked (b :: items)

private theorem Links.linked_append_singleton {L : Links α D} {b : α}
    (hlast : ∀ a ∈ items.getLast?, L.Follows b a) (h : L.position b = 1)
    (hitems : items.IsChain (flip L.Follows)) : L.Linked (items ++ [b]) := by
  induction items with
  | nil => exact h
  | cons a items ih =>
    cases items with
    | nil => exact ⟨hlast a (by simp), h⟩
    | cons c items =>
      rw [List.isChain_cons_cons] at hitems
      exact ⟨hitems.1, ih (fun x hx => hlast x (by simpa using hx)) hitems.2⟩

private theorem Links.IsChain.linked_reverse {L : Links α D}
    (h : L.IsChain items) : L.Linked items.reverse := by
  obtain ⟨hchain, hfirst⟩ := h
  cases items with
  | nil => trivial
  | cons b items =>
    have hb := hfirst b rfl
    rw [List.reverse_cons]
    cases items with
    | nil => exact hb
    | cons a items =>
      rw [List.isChain_cons_cons] at hchain
      refine Links.linked_append_singleton ?_ hb ?_
      · intro x hx
        obtain rfl : a = x := by simpa using hx
        exact hchain.1
      · exact List.isChain_reverse.mpr hchain.2

private theorem Links.Linked.position_eq {L : Links α D} {a : α}
    (h : L.Linked (a :: items)) : L.position a = items.length + 1 := by
  induction items generalizing a with
  | nil => exact h
  | cons b items ih =>
    rw [h.1.1, ih h.2, List.length_cons]

section Binding

variable {L : Links α D} {R : α → α → Prop}

private theorem Links.Linked.forall₂ {xs ys : List α} (hx : L.Linked xs) (hy : L.Linked ys)
    (hbind : ∀ a ∈ xs, ∀ b ∈ ys, L.digest a = L.digest b → R a b)
    (hpred : ∀ a b, R a b → L.pred a = L.pred b)
    (hpos : ∀ a b, R a b → L.position a = L.position b)
    (hhead : xs.head?.map L.digest = ys.head?.map L.digest) : List.Forall₂ R xs ys := by
  induction xs generalizing ys with
  | nil =>
    cases ys with
    | nil => exact .nil
    | cons b ys => simp at hhead
  | cons a xs ih =>
    cases ys with
    | nil => simp at hhead
    | cons b ys =>
      have hab : R a b := hbind a (by simp) b (by simp) (by simpa using hhead)
      refine .cons hab ?_
      -- The positions agree, so the two tails are empty together.
      have hlen : xs.length = ys.length := by
        have := hpos a b hab
        rw [hx.position_eq, hy.position_eq] at this
        omega
      cases xs with
      | nil =>
        obtain rfl : ys = [] := List.eq_nil_of_length_eq_zero (by simpa using hlen.symm)
        exact .nil
      | cons a' xs =>
        cases ys with
        | nil => simp at hlen
        | cons b' ys =>
          refine ih hx.2 hy.2 (fun c hc d hd => hbind c (by simp [hc]) d (by simp [hd])) ?_
          have hnext : L.digest a' = L.digest b' := by
            rw [← hx.1.2, ← hy.1.2, hpred a b hab]
          simp [hnext]

/-- The last digest of a chain determines every item up to `R`, when a digest
    binds items up to `R` and `R` covers the link and the position. -/
theorem Links.IsChain.forall₂_of_getLast {xs ys : List α} (hx : L.IsChain xs)
    (hy : L.IsChain ys) (hbind : ∀ a ∈ xs, ∀ b ∈ ys, L.digest a = L.digest b → R a b)
    (hpred : ∀ a b, R a b → L.pred a = L.pred b)
    (hpos : ∀ a b, R a b → L.position a = L.position b)
    (hlast : xs.getLast?.map L.digest = ys.getLast?.map L.digest) : List.Forall₂ R xs ys := by
  have h := Links.Linked.forall₂ hx.linked_reverse hy.linked_reverse
    (fun a ha b hb => hbind a (by simpa using ha) b (by simpa using hb)) hpred hpos
    (by simpa using hlast)
  simpa using List.rel_reverse h

end Binding

end HashChain
