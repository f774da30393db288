-- SUMMARY: Sorting in an unspecified order of equal elements, collapsing runs of equal keys, and cutting a sorted list into groups.
import Mathlib.Data.List.Pairwise
import Mathlib.Data.List.Sort

/-!
# Sort, collapse, group

A usual way to compare unordered input: sort it by a key, keep one element of each run of
equal keys and count the others as duplicates or as conflicts, and then walk over groups of
neighbours. The sort is any function that `qsort` may be, so what survives of a run of equal
keys is not determined. What is determined is stated here: which keys survive, and whether
there was a conflict.
-/

/-- A sorting function of the C library: a sorted permutation, in an unspecified order of
    the elements that compare equal. -/
structure Qsort where
  sort : {α : Type} → (α → α → Ordering) → List α → List α
  perm : ∀ {α : Type} (cmp : α → α → Ordering) (l : List α), (sort cmp l).Perm l
  sorted : ∀ {α : Type} (cmp : α → α → Ordering) [Std.TransCmp cmp] (l : List α),
    (sort cmp l).Pairwise fun a b => (cmp a b).isLE

namespace Qsort

variable {α : Type}

/-- Sorting by insertion is one such function. -/
def insertion : Qsort where
  sort cmp l := l.insertionSort fun a b => (cmp a b).isLE
  perm cmp l := List.perm_insertionSort _ l
  sorted := by
    intro α cmp _ l
    have : Std.Total (fun a b => (cmp a b).isLE = true) := by
      refine ⟨fun a b => ?_⟩
      by_cases h : (cmp a b).isLE
      · exact .inl h
      · exact .inr (Ordering.isLE_of_eq_lt (Std.OrientedCmp.lt_of_not_isLE h))
    have : IsTrans α (fun a b => (cmp a b).isLE = true) :=
      ⟨fun a b c => Std.TransCmp.isLE_trans⟩
    exact List.pairwise_insertionSort _ l

theorem mem_sort {q : Qsort} {cmp : α → α → Ordering} {l : List α} {x : α} :
    x ∈ q.sort cmp l ↔ x ∈ l :=
  (q.perm cmp l).mem_iff

end Qsort

namespace SortCollapse

variable {α β : Type}

/-! ## Collapsing runs of equal keys -/

/-- What is left of a list, and what was dropped from it. -/
structure Collapsed (α : Type) where
  kept : List α
  duplicates : Nat
  conflicts : Nat

variable (sameKey same : α → α → Bool)

/-- Drop every element with the key of the last element that was kept. -/
def collapseFrom : α → List α → Collapsed α
  | last, [] => ⟨[last], 0, 0⟩
  | last, x :: rest =>
    if sameKey last x then
      let c := collapseFrom last rest
      if same last x then { c with duplicates := c.duplicates + 1 }
      else { c with conflicts := c.conflicts + 1 }
    else
      let c := collapseFrom x rest
      { c with kept := last :: c.kept }

def collapse : List α → Collapsed α
  | [] => ⟨[], 0, 0⟩
  | x :: rest => collapseFrom sameKey same x rest

variable {sameKey same}

variable {rest : List α} {last : α} {l : List α}

private theorem mem_collapseFrom_last :
    last ∈ (collapseFrom sameKey same last rest).kept := by
  induction rest with
  | nil => simp [collapseFrom]
  | cons x rest ih =>
    rw [collapseFrom]
    split
    · split
      · exact ih
      · exact ih
    · exact List.mem_cons_self

private theorem collapseFrom_sublist :
    (collapseFrom sameKey same last rest).kept.Sublist (last :: rest) := by
  induction rest generalizing last with
  | nil => exact List.Sublist.refl _
  | cons x rest ih =>
    rw [collapseFrom]
    have hdrop : (last :: rest).Sublist (last :: x :: rest) :=
      (List.sublist_cons_self x rest).cons_cons last
    split
    · split
      · exact ih.trans hdrop
      · exact ih.trans hdrop
    · exact ih.cons_cons last

theorem collapse_sublist : (collapse sameKey same l).kept.Sublist l := by
  cases l with
  | nil => exact List.Sublist.refl _
  | cons x rest => exact collapseFrom_sublist

private theorem collapseFrom_kept {last x : α}
    (hrefl : ∀ a ∈ last :: rest, sameKey a a ∧ same a a) (hx : x ∈ last :: rest) :
    ∃ r ∈ (collapseFrom sameKey same last rest).kept,
      sameKey r x ∧ ((collapseFrom sameKey same last rest).conflicts = 0 → same r x) := by
  induction rest generalizing last with
  | nil =>
    obtain rfl := List.mem_singleton.mp hx
    exact ⟨x, by simp [collapseFrom], (hrefl x hx).1, fun _ => (hrefl x hx).2⟩
  | cons y rest ih =>
    rw [collapseFrom]
    have hrest : ∀ a ∈ last :: rest, sameKey a a ∧ same a a := fun a ha =>
      hrefl a (((List.sublist_cons_self y rest).cons_cons last).subset ha)
    have hlast := hrefl last List.mem_cons_self
    split
    · rename_i hkey
      -- `y` is dropped, and `last` stands for it.
      by_cases hy : x = y ∧ x ∉ last :: rest
      · obtain ⟨rfl, -⟩ := hy
        split
        · rename_i hsame
          exact ⟨last, mem_collapseFrom_last, hkey, fun _ => hsame⟩
        · exact ⟨last, mem_collapseFrom_last, hkey, fun h => absurd h (Nat.succ_ne_zero _)⟩
      · have hx' : x ∈ last :: rest := by
          by_contra hnot
          refine hy ⟨?_, hnot⟩
          simp only [List.mem_cons, not_or] at hx hnot
          tauto
        obtain ⟨r, hr, hrkey, hrsame⟩ := ih hrest hx'
        split
        · exact ⟨r, hr, hrkey, hrsame⟩
        · exact ⟨r, hr, hrkey, fun h => absurd h (Nat.succ_ne_zero _)⟩
    · rcases List.mem_cons.mp hx with rfl | hx
      · exact ⟨x, List.mem_cons_self, hlast.1, fun _ => hlast.2⟩
      · obtain ⟨r, hr, hrkey, hrsame⟩ := ih (fun a ha => hrefl a (List.mem_cons_of_mem _ ha)) hx
        exact ⟨r, List.mem_cons_of_mem _ hr, hrkey, hrsame⟩

/-- Every element has one of its key among those kept, and where nothing was in conflict it
    is the same as that one. -/
theorem collapse_kept {x : α} (hrefl : ∀ a ∈ l, sameKey a a ∧ same a a)
    (hx : x ∈ l) :
    ∃ r ∈ (collapse sameKey same l).kept,
      sameKey r x ∧ ((collapse sameKey same l).conflicts = 0 → same r x) := by
  cases l with
  | nil => cases hx
  | cons y rest => exact collapseFrom_kept hrefl hx

private theorem collapseFrom_conflicts (h : ∀ a ∈ last :: rest, ∀ b ∈ last :: rest, sameKey a b → same a b) :
    (collapseFrom sameKey same last rest).conflicts = 0 := by
  induction rest generalizing last with
  | nil => rfl
  | cons x rest ih =>
    have hsub : (last :: rest).Sublist (last :: x :: rest) :=
      (List.sublist_cons_self x rest).cons_cons last
    rw [collapseFrom]
    split
    · rename_i hkey
      rw [if_pos (h last (by simp) x (by simp) hkey)]
      exact ih fun a ha b hb => h a (hsub.subset ha) b (hsub.subset hb)
    · exact ih fun a ha b hb => h a (List.mem_cons_of_mem _ ha) b (List.mem_cons_of_mem _ hb)

theorem collapse_conflicts_eq_zero (h : ∀ a ∈ l, ∀ b ∈ l, sameKey a b → same a b) :
    (collapse sameKey same l).conflicts = 0 := by
  cases l with
  | nil => rfl
  | cons x rest => exact collapseFrom_conflicts h

section Sorted

variable {cmp : α → α → Ordering} [Std.TransCmp cmp]

private theorem collapseFrom_sorted (hkey : ∀ a b, sameKey a b ↔ cmp a b = .eq) {last : α}
    {rest : List α} (hsorted : (last :: rest).Pairwise fun a b => (cmp a b).isLE) :
    (collapseFrom sameKey same last rest).kept.Pairwise fun a b => cmp a b = .lt := by
  induction rest generalizing last with
  | nil => exact List.pairwise_singleton _ _
  | cons x rest ih =>
    have hdrop := hsorted.sublist ((List.sublist_cons_self x rest).cons_cons last)
    obtain ⟨hlast, hrest⟩ := List.pairwise_cons.mp hsorted
    rw [collapseFrom]
    split
    · split
      · exact ih hdrop
      · exact ih hdrop
    · rename_i hne
      have hlt : cmp last x = .lt := by
        have hle := hlast x List.mem_cons_self
        have hneq : cmp last x ≠ .eq := fun heq => hne ((hkey _ _).mpr heq)
        cases h : cmp last x with
        | lt => rfl
        | eq => exact absurd h hneq
        | gt => rw [h] at hle; cases hle
      refine List.pairwise_cons.mpr ⟨?_, ih hrest⟩
      intro r hr
      rcases List.mem_cons.mp (collapseFrom_sublist.subset hr) with rfl | hr
      · exact hlt
      · exact Std.TransCmp.lt_of_lt_of_isLE hlt ((List.pairwise_cons.mp hrest).1 r hr)

theorem collapse_sorted (hkey : ∀ a b, sameKey a b ↔ cmp a b = .eq) {l : List α}
    (hsorted : l.Pairwise fun a b => (cmp a b).isLE) :
    (collapse sameKey same l).kept.Pairwise fun a b => cmp a b = .lt := by
  cases l with
  | nil => exact List.Pairwise.nil
  | cons x rest => exact collapseFrom_sorted hkey hsorted

/-- Two elements of a strictly sorted list with one key are one element. -/
theorem eq_of_strictlySorted {l : List α} (h : l.Pairwise fun a b => cmp a b = .lt) {a b : α}
    (ha : a ∈ l) (hb : b ∈ l) (heq : cmp a b = .eq) : a = b := by
  have : Std.Symm fun a b => cmp a b ≠ .eq := ⟨fun a b hab hba => hab (Std.OrientedCmp.eq_symm hba)⟩
  have hne : l.Pairwise fun a b => cmp a b ≠ .eq := h.imp fun hlt heq => by
    rw [hlt] at heq
    cases heq
  by_contra hab
  exact hne.forall ha hb hab heq

/-- Two strictly sorted lists with the same keys match element by element. -/
theorem forall₂_of_strictlySorted {R : α → α → Prop} {xs ys : List α}
    (hxs : xs.Pairwise fun a b => cmp a b = .lt) (hys : ys.Pairwise fun a b => cmp a b = .lt)
    (hxy : ∀ x ∈ xs, ∃ y ∈ ys, cmp x y = .eq) (hyx : ∀ y ∈ ys, ∃ x ∈ xs, cmp x y = .eq)
    (hR : ∀ x ∈ xs, ∀ y ∈ ys, cmp x y = .eq → R x y) : List.Forall₂ R xs ys := by
  induction xs generalizing ys with
  | nil =>
    cases ys with
    | nil => exact .nil
    | cons y ys =>
      obtain ⟨x, hx, -⟩ := hyx y List.mem_cons_self
      cases hx
  | cons x xs ih =>
    cases ys with
    | nil =>
      obtain ⟨y, hy, -⟩ := hxy x List.mem_cons_self
      cases hy
    | cons y ys =>
      obtain ⟨hx, hxs⟩ := List.pairwise_cons.mp hxs
      obtain ⟨hy, hys⟩ := List.pairwise_cons.mp hys
      -- The least keys are equal: each has an equal one in the other list.
      have hhead : cmp x y = .eq := by
        obtain ⟨y', hy', hxy'⟩ := hxy x List.mem_cons_self
        obtain ⟨x', hx', hx'y⟩ := hyx y List.mem_cons_self
        rcases List.mem_cons.mp hy' with rfl | hy'
        · exact hxy'
        rcases List.mem_cons.mp hx' with rfl | hx'
        · exact hx'y
        have hlt : cmp x y = .lt := Std.TransCmp.lt_of_lt_of_eq (hx x' hx') hx'y
        have hlt' : cmp x y' = .lt := Std.TransCmp.lt_trans hlt (hy y' hy')
        rw [hlt'] at hxy'
        cases hxy'
      refine .cons (hR x List.mem_cons_self y List.mem_cons_self hhead) ?_
      refine ih hxs hys ?_ ?_ ?_
      · intro x' hx'
        obtain ⟨y', hy', heq⟩ := hxy x' (List.mem_cons_of_mem _ hx')
        rcases List.mem_cons.mp hy' with rfl | hy'
        · have hlt := Std.TransCmp.lt_of_lt_of_eq (hx x' hx') heq
          rw [hhead] at hlt
          cases hlt
        · exact ⟨y', hy', heq⟩
      · intro y' hy'
        obtain ⟨x', hx', heq⟩ := hyx y' (List.mem_cons_of_mem _ hy')
        rcases List.mem_cons.mp hx' with rfl | hx'
        · have hlt := Std.TransCmp.lt_of_eq_of_lt hhead (hy y' hy')
          rw [heq] at hlt
          cases hlt
        · exact ⟨x', hx', heq⟩
      · intro x' hx' y' hy' heq
        exact hR x' (List.mem_cons_of_mem _ hx') y' (List.mem_cons_of_mem _ hy') heq

end Sorted

/-! ## Sorting and collapsing -/

variable (sameKey same) in
/-- Sort by a comparison and collapse the runs of equal keys. -/
def sortCollapse (q : Qsort) (cmp : α → α → Ordering) (l : List α) : Collapsed α :=
  collapse sameKey same (q.sort cmp l)

section SortCollapse

variable {q : Qsort} {cmp : α → α → Ordering} {digest : α → β}

theorem mem_of_mem_sortCollapse {l : List α} {x : α}
    (hx : x ∈ (sortCollapse sameKey same q cmp l).kept) : x ∈ l :=
  Qsort.mem_sort.mp (collapse_sublist.subset hx)

variable [Std.TransCmp cmp]

section

variable (hkey : ∀ a b, sameKey a b ↔ cmp a b = .eq)
include hkey

theorem sortCollapse_sorted (l : List α) :
    (sortCollapse sameKey same q cmp l).kept.Pairwise fun a b => cmp a b = .lt :=
  collapse_sorted hkey (q.sorted cmp l)

/-- Every element has one of its key among those kept, with its digest where nothing was in
    conflict. -/
theorem exists_mem_sortCollapse {l : List α}
    (hsame : ∀ a ∈ l, ∀ b ∈ l, same a b ↔ digest a = digest b) {x : α} (hx : x ∈ l) :
    ∃ r ∈ (sortCollapse sameKey same q cmp l).kept, cmp r x = .eq ∧
      ((sortCollapse sameKey same q cmp l).conflicts = 0 → digest r = digest x) := by
  have hrefl : ∀ a ∈ q.sort cmp l, sameKey a a ∧ same a a := fun a ha =>
    ⟨(hkey a a).mpr Std.ReflCmp.compare_self,
      (hsame a (Qsort.mem_sort.mp ha) a (Qsort.mem_sort.mp ha)).mpr rfl⟩
  obtain ⟨r, hr, hrkey, hrsame⟩ := collapse_kept hrefl (Qsort.mem_sort.mpr hx)
  exact ⟨r, hr, (hkey r x).mp hrkey, fun h =>
    (hsame r (mem_of_mem_sortCollapse hr) x hx).mp (hrsame h)⟩

/-- There is no conflict exactly where the key determines the digest. -/
theorem sortCollapse_conflicts_eq_zero_iff
    {l : List α} (hsame : ∀ a ∈ l, ∀ b ∈ l, same a b ↔ digest a = digest b) :
    (sortCollapse sameKey same q cmp l).conflicts = 0 ↔
      ∀ a ∈ l, ∀ b ∈ l, cmp a b = .eq → digest a = digest b := by
  constructor
  · intro hzero a ha b hb hab
    obtain ⟨r, hr, hra, hdigest⟩ := exists_mem_sortCollapse (q := q) hkey hsame ha
    obtain ⟨r', hr', hrb, hdigest'⟩ := exists_mem_sortCollapse (q := q) hkey hsame hb
    have heq : cmp r r' = .eq :=
      Std.TransCmp.eq_trans (Std.TransCmp.eq_trans hra hab) (Std.OrientedCmp.eq_symm hrb)
    obtain rfl := eq_of_strictlySorted (sortCollapse_sorted hkey l) hr hr' heq
    exact (hdigest hzero).symm.trans (hdigest' hzero)
  · intro h
    refine collapse_conflicts_eq_zero fun a ha b hb hab => ?_
    rw [Qsort.mem_sort] at ha hb
    exact (hsame a ha b hb).mpr (h a ha b hb ((hkey a b).mp hab))

/-- Two lists with the same elements keep the same keys, whatever the order of the lists and
    of the two sorts. -/
theorem sortCollapse_forall₂ {l l' : List α}
    (hsame : ∀ a ∈ l, ∀ b ∈ l, same a b ↔ digest a = digest b) (hmem : ∀ x, x ∈ l ↔ x ∈ l')
    {q' : Qsort} {R : α → α → Prop} (hR : ∀ a ∈ l, ∀ b ∈ l, cmp a b = .eq → R a b) :
    List.Forall₂ R (sortCollapse sameKey same q cmp l).kept
      (sortCollapse sameKey same q' cmp l').kept := by
  have hsame' : ∀ a ∈ l', ∀ b ∈ l', same a b ↔ digest a = digest b := fun a ha b hb =>
    hsame a ((hmem a).mpr ha) b ((hmem b).mpr hb)
  refine forall₂_of_strictlySorted (sortCollapse_sorted hkey l) (sortCollapse_sorted hkey l') ?_ ?_ ?_
  · intro x hx
    have hx' := (hmem x).mp (mem_of_mem_sortCollapse hx)
    obtain ⟨r, hr, hrx, -⟩ := exists_mem_sortCollapse (q := q') hkey hsame' hx'
    exact ⟨r, hr, Std.OrientedCmp.eq_symm hrx⟩
  · intro y hy
    have hy' := (hmem y).mpr (mem_of_mem_sortCollapse hy)
    obtain ⟨r, hr, hry, -⟩ := exists_mem_sortCollapse (q := q) hkey hsame hy'
    exact ⟨r, hr, hry⟩
  · intro x hx y hy hxy
    exact hR x (mem_of_mem_sortCollapse hx) y ((hmem y).mpr (mem_of_mem_sortCollapse hy)) hxy

end

end SortCollapse

/-! ## Groups of neighbours -/

variable (same) in
/-- The group that starts with `first` has the elements `group` so far. -/
def groupsFrom : α → List α → List α → List (List α)
  | _, group, [] => [group]
  | first, group, x :: rest =>
    if same x first then groupsFrom first (group ++ [x]) rest
    else group :: groupsFrom x [x] rest

variable (same) in
/-- Cut a list where an element is not the same as the first of its group. -/
def groups : List α → List (List α)
  | [] => []
  | x :: rest => groupsFrom same x [x] rest

section Groups

variable {cmp : α → α → Ordering} [DecidableEq β] {key : α → β}

private theorem filter_key_self {x : α} {rest : List α} :
    (x :: rest).filter (key · = key x) = [x] ++ rest.filter (key · = key x) :=
  List.filter_cons_of_pos (by simp)

private theorem filter_key_ne {x y : α} {rest : List α} (h : key y ≠ key x) :
    (x :: rest).filter (key · = key y) = rest.filter (key · = key y) :=
  List.filter_cons_of_neg (by simpa using h.symm)

private theorem mem_groupsFrom (hsame : ∀ a b, same a b ↔ key a = key b)
    (hbetween : ∀ a b c, (cmp a b).isLE → (cmp b c).isLE → key a = key c → key b = key a)
    {first : α} {group rest : List α} (hsorted : (first :: rest).Pairwise fun a b => (cmp a b).isLE)
    {g : List α} :
    g ∈ groupsFrom same first group rest ↔
      g = group ++ rest.filter (key · = key first) ∨
        ∃ x ∈ rest, key x ≠ key first ∧ g = rest.filter (key · = key x) := by
  induction rest generalizing first group with
  | nil => simp [groupsFrom]
  | cons x rest ih =>
    have hdrop := hsorted.sublist ((List.sublist_cons_self x rest).cons_cons first)
    obtain ⟨hfirst, hrest⟩ := List.pairwise_cons.mp hsorted
    rw [groupsFrom]
    split
    · rename_i hx
      rw [hsame] at hx
      have hcut : ∀ y, key y ≠ key first → (x :: rest).filter (key · = key y) =
          rest.filter (key · = key y) := fun y hy => filter_key_ne (hx ▸ hy)
      rw [ih hdrop, List.filter_cons_of_pos (by simpa using hx), List.append_assoc]
      refine or_congr Iff.rfl ⟨?_, ?_⟩
      · rintro ⟨y, hy, hne, rfl⟩
        exact ⟨y, List.mem_cons_of_mem _ hy, hne, (hcut y hne).symm⟩
      · rintro ⟨y, hy, hne, rfl⟩
        rcases List.mem_cons.mp hy with rfl | hy
        · exact absurd hx hne
        · exact ⟨y, hy, hne, hcut y hne⟩
    · rename_i hx
      rw [hsame] at hx
      -- An element of the first group behind `x` would put `x` into that group.
      have hnone : ∀ y ∈ x :: rest, key y ≠ key first := by
        intro y hy heq
        rcases List.mem_cons.mp hy with rfl | hy
        · exact hx heq
        · exact hx (hbetween first x y (hfirst x List.mem_cons_self)
            ((List.pairwise_cons.mp hrest).1 y hy) heq.symm)
      have hempty : (x :: rest).filter (key · = key first) = [] :=
        List.filter_eq_nil_iff.mpr fun y hy => by simpa using hnone y hy
      rw [List.mem_cons, ih hrest, hempty, List.append_nil]
      refine or_congr Iff.rfl ⟨?_, ?_⟩
      · rintro (rfl | ⟨y, hy, hne, rfl⟩)
        · exact ⟨x, List.mem_cons_self, hx, filter_key_self.symm⟩
        · have hy' := List.mem_cons_of_mem x hy
          exact ⟨y, hy', hnone y hy', (filter_key_ne hne).symm⟩
      · rintro ⟨y, hy, -, rfl⟩
        by_cases hyx : key y = key x
        · rw [hyx]
          exact .inl filter_key_self
        · rcases List.mem_cons.mp hy with rfl | hy
          · exact absurd rfl hyx
          · exact .inr ⟨y, hy, hyx, filter_key_ne hyx⟩

/-- Where the order keeps equal keys together, the groups are the classes of the keys. -/
theorem mem_groups (hsame : ∀ a b, same a b ↔ key a = key b)
    (hbetween : ∀ a b c, (cmp a b).isLE → (cmp b c).isLE → key a = key c → key b = key a)
    {l : List α} (hsorted : l.Pairwise fun a b => (cmp a b).isLE) {g : List α} :
    g ∈ groups same l ↔ ∃ x ∈ l, g = l.filter (key · = key x) := by
  cases l with
  | nil => simp [groups]
  | cons x rest =>
    rw [groups, mem_groupsFrom hsame hbetween hsorted]
    constructor
    · rintro (rfl | ⟨y, hy, hne, rfl⟩)
      · exact ⟨x, List.mem_cons_self, filter_key_self.symm⟩
      · exact ⟨y, List.mem_cons_of_mem _ hy, (filter_key_ne hne).symm⟩
    · rintro ⟨y, hy, rfl⟩
      by_cases hyx : key y = key x
      · rw [hyx]
        exact .inl filter_key_self
      · rcases List.mem_cons.mp hy with rfl | hy
        · exact absurd rfl hyx
        · exact .inr ⟨y, hy, hyx, filter_key_ne hyx⟩

end Groups

end SortCollapse
