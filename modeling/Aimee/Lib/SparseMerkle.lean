-- SUMMARY: Full binary hash trees as functions of their leaves: roots, sibling paths, completeness and binding of a path.
import Mathlib.Data.List.Forall2

/-!
# Full binary hash trees

A tree of depth `n` is a function from the bit strings of length `n` to digests. Its root
is the fold of a two-argument node function over all of them. A path proof for one position
is the list of sibling digests on the way to it, root first.

Completeness needs nothing about the node function. Binding needs that, level by level, the
pair of digests that is hashed on the way of the position through the tree does not collide
with the one that is hashed while the path is folded: no node function into digests is
injective, so the hypothesis is about those pairs alone.
-/

namespace SparseMerkle

variable {D : Type*} (node : D → D → D)

/-- The root of the tree of depth `n` with the given leaves. -/
def root : Nat → (List Bool → D) → D
  | 0, leafAt => leafAt []
  | n + 1, leafAt =>
    node (root n fun bits => leafAt (false :: bits)) (root n fun bits => leafAt (true :: bits))

/-- The two children of a node, given one of them, the side it is on, and the other. -/
def children (bit : Bool) (child sibling : D) : D × D :=
  if bit then (sibling, child) else (child, sibling)

/-- Fold the siblings of a position into the digest at it. -/
def climb : List Bool → List D → D → D
  | bit :: bits, sibling :: path, digest =>
    let pair := children bit (climb bits path digest) sibling
    node pair.1 pair.2
  | _, _, digest => digest

/-- The siblings on the way to a position. -/
def siblings : List Bool → (List Bool → D) → List D
  | [], _ => []
  | bit :: bits, leafAt =>
    root node bits.length (fun r => leafAt ((!bit) :: r)) ::
      siblings bits fun r => leafAt (bit :: r)

theorem length_siblings (bits : List Bool) (leafAt : List Bool → D) :
    (siblings node bits leafAt).length = bits.length := by
  induction bits generalizing leafAt with
  | nil => rfl
  | cons bit bits ih => rw [siblings, List.length_cons, ih, List.length_cons]

theorem root_succ_eq_children (bit : Bool) (n : Nat) (leafAt : List Bool → D) :
    root node (n + 1) leafAt =
      let pair := children bit (root node n fun r => leafAt (bit :: r))
        (root node n fun r => leafAt ((!bit) :: r))
      node pair.1 pair.2 := by
  cases bit <;> rfl

/-- The siblings of a position prove the digest at it. -/
theorem climb_siblings (bits : List Bool) (leafAt : List Bool → D) :
    climb node bits (siblings node bits leafAt) (leafAt bits) = root node bits.length leafAt := by
  induction bits generalizing leafAt with
  | nil => rfl
  | cons bit bits ih =>
    rw [siblings, climb, ih fun r => leafAt (bit :: r), List.length_cons,
      root_succ_eq_children node bit]

/-! ## Binding -/

/-- The pairs that are hashed on the way of a position through the tree. -/
def treePairs : List Bool → (List Bool → D) → List (D × D)
  | [], _ => []
  | bit :: bits, leafAt =>
    (root node bits.length (fun r => leafAt (false :: r)),
      root node bits.length (fun r => leafAt (true :: r))) ::
      treePairs bits fun r => leafAt (bit :: r)

/-- The pairs that are hashed while a path is folded. -/
def climbPairs : List Bool → List D → D → List (D × D)
  | bit :: bits, sibling :: path, digest =>
    children bit (climb node bits path digest) sibling :: climbPairs bits path digest
  | _, _, _ => []

/-- No pair of the path collides with the pair of the tree at its level. -/
def PathCollisionFree (bits : List Bool) (leafAt : List Bool → D) (path : List D) (digest : D) :
    Prop :=
  List.Forall₂ (fun p q => node p.1 p.2 = node q.1 q.2 → p = q) (treePairs node bits leafAt)
    (climbPairs node bits path digest)

theorem climbPairs_siblings (bits : List Bool) (leafAt : List Bool → D) :
    climbPairs node bits (siblings node bits leafAt) (leafAt bits) = treePairs node bits leafAt := by
  induction bits generalizing leafAt with
  | nil => rfl
  | cons bit bits ih =>
    have hclimb := climb_siblings node bits fun r => leafAt (bit :: r)
    rw [siblings, climbPairs, hclimb, ih fun r => leafAt (bit :: r)]
    cases bit <;> rfl

theorem pathCollisionFree_siblings (bits : List Bool) (leafAt : List Bool → D) :
    PathCollisionFree node bits leafAt (siblings node bits leafAt) (leafAt bits) := by
  unfold PathCollisionFree
  rw [climbPairs_siblings]
  exact List.forall₂_same.mpr fun _ _ _ => rfl

variable {node}

theorem children_inj {bit : Bool} {a b s t : D} (h : children bit a s = children bit b t) : a = b := by
  cases bit with
  | false => exact congrArg Prod.fst h
  | true => exact congrArg Prod.snd h

/-- A path that folds to the root starts at the digest of its position. -/
theorem eq_of_climb_eq_root {bits : List Bool} {path : List D} {digest : D}
    {leafAt : List Bool → D} (hlen : path.length = bits.length)
    (hfree : PathCollisionFree node bits leafAt path digest)
    (h : climb node bits path digest = root node bits.length leafAt) : digest = leafAt bits := by
  induction bits generalizing path leafAt with
  | nil => exact h
  | cons bit bits ih =>
    cases path with
    | nil => cases hlen
    | cons sibling path =>
      obtain ⟨hinj, hrest⟩ := List.forall₂_cons.mp hfree
      have hpair := hinj h.symm
      have hside : children bit (root node bits.length fun r => leafAt (bit :: r))
          (root node bits.length fun r => leafAt ((!bit) :: r)) =
          children bit (climb node bits path digest) sibling := by
        rw [← hpair]
        cases bit <;> rfl
      exact ih (by simpa using hlen) hrest (children_inj hside).symm

/-! ## Two trees -/

variable (node) in
/-- At no position do the pairs that two trees hash collide. -/
def TreesCollisionFree : Nat → (List Bool → D) → (List Bool → D) → Prop
  | 0, _, _ => True
  | n + 1, s, t =>
    (root node (n + 1) s = root node (n + 1) t →
      (root node n fun r => s (false :: r)) = (root node n fun r => t (false :: r)) ∧
        (root node n fun r => s (true :: r)) = (root node n fun r => t (true :: r))) ∧
      TreesCollisionFree n (fun r => s (false :: r)) (fun r => t (false :: r)) ∧
        TreesCollisionFree n (fun r => s (true :: r)) fun r => t (true :: r)

theorem treesCollisionFree_refl (n : Nat) (s : List Bool → D) : TreesCollisionFree node n s s := by
  induction n generalizing s with
  | zero => trivial
  | succ n ih => exact ⟨fun _ => ⟨rfl, rfl⟩, ih _, ih _⟩

theorem TreesCollisionFree.symm {n : Nat} {s t : List Bool → D} (h : TreesCollisionFree node n s t) :
    TreesCollisionFree node n t s := by
  induction n generalizing s t with
  | zero => trivial
  | succ n ih =>
    obtain ⟨hinj, hfalse, htrue⟩ := h
    exact ⟨fun heq => ⟨(hinj heq.symm).1.symm, (hinj heq.symm).2.symm⟩, ih hfalse, ih htrue⟩

theorem eq_of_root_eq {n : Nat} {s t : List Bool → D} (hfree : TreesCollisionFree node n s t)
    (h : root node n s = root node n t) {bits : List Bool} (hlen : bits.length = n) : s bits = t bits := by
  induction n generalizing s t bits with
  | zero =>
    obtain rfl := List.length_eq_zero_iff.mp hlen
    exact h
  | succ n ih =>
    obtain ⟨hinj, hfalse, htrue⟩ := hfree
    obtain ⟨hleft, hright⟩ := hinj h
    cases bits with
    | nil => cases hlen
    | cons bit bits =>
      have hlen' : bits.length = n := Nat.succ.inj hlen
      cases bit with
      | false => exact ih hfalse hleft hlen'
      | true => exact ih htrue hright hlen'

end SparseMerkle
