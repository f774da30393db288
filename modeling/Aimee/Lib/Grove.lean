-- SUMMARY: Ordered trees addressed by index paths: erasing paths one after the other, in descending order, erases what they addressed at first.
import Mathlib.Data.List.Basic

/-!
# Groves

A grove is a list of labelled trees. A path addresses a tree by the indices on the way to it. An
erased tree shifts the ones behind it, so paths that are to keep their meaning come in descending order.
-/

/-- A list of trees: the label of the first, the trees below it, and the trees behind it. -/
inductive Grove (α : Type*) where
  | nil
  | cons (label : α) (below rest : Grove α)
  deriving DecidableEq

namespace Grove

variable {α : Type*}

def length : Grove α → ℕ
  | nil => 0
  | cons _ _ rest => rest.length + 1

def get? : Grove α → ℕ → Option (α × Grove α)
  | nil, _ => none
  | cons a below _, 0 => some (a, below)
  | cons _ _ rest, i + 1 => rest.get? i

/-- Take out the tree at index `i`, or the one at the path `p` below it. -/
def erase : Grove α → ℕ → List ℕ → Option ((α × Grove α) × Grove α)
  | nil, _, _ => none
  | cons a below rest, 0, [] => some ((a, below), rest)
  | cons a below rest, 0, j :: p => (below.erase j p).map fun x => (x.1, cons a x.2 rest)
  | cons a below rest, i + 1, p => (rest.erase i p).map fun x => (x.1, cons a below x.2)

/-- The path is before the other, and neither leads through the other. -/
def Before : List ℕ → List ℕ → Prop
  | i :: p, j :: q => i < j ∨ i = j ∧ Before p q
  | _, _ => False

/-- The paths that lead below the first tree. -/
def pathsBelow (paths : List (List ℕ)) : List (List ℕ) :=
  paths.filterMap fun
    | 0 :: p => some p
    | _ => none

/-- The paths that lead behind the first tree. -/
def pathsBehind (paths : List (List ℕ)) : List (List ℕ) :=
  paths.filterMap fun
    | (i + 1) :: p => some (i :: p)
    | _ => none

/-- The grove less the trees that the paths address. -/
def without (paths : List (List ℕ)) : Grove α → Grove α
  | nil => nil
  | cons a below rest =>
    if [0] ∈ paths then without (pathsBehind paths) rest
    else cons a (without (pathsBelow paths) below) (without (pathsBehind paths) rest)

variable {g g' : Grove α} {t : α × Grove α} {paths : List (List ℕ)} {i j k : ℕ} {p q r : List ℕ}

theorem Before.trans : ∀ {p q r : List ℕ}, Before p q → Before q r → Before p r
  | [], _, _, h, _ => h.elim
  | _ :: _, [], _, h, _ => h.elim
  | _ :: _, _ :: _, [], _, h => h.elim
  | i :: p, j :: q, k :: r, hpq, hqr => by
    rcases hpq with hij | ⟨rfl, hpq⟩
    · rcases hqr with hjk | ⟨rfl, -⟩
      · exact .inl (Nat.lt_trans hij hjk)
      · exact .inl hij
    · rcases hqr with hjk | ⟨rfl, hqr⟩
      · exact .inl hjk
      · exact .inr ⟨rfl, hpq.trans hqr⟩

theorem without_nil (g : Grove α) : without [] g = g := by
  induction g with
  | nil => rfl
  | cons a below rest ihBelow ihRest =>
    exact congrArg₂ (cons a) ihBelow ihRest

theorem mem_pathsBelow : p ∈ pathsBelow paths ↔ 0 :: p ∈ paths := by
  rw [pathsBelow, List.mem_filterMap]
  constructor
  · rintro ⟨q, hq, h⟩
    split at h
    · rwa [← Option.some.inj h]
    · cases h
  · exact fun h => ⟨_, h, rfl⟩

theorem mem_pathsBehind : p ∈ pathsBehind paths ↔ ∃ i q, p = i :: q ∧ (i + 1) :: q ∈ paths := by
  rw [pathsBehind, List.mem_filterMap]
  constructor
  · rintro ⟨q, hq, h⟩
    split at h
    · exact ⟨_, _, (Option.some.inj h).symm, hq⟩
    · cases h
  · rintro ⟨i, q, rfl, h⟩
    exact ⟨_, h, rfl⟩

/-- Paths before one through the first tree lead below that tree. -/
theorem pathsBehind_of_before (h : ∀ q ∈ paths, Before q (0 :: p)) : pathsBehind paths = [] := by
  refine List.eq_nil_iff_forall_not_mem.mpr fun q hq => ?_
  obtain ⟨i, q, rfl, hmem⟩ := mem_pathsBehind.mp hq
  rcases h _ hmem with hlt | ⟨heq, -⟩
  · exact Nat.not_lt_zero _ hlt
  · cases heq

/-- Erasing the last of the paths leaves the others their trees. -/
theorem without_cons (h : g.erase i p = some (t, g')) (hbefore : ∀ q ∈ paths, Before q (i :: p)) :
    without ((i :: p) :: paths) g = without paths g' := by
  induction g generalizing i p paths g' with
  | nil => cases h
  | cons a below rest ihBelow ihRest =>
    cases i with
    | zero =>
      cases p with
      | nil =>
        -- no path is before the first tree
        have hnone : paths = [] := List.eq_nil_iff_forall_not_mem.mpr fun q hq => by
          match q, hbefore q hq with
          | _ :: _, .inl hlt => exact Nat.not_lt_zero _ hlt
          | _ :: _ :: _, .inr ⟨_, hnil⟩ => exact hnil
        obtain ⟨-, rfl⟩ := Prod.mk.inj (Option.some.inj h)
        subst hnone
        rfl
      | cons j p =>
        obtain ⟨⟨t', below'⟩, hbelow, hx⟩ := Option.map_eq_some_iff.mp h
        obtain ⟨rfl, rfl⟩ := Prod.mk.inj hx
        have hzero : [0] ∉ paths := fun hmem => by
          rcases hbefore _ hmem with hlt | ⟨-, hnil⟩
          · exact Nat.not_lt_zero _ hlt
          · exact hnil
        have hbehind := pathsBehind_of_before hbefore
        have hbehind' : pathsBehind ((0 :: j :: p) :: paths) = [] := hbehind
        have hbefore' : ∀ q ∈ pathsBelow paths, Before q (j :: p) := fun q hq => by
          rcases hbefore _ (mem_pathsBelow.mp hq) with hlt | ⟨-, hq⟩
          · exact absurd hlt (Nat.not_lt_zero _)
          · exact hq
        have ih := ihBelow hbelow hbefore'
        rw [without, without, if_neg (by simpa using hzero), if_neg hzero, hbehind, hbehind']
        exact congrArg (cons a · _) ih
    | succ i =>
      obtain ⟨⟨t', rest'⟩, hrest, hx⟩ := Option.map_eq_some_iff.mp h
      obtain ⟨rfl, rfl⟩ := Prod.mk.inj hx
      have hbefore' : ∀ q ∈ pathsBehind paths, Before q (i :: p) := fun q hq => by
        obtain ⟨k, q, rfl, hmem⟩ := mem_pathsBehind.mp hq
        rcases hbefore _ hmem with hlt | ⟨heq, hq⟩
        · exact .inl (Nat.lt_of_succ_lt_succ hlt)
        · exact .inr ⟨Nat.succ.inj heq, hq⟩
      have hmem : [0] ∈ ((i + 1) :: p) :: paths ↔ [0] ∈ paths := by simp
      have hbehind : pathsBehind (((i + 1) :: p) :: paths) = (i :: p) :: pathsBehind paths := rfl
      have hbelow : pathsBelow (((i + 1) :: p) :: paths) = pathsBelow paths := rfl
      rw [without, without, hbehind, hbelow, ihRest hrest hbefore']
      simp only [hmem]

theorem isSome_erase_nil (g : Grove α) (i : ℕ) : (g.erase i []).isSome = (g.get? i).isSome := by
  induction g generalizing i with
  | nil => rfl
  | cons a below rest _ ih =>
    cases i with
    | zero => rfl
    | succ i => rw [erase, Option.isSome_map, ih, get?]

theorem isSome_erase_cons (h : g.get? i = some t) : (g.erase i (j :: p)).isSome = (t.2.erase j p).isSome := by
  induction g generalizing i with
  | nil => cases h
  | cons a below rest _ ih =>
    cases i with
    | zero =>
      obtain rfl := Option.some.inj h
      rw [erase, Option.isSome_map]
    | succ i => rw [erase, Option.isSome_map, ih h]

theorem isSome_erase (h : g.erase i p = some (t, g')) (hq : (g.erase j q).isSome) (hbefore : Before (j :: q) (i :: p)) :
    (g'.erase j q).isSome := by
  induction g generalizing i j p q g' with
  | nil => cases h
  | cons a below rest ihBelow ihRest =>
    cases i with
    | zero =>
      obtain ⟨rfl, htail⟩ : j = 0 ∧ Before q p := hbefore.resolve_left (Nat.not_lt_zero _)
      cases q with
      | nil => exact htail.elim
      | cons l q =>
        cases p with
        | nil => exact htail.elim
        | cons k p =>
          obtain ⟨⟨t', below'⟩, hbelow, hx⟩ := Option.map_eq_some_iff.mp h
          obtain ⟨rfl, rfl⟩ := Prod.mk.inj hx
          rw [erase, Option.isSome_map] at hq ⊢
          exact ihBelow hbelow hq htail
    | succ i =>
      obtain ⟨⟨t', rest'⟩, hrest, hx⟩ := Option.map_eq_some_iff.mp h
      obtain ⟨rfl, rfl⟩ := Prod.mk.inj hx
      cases j with
      | zero =>
        cases q with
        | nil => rfl
        | cons l q =>
          rw [erase, Option.isSome_map] at hq ⊢
          exact hq
      | succ j =>
        rw [erase, Option.isSome_map] at hq ⊢
        refine ihRest hrest hq (hbefore.imp Nat.lt_of_succ_lt_succ fun hb => ⟨Nat.succ.inj hb.1, hb.2⟩)

end Grove
