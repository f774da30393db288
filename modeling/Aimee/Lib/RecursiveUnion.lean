-- SUMMARY: `WITH RECURSIVE … UNION` over a finite set of rows: the rounds end and give the rows reachable from the seed.
import Mathlib.Data.Finset.Card

/-!
# Recursive unions

The working rows of a round are joined with the table, rows that the result has are dropped,
and what is left is added to the result and worked on in the next round. The first round that
adds nothing is the last. Dropping the rows seen before is what ends the rounds on a cycle: a
round that adds something uses up a row, so there are no more rounds than rows.
-/

namespace RecursiveUnion

variable {α : Type*} [DecidableEq α]

/-- The rows that a round adds. -/
def fresh (step : α → List α) (work seen : List α) : List α :=
  (work.flatMap step).dedup.filter (· ∉ seen)

def rounds (step : α → List α) : ℕ → List α → List α → List α
  | 0, _, seen => seen
  | fuel + 1, work, seen =>
    if fresh step work seen = [] then seen
    else rounds step fuel (fresh step work seen) (seen ++ fresh step work seen)

/-- The recursive union from `seed`, where every joined row is one of `rows`. -/
def recursiveUnion (step : α → List α) (rows seed : List α) : List α :=
  rounds step rows.length seed.dedup seed.dedup

/-- `b` joins `a`. -/
abbrev Joins (step : α → List α) (a b : α) : Prop := b ∈ step a

variable {step : α → List α} {work seen : List α}

theorem mem_fresh {b : α} : b ∈ fresh step work seen ↔ (∃ a ∈ work, b ∈ step a) ∧ b ∉ seen := by
  simp [fresh]

theorem subset_rounds (fuel : ℕ) : seen ⊆ rounds step fuel work seen := by
  induction fuel generalizing work seen with
  | zero => exact List.Subset.refl _
  | succ fuel ih =>
    unfold rounds
    split
    · exact List.Subset.refl _
    · exact List.Subset.trans (List.subset_append_left _ _) ih

/-- Every row of the result is reachable, if those of the round are. -/
theorem rounds_sound {P : α → Prop} (hstep : ∀ a b, P a → b ∈ step a → P b) (fuel : ℕ)
    (hwork : ∀ a ∈ work, P a) (hseen : ∀ a ∈ seen, P a) :
    ∀ a ∈ rounds step fuel work seen, P a := by
  induction fuel generalizing work seen with
  | zero => exact hseen
  | succ fuel ih =>
    unfold rounds
    split
    · exact hseen
    · have hfresh : ∀ b ∈ fresh step work seen, P b := by
        intro b hb
        obtain ⟨⟨a, ha, hab⟩, -⟩ := mem_fresh.mp hb
        exact hstep a b (hwork a ha) hab
      refine ih hfresh fun b hb => ?_
      rcases List.mem_append.mp hb with hb | hb
      · exact hseen b hb
      · exact hfresh b hb

/-- The rounds without a bound on their number. -/
inductive Ends (step : α → List α) : List α → List α → List α → Prop where
  | last {work seen : List α} (h : fresh step work seen = []) : Ends step work seen seen
  | round {work seen result : List α} (h : fresh step work seen ≠ [])
      (hrest : Ends step (fresh step work seen) (seen ++ fresh step work seen) result) : Ends step work seen result

/-- A round that adds something uses up a row. -/
theorem card_unseen_lt {rows : List α} (hrows : ∀ a b, b ∈ step a → b ∈ rows) (hne : fresh step work seen ≠ []) :
    (rows.toFinset \ (seen ++ fresh step work seen).toFinset).card < (rows.toFinset \ seen.toFinset).card := by
  obtain ⟨b, hb⟩ := List.exists_mem_of_ne_nil _ hne
  obtain ⟨⟨a, -, hab⟩, hseen⟩ := mem_fresh.mp hb
  refine Finset.card_lt_card ⟨?_, fun hsub => ?_⟩
  · refine Finset.sdiff_subset_sdiff (Finset.Subset.refl _) ?_
    rw [List.toFinset_append]
    exact Finset.subset_union_left
  · have hmem : b ∈ rows.toFinset \ seen.toFinset := by
      simpa using ⟨hrows a b hab, hseen⟩
    have := hsub hmem
    simp [hb] at this

/-- There is a round left for each row that was not seen, so the last one adds nothing. -/
theorem rounds_ends {rows : List α} (hrows : ∀ a b, b ∈ step a → b ∈ rows) (fuel : ℕ)
    (hfuel : (rows.toFinset \ seen.toFinset).card ≤ fuel) : Ends step work seen (rounds step fuel work seen) := by
  induction fuel generalizing work seen with
  | zero =>
    refine .last ?_
    by_contra hne
    exact absurd (card_unseen_lt hrows hne) (by omega)
  | succ fuel ih =>
    unfold rounds
    split
    · next hnil => exact .last hnil
    · next hne =>
      have hlt := card_unseen_lt hrows hne
      exact .round hne (ih (by omega))

theorem recursiveUnion_ends {rows : List α} (hrows : ∀ a b, b ∈ step a → b ∈ rows) (seed : List α) :
    Ends step seed.dedup seed.dedup (recursiveUnion step rows seed) :=
  rounds_ends hrows rows.length (le_trans (Finset.card_le_card Finset.sdiff_subset) (List.toFinset_card_le rows))

/-- The result is closed, if all rows but those of the round were worked on. -/
theorem Ends.closed {result : List α} (h : Ends step work seen result)
    (hdone : ∀ a ∈ seen, a ∉ work → ∀ b ∈ step a, b ∈ seen) : ∀ a ∈ result, ∀ b ∈ step a, b ∈ result := by
  induction h with
  | @last work seen hnil =>
    intro a ha b hb
    by_cases hwork : a ∈ work
    · by_contra hmem
      have hb' : b ∈ fresh step work seen := mem_fresh.mpr ⟨⟨a, hwork, hb⟩, hmem⟩
      rw [hnil] at hb'
      exact absurd hb' List.not_mem_nil
    · exact hdone a ha hwork b hb
  | @round work seen result _ _ ih =>
    refine ih fun a ha hfresh b hb => ?_
    rw [List.mem_append] at ha ⊢
    have ha' : a ∈ seen := ha.resolve_right hfresh
    by_cases hseen : b ∈ seen
    · exact Or.inl hseen
    · by_cases hwork : a ∈ work
      · exact Or.inr (mem_fresh.mpr ⟨⟨a, hwork, hb⟩, hseen⟩)
      · exact Or.inl (hdone a ha' hwork b hb)

theorem mem_recursiveUnion {rows seed : List α} (hrows : ∀ a b, b ∈ step a → b ∈ rows) {b : α} :
    b ∈ recursiveUnion step rows seed ↔
      ∃ a ∈ seed, Relation.ReflTransGen (Joins step) a b := by
  constructor
  · refine rounds_sound (P := fun b => ∃ a ∈ seed, Relation.ReflTransGen (Joins step) a b)
      ?_ _ ?_ ?_ b
    · rintro a b ⟨r, hr, hra⟩ hab
      exact ⟨r, hr, hra.tail hab⟩
    · intro a ha
      exact ⟨a, List.mem_dedup.mp ha, .refl⟩
    · intro a ha
      exact ⟨a, List.mem_dedup.mp ha, .refl⟩
  · rintro ⟨a, ha, hab⟩
    have hclosed : ∀ a ∈ recursiveUnion step rows seed, ∀ b ∈ step a, b ∈ recursiveUnion step rows seed :=
      (recursiveUnion_ends hrows seed).closed fun a ha hwork => absurd ha hwork
    induction hab with
    | refl => exact subset_rounds _ (List.mem_dedup.mpr ha)
    | tail _ hbc ih => exact hclosed _ ih _ hbc

end RecursiveUnion
