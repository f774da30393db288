-- SUMMARY: Sequences of delegate calls: what they cost, the ceilings they were launched with, and the bound that priced calls keep.
import Mathlib.Algebra.Order.BigOperators.Group.List
import Mathlib.Tactic.Linarith
import Aimee.Roundtable.Contract

/-!
# Calls

A run's calls in order. A phase caps its calls when each of them gets what its predecessors left of
the phase's limit, and none is launched on an exhausted limit. A call is priced when its replies
cost no more than the ceiling it was launched with, split over its requests.
-/

namespace Roundtable

/-- What the calls cost together. -/
def spent (launches : List Launch) : ℚ := (launches.map Launch.cost).sum

theorem spent_append (a b : List Launch) : spent (a ++ b) = spent a + spent b := by
  rw [spent, List.map_append, List.sum_append]
  rfl

theorem spent_singleton (l : Launch) : spent [l] = l.cost := by
  rw [spent, List.map_singleton, List.sum_singleton]

theorem spent_pair (l m : Launch) : spent [l, m] = l.cost + m.cost := by
  rw [spent, List.map_cons, List.sum_cons, List.map_singleton, List.sum_singleton]

theorem spent_nil : spent [] = 0 := rfl

/-- Every call gets what is left of the limit after `before`, and something is left. -/
def Capped (limit : ℚ) : ℚ → List Launch → Prop
  | _, [] => True
  | before, l :: rest =>
    (l.costLimitUsd = remainingCostLimit limit before ∧ (0 < limit → 0 < l.costLimitUsd)) ∧
      Capped limit (before + l.cost) rest

variable {limit before : ℚ} {launches : List Launch}

theorem capped_append {a b : List Launch} :
    Capped limit before (a ++ b) ↔ Capped limit before a ∧ Capped limit (before + spent a) b := by
  induction a generalizing before with
  | nil => simp [Capped, spent_nil]
  | cons l rest ih =>
    have hsum : before + l.cost + spent rest = before + spent (l :: rest) := by
      rw [spent, spent, List.map_cons, List.sum_cons, add_assoc]
    rw [List.cons_append, Capped, Capped, ih, hsum, and_assoc (b := Capped limit (before + l.cost) rest)]

theorem capped_singleton {l : Launch} :
    Capped limit before [l] ↔ l.costLimitUsd = remainingCostLimit limit before ∧ (0 < limit → 0 < l.costLimitUsd) :=
  and_iff_left trivial

/-! ## Priced calls -/

/-- Replies cost nothing negative, and under a ceiling each costs at most its even share of it. -/
def Priced (l : Launch) : Prop :=
  ∀ r ∈ l.results, 0 ≤ r.costUsd ∧ (0 < l.costLimitUsd → r.costUsd ≤ l.costLimitUsd / l.results.length)

instance (l : Launch) : Decidable (Priced l) :=
  inferInstanceAs (Decidable (∀ r ∈ l.results, 0 ≤ r.costUsd ∧ (0 < l.costLimitUsd →
    r.costUsd ≤ l.costLimitUsd / l.results.length)))

/-- A priced call stays under its ceiling. -/
theorem cost_le {l : Launch} (h : Priced l) (hpos : 0 < l.costLimitUsd) : l.cost ≤ l.costLimitUsd := by
  have hsum : l.cost ≤ (l.results.map SeatResult.costUsd).length • (l.costLimitUsd / l.results.length) := by
    refine List.sum_le_card_nsmul _ _ fun x hx => ?_
    obtain ⟨r, hr, rfl⟩ := List.mem_map.mp hx
    exact (h r hr).2 hpos
  rw [List.length_map, nsmul_eq_mul] at hsum
  rcases Nat.eq_zero_or_pos l.results.length with hz | hn
  · rw [hz, Nat.cast_zero, zero_mul] at hsum
    exact hsum.trans hpos.le
  · have hne : (l.results.length : ℚ) ≠ 0 := Nat.cast_ne_zero.mpr hn.ne'
    rwa [mul_div_cancel₀ _ hne] at hsum

/-- Capped and priced calls never cost more than the limit. -/
theorem spent_le_of_capped (hlimit : 0 < limit) (hbefore : before ≤ limit)
    (hcapped : Capped limit before launches) (hpriced : ∀ l ∈ launches, Priced l) :
    before + spent launches ≤ limit := by
  induction launches generalizing before with
  | nil => rwa [spent_nil, add_zero]
  | cons l rest ih =>
    obtain ⟨⟨hceil, hpos⟩, hrest⟩ := hcapped
    have hcost := cost_le (hpriced l List.mem_cons_self) (hpos hlimit)
    rw [hceil, remainingCostLimit_of_le hlimit hbefore] at hcost
    have hnext : before + l.cost ≤ limit := by linarith
    have h := ih hnext hrest fun m hm => hpriced m (List.mem_cons_of_mem _ hm)
    rw [spent, List.map_cons, List.sum_cons, ← add_assoc]
    exact h

theorem pos_of_capped (hlimit : 0 < limit)
    (hcapped : Capped limit before launches) : ∀ l ∈ launches, 0 < l.costLimitUsd := by
  induction launches generalizing before with
  | nil => exact fun l hl => absurd hl List.not_mem_nil
  | cons l rest ih =>
    obtain ⟨⟨-, hpos⟩, hrest⟩ := hcapped
    exact List.forall_mem_cons.mpr ⟨hpos hlimit, ih hrest⟩

end Roundtable
