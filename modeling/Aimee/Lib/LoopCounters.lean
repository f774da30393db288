-- SUMMARY: Runs over stages that keep a retry counter each: without a cycle of forward edges, bounded counters make every run finite.
import Mathlib.Data.Fintype.Pigeonhole
import Mathlib.Order.Filter.Cofinite

/-!
# Loop counters

A run over stages. From a stage it goes forward along an edge, which clears the counter of the
stage, or back to any stage, which costs the stage one retry. Stages clear each other's
counters only by being left forward, so the stages that a run visits for ever contain one whose
forward edges all leave them, and that one runs out of retries.
-/

namespace LoopCounters

variable {α : Type*}

/-- A step from one stage, with the counters of all, to another. -/
inductive Step (pass : α → α → Prop) (limit : α → ℕ) (a : α) (count : α → ℕ) (b : α)
    (count' : α → ℕ) : Prop where
  | forward (hedge : pass a b) (hothers : ∀ c, c ≠ a → count' c = count c)
  | back (hcount : count' a = count a + 1) (hlimit : count' a < limit a)
      (hothers : ∀ c, c ≠ a → count' c = count c)

variable {pass : α → α → Prop} {limit : α → ℕ} {stage : ℕ → α} {count : ℕ → α → ℕ}

open Filter

/-- A run that stays in a finite set visits one of its stages again and again. -/
theorem exists_frequently {S : Set α} (hS : S.Finite) (hmem : ∀ n, stage n ∈ S) :
    ∃ a ∈ S, ∃ᶠ n in atTop, stage n = a := by
  have := hS.to_subtype
  obtain ⟨a, ha⟩ := Finite.exists_infinite_fiber fun n => (⟨stage n, hmem n⟩ : S)
  refine ⟨a, a.2, Nat.frequently_atTop_iff_infinite.mpr ?_⟩
  refine (Set.infinite_coe_iff.mp ha).mono fun n hn => ?_
  exact congrArg Subtype.val hn

/-- Among the stages a run visits again and again, one has no edge to another. -/
theorem exists_last {S : Set α} (hS : S.Finite) (hacyclic : ∀ a, ¬Relation.TransGen pass a a)
    (hmem : ∀ n, stage n ∈ S) :
    ∃ a, (∃ᶠ n in atTop, stage n = a) ∧ ∀ b, pass a b → ¬∃ᶠ n in atTop, stage n = b := by
  have := hS.to_subtype
  have hirrefl : Std.Irrefl fun x y : S => Relation.TransGen pass y.1 x.1 := ⟨fun x => hacyclic x⟩
  have hwf : WellFounded fun x y : S => Relation.TransGen pass y.1 x.1 :=
    Finite.wellFounded_of_trans_of_irrefl _
  obtain ⟨a, ha, hoften⟩ := exists_frequently hS hmem
  obtain ⟨m, hm, hmin⟩ := hwf.has_min {x : S | ∃ᶠ n in atTop, stage n = x} ⟨⟨a, ha⟩, hoften⟩
  refine ⟨m, hm, fun b hedge hb => ?_⟩
  obtain ⟨n, rfl⟩ := hb.exists
  exact hmin ⟨stage n, hmem n⟩ hb (.single hedge)

/-- A stage that is never left forward gains a retry at each visit. -/
theorem exists_le_count {N : ℕ} {m : α}
    (hstep : ∀ n, Step pass limit (stage n) (count n) (stage (n + 1)) (count (n + 1)))
    (hoften : ∃ᶠ n in atTop, stage n = m) (hback : ∀ n, N ≤ n → stage n = m → ¬pass m (stage (n + 1)))
    (k : ℕ) : ∃ n, N ≤ n ∧ stage n = m ∧ k ≤ count (n + 1) m := by
  have hgrow : ∀ n, N ≤ n → count n m ≤ count (n + 1) m := by
    intro n hn
    by_cases hm : stage n = m
    · cases hstep n with
      | forward hedge => exact absurd (hm ▸ hedge) (hback n hn hm)
      | back hcount => rw [← hm, hcount]; exact Nat.le_succ _
    · cases hstep n with
      | forward _ hothers => exact (hothers m (Ne.symm hm)).ge
      | back _ _ hothers => exact (hothers m (Ne.symm hm)).ge
  have hmono : ∀ n n', N ≤ n → n ≤ n' → count n m ≤ count n' m := by
    intro n n' hn hle
    induction hle with
    | refl => exact le_rfl
    | step hle ih => exact ih.trans (hgrow _ (hn.trans hle))
  induction k with
  | zero =>
    obtain ⟨n, hn, hm⟩ := frequently_atTop.mp hoften N
    exact ⟨n, hn, hm, Nat.zero_le _⟩
  | succ k ih =>
    obtain ⟨n, hn, -, hk⟩ := ih
    obtain ⟨n', hn', hm⟩ := frequently_atTop.mp hoften (n + 1)
    have hN : N ≤ n' := hn.trans (n.le_succ.trans hn')
    refine ⟨n', hN, hm, ?_⟩
    cases hstep n' with
    | forward hedge => exact absurd (hm ▸ hedge) (hback n' hN hm)
    | back hcount =>
      rw [hm] at hcount
      rw [hcount]
      exact Nat.succ_le_succ (hk.trans (hmono (n + 1) n' (hn.trans n.le_succ) hn'))

/-- No run over finitely many stages goes on for ever. -/
theorem not_forever {S : Set α} (hS : S.Finite) (hacyclic : ∀ a, ¬Relation.TransGen pass a a)
    (hmem : ∀ n, stage n ∈ S)
    (hstep : ∀ n, Step pass limit (stage n) (count n) (stage (n + 1)) (count (n + 1))) : False := by
  obtain ⟨m, hoften, hlast⟩ := exists_last hS hacyclic hmem
  -- From some point on no visit of `m` is left forward: its edges lead to stages that the run
  -- visits only finitely often.
  have hrare : ∀ᶠ n in atTop, ∀ b ∈ S, pass m b → stage n ≠ b := by
    refine (eventually_all_finite hS).mpr fun b _ => ?_
    by_cases hedge : pass m b
    · exact (not_frequently.mp (hlast b hedge)).mono fun n hn _ => hn
    · exact .of_forall fun n h => absurd h hedge
  have hback : ∀ᶠ n in atTop, stage n = m → ¬pass m (stage (n + 1)) := by
    refine ((tendsto_add_atTop_nat 1).eventually hrare).mono fun n hn _ hedge => ?_
    exact hn (stage (n + 1)) (hmem (n + 1)) hedge rfl
  obtain ⟨N, hN⟩ := eventually_atTop.mp hback
  obtain ⟨n, hn, hm, hk⟩ := exists_le_count hstep hoften hN (limit m)
  cases hstep n with
  | forward hedge => exact hN n hn hm (hm ▸ hedge)
  | back _ hlimit =>
    rw [hm] at hlimit
    exact absurd hk (not_le.mpr hlimit)

end LoopCounters
