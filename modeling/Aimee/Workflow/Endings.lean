-- SUMMARY: How an engine's invocation ends, and when the ending keeps the money that is known or presumed spent.
import Mathlib.Algebra.Order.Ring.NNRat
import Aimee.Workflow.Ownership

/-!
# Endings of an invocation

An invocation ends by giving up on a lost replay, by parking the failure of its runner, or by
reconciling a cost and committing the same cost in a transition. What an earlier invocation
recorded as `actual` or left `unresolved` must come out of each of them. It does, but for a replay
whose runner fails: the park clears an `actual` it does not pay for, and an `unresolved` amount if
the replay was not dispatched.
-/

namespace Workflow

/-! ## Endings -/

/-- The transitions that commit a reconciled cost, without the work item and the cost. -/
inductive Transition where
  | move (fromStage toStage kind detail contentHash : String)
  | retry (stage toStage detail : String) (maxAttempts : ℤ)
  | park (stage reason detail : String)
  | finish (stage state detail contentHash : String)
  | changes (round : ReviewRound) (planStage : String)
  | budgetTree (rootId : String)
  deriving DecidableEq

def Transition.op (id : String) (cost : ℚ) : Transition → Op
  | .move fromStage toStage kind detail hash => .wfeMove id fromStage toStage kind detail hash cost
  | .retry stage toStage detail maxAttempts => .wfeRecordRetry id stage toStage detail maxAttempts cost
  | .park stage reason detail => .wfeParkWithDetail id stage reason detail cost
  | .finish stage state detail hash => .wfeFinish id stage state detail hash cost
  | .changes round planStage =>
    .wfeRecordRequestedChanges { round with workItemId := id } planStage cost
  | .budgetTree rootId => .wfeParkBudgetTree rootId id cost

inductive Ending where
  | recover (stage : String)
  | fail (stage reason detail : String) (dispatched costKnown : Bool) (cost : ℚ)
  | settle (cost : ℚ) (transition : Transition)
  deriving DecidableEq

namespace Ending

/-- The store after an ending. The transition follows only a cost that was reconciled. -/
def apply (now : Time) (id owner : String) (s : Store) : Ending → Store
  | .recover stage => (wfeRecoverLostReplay now id stage owner s).1
  | .fail stage reason detail dispatched costKnown cost =>
    (wfeParkRunnerFailure now id stage owner reason detail dispatched costKnown cost s).1
  | .settle cost transition =>
    match wfeBudgetReconcile id owner cost s with
    | (s, .ok _) => (transition.op id cost).apply now s
    | (s, _) => s

/-- The cost an ending has measured. -/
def measured : Ending → Option ℚ
  | .recover _ => none
  | .fail _ _ _ dispatched costKnown cost => if dispatched && costKnown then some cost else none
  | .settle cost _ => some cost

/-- The ending gave up on a replay, and the run may dispatch afresh. -/
def Redispatched (now : Time) (id owner : String) (s : Store) (e : Ending) : Prop :=
  ∃ stage, e = .recover stage ∧ (wfeRecoverLostReplay now id stage owner s).2 = .ok true

/-- What was known or presumed spent before an ending is accounted for after it. -/
structure Accounts (now : Time) (id owner : String) (s : Store) (e : Ending) (w w' : WorkItem) : Prop where
  actual : w.reservation.state = .actual →
    w'.reservation.state = .actual ∧ w'.reservation.reservedCostUsd = w.reservation.reservedCostUsd ∨
      w.cumCostUsd + w.reservation.reservedCostUsd ≤ w'.cumCostUsd
  unresolved : w.reservation.state = .unresolved →
    w'.reservation.state = .unresolved ∧
        w'.reservation.reservedCostUsd = w.reservation.reservedCostUsd ∨
      (∃ cost, e.measured = some cost ∧
        (w'.cumCostUsd = w.cumCostUsd + cost.toNNRat ∨
          w'.reservation.state = .actual ∧ w'.reservation.reservedCostUsd = cost.toNNRat)) ∨
      e.Redispatched now id owner s

/-- A failed runner is refused, or it pays for what it clears: an `actual` of nothing or of no more
    than its measured cost, and an `unresolved` amount only after a dispatch. Any other ending
    qualifies. -/
def paysForWhatItClears (id owner : String) (w : WorkItem) : Ending → Prop
  | .fail stage reason _ dispatched costKnown cost =>
    failureRefused id stage owner reason cost ∨
      (w.reservation.state = .actual → w.reservation.reservedCostUsd = 0 ∨
        dispatched ∧ costKnown ∧ (w.reservation.reservedCostUsd : ℚ) ≤ cost) ∧
      (w.reservation.state = .unresolved → dispatched)
  | _ => True

end Ending

/-! ## Settling -/

theorem wfeBudgetReconcile_ok {id owner : String} {cost : ℚ} {s t : Store} {allowed : Bool}
    (h : wfeBudgetReconcile id owner cost s = (t, .ok allowed)) {w : WorkItem} (hw : s.item? id = some w) :
    0 ≤ cost ∧ (w.reservation.state = .actual → (w.reservation.reservedCostUsd : ℚ) = cost) ∧
      ∃ v, t.item? id = some v ∧ v.cumCostUsd = w.cumCostUsd ∧ v.reservation.state = .actual ∧
        v.reservation.reservedCostUsd = cost.toNNRat := by
  unfold wfeBudgetReconcile at h
  rw [hw] at h
  split at h
  · cases h
  · next hargs =>
    have hcost : 0 ≤ cost := by
      rw [not_or, not_lt] at hargs
      exact hargs.2
    split at h
    · cases h
    · dsimp only at h
      split_ifs at h with howner hnone hreplay hactual
      · cases h
      · cases h
      · cases h
      · have hamount : (w.reservation.reservedCostUsd : ℚ) = cost := by
          by_contra hne
          exact hreplay ⟨hactual, hne⟩
        cases h
        refine ⟨hcost, fun _ => hamount, w, hw, rfl, hactual, ?_⟩
        rw [← hamount, NNRat.toNNRat_coe]
      · cases h
        have hheld : w.reservation.state ∈ reservationReplaceable := by
          cases hstate : w.reservation.state with
          | none => exact absurd hstate hnone
          | actual => exact absurd hstate hactual
          | reserved => simp [reservationReplaceable]
          | unresolved => simp [reservationReplaceable]
        have hrow := Store.item?_updateItems s (fun w => w.workItemId = id &&
            (w.reservation.owner = owner && w.reservation.state ∈ reservationReplaceable : Bool))
          (fun w => { w with reservation :=
            { w.reservation with reservedCostUsd := cost.toNNRat, state := .actual } })
          (fun _ => rfl) id
        rw [hw, Option.map_some, if_pos (by
          simp [Store.workItemId_of_item? hw, not_not.mp howner, hheld])] at hrow
        exact ⟨hcost, fun h => absurd h hactual, _, hrow, rfl, rfl, rfl⟩

theorem wfeBudgetReconcile_refused {id owner : String} {cost : ℚ} {s t : Store} {reply : Reply Bool}
    (h : wfeBudgetReconcile id owner cost s = (t, reply)) (hreply : ∀ allowed, reply ≠ .ok allowed) :
    t = s := by
  unfold wfeBudgetReconcile at h
  split at h
  · cases h
    rfl
  · split at h
    · cases h
      rfl
    · split at h
      · cases h
        rfl
      · dsimp only at h
        split_ifs at h
        · cases h
          rfl
        · cases h
          rfl
        · cases h
          rfl
        · cases h
          rfl
        · cases h
          exact absurd rfl (hreply _)

/-- The cost that a transition charges is its own; one that charges nothing has none to charge. -/
theorem Transition.charged_op (tr : Transition) (id : String) (cost : ℚ) :
    (tr.op id cost).charged = some (id, cost.toNNRat) ∨
      (tr.op id cost).charged = none ∧ cost.toNNRat = 0 := by
  cases tr with
  | budgetTree rootId =>
    by_cases hcost : 0 < cost
    · exact .inl (if_pos hcost)
    · exact .inr ⟨if_neg hcost, Rat.toNNRat_eq_zero.mpr (not_lt.mp hcost)⟩
  | _ => exact .inl rfl

/-- A transition leaves an `actual` of its own cost in place, or adds it to what was spent. -/
theorem Transition.settles {now : Time} {s : Store} {id : String} {cost : ℚ} (tr : Transition)
    {w w' : WorkItem} (hactual : w.reservation.state = .actual)
    (hamount : w.reservation.reservedCostUsd = cost.toNNRat) (h : RowStep now s (tr.op id cost) w w') :
    w'.reservation.state = .actual ∧ w'.reservation.reservedCostUsd = cost.toNNRat ∨
      w'.cumCostUsd = w.cumCostUsd + cost.toNNRat := by
  have hcharged : ∀ d, (tr.op id cost).charged = some (w.workItemId, d) → d = cost.toNNRat := by
    intro d hd
    rcases tr.charged_op id cost with hop | ⟨hop, -⟩
    · rw [hop, Option.some_inj, Prod.mk.injEq] at hd
      exact hd.2.symm
    · rw [hop] at hd
      cases hd
  cases h.money with
  | keep _ hres => exact .inl (by rw [hres]; exact ⟨hactual, hamount⟩)
  | spend _ hop =>
    rcases hop with ⟨_, hop⟩ | ⟨_, _, _, _, _, _, hop⟩ <;> cases tr <;> cases hop
  | settle d hd hcost =>
    refine .inr ?_
    rcases hd with hop | ⟨hop, hd⟩
    · rw [hcost, hcharged d hop]
    · rcases tr.charged_op id cost with hop' | ⟨-, hzero⟩
      · rw [hop'] at hop
        cases hop
      · rcases hd with rfl | rfl
        · rw [hcost, hzero]
        · rw [hcost, hamount]
  | extend _ _ hres => exact .inl (by rw [hres]; exact ⟨hactual, hamount⟩)
  | measure _ _ hstate =>
    rw [hactual] at hstate
    exact absurd hstate (by decide)
  | reserve _ _ hop | takeOver _ hop | steal _ hop => cases tr <;> cases hop
  | retain _ hop =>
    obtain ⟨_, _, _, _, _, hop⟩ := hop
    cases tr <;> cases hop

/-! ## What an ending accounts for -/

section Accounts

variable {now : Time} {id owner : String} {s : Store} {w : WorkItem}

theorem Ending.accounts_of_same (e : Ending) : e.Accounts now id owner s w w :=
  ⟨fun h => .inl ⟨h, rfl⟩, fun h => .inl ⟨h, rfl⟩⟩

theorem Ending.settle_accounts (cost : ℚ) (tr : Transition) (hw : s.item? id = some w) :
    ∃ w', ((Ending.settle cost tr).apply now id owner s).item? id = some w' ∧
      (Ending.settle cost tr).Accounts now id owner s w w' := by
  simp only [Ending.apply]
  split
  · next t allowed hrec =>
    obtain ⟨hcost, hreplay, v, hv, hcum, hactual, hamount⟩ := wfeBudgetReconcile_ok hrec hw
    have hdelete : ∀ id', tr.op id cost ≠ .workItemDelete id' ∧ tr.op id cost ≠ .wfeDeleteTree id' := by
      intro id'
      cases tr <;> exact ⟨nofun, nofun⟩
    obtain ⟨w', hw', hstep⟩ : ∃ w', ((tr.op id cost).apply now t).item? id = some w' ∧
        RowStep now t (tr.op id cost) v w' := exists_item?_apply hdelete hv
    refine ⟨w', hw', ?_⟩
    have hsettled := tr.settles hactual hamount hstep
    rw [hcum] at hsettled
    constructor
    · intro hstate
      have hsame : cost.toNNRat = w.reservation.reservedCostUsd := by
        rw [← hreplay hstate, NNRat.toNNRat_coe]
      rw [hsame] at hsettled
      exact hsettled.imp_right fun h => h.ge
    · intro _
      exact .inr (.inl ⟨cost, rfl, hsettled.symm⟩)
  · next t reply hne hrec =>
    obtain rfl : t = s := wfeBudgetReconcile_refused hrec hne
    exact ⟨w, hw, Ending.accounts_of_same _⟩

theorem Ending.recover_accounts (stage : String) (hw : s.item? id = some w) :
    ∃ w', ((Ending.recover stage).apply now id owner s).item? id = some w' ∧
      (Ending.recover stage).Accounts now id owner s w w' := by
  by_cases href : id = "" ∨ w.reservation.owner ≠ owner ∨ w.reservation.state = .none ∨
      w.reservation.state = .reserved
  · refine ⟨w, ?_, accounts_of_same _⟩
    rw [Ending.apply, wfeRecoverLostReplay_refused hw href, hw]
  · simp only [not_or, ne_eq, not_not] at href
    obtain ⟨hid, howner, hnone, hreserved⟩ := href
    cases hstate : w.reservation.state with
    | none => exact absurd hstate hnone
    | reserved => exact absurd hstate hreserved
    | unresolved =>
      obtain ⟨hitem, hreply⟩ := wfeRecoverLostReplay_unresolved hid hw howner hstate
      refine ⟨_, hitem, fun h => ?_, fun _ => .inr (.inr ⟨stage, rfl, hreply⟩)⟩
      rw [hstate] at h
      cases h
    | actual =>
      refine ⟨_, wfeRecoverLostReplay_actual hid hw howner hstate, fun _ => .inr le_rfl, fun h => ?_⟩
      rw [hstate] at h
      cases h

theorem Ending.exists_accounts_iff {e : Ending} {row : Option WorkItem} {cost : ℚ≥0} {r : Reservation}
    (h : row.map WorkItem.money = some (cost, r)) :
    (∃ w', row = some w' ∧ e.Accounts now id owner s w w') ↔
      (w.reservation.state = .actual →
        r.state = .actual ∧ r.reservedCostUsd = w.reservation.reservedCostUsd ∨
          w.cumCostUsd + w.reservation.reservedCostUsd ≤ cost) ∧
      (w.reservation.state = .unresolved →
        r.state = .unresolved ∧ r.reservedCostUsd = w.reservation.reservedCostUsd ∨
        (∃ c, e.measured = some c ∧
          (cost = w.cumCostUsd + c.toNNRat ∨ r.state = .actual ∧ r.reservedCostUsd = c.toNNRat)) ∨
        e.Redispatched now id owner s) := by
  obtain ⟨v, rfl, hv⟩ := Option.map_eq_some_iff.mp h
  obtain ⟨rfl, rfl⟩ := Prod.mk.inj hv
  constructor
  · rintro ⟨w', hw', hactual, hunresolved⟩
    cases hw'
    exact ⟨hactual, hunresolved⟩
  · rintro ⟨hactual, hunresolved⟩
    exact ⟨v, rfl, hactual, hunresolved⟩

/-- A failed runner accounts for what was spent exactly when it pays for what it clears. -/
theorem Ending.fail_accounts_iff {stage reason detail : String} {dispatched costKnown : Bool} {cost : ℚ}
    (hw : s.item? id = some w) (howner : w.reservation.owner = owner) :
    (∃ w', ((Ending.fail stage reason detail dispatched costKnown cost).apply now id owner s).item? id =
        some w' ∧
      (Ending.fail stage reason detail dispatched costKnown cost).Accounts now id owner s w w') ↔
    (Ending.fail stage reason detail dispatched costKnown cost).paysForWhatItClears id owner w := by
  simp only [Ending.apply, Ending.paysForWhatItClears]
  by_cases hargs : failureRefused id stage owner reason cost
  · refine iff_of_true ⟨w, ?_, accounts_of_same _⟩ (.inl hargs)
    rw [wfeParkRunnerFailure_refused hargs, hw]
  · have hcost : 0 ≤ cost := by
      simp only [failureRefused, not_or, not_lt] at hargs
      exact hargs.2.2.2.2
    rw [or_iff_right hargs]
    cases dispatched with
    | false =>
      rw [exists_accounts_iff (money_wfeParkRunnerFailure_undispatched hargs hw)]
      simp [clearReservation, measured, Redispatched]
    | true =>
      cases costKnown with
      | true =>
        rw [exists_accounts_iff (money_wfeParkRunnerFailure_known hargs hw)]
        have hpays : w.reservation.reservedCostUsd ≤ cost.toNNRat ↔
            w.reservation.reservedCostUsd = 0 ∨ (w.reservation.reservedCostUsd : ℚ) ≤ cost := by
          rw [Rat.le_toNNRat_iff_coe_le hcost]
          refine ⟨.inr, ?_⟩
          rintro (hzero | hle)
          · rw [hzero]
            exact hcost
          · exact hle
        simp [clearReservation, measured, hpays]
      | false =>
        rw [exists_accounts_iff (money_wfeParkRunnerFailure_unknown hargs hw), add_le_iff_nonpos_right,
          nonpos_iff_eq_zero]
        simp +contextual [howner, reservationReplaceable]

/-- What an owner's invocation finds spent is accounted for after its ending exactly when the ending
    is not a failed runner that clears more than it pays for. -/
theorem ending_accounts_iff (hw : s.item? id = some w) (howner : w.reservation.owner = owner) (now : Time)
    (e : Ending) :
    (∃ w', (e.apply now id owner s).item? id = some w' ∧ e.Accounts now id owner s w w') ↔
      e.paysForWhatItClears id owner w := by
  cases e with
  | recover stage => exact iff_of_true (Ending.recover_accounts stage hw) trivial
  | fail => exact Ending.fail_accounts_iff hw howner
  | settle cost tr => exact iff_of_true (Ending.settle_accounts cost tr hw) trivial

end Accounts

/-- A cost of four is reconciled, the engine is lost, and a second engine takes the replay over. -/
def replayedRun : List (Time × Op) :=
  [(0, .wfeCreateWorkItem sampleRequest), (0, .wfeBudgetReserve "item" "first"),
    (10, .wfeBudgetReconcile "item" "first" 4), (200, .wfeBudgetReserve "item" "second")]

def replayedItem : WorkItem :=
  { sampleRequest.row 0 with
    reservation := { reservedCostUsd := 4, state := .actual, owner := "second", leaseUntil := some 320 } }

theorem item?_replayedRun : (Store.empty.run replayedRun).item? "item" = some replayedItem := by
  decide +kernel

theorem replayed_settle_accounts :
    ∃ w', ((Ending.settle 4 (.finish "plan" "accepted" "" "")).apply 201 "item" "second"
          (Store.empty.run replayedRun)).item? "item" = some w' ∧
      (Ending.settle 4 (.finish "plan" "accepted" "" "")).Accounts 201 "item" "second"
        (Store.empty.run replayedRun) replayedItem w' :=
  (ending_accounts_iff item?_replayedRun rfl 201 _).mpr trivial

/-- The replay fails before it is dispatched, and the reconciled cost is gone. -/
theorem replayed_failure_loses :
    ¬∀ s : Store, Reachable s → ∀ (id owner : String) (w : WorkItem) (now : Time) (e : Ending),
      s.item? id = some w → w.reservation.owner = owner →
        ∃ w', (e.apply now id owner s).item? id = some w' ∧ e.Accounts now id owner s w w' := by
  intro h
  have haccounts := h (Store.empty.run replayedRun) (Reachable.empty.run replayedRun) "item" "second"
    replayedItem 201 (.fail "plan" "runner_unavailable" "" false false 0) item?_replayedRun rfl
  have howner : replayedItem.reservation.owner = "second" := rfl
  rcases (Ending.fail_accounts_iff item?_replayedRun howner).mp haccounts with hargs | ⟨hactual, -⟩
  · revert hargs
    simp [failureRefused]
  · rcases hactual rfl with hzero | ⟨hdispatched, -⟩
    · revert hzero
      decide
    · cases hdispatched

end Workflow
