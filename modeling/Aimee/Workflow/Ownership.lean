-- SUMMARY: What an owner-carrying operation does to the money of a row: when a caller that is not the owner changes nothing, and when an owner's last operation loses nothing.
import Aimee.Workflow.Rows

/-!
# Owners of a reservation

An engine names itself in every operation on its reservation. Four of the five operations check
the name against the row. `wfeParkRunnerFailure` reads it only for the amount that stays
authorised, so a caller whose reservation was adopted by another engine still decides the fate of
that money, and a replay that fails drops what an earlier invocation spent.
-/

namespace Workflow

/-- The cost and reservation columns. -/
def WorkItem.money (w : WorkItem) : ℚ≥0 × Reservation := (w.cumCostUsd, w.reservation)

/-! ## A failed runner -/

/-- The arguments that `wfeParkRunnerFailure` refuses. -/
def failureRefused (id stage owner reason : String) (actual : ℚ) : Prop :=
  id = "" ∨ stage = "" ∨ owner = "" ∨ reason = "" ∨ actual < 0

theorem failureRefused_iff {id stage owner reason : String} {actual : ℚ} :
    (id = "" ∨ stage = "" ∨ owner = "" ∨ reason = "" ∨ ¬costIsSane actual) ↔
      failureRefused id stage owner reason actual := by
  simp [failureRefused, costIsSane]

section Failure

variable {now : Time} {s : Store} {id stage owner reason detail : String} {w : WorkItem}
  {dispatched costKnown : Bool} {actual : ℚ}

theorem wfeParkRunnerFailure_refused (h : failureRefused id stage owner reason actual) :
    (wfeParkRunnerFailure now id stage owner reason detail dispatched costKnown actual s).1 = s := by
  rw [wfeParkRunnerFailure, if_pos (failureRefused_iff.mpr h)]

section

variable (h : ¬failureRefused id stage owner reason actual)
include h

/-- The money of the row after a failure that is not refused. -/
theorem money_wfeParkRunnerFailure (hw : s.item? id = some w) :
    ((wfeParkRunnerFailure now id stage owner reason detail dispatched costKnown actual s).1.item? id).map
        WorkItem.money =
      some (
        let (amount, state, cost) := runnerFailureMoney id owner dispatched costKnown actual s
        (w.cumCostUsd + cost.toNNRat,
          { reservedCostUsd := amount, state := state
            owner := if state = .none then "" else w.reservation.owner
            leaseUntil := if state = .none then none else w.reservation.leaseUntil })) := by
  rw [wfeParkRunnerFailure, if_neg (failureRefused_iff.not.mpr h)]
  simp only [Store.item?_addEvent, Store.item?_updateItems, hw, Option.map_some,
    Store.workItemId_of_item? hw, decide_true, if_true]
  rfl

theorem money_wfeParkRunnerFailure_undispatched (hw : s.item? id = some w) :
    ((wfeParkRunnerFailure now id stage owner reason detail false costKnown actual s).1.item? id).map
        WorkItem.money = some (w.cumCostUsd, clearReservation) := by
  rw [money_wfeParkRunnerFailure h hw]
  simp [clearReservation]

theorem money_wfeParkRunnerFailure_known (hw : s.item? id = some w) :
    ((wfeParkRunnerFailure now id stage owner reason detail true true actual s).1.item? id).map
        WorkItem.money = some (w.cumCostUsd + actual.toNNRat, clearReservation) := by
  rw [money_wfeParkRunnerFailure h hw]
  simp [clearReservation]

theorem money_wfeParkRunnerFailure_unknown (hw : s.item? id = some w) :
    ((wfeParkRunnerFailure now id stage owner reason detail true false actual s).1.item? id).map
        WorkItem.money =
      some (w.cumCostUsd,
        { w.reservation with
          reservedCostUsd :=
            if w.reservation.owner = owner ∧ w.reservation.state ∈ reservationReplaceable then
              w.reservation.reservedCostUsd else 0
          state := .unresolved }) := by
  rw [money_wfeParkRunnerFailure h hw, runnerFailureMoney_unknown owner actual hw]
  simp

end

end Failure

/-! ## A lost replay -/

section Recover

variable {now : Time} {s : Store} {id stage owner : String} {w : WorkItem}

theorem wfeRecoverLostReplay_refused (hw : s.item? id = some w)
    (h : id = "" ∨ w.reservation.owner ≠ owner ∨ w.reservation.state = .none ∨
      w.reservation.state = .reserved) :
    (wfeRecoverLostReplay now id stage owner s).1 = s := by
  unfold wfeRecoverLostReplay
  rw [hw]
  split
  · rfl
  · next hid =>
    dsimp only
    split
    · rfl
    · next howner =>
      rcases (h.resolve_left hid).resolve_left howner with hstate | hstate <;> rw [hstate]

theorem wfeRecoverLostReplay_unresolved (hid : id ≠ "") (hw : s.item? id = some w)
    (howner : w.reservation.owner = owner) (hstate : w.reservation.state = .unresolved) :
    (wfeRecoverLostReplay now id stage owner s).1.item? id =
        some { w with reservation := clearReservation, updatedAt := now } ∧
      (wfeRecoverLostReplay now id stage owner s).2 = .ok true := by
  unfold wfeRecoverLostReplay
  rw [if_neg hid, hw]
  dsimp only
  rw [if_neg (not_not.mpr howner), hstate]
  refine ⟨?_, rfl⟩
  simp [Store.item?_addEvent, Store.item?_updateItems, hw, Store.workItemId_of_item? hw, howner, hstate]

theorem wfeRecoverLostReplay_actual (hid : id ≠ "") (hw : s.item? id = some w)
    (howner : w.reservation.owner = owner) (hstate : w.reservation.state = .actual) :
    (wfeRecoverLostReplay now id stage owner s).1.item? id =
      some { w with
        cumCostUsd := w.cumCostUsd + w.reservation.reservedCostUsd
        reservation := clearReservation, pauseReason := "replay_unrecoverable"
        pausedState := w.currentStage, updatedAt := now } := by
  unfold wfeRecoverLostReplay
  rw [if_neg hid, hw]
  dsimp only
  rw [if_neg (not_not.mpr howner)]
  simp [Store.item?_addEvent, Store.item?_updateItems, hw, Store.workItemId_of_item? hw, howner, hstate]

end Recover

/-! ## Callers that are not the owner -/

/-- The work item and the owner that an owner-carrying operation names. -/
def Op.ownerCall : Op → Option (String × String)
  | .wfeBudgetRelease id owner => some (id, owner)
  | .wfeBudgetHeartbeat id owner => some (id, owner)
  | .wfeBudgetReconcile id owner _ => some (id, owner)
  | .wfeParkRunnerFailure id _ owner _ _ _ _ _ => some (id, owner)
  | .wfeRecoverLostReplay id _ owner => some (id, owner)
  | _ => none

/-- A failed runner that is not the owner finds nothing to change: its arguments are refused, or
    the columns it writes hold what it writes. Any other operation qualifies. -/
def Op.findsNothing (w : WorkItem) : Op → Prop
  | .wfeParkRunnerFailure id stage owner reason _ dispatched costKnown actual =>
    failureRefused id stage owner reason actual ∨
      match dispatched, costKnown with
      | false, _ => w.reservation.state = .none
      | true, true => w.reservation.state = .none ∧ actual = 0
      | true, false => w.reservation.state = .unresolved ∧ w.reservation.reservedCostUsd = 0
  | _ => True

theorem money_of_stale_release {s : Store} {id o : String} {w : WorkItem} (hw : s.item? id = some w)
    (ho : o ≠ w.reservation.owner) : (wfeBudgetRelease id o s).1.item? id = some w := by
  unfold wfeBudgetRelease
  split
  · exact hw
  · rw [Store.item?_updateItems, hw]
    simp [Ne.symm ho]

theorem money_of_stale_heartbeat {now : Time} {s : Store} {id o : String} {w : WorkItem}
    (hw : s.item? id = some w) (ho : o ≠ w.reservation.owner) :
    (wfeBudgetHeartbeat now id o s).1.item? id = some w := by
  unfold wfeBudgetHeartbeat
  split
  · exact hw
  · rw [Store.item?_updateItems, hw]
    simp [Ne.symm ho]

theorem money_of_stale_reconcile {s : Store} {id o : String} {actual : ℚ} {w : WorkItem}
    (hw : s.item? id = some w) (ho : o ≠ w.reservation.owner) : (wfeBudgetReconcile id o actual s).1 = s := by
  unfold wfeBudgetReconcile
  rw [hw]
  split
  · rfl
  · split
    · rfl
    · dsimp only
      rw [if_pos (Ne.symm ho)]

/-- An owner-carrying operation by a caller that is not the owner leaves the money of the row alone
    exactly when it is not a failed runner that finds something to change. -/
theorem stale_call_keeps_money_iff {s : Store} (hs : Reachable s) {id o : String} {w : WorkItem}
    (hw : s.item? id = some w) (ho : o ≠ w.reservation.owner) (now : Time) {op : Op}
    (hop : op.ownerCall = some (id, o)) :
    ((op.apply now s).item? id).map WorkItem.money = some w.money ↔ op.findsNothing w := by
  cases op with
  | wfeBudgetRelease id' o' =>
    cases hop
    refine iff_of_true ?_ trivial
    rw [Op.apply, money_of_stale_release hw ho]
    rfl
  | wfeBudgetHeartbeat id' o' =>
    cases hop
    refine iff_of_true ?_ trivial
    rw [Op.apply, money_of_stale_heartbeat hw ho]
    rfl
  | wfeBudgetReconcile id' o' actual =>
    cases hop
    refine iff_of_true ?_ trivial
    rw [Op.apply, money_of_stale_reconcile hw ho, hw]
    rfl
  | wfeRecoverLostReplay id' stage o' =>
    cases hop
    refine iff_of_true ?_ trivial
    rw [Op.apply, wfeRecoverLostReplay_refused hw (.inr (.inl (Ne.symm ho))), hw]
    rfl
  | wfeParkRunnerFailure id' stage o' reason detail dispatched costKnown actual =>
    cases hop
    simp only [Op.apply, Op.findsNothing]
    by_cases hargs : failureRefused id stage o reason actual
    · refine iff_of_true ?_ (.inl hargs)
      rw [wfeParkRunnerFailure_refused hargs, hw]
      rfl
    · have hcleared : w.reservation.state = .none ↔ clearReservation = w.reservation :=
        ⟨fun h => (hs.cleared hw h).symm, fun h => h ▸ rfl⟩
      have hsane : 0 ≤ actual := by
        simp only [failureRefused, not_or, not_lt] at hargs
        exact hargs.2.2.2.2
      rw [or_iff_right hargs]
      cases dispatched with
      | false =>
        rw [money_wfeParkRunnerFailure_undispatched hargs hw, hcleared]
        simp [WorkItem.money]
      | true =>
        cases costKnown with
        | true =>
          rw [money_wfeParkRunnerFailure_known hargs hw, hcleared]
          have hzero : actual.toNNRat = 0 ↔ actual = 0 :=
            Rat.toNNRat_eq_zero.trans ⟨fun h => le_antisymm h hsane, fun h => h.le⟩
          simp [WorkItem.money, hzero, and_comm]
        | false =>
          rw [money_wfeParkRunnerFailure_unknown hargs hw]
          simp only [if_neg (not_and_of_not_left _ (Ne.symm ho)), WorkItem.money,
            Option.some_inj, Prod.mk.injEq, true_and]
          constructor
          · intro h
            exact ⟨(congrArg Reservation.state h).symm, (congrArg Reservation.reservedCostUsd h).symm⟩
          · rintro ⟨hstate, hamount⟩
            rw [← hstate, ← hamount]
  | _ => cases hop

/-- An engine reserves the whole cap, its lease lapses, and a second engine adopts the reservation. -/
def adoptedRun : List (Time × Op) :=
  [(0, .wfeCreateWorkItem sampleRequest), (0, .wfeBudgetReserve "item" "first"),
    (200, .wfeBudgetReserve "item" "second")]

def adoptedItem : WorkItem :=
  { sampleRequest.row 0 with
    reservation :=
      { reservedCostUsd := sampleCap, state := .unresolved, owner := "second", leaseUntil := some 320 } }

theorem item?_adoptedRun : (Store.empty.run adoptedRun).item? "item" = some adoptedItem := by
  decide +kernel

theorem adopted_release_keeps_money :
    (((Op.wfeBudgetRelease "item" "first").apply 201 (Store.empty.run adoptedRun)).item? "item").map
      WorkItem.money = some adoptedItem.money :=
  (stale_call_keeps_money_iff (Reachable.empty.run adoptedRun) item?_adoptedRun (by decide) 201 rfl).mpr
    trivial

/-- The first engine reports a runner that never left, and the second engine's money is gone. -/
theorem stale_failure_changes_money :
    ¬∀ s : Store, Reachable s → ∀ (id o : String) (w : WorkItem) (now : Time) (op : Op),
      s.item? id = some w → o ≠ w.reservation.owner → op.ownerCall = some (id, o) →
        ((op.apply now s).item? id).map WorkItem.money = some w.money := by
  intro h
  have hkept := h (Store.empty.run adoptedRun) (Reachable.empty.run adoptedRun) "item" "first" adoptedItem
    201 (.wfeParkRunnerFailure "item" "plan" "first" "delegate_failed" "" false false 0)
    item?_adoptedRun (by decide) rfl
  revert hkept
  decide +kernel

end Workflow
