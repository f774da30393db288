-- SUMMARY: What an engine's completion does to a run that an operator paused or stopped while the runner was out.
import Aimee.Workflow.Ownership

/-!
# Decisions made while a runner is out

A run that is stopped or paused carries a decision in its state, stage and pause columns. Four of
the six operations by which an engine completes an invocation leave these columns of such a run
alone. `wfeRecoverLostReplay` parks the run for a human whatever it was doing, and
`wfeRecordRequestedChanges` asks only that the run be active, so both can replace a pause.
-/

namespace Workflow

/-- The run is active and not paused. -/
def WorkItem.Runnable (w : WorkItem) : Prop := w.state = "active" ∧ w.pauseReason = ""

/-- The columns an operator's decision is made of. -/
def WorkItem.decision (w : WorkItem) : String × String × String × String :=
  (w.state, w.currentStage, w.pauseReason, w.pausedState)

/-- The operations by which an engine completes an invocation. -/
def Op.completes : Op → Bool
  | .wfeMove .. | .wfeRecordRetry .. | .wfeParkWithDetail .. | .wfeParkRunnerFailure ..
  | .wfeRecoverLostReplay .. | .wfeRecordRequestedChanges .. => true
  | _ => false

/-- The run is parked already as the round would park it. -/
def ReviewRound.alreadyParked (r : ReviewRound) (planStage : String) (s : Store) (w : WorkItem) : Prop :=
  w.currentStage = planStage ∧ w.pausedState = r.gate ∧
    if r.maxIdentical ≤ r.repeats s then w.pauseReason = "convergence_no_progress"
    else r.maxIterations ≤ r.attempts s ∧ w.pauseReason = "convergence_limit"

/-- A completion that spares the decision: it is refused or about another run, or it writes the
    columns with what they hold. -/
def Op.sparesDecision (s : Store) (w : WorkItem) : Op → Prop
  | .wfeRecoverLostReplay id _ owner =>
    id = "" ∨ w.workItemId ≠ id ∨ w.reservation.owner ≠ owner ∨ w.reservation.state ≠ .actual ∨
      w.pauseReason = "replay_unrecoverable" ∧ w.pausedState = w.currentStage
  | .wfeRecordRequestedChanges r planStage cost =>
    r.workItemId = "" ∨ r.gate = "" ∨ cost < 0 ∨ w.workItemId ≠ r.workItemId ∨ w.state ≠ "active" ∨
      r.alreadyParked planStage s w
  | _ => True

section Completions

variable {now : Time} {s : Store} {id : String} {w : WorkItem}

section

variable (hw : s.item? id = some w)
include hw

/-- A guarded update of runnable rows misses a row that is not. -/
theorem item?_updateItems_runsIn {id' stage : String} {f : WorkItem → WorkItem}
    {hf : ∀ w, (f w).workItemId = w.workItemId} (hstopped : ¬w.Runnable) :
    (s.updateItems (runsIn id' stage) f hf).item? id = some w := by
  refine Store.item?_updateItems_of_miss hw ?_
  by_contra hhit
  simp only [runsIn, Bool.not_eq_false, Bool.and_eq_true, decide_eq_true_eq] at hhit
  exact hstopped ⟨hhit.2.1.2, hhit.2.2⟩

theorem item?_wfeMove_of_stopped (hstopped : ¬w.Runnable)
    (id' fromStage toStage kind detail hash : String) (cost : ℚ) :
    (wfeMove now id' fromStage toStage kind detail hash cost s).1.item? id = some w := by
  unfold wfeMove
  split
  · exact hw
  · split
    · exact hw
    · split
      · rw [Store.item?_dropStageAttempts, Store.item?_addEvent]
        exact item?_updateItems_runsIn hw hstopped
      · rw [Store.item?_addEvent]
        exact item?_updateItems_runsIn hw hstopped

theorem item?_wfeRecordRetry_of_stopped (hstopped : ¬w.Runnable)
    (id' stage toStage detail : String) (maxAttempts : ℤ) (cost : ℚ) :
    (wfeRecordRetry now id' stage toStage detail maxAttempts cost s).1.item? id = some w := by
  unfold wfeRecordRetry
  split
  · exact hw
  · split
    · exact hw
    · rw [Store.item?_addEvent]
      exact item?_updateItems_runsIn (s := s.incAttempts id' stage) hw hstopped

theorem item?_wfeParkWithDetail_of_stopped (hstopped : ¬w.Runnable)
    (id' stage reason detail : String) (cost : ℚ) :
    (wfeParkWithDetail now id' stage reason detail cost s).1.item? id = some w := by
  unfold wfeParkWithDetail
  split
  · exact hw
  · split
    · exact hw
    · rw [Store.item?_addEvent]
      exact item?_updateItems_runsIn hw hstopped

theorem decision_wfeParkRunnerFailure_of_stopped (hstopped : ¬w.Runnable)
    (id' stage owner reason detail : String) (dispatched costKnown : Bool) (actual : ℚ) :
    ((wfeParkRunnerFailure now id' stage owner reason detail dispatched costKnown actual s).1.item? id).map
      WorkItem.decision = some w.decision := by
  unfold wfeParkRunnerFailure
  split
  · rw [hw]
    rfl
  · have hparks : (decide (w.state = "active") && decide (w.pauseReason = "")) = false := by
      simpa [WorkItem.Runnable] using hstopped
    simp only [Store.item?_addEvent]
    by_cases hid : w.workItemId = id'
    · rw [Store.item?_updateItems_of_hit hw (decide_eq_true hid)]
      simp [WorkItem.decision, hparks]
    · rw [Store.item?_updateItems_of_miss hw (decide_eq_false hid), Option.map_some]

theorem item?_wfeRecoverLostReplay_of_other {id' stage owner : String}
    (hne : id ≠ id') : (wfeRecoverLostReplay now id' stage owner s).1.item? id = some w := by
  have hmiss : decide (w.workItemId = id') = false :=
    decide_eq_false (Store.workItemId_of_item? hw ▸ hne)
  unfold wfeRecoverLostReplay
  split
  · exact hw
  · split
    · exact hw
    · split
      · exact hw
      · dsimp only
        split
        · rw [Store.item?_addEvent]
          exact Store.item?_updateItems_of_miss hw (by rw [hmiss, Bool.false_and])
        · rw [Store.item?_addEvent]
          exact Store.item?_updateItems_of_miss hw (by rw [hmiss, Bool.false_and])
        · exact hw
        · exact hw

theorem decision_wfeRecoverLostReplay_iff {stage owner : String} :
    ((wfeRecoverLostReplay now id stage owner s).1.item? id).map WorkItem.decision = some w.decision ↔
      id = "" ∨ w.workItemId ≠ id ∨ w.reservation.owner ≠ owner ∨ w.reservation.state ≠ .actual ∨
        w.pauseReason = "replay_unrecoverable" ∧ w.pausedState = w.currentStage := by
  have hid := Store.workItemId_of_item? hw
  by_cases href : id = "" ∨ w.reservation.owner ≠ owner ∨ w.reservation.state = .none ∨
      w.reservation.state = .reserved
  · refine iff_of_true ?_ ?_
    · rw [wfeRecoverLostReplay_refused hw href, hw]
      rfl
    · rcases href with h | h | h | h
      · exact .inl h
      · exact .inr (.inr (.inl h))
      · exact .inr (.inr (.inr (.inl (by rw [h]; decide))))
      · exact .inr (.inr (.inr (.inl (by rw [h]; decide))))
  · simp only [not_or, ne_eq, not_not] at href
    obtain ⟨hid', howner, hnone, hreserved⟩ := href
    cases hstate : w.reservation.state with
    | none => exact absurd hstate hnone
    | reserved => exact absurd hstate hreserved
    | unresolved =>
      refine iff_of_true ?_ (by simp)
      rw [(wfeRecoverLostReplay_unresolved hid' hw howner hstate).1]
      rfl
    | actual =>
      rw [wfeRecoverLostReplay_actual hid' hw howner hstate]
      simp [WorkItem.decision, hid, hid', howner, eq_comm]

end

variable {r : ReviewRound} {planStage : String}

/-- A review round that is recorded for an active run overwrites the decision. -/
theorem decision_wfeRecordRequestedChanges {cost : ℚ}
    (hargs : ¬(r.workItemId = "" ∨ r.gate = "" ∨ ¬costIsSane cost))
    (hw : s.item? r.workItemId = some w) (hactive : w.state = "active") :
    ((wfeRecordRequestedChanges now r planStage cost s).1.item? r.workItemId).map WorkItem.decision =
      some ("active", planStage, r.pauseReason s, if r.pauseReason s = "" then "" else r.gate) := by
  have hitem : (r.observe (s.incAttempts r.workItemId r.gate)).item? r.workItemId = some w := hw
  have hid := Store.workItemId_of_item? hw
  unfold wfeRecordRequestedChanges
  rw [if_neg hargs, hw, Option.filter_some, if_pos (decide_eq_true hactive)]
  dsimp only
  split
  · rw [Store.item?_addEvent, Store.item?_updateItems_of_hit hitem (decide_eq_true hid), Option.map_some]
    simp only [WorkItem.decision, hactive]
  · rw [Store.item?_addEvent, Store.item?_updateItems_of_hit hitem (decide_eq_true hid), Option.map_some]
    simp only [WorkItem.decision, hactive]

theorem item?_wfeRecordRequestedChanges_of_other {cost : ℚ}
    (hw : s.item? id = some w) (h : r.workItemId = "" ∨ r.gate = "" ∨ ¬costIsSane cost ∨
      id ≠ r.workItemId ∨ w.state ≠ "active") :
    (wfeRecordRequestedChanges now r planStage cost s).1.item? id = some w := by
  have hitem : (r.observe (s.incAttempts r.workItemId r.gate)).item? id = some w := hw
  have hid := Store.workItemId_of_item? hw
  unfold wfeRecordRequestedChanges
  split
  · exact hw
  · next hargs =>
    split
    · exact hw
    · next v hv =>
      have hmiss : w.workItemId ≠ r.workItemId := by
        intro hsame
        obtain ⟨hitem, hactive⟩ := Option.filter_eq_some_iff.mp hv
        rw [← hsame, hid, hw, Option.some_inj] at hitem
        rw [hitem.symm, decide_eq_true_eq] at hactive
        simp only [not_or] at hargs
        rcases h with h | h | h | h | h
        · exact hargs.1 h
        · exact hargs.2.1 h
        · exact hargs.2.2 h
        · exact h (hid.symm.trans hsame)
        · exact h hactive
      dsimp only
      split
      · rw [Store.item?_addEvent]
        exact Store.item?_updateItems_of_miss hitem (decide_eq_false hmiss)
      · rw [Store.item?_addEvent]
        exact Store.item?_updateItems_of_miss hitem (decide_eq_false hmiss)

/-- The columns a recorded round writes are those of a paused run exactly when the run is parked
    already. -/
theorem ReviewRound.writes_decision_iff (hactive : w.state = "active") (hpause : w.pauseReason ≠ "") :
    ("active", planStage, r.pauseReason s, if r.pauseReason s = "" then "" else r.gate) = w.decision ↔
      r.alreadyParked planStage s w := by
  simp only [WorkItem.decision, ReviewRound.alreadyParked, hactive, Prod.mk.injEq, true_and]
  by_cases hrepeats : r.maxIdentical ≤ r.repeats s
  · have hreason : r.pauseReason s = "convergence_no_progress" := if_pos hrepeats
    rw [hreason, if_pos hrepeats]
    constructor
    · rintro ⟨hstage, hpause, hgate⟩
      exact ⟨hstage.symm, hgate.symm, hpause.symm⟩
    · rintro ⟨hstage, hgate, hpause⟩
      exact ⟨hstage.symm, hpause.symm, hgate.symm⟩
  · rw [if_neg hrepeats]
    by_cases hattempts : r.maxIterations ≤ r.attempts s
    · have hreason : r.pauseReason s = "convergence_limit" := by
        rw [ReviewRound.pauseReason, if_neg hrepeats, if_pos hattempts]
      rw [hreason]
      constructor
      · rintro ⟨hstage, hpause, hgate⟩
        exact ⟨hstage.symm, hgate.symm, hattempts, hpause.symm⟩
      · rintro ⟨hstage, hgate, -, hpause⟩
        exact ⟨hstage.symm, hpause.symm, hgate.symm⟩
    · have hreason : r.pauseReason s = "" := by
        rw [ReviewRound.pauseReason, if_neg hrepeats, if_neg hattempts]
      rw [hreason]
      refine iff_of_false ?_ fun h => hattempts h.2.2.1
      exact fun h => hpause h.2.1.symm

end Completions

/-- A completion leaves the decision on a run that is stopped or paused alone exactly when it is
    not a lost replay or a review round that writes other columns. -/
theorem completion_keeps_decision_iff {s : Store} {id : String} {w : WorkItem} (hw : s.item? id = some w)
    (hstopped : ¬w.Runnable) (now : Time) {op : Op} (hop : op.completes) :
    ((op.apply now s).item? id).map WorkItem.decision = some w.decision ↔ op.sparesDecision s w := by
  have hid := Store.workItemId_of_item? hw
  cases op with
  | wfeMove =>
    refine iff_of_true ?_ trivial
    rw [Op.apply, item?_wfeMove_of_stopped hw hstopped]
    rfl
  | wfeRecordRetry =>
    refine iff_of_true ?_ trivial
    rw [Op.apply, item?_wfeRecordRetry_of_stopped hw hstopped]
    rfl
  | wfeParkWithDetail =>
    refine iff_of_true ?_ trivial
    rw [Op.apply, item?_wfeParkWithDetail_of_stopped hw hstopped]
    rfl
  | wfeParkRunnerFailure =>
    refine iff_of_true ?_ trivial
    exact decision_wfeParkRunnerFailure_of_stopped hw hstopped ..
  | wfeRecoverLostReplay id' stage owner =>
    simp only [Op.apply, Op.sparesDecision]
    by_cases hother : w.workItemId ≠ id'
    · refine iff_of_true ?_ (.inr (.inl hother))
      rw [item?_wfeRecoverLostReplay_of_other hw (hid ▸ hother)]
      rfl
    · obtain rfl : id = id' := hid.symm.trans (not_not.mp hother)
      exact decision_wfeRecoverLostReplay_iff hw
  | wfeRecordRequestedChanges r planStage cost =>
    simp only [Op.apply, Op.sparesDecision]
    by_cases hother : r.workItemId = "" ∨ r.gate = "" ∨ ¬costIsSane cost ∨ id ≠ r.workItemId ∨
        w.state ≠ "active"
    · refine iff_of_true ?_ ?_
      · rw [item?_wfeRecordRequestedChanges_of_other hw hother]
        rfl
      · simp only [costIsSane, decide_eq_true_eq, not_le, ← hid] at hother
        tauto
    · simp only [not_or, not_not, ne_eq] at hother
      obtain ⟨hid', hgate, hcost, rfl, hactive⟩ := hother
      have hargs : ¬(r.workItemId = "" ∨ r.gate = "" ∨ ¬costIsSane cost) := by
        simp only [not_or, not_not]
        exact ⟨hid', hgate, hcost⟩
      have hpause : w.pauseReason ≠ "" := fun h => hstopped ⟨hactive, h⟩
      rw [decision_wfeRecordRequestedChanges hargs hw hactive, Option.some_inj,
        ReviewRound.writes_decision_iff hactive hpause]
      simp only [costIsSane, decide_eq_true_eq] at hcost
      simp [hid', hgate, not_lt.mpr hcost, hid, hactive]
  | _ => cases hop

/-- An operator pauses the run while the first engine's runner is out. -/
def pausedRun : List (Time × Op) :=
  [(0, .wfeCreateWorkItem sampleRequest), (0, .wfeBudgetReserve "item" "first"),
    (10, .workItemSetPause "item" "manual" "plan")]

def pausedItem : WorkItem :=
  { sampleRequest.row 0 with
    reservation := { reservedCostUsd := sampleCap, state := .reserved, owner := "first", leaseUntil := some 120 }
    pauseReason := "manual", pausedState := "plan", updatedAt := 10 }

theorem item?_pausedRun : (Store.empty.run pausedRun).item? "item" = some pausedItem := by
  decide +kernel

theorem paused_failure_keeps_decision :
    (((Op.wfeParkRunnerFailure "item" "plan" "first" "runner_unavailable" "" true true 2).apply 20
      (Store.empty.run pausedRun)).item? "item").map WorkItem.decision = some pausedItem.decision :=
  (completion_keeps_decision_iff item?_pausedRun (fun h => absurd h.2 (by decide)) 20 rfl).mpr trivial

/-- The runner comes back with requested changes, and the paused run goes on at another stage. -/
theorem paused_review_changes_decision :
    ¬∀ s : Store, Reachable s → ∀ (id : String) (w : WorkItem) (now : Time) (op : Op),
      s.item? id = some w → ¬w.Runnable → op.completes →
        ((op.apply now s).item? id).map WorkItem.decision = some w.decision := by
  intro h
  have hkept := h (Store.empty.run pausedRun) (Reachable.empty.run pausedRun) "item" pausedItem 20
    (.wfeRecordRequestedChanges
      { workItemId := "item", gate := "plan", planHash := "p", feedbackHash := "f", payload := .plain ""
        maxIterations := 20, maxIdentical := 3 } "author" 0)
    item?_pausedRun (fun h => absurd h.2 (by decide)) rfl
  revert hkept
  decide +kernel

end Workflow
