-- SUMMARY: When the engine stops retrying a stage whose runner fails: the count it reads, and the failures behind it.
import Aimee.Workflow.Advance
import Aimee.Workflow.Log

/-!
# Escalation of runner failures

The engine parks a failed invocation for a human once it has counted eight failures of the stage
since the run last made progress. The count is read off the event log, where every pause of the
stage looks alike unless it waits for capacity: a step that is pending, a park by an operator or a
cap is counted with the failures. Where nothing but failures wrote such pauses, the escalation
does follow eight of them.
-/

namespace Workflow

/-! ## Histories -/

instance (w : WorkItem) : Decidable w.Runnable := inferInstanceAs (Decidable (_ ∧ _))

/-- One step of a history: an operation by anyone, or an advance of the engine. -/
inductive EngineStep where
  | op (now : Time) (op : Op)
  | advance (c : Call) (id : String)

def EngineStep.apply (s : Store) : EngineStep → Store
  | .op now call => call.apply now s
  | .advance c id => (Workflow.advance c id s).store

/-- The store after a history. -/
def Store.runSteps (s : Store) : List EngineStep → Store
  | [] => s
  | step :: steps => (step.apply s).runSteps steps

/-- The advance of a run in the stage reaches its runner, which fails for a reason other than
    capacity. -/
def Call.failsAt (c : Call) (id stage : String) (s : Store) : Bool :=
  match s.item? id with
  | none => false
  | some item =>
    item.Runnable && item.currentStage = stage &&
      (match (wfeBudgetReserve c.reservedAt item.workItemId (c.owner item.workItemId) s).2 with
        | .ok budget => budget.allowed
        | _ => false) &&
      (prepare c.world item).isOk &&
      match c.outcome with
      | .error e => !e.isCapacityBackpressure
      | .result _ => false

def EngineStep.failsAt (id stage : String) (s : Store) : EngineStep → Bool
  | .op _ _ => false
  | .advance c id' => id' = id && c.failsAt id stage s

/-- The run made progress in a step. -/
def progressed (id : String) (s t : Store) : Bool := s.lastProgress id < t.lastProgress id

/-- The invocations at the stage that ended in a runner error other than capacity since the run
    last made progress, on top of those before the history. -/
def failuresSince (id stage : String) (s : Store) (steps : List EngineStep) (earlier : ℕ) : ℕ :=
  match steps with
  | [] => earlier
  | step :: steps =>
    let kept := if progressed id s (step.apply s) then 0 else earlier
    failuresSince id stage (step.apply s) steps (kept + if step.failsAt id stage s then 1 else 0)

/-- No operation of the step writes a pause that counts at the stage, but for the one that records
    a failure. -/
def EngineStep.quietAt (id stage : String) (s : Store) : EngineStep → Prop
  | .op now call => call.quietAt id stage now s
  | .advance c id' =>
    StepsMeet (Op.quietAt id stage) s
      (if id' = id ∧ c.failsAt id stage s then (c.ops id' s).dropLast else c.ops id' s)

def QuietHistory (id stage : String) (s : Store) : List EngineStep → Prop
  | [] => True
  | step :: steps => step.quietAt id stage s ∧ QuietHistory id stage (step.apply s) steps

instance (id stage : String) (s : Store) (step : EngineStep) : Decidable (step.quietAt id stage s) :=
  match step with
  | .op now call => inferInstanceAs (Decidable (call.quietAt id stage now s))
  | .advance c id' => inferInstanceAs (Decidable (StepsMeet (Op.quietAt id stage) s
      (if id' = id ∧ c.failsAt id stage s then (c.ops id' s).dropLast else c.ops id' s)))

instance decidableQuietHistory (id stage : String) :
    (s : Store) → (steps : List EngineStep) → Decidable (QuietHistory id stage s steps)
  | _, [] => inferInstanceAs (Decidable True)
  | s, step :: steps =>
    have := decidableQuietHistory id stage (step.apply s) steps
    inferInstanceAs (Decidable (step.quietAt id stage s ∧ QuietHistory id stage (step.apply s) steps))

/-! ## Advances that reach their runner -/

variable {e : RunnerError}

section Reaches

variable {c : Call} {id : String} {s t : Store} {item : WorkItem} {budget : BudgetReply}
  {prepared : Prepared}

/-- The row is runnable, a reservation is granted, and the step can be prepared. -/
structure Reaches (c : Call) (id : String) (s : Store) (item : WorkItem) (budget : BudgetReply)
    (t : Store) (prepared : Prepared) : Prop where
  row : s.item? id = some item
  runnable : item.Runnable
  reserved : wfeBudgetReserve c.reservedAt item.workItemId (c.owner item.workItemId) s = (t, .ok budget)
  allowed : budget.allowed = true
  prepared : prepare c.world item = .ok prepared

theorem WorkItem.Runnable.not_stopped (h : item.Runnable) :
    ¬(item.state ≠ "active" ∨ item.pauseReason ≠ "") :=
  not_or.mpr ⟨not_not.mpr h.1, not_not.mpr h.2⟩

theorem Reaches.ops_eq (h : Reaches c id s item budget t prepared) :
    c.ops id s = (c.reservedAt, .wfeBudgetReserve item.workItemId (c.owner item.workItemId)) ::
      (c.meanwhile ++
        c.endingOps item (c.owner item.workItemId) budget prepared (t.run c.meanwhile)) := by
  unfold Call.ops
  rw [h.row]
  dsimp only
  rw [if_neg h.runnable.not_stopped, h.reserved]
  dsimp only
  rw [if_pos h.allowed, Call.stepOps, h.prepared]

theorem Reaches.advance_eq (h : Reaches c id s item budget t prepared)
    (hout : c.outcome = .error e) :
    advance c id s = parkFailure c item (c.owner item.workItemId) e (t.run c.meanwhile) := by
  unfold advance
  rw [h.row]
  dsimp only
  rw [if_neg h.runnable.not_stopped, h.reserved]
  dsimp only
  rw [if_pos h.allowed, runStep, h.prepared, hout]

theorem Call.failsAt_iff {stage : String} :
    c.failsAt id stage s = true ↔
      ∃ item budget t prepared e, Reaches c id s item budget t prepared ∧ item.currentStage = stage ∧
        c.outcome = .error e ∧ e.isCapacityBackpressure = false := by
  constructor
  · intro h
    unfold Call.failsAt at h
    cases hrow : s.item? id with
    | none =>
      rw [hrow] at h
      cases h
    | some item =>
      rw [hrow] at h
      simp only [Bool.and_eq_true, decide_eq_true_eq] at h
      obtain ⟨⟨⟨⟨hrunnable, hstage⟩, hallowed⟩, hprepared⟩, hout⟩ := h
      obtain ⟨⟨t, reply⟩, hreserve⟩ :
          ∃ p, wfeBudgetReserve c.reservedAt item.workItemId (c.owner item.workItemId) s = p := ⟨_, rfl⟩
      rw [hreserve] at hallowed
      cases reply with
      | ok budget =>
        cases hprepare : prepare c.world item with
        | error fault =>
          rw [hprepare] at hprepared
          cases hprepared
        | ok prepared =>
          cases houtcome : c.outcome with
          | result step =>
            rw [houtcome] at hout
            cases hout
          | error e =>
            rw [houtcome] at hout
            exact ⟨item, budget, t, prepared, e, ⟨hrow, hrunnable, hreserve, hallowed, hprepare⟩, hstage,
              rfl, by simpa using hout⟩
      | _ => cases hallowed
  · rintro ⟨item, budget, t, prepared, e, h, hstage, hout, hcapacity⟩
    unfold Call.failsAt
    rw [h.row]
    simp [h.runnable, hstage, h.reserved, h.allowed, h.prepared, hout, hcapacity, Except.isOk, Except.toBool]

end Reaches

/-! ## The count along a history -/

section Histories

variable {id stage : String} {s : Store}

theorem counts_failureOp (hs : s.LogOrdered) (c : Call) (item : WorkItem) (owner : String)
    (e : RunnerError) (t : Store) :
    Counts id stage 1 s ((c.failureOp item owner e t).apply c.endedAt s) := by
  unfold Call.failureOp
  split
  · exact counts_wfeRecoverLostReplay hs ..
  · exact counts_wfeParkRunnerFailure hs ..

theorem Store.LogOrdered.step (hs : s.LogOrdered) (step : EngineStep) : (step.apply s).LogOrdered := by
  cases step with
  | op now call => exact hs.apply now call
  | advance c id' =>
    rw [EngineStep.apply, store_advance]
    exact hs.run _

theorem Store.LogOrdered.runSteps (hs : s.LogOrdered) (steps : List EngineStep) :
    (s.runSteps steps).LogOrdered := by
  induction steps generalizing s with
  | nil => exact hs
  | cons step steps ih => exact ih (hs.step step)

/-- The operations of a failing advance before the one that records the failure. -/
theorem Reaches.dropLast_ops {c : Call} {item : WorkItem} {budget : BudgetReply} {t : Store}
    {prepared : Prepared} (h : Reaches c id s item budget t prepared)
    (hout : c.outcome = .error e) :
    (c.ops id s).dropLast =
      (c.reservedAt, .wfeBudgetReserve item.workItemId (c.owner item.workItemId)) :: c.meanwhile := by
  rw [h.ops_eq, Call.endingOps, hout, ← List.cons_append, List.dropLast_concat]

theorem Reaches.run_dropLast_ops {c : Call} {item : WorkItem} {budget : BudgetReply} {t : Store}
    {prepared : Prepared} (h : Reaches c id s item budget t prepared)
    (hout : c.outcome = .error e) : s.run (c.ops id s).dropLast = t.run c.meanwhile := by
  rw [h.dropLast_ops hout, Store.run, Op.apply, h.reserved]

/-- A quiet step adds to the count only by failing. -/
theorem EngineStep.counts {step : EngineStep} (hs : s.LogOrdered) (hquiet : step.quietAt id stage s) :
    Counts id stage (if step.failsAt id stage s then 1 else 0) s (step.apply s) := by
  cases step with
  | op now call => exact counts_apply hs hquiet
  | advance c id' =>
    rw [EngineStep.apply]
    rw [EngineStep.quietAt] at hquiet
    cases hfails : EngineStep.failsAt id stage s (.advance c id') with
    | false =>
      have hnot : ¬(id' = id ∧ c.failsAt id stage s = true) := by
        simpa [EngineStep.failsAt] using hfails
      rw [if_neg hnot] at hquiet
      rw [store_advance]
      exact counts_run hs hquiet
    | true =>
      have hfail : id' = id ∧ c.failsAt id stage s = true := by
        simpa [EngineStep.failsAt] using hfails
      rw [if_pos hfail] at hquiet
      obtain ⟨rfl, hfail⟩ := hfail
      obtain ⟨item, budget, t, prepared, e, hreach, -, hout, -⟩ := Call.failsAt_iff.mp hfail
      have hbefore := counts_run hs hquiet
      rw [hreach.run_dropLast_ops hout] at hbefore
      rw [hreach.advance_eq hout, store_parkFailure]
      exact hbefore.trans (counts_failureOp hbefore.ordered ..)

theorem pausesSince_le_failuresSince (hs : s.LogOrdered) {steps : List EngineStep}
    (hquiet : QuietHistory id stage s steps) {n : ℕ} (hn : s.pausesSince id stage false ≤ n) :
    (s.runSteps steps).pausesSince id stage false ≤ failuresSince id stage s steps n := by
  induction steps generalizing s n with
  | nil => exact hn
  | cons step steps ih =>
    refine ih (hs.step step) hquiet.2 ((EngineStep.counts hs hquiet.1).count.trans ?_)
    refine Nat.add_le_add_right ?_ _
    by_cases hprogress : s.lastProgress id < (step.apply s).lastProgress id
    · rw [if_pos hprogress]
      exact Nat.zero_le _
    · rw [if_neg hprogress, progressed, if_neg (by simpa using hprogress)]
      exact hn

end Histories

/-! ## Escalation -/

theorem le_pausesSince_of_failureReason {id stage : String} {s : Store}
    (hcapacity : e.isCapacityBackpressure = false) (h : failureReason e id stage s = "delegate_failed") :
    maxRunnerFailuresWithoutProgress ≤ s.pausesSince id stage false := by
  unfold failureReason at h
  rw [hcapacity] at h
  simp only [Bool.false_eq_true, if_false] at h
  split at h
  · exact absurd h (by decide)
  · split at h
    · next failures hcounted =>
      unfold wfeRunnerFailuresSince at hcounted
      split at hcounted
      · cases hcounted
      · cases hcounted
        split at h
        · next hbound => exact hbound.1
        · split_ifs at h <;> exact absurd h (by decide)
    · split_ifs at h <;> exact absurd h (by decide)

theorem answered_pauseReason {α : Type} {out : AdvanceResult} {f : α → AdvanceResult} {reason : String}
    {p : Store × Reply α} (h : (answered out f p).result.pauseReason = reason)
    (hout : out.pauseReason ≠ reason) : ∃ cells, (f cells).pauseReason = reason := by
  obtain ⟨s, reply⟩ := p
  cases reply with
  | ok cells => exact ⟨cells, h⟩
  | _ => exact absurd h hout

@[simp] theorem parkAfterSpend_result (now : Time) (world : World) (item : WorkItem) (fault : Fault)
    (cost : ℚ) (out : AdvanceResult) (s : Store) :
    (parkAfterSpend now world item fault cost out s).result = out := by
  unfold parkAfterSpend
  dsimp only
  split <;> rfl

/-- An advance that escalates has reached its runner, and the count it read was full. -/
theorem reaches_of_delegate_failed {c : Call} {id : String} {s : Store} {item : WorkItem}
    (hrow : s.item? id = some item) (hrun : item.Runnable)
    (hout : c.outcome = .error e) (h : (advance c id s).result.pauseReason = "delegate_failed") :
    ∃ budget t prepared, Reaches c id s item budget t prepared ∧
      failureReason e item.workItemId item.currentStage (t.run c.meanwhile) = "delegate_failed" := by
  have hstart : (AdvanceResult.start item).pauseReason ≠ "delegate_failed" := by
    simp [AdvanceResult.start, hrun.2]
  unfold advance at h
  rw [hrow] at h
  dsimp only at h
  rw [if_neg hrun.not_stopped] at h
  obtain ⟨⟨t, reply⟩, hreserve⟩ :
      ∃ p, wfeBudgetReserve c.reservedAt item.workItemId (c.owner item.workItemId) s = p := ⟨_, rfl⟩
  rw [hreserve] at h
  cases reply with
  | ok budget =>
    dsimp only at h
    split at h
    · next hallowed =>
      unfold runStep at h
      cases hprepare : prepare c.world item with
      | error fault =>
        rw [hprepare] at h
        rw [parkAfterSpend_result] at h
        exact absurd h hstart
      | ok prepared =>
        rw [hprepare, hout] at h
        refine ⟨budget, t, prepared, ⟨hrow, hrun, hreserve, hallowed, hprepare⟩, ?_⟩
        dsimp only [parkFailure] at h
        split at h
        · obtain ⟨redispatch, hreason⟩ := answered_pauseReason h hstart
          cases redispatch with
          | true => exact absurd hreason hstart
          | false => exact absurd hreason (by simp)
        · obtain ⟨-, hreason⟩ := answered_pauseReason h hstart
          exact hreason
    · split at h
      · exact absurd h hstart
      · obtain ⟨-, hreason⟩ := answered_pauseReason h hstart
        exact absurd hreason (by simp)
  | _ => exact absurd h hstart

theorem QuietHistory.append {id stage : String} {s : Store} {steps steps' : List EngineStep}
    (h : QuietHistory id stage s (steps ++ steps')) :
    QuietHistory id stage s steps ∧ QuietHistory id stage (s.runSteps steps) steps' := by
  induction steps generalizing s with
  | nil => exact ⟨trivial, h⟩
  | cons step steps ih => exact ⟨⟨h.1, (ih h.2).1⟩, (ih h.2).2⟩

/-- From a point of a history where the count stands at zero, as it does when the run has just made
    progress, and as long as no operation but a recorded failure writes a pause that counts, an
    advance escalates a failure only after eight others. -/
theorem delegate_failed_after_failures {before since : List EngineStep} {c : Call} {id : String}
    {w : WorkItem} {e : RunnerError}
    (hfresh : (Store.empty.runSteps before).pausesSince id w.currentStage false = 0)
    (hquiet : QuietHistory id w.currentStage (Store.empty.runSteps before) (since ++ [.advance c id]))
    (hw : ((Store.empty.runSteps before).runSteps since).item? id = some w) (hrun : w.Runnable)
    (hout : c.outcome = .error e) (hcapacity : e.isCapacityBackpressure = false)
    (hreason : (advance c id ((Store.empty.runSteps before).runSteps since)).result.pauseReason =
      "delegate_failed") :
    maxRunnerFailuresWithoutProgress ≤
      failuresSince id w.currentStage (Store.empty.runSteps before) since 0 := by
  have hempty : Store.empty.LogOrdered := fun e he => by cases he
  have hordered := hempty.runSteps before
  obtain ⟨hsince, hlast, -⟩ := hquiet.append
  obtain ⟨budget, t, prepared, hreach, hcount⟩ := reaches_of_delegate_failed hw hrun hout hreason
  have hfails : c.failsAt id w.currentStage ((Store.empty.runSteps before).runSteps since) = true :=
    Call.failsAt_iff.mpr ⟨w, budget, t, prepared, e, hreach, rfl, hout, hcapacity⟩
  rw [EngineStep.quietAt, if_pos ⟨rfl, hfails⟩] at hlast
  have hruns : Counts id w.currentStage 0 _ _ := counts_run (hordered.runSteps since) hlast
  rw [hreach.run_dropLast_ops hout] at hruns
  rw [Store.workItemId_of_item? hw] at hcount
  calc
    maxRunnerFailuresWithoutProgress ≤ (t.run c.meanwhile).pausesSince id w.currentStage false :=
      le_pausesSince_of_failureReason hcapacity hcount
    _ ≤ ((Store.empty.runSteps before).runSteps since).pausesSince id w.currentStage false := hruns.le
    _ ≤ failuresSince id w.currentStage (Store.empty.runSteps before) since 0 :=
      pausesSince_le_failuresSince hordered hsince hfresh.le

/-- An outage of the runner that did not dispatch anything. -/
def outage : RunnerError where
  text := "connection refused"
  replayUnavailable := false
  costLimitUnsupported := false
  outputLimit := false
  gitIdentityMissing := false
  deadlineExceeded := false
  execution := none

/-- A check that has not finished. -/
def pendingCheck : StepResult :=
  { sampleResult with status := .pending, pauseReason := "ci_pending" }

/-- A run is created. -/
def createdHistory : List EngineStep := [.op 0 (.wfeCreateWorkItem sampleRequest)]

/-- Eight advances with one outcome, after each of which the scheduler resumes the run. -/
def resumedHistory (outcome : Outcome) (reason : String) : List EngineStep :=
  (List.range 8).flatMap fun i =>
    [.advance (sampleCall (60 * i) outcome) "item", .op (60 * i + 30) (.wfeResumeTransient reason 15)]

def outageStore : Store :=
  (Store.empty.runSteps createdHistory).runSteps (resumedHistory (.error outage) "runner_unavailable")

def outageItem : WorkItem := (outageStore.item? "item").getD (.new 0 "" "" "" "" "" "" "")

theorem item?_outageStore : outageStore.item? "item" = some outageItem := by
  decide +kernel

theorem outages_escalate_after_failures :
    (advance (sampleCall 500 (.error outage)) "item" outageStore).result.pauseReason = "delegate_failed" ∧
      maxRunnerFailuresWithoutProgress ≤
        failuresSince "item" outageItem.currentStage (Store.empty.runSteps createdHistory)
          (resumedHistory (.error outage) "runner_unavailable") 0 := by
  have hreason :
      (advance (sampleCall 500 (.error outage)) "item" outageStore).result.pauseReason = "delegate_failed" := by
    decide +kernel
  refine ⟨hreason, ?_⟩
  exact delegate_failed_after_failures (by decide +kernel) (by decide +kernel) item?_outageStore
    (by decide +kernel) rfl (by decide +kernel) hreason

def pendingHistory : List EngineStep :=
  createdHistory ++ resumedHistory (.result pendingCheck) "ci_pending"

def pendingItem : WorkItem :=
  ((Store.empty.runSteps pendingHistory).item? "item").getD (.new 0 "" "" "" "" "" "" "")

theorem item?_pendingHistory : (Store.empty.runSteps pendingHistory).item? "item" = some pendingItem := by
  decide +kernel

/-- Eight looks at a pending check fill the count: the first failure after them is escalated. -/
theorem pending_checks_escalate :
    ¬∀ (history : List EngineStep) (c : Call) (id : String) (w : WorkItem) (e : RunnerError),
      (Store.empty.runSteps history).item? id = some w → w.Runnable → c.outcome = .error e →
        e.isCapacityBackpressure = false →
        (advance c id (Store.empty.runSteps history)).result.pauseReason = "delegate_failed" →
          maxRunnerFailuresWithoutProgress ≤ failuresSince id w.currentStage .empty history 0 := by
  intro h
  have hfailures := h pendingHistory (sampleCall 500 (.error outage)) "item" pendingItem outage
    item?_pendingHistory (by decide +kernel) rfl (by decide +kernel) (by decide +kernel)
  revert hfailures
  decide +kernel

end Workflow
