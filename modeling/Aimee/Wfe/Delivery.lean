-- SUMMARY: When a run of the daemon's engine is accepted: only out of a node with no way forward, which the validator makes the delivery gate.
import Aimee.Wfe.Engine

/-!
# The delivery gate

An enforced workflow is meant to be accepted only across its delivery gate. The validator looks at the
nodes without any outgoing edge; the engine accepts at a node without a forward edge. The two differ on
a node whose only edge is the one it loops back on.
-/

namespace Wfe

open Workflow (Store WorkItem Time Disposition workItemRecordOutcome stageAttemptInc workItemClearPause)

/-! ## What a change of the store does to a run -/

/-- From one store to the other, the row of a run keeps its workflow and is accepted only for a reason. -/
structure Follows (id : String) (reason : Prop) (s s' : Store) : Prop where
  row : ∀ w, s.item? id = some w → ∃ w', s'.item? id = some w' ∧ w'.workflowName = w.workflowName ∧
    (w'.state = "accepted" → w.state = "accepted" ∨ reason)

namespace Follows

variable {id : String} {reason : Prop} {s s' s'' : Store}

theorem refl (s : Store) : Follows id reason s s := ⟨fun w hw => ⟨w, hw, rfl, .inl⟩⟩

section

variable (h : Follows id reason s s')
include h

theorem trans (h' : Follows id reason s' s'') : Follows id reason s s'' := by
  constructor
  intro w hw
  obtain ⟨w', hw', hname, hstate⟩ := h.row w hw
  obtain ⟨w'', hw'', hname', hstate'⟩ := h'.row w' hw'
  refine ⟨w'', hw'', hname'.trans hname, fun haccepted => ?_⟩
  cases hstate' haccepted with
  | inl hbefore => exact hstate hbefore
  | inr hreason => exact .inr hreason

theorem mono {reason' : Prop} (hreason : reason → reason') :
    Follows id reason' s s' := by
  constructor
  intro w hw
  obtain ⟨w', hw', hname, hstate⟩ := h.row w hw
  exact ⟨w', hw', hname, fun haccepted => (hstate haccepted).imp_right hreason⟩

theorem update {p : WorkItem → Bool} {f : WorkItem → WorkItem}
    {hf : ∀ w, (f w).workItemId = w.workItemId} (hname : ∀ w, (f w).workflowName = w.workflowName)
    (hstate : ∀ w, (f w).state = "accepted" → w.state = "accepted" ∨ reason) :
    Follows id reason s (s'.updateItems p f hf) := by
  refine h.trans ⟨fun w hw => ?_⟩
  rw [Store.item?_updateItems, hw, Option.map_some]
  refine ⟨_, rfl, ?_⟩
  split
  · exact ⟨hname w, hstate w⟩
  · exact ⟨rfl, .inl⟩

theorem addEvent {a b c d e g : String} {x : ℚ} :
    Follows id reason s (s'.addEvent a b c d e g x) := ⟨h.row⟩

theorem incAttempts (a b : String) : Follows id reason s (s'.incAttempts a b) := ⟨h.row⟩

end

theorem ite (c : Prop) [Decidable c] (h : Follows id reason s s') (h' : Follows id reason s s'') :
    Follows id reason s (if c then s' else s'') := by
  split
  · exact h
  · exact h'

end Follows

section Record

variable (id : String) (s : Store) (now : Time)

/-- A recorded outcome accepts the run only if it says so. -/
theorem follows_recorded (disposition : Disposition) (cost : ℚ) (node kind detail hash : String) :
    Follows id (∃ b, disposition = .terminal "accepted" b) s
      (workItemRecordOutcome now id disposition cost node kind detail hash s).1 := by
  unfold workItemRecordOutcome
  split
  · exact .refl s
  · -- The cost is added first, whatever the disposition is.
    have hcost : ∀ reason, Follows id reason s (if 0 < cost then
        s.updateItems (fun w => (w.workItemId = id : Bool))
          (fun w => { w with cumCostUsd := w.cumCostUsd + cost.toNNRat, updatedAt := now }) (fun _ => rfl)
        else s) :=
      fun reason => .ite _ (.update (.refl s) (fun _ => rfl) fun _ => .inl) (.refl s)
    cases disposition with
    | terminal state abandons =>
      have hstate : ∀ w : WorkItem, state = "accepted" →
          w.state = "accepted" ∨ ∃ b, Disposition.terminal state abandons = .terminal "accepted" b :=
        fun w h => .inr ⟨abandons, by rw [h]⟩
      apply Follows.addEvent
      apply Follows.ite
      · apply Follows.update
        · apply Follows.update (hcost _)
          · exact fun _ => rfl
          · exact hstate
        · exact fun _ => rfl
        · exact fun w h => absurd h (show "abandoned" ≠ "accepted" by decide)
      · apply Follows.update (hcost _)
        · exact fun _ => rfl
        · exact hstate
    | pause reason stage =>
      apply Follows.addEvent
      apply Follows.update (hcost _)
      · exact fun _ => rfl
      · exact fun _ => .inl
    | advance next prRef park =>
      dsimp only
      generalize hmoved : Store.updateItems (if 0 < cost then _ else s) _ _ _ = moved
      have hmoved : ∀ reason, Follows id reason s moved := by
        intro reason
        subst hmoved
        apply Follows.update (hcost _)
        · exact fun _ => rfl
        · exact fun _ => .inl
      generalize hreferred : (if prRef ≠ "" then _ else moved) = referred
      have hreferred : ∀ reason, Follows id reason s referred := by
        intro reason
        subst hreferred
        apply Follows.ite
        · apply Follows.update (hmoved _)
          · exact fun _ => rfl
          · exact fun _ => .inl
        · exact hmoved reason
      split
      · exact (hreferred _).addEvent
      · apply Follows.addEvent
        apply Follows.update (hreferred _).addEvent
        · exact fun _ => rfl
        · exact fun _ => .inl

/-- The handler ends a run where the cell it takes for the disposition reads as 1. -/
theorem follows_handleOutcome
    (disposition cost state pauseReason pauseStage nextStage prRef parkReason nodeId kind detail hash
    abandonChildren : String) :
    Follows id (atoi disposition = some 1 ∧ state = "accepted") s
      (handleOutcome now s [id, disposition, cost, state, pauseReason, pauseStage, nextStage, prRef, parkReason,
        nodeId, kind, detail, hash, abandonChildren]).1 := by
  rw [handleOutcome]
  split
  · next hdisposition _ _ =>
    split_ifs with _ hterminal
    · exact (follows_recorded id s now _ _ _ _ _ _).mono (by simp)
    · refine (follows_recorded id s now _ _ _ _ _ _).mono ?_
      rintro ⟨_, hstate⟩
      cases hstate
      exact ⟨hterminal ▸ hdisposition, rfl⟩
    · exact (follows_recorded id s now _ _ _ _ _ _).mono (by simp)
    · exact .refl s
  · exact .refl s

/-- Only the end of a run fills the cell of the state. -/
theorem follows_outcomeCells (spellG17 : ℚ → String) (nodeId : String) (disposition : Disposition) (cost : ℚ)
    (kind detail hash : String) :
    Follows id (atoi nodeId = some 1 ∧ ∃ b, disposition = .terminal "accepted" b) s
      (handleOutcome now s (outcomeCells spellG17 id nodeId disposition cost kind detail hash)).1 := by
  cases disposition with
  | pause reason stage => exact (follows_handleOutcome id s now nodeId _ _ _ _ _ _ _ _ _ _ _ _).mono (by simp)
  | terminal state abandons =>
    refine (follows_handleOutcome id s now nodeId _ _ _ _ _ _ _ _ _ _ _ _).mono ?_
    rintro ⟨hid, rfl⟩
    exact ⟨hid, abandons, rfl⟩
  | advance next prRef park => exact (follows_handleOutcome id s now nodeId _ _ _ _ _ _ _ _ _ _ _ _).mono (by simp)

theorem follows_recordOutcome (daemon : Daemon) (n : Node) (disposition : Disposition) (cost : ℚ)
    (kind detail hash : String) (records : Bool) :
    Follows id (atoi n.id = some 1 ∧ ∃ b, disposition = .terminal "accepted" b) s
      (recordOutcome daemon now id n disposition cost kind detail hash records s).1 := by
  have hhandled := follows_outcomeCells id s now daemon.spellG17 n.id disposition cost kind detail hash
  unfold recordOutcome
  split
  · split
    · next heq => rwa [heq] at hhandled
    · next heq => rwa [heq] at hhandled
  · exact .refl s

theorem follows_countLoop {reason : Prop} (n : Node) (r : StepResult) (counts : Bool) :
    Follows id reason s (countLoop id n r counts s).1 := by
  unfold countLoop stageAttemptInc
  split
  · split
    · next heq =>
      split at heq
      · cases heq
      · cases heq
        exact .incAttempts (.refl s) id n.id
    · next heq =>
      split at heq
      · cases heq
        exact .refl s
      · cases heq
        exact .incAttempts (.refl s) id n.id
  · exact .refl s

end Record

/-! ## Acceptance -/

/-- A node with an edge to loop back on and none to go forward, other than the delivery gate. -/
def Node.loopsOnly (n : Node) : Bool :=
  n.onPass = "" && n.next = "" && n.onFail ≠ "" && n.block ≠ .gateDeliver

/-- What the engine makes of a loop is never an acceptance. -/
theorem decideCapped_ne_accepted (wi : WorkItem) (n : Node) (r : StepResult) (out : AdvanceResult) (b : Bool) :
    (decideCapped wi n r out).disposition ≠ .terminal "accepted" b := by
  unfold decideCapped
  cases nodeOnMax n with
  | fail => simp
  | pass => simp
  | human =>
    dsimp only
    split
    · simp [abandon]
    · simp

theorem decidePending_ne_accepted (wi : WorkItem) (n : Node) (r : StepResult) (out : AdvanceResult) (b : Bool) :
    (decidePending wi n r out).disposition ≠ .terminal "accepted" b := by
  unfold decidePending
  dsimp only
  split
  · simp [abandon]
  · simp

theorem nextStageFor_advanced_eq_empty {n : Node} :
    nextStageFor n .advanced = "" ↔ n.onPass = "" ∧ n.next = "" := by
  by_cases hpass : n.onPass = ""
  · simp [nextStageFor, hpass]
  · simp [nextStageFor, hpass]

theorem advanced_of_accepted {wi : WorkItem} {n : Node} {r : StepResult} {attempts : ℤ} {out : AdvanceResult}
    {decision : Decision} (h : decideOutcome wi n r attempts out = .ok decision) {b : Bool}
    (haccepted : decision.disposition = .terminal "accepted" b) :
    r.status = .advanced ∧ n.onPass = "" ∧ n.next = "" := by
  unfold decideOutcome at h
  cases hstatus : r.status with
  | pending =>
    rw [hstatus] at h
    cases h
    exact absurd haccepted (decidePending_ne_accepted wi n r out b)
  | failed =>
    rw [hstatus] at h
    cases h
    simp [decideFailed] at haccepted
  | advanced =>
    rw [hstatus] at h
    dsimp only at h
    split at h
    · next hnext => exact ⟨rfl, nextStageFor_advanced_eq_empty.mp hnext⟩
    · cases h
      simp [decideMove] at haccepted
  | looped =>
    rw [hstatus] at h
    dsimp only at h
    split at h
    · cases h
    · split at h
      · cases h
        exact absurd haccepted (decideCapped_ne_accepted wi n r out b)
      · cases h
        simp [decideMove] at haccepted

/-- A step accepts the run only at a node that advanced, has no forward edge and reads as 1. -/
theorem follows_stepNode (daemon : Daemon) (now : Time) (id : String) (wi : WorkItem) (n : Node) (input : StepInput)
    (s : Store) :
    Follows id (∃ r, input.executor = some r ∧ r.status = .advanced ∧ n.onPass = "" ∧ n.next = "" ∧
      atoi n.id = some 1) s
      (stepNode daemon now id wi n input s).1 := by
  unfold stepNode
  cases input.executor with
  | none => exact .refl s
  | some r =>
    dsimp only
    split
    · have hpaused := follows_recordOutcome id s now daemon n (.pause "budget_exceeded" n.id) 0 "pause"
        "budget_exceeded" "" input.records
      split
      all_goals
        next heq =>
          rw [heq] at hpaused
          exact hpaused.mono (by simp)
    · have hcounted (reason : Prop) : Follows id reason s (countLoop id n r input.counts s).1 :=
        follows_countLoop id s n r input.counts
      split
      · exact hcounted _
      · next decision hdecision =>
        have hrecorded := follows_recordOutcome id (countLoop id n r input.counts s).1 now daemon n decision.disposition
          (if 0 < r.costUsd then r.costUsd else 0) decision.eventKind decision.eventDetail decision.eventHash
          input.records
        have haccepts : (atoi n.id = some 1 ∧ ∃ b, decision.disposition = .terminal "accepted" b) →
            ∃ r', some r = some r' ∧ r'.status = .advanced ∧ n.onPass = "" ∧ n.next = "" ∧ atoi n.id = some 1 := by
          rintro ⟨hid, b, haccepted⟩
          obtain ⟨hadvanced, hpass, hnext⟩ := advanced_of_accepted hdecision haccepted
          exact ⟨r, rfl, hadvanced, hpass, hnext, hid⟩
        split
        all_goals
          next heq =>
            rw [heq] at hrecorded
            exact (hcounted _).trans (hrecorded.mono haccepts)

/-! ## Runs -/

section Runs

variable (daemon : Daemon) (id : String)

/-- The node a run is at: its row is active and not parked, and its stage is in its workflow. -/
def currentNode? (s : Store) : Option Node :=
  match s.item? id with
  | some wi =>
    if wi.state = "active" ∧ wi.pauseReason = "" then
      match daemon.load wi.workflowName with
      | .ok d => d.node? wi.currentStage
      | .error _ => none
    else none
  | none => none

def accepted (s : Store) : Prop := ∃ w, s.item? id = some w ∧ w.state = "accepted"

/-- A step whose current stage is a delivery gate that returned advanced. -/
def Delivers (s : Store) (e : Event) : Prop :=
  ∃ now input r n, e = .advance now input ∧ input.executor = some r ∧ r.status = .advanced ∧
    currentNode? daemon id s = some n ∧ n.block = .gateDeliver

/-- The run enters `accepted` only in a step that delivers. -/
def AcceptedByDelivery (s : Store) (events : List Event) : Prop :=
  ∀ before e, before ++ [e] <+: events → ¬accepted id (run daemon id s before) →
    accepted id (run daemon id s (before ++ [e])) → Delivers daemon id (run daemon id s before) e

/-- No step of the run advances out of a node that reads as 1 and can only loop back. -/
def NeverSkips (s : Store) (events : List Event) : Prop :=
  ∀ before now input r n, before ++ [.advance now input] <+: events → input.executor = some r → r.status = .advanced →
    currentNode? daemon id (run daemon id s before) = some n → atoi n.id = some 1 → n.loopsOnly = false

variable {id}

theorem run_snoc (s : Store) (events : List Event) (e : Event) :
    run daemon id s (events ++ [e]) = Event.apply daemon id (run daemon id s events) e := by
  rw [run, run, List.foldl_append, List.foldl_cons, List.foldl_nil]

/-- An advance leaves the store alone, or steps the node the run is at. -/
theorem engineAdvance_cases (now : Time) (input : StepInput) (s : Store) :
    (engineAdvance daemon now id input s).1 = s ∨
      ∃ wi n, currentNode? daemon id s = some n ∧ engineAdvance daemon now id input s =
        stepNode daemon now id wi n input s := by
  unfold engineAdvance currentNode?
  cases s.item? id with
  | none => exact .inl rfl
  | some wi =>
    dsimp only
    by_cases hactive : wi.state = "active"
    · by_cases hpause : wi.pauseReason = ""
      · rw [if_neg (not_not.mpr hactive), if_neg (not_not.mpr hpause), if_pos ⟨hactive, hpause⟩]
        cases daemon.load wi.workflowName with
        | error text => exact .inl rfl
        | ok d =>
          cases hnode : d.node? wi.currentStage with
          | none =>
            dsimp only
            rw [hnode]
            exact .inl rfl
          | some n =>
            dsimp only
            rw [hnode]
            exact .inr ⟨wi, n, rfl, rfl⟩
      · rw [if_neg (not_not.mpr hactive), if_pos hpause]
        exact .inl rfl
    · rw [if_pos hactive]
      exact .inl rfl

/-- One event accepts the run only by advancing out of the node it is at, which has no forward edge. -/
theorem follows_apply (s : Store) (e : Event) :
    Follows id (∃ now input r n, e = .advance now input ∧ input.executor = some r ∧ r.status = .advanced ∧
      currentNode? daemon id s = some n ∧ n.onPass = "" ∧ n.next = "" ∧ atoi n.id = some 1) s
        (e.apply daemon id s) := by
  cases e with
  | resume now =>
    simp only [Event.apply, workItemClearPause, Workflow.setField]
    split
    · exact .refl s
    · apply Follows.update (.refl s)
      · exact fun _ => rfl
      · exact fun _ => .inl
  | advance now input =>
    rw [Event.apply]
    rcases engineAdvance_cases daemon now input s with hsame | ⟨wi, n, hnode, hstep⟩
    · rw [hsame]
      exact .refl s
    · rw [hstep]
      refine (follows_stepNode daemon now id wi n input s).mono ?_
      rintro ⟨r, hr, hadvanced, hends⟩
      exact ⟨now, input, r, n, rfl, hr, hadvanced, hnode, hends⟩

theorem item_of_run {s : Store} {w : WorkItem} (h : s.item? id = some w) (events : List Event) :
    ∃ w', (run daemon id s events).item? id = some w' ∧ w'.workflowName = w.workflowName := by
  induction events using List.reverseRecOn with
  | nil => exact ⟨w, h, rfl⟩
  | append_singleton events e ih =>
    obtain ⟨w', hw', hname⟩ := ih
    obtain ⟨w'', hw'', hname', -⟩ := (follows_apply daemon (run daemon id s events) e).row w' hw'
    rw [run_snoc]
    exact ⟨w'', hw'', hname'.trans hname⟩

variable {daemon}

theorem mem_of_currentNode {s : Store} {w : WorkItem} {d : Def} (h : s.item? id = some w)
    (hload : daemon.load w.workflowName = .ok d) {events : List Event} {n : Node}
    (hnode : currentNode? daemon id (run daemon id s events) = some n) : n ∈ d.nodes := by
  obtain ⟨w', hw', hname⟩ := item_of_run daemon h events
  simp only [currentNode?, hw', hname, hload] at hnode
  split at hnode
  · exact List.mem_of_find?_eq_some hnode
  · cases hnode

theorem neverSkips_of_nodes {s : Store} {w : WorkItem} {d : Def} (h : s.item? id = some w)
    (hload : daemon.load w.workflowName = .ok d) (hnodes : ∀ n ∈ d.nodes, n.loopsOnly = false) (events : List Event) :
    NeverSkips daemon id s events :=
  fun _ _ _ _ n _ _ _ hnode _ => hnodes n (mem_of_currentNode h hload hnode)

/-- An accepted enforced workflow is delivered, in every run that never advances out of a node which can only
    loop back, is not the delivery gate itself and reads as 1. -/
theorem acceptedByDelivery {registry : List CustomBlock} {d : Def} (hvalid : defValidate registry d = none)
    (henforced : d.enforced = true) {s : Store} {w : WorkItem} (hitem : s.item? id = some w)
    (hload : daemon.load w.workflowName = .ok d) {events : List Event} (hforward : NeverSkips daemon id s events) :
    AcceptedByDelivery daemon id s events := by
  intro before e hbefore hnot haccepted
  obtain ⟨w₀, hw₀, -⟩ := item_of_run daemon hitem before
  obtain ⟨w₁, hw₁, -, hreason⟩ := (follows_apply daemon (run daemon id s before) e).row w₀ hw₀
  obtain ⟨w', hw', hstate⟩ := haccepted
  rw [run_snoc, hw₁, Option.some.injEq] at hw'
  subst hw'
  rcases hreason hstate with hbefore' | ⟨now, input, r, n, rfl, hr, hadvanced, hnode, hpass, hnext, hid⟩
  · exact absurd ⟨w₀, hw₀, hbefore'⟩ hnot
  refine ⟨now, input, r, n, rfl, hr, hadvanced, hnode, ?_⟩
  -- Without a forward edge the node has no edge at all, or it is the gate that loops back.
  by_cases hfail : n.onFail = ""
  · refine gateDeliver_of_terminal hvalid henforced (mem_of_currentNode hitem hload hnode) ?_
    simp [Node.terminal, hpass, hnext, hfail]
  · simpa [Node.loopsOnly, hpass, hnext, hfail] using hforward before now input r n hbefore hr hadvanced hnode hid

end Runs

/-! ## A gate that is crossed, and one that is passed by -/

/-- The loop of a manager up to the delivery gate, with its first node left open. -/
def managed (start next onFail : String) : Def where
  name := "managed"
  start := start
  enforced := true
  nodes := [
    { id := start, block := .understand, next := next, onFail := onFail },
    { id := "02", block := .implement, ins := [⟨"src", start⟩], next := "002" },
    { id := "002", block := .review, params := some (.object [("reviewer", .string "critic")])
      ins := [⟨"src", "02"⟩], next := "01" },
    { id := "01", block := .gateDeliver, ins := [⟨"src", "002"⟩] }]

/-- The daemon, where no step costs anything. -/
def managedDaemon (d : Def) : Daemon := ⟨fun _ => .ok d, fun _ => "0"⟩

def managedStore (start : String) : Store :=
  (Workflow.workItemCreate 0 "wi_1" "repo" "p.md" "managed" "v" start "interactive" .empty).1

def advanced : Event := .advance 1 { executor := some { status := .advanced } }

/-- An advance parks the run, as the handler finds the 0 of `abandon_children` where it looks for a park reason. -/
def managedRun : List Event := [advanced, .resume 2, advanced, .resume 2, advanced, .resume 2, advanced]

/-- With an edge forward, four advances cross the gate. -/
theorem managed_delivered :
    accepted "wi_1" (run (managedDaemon (managed "2" "02" "")) "wi_1" (managedStore "2") managedRun) ∧
      AcceptedByDelivery (managedDaemon (managed "2" "02" "")) "wi_1" (managedStore "2") managedRun := by
  refine ⟨⟨_, rfl, by decide +kernel⟩, ?_⟩
  exact acceptedByDelivery (by decide : defValidate [] (managed "2" "02" "") = none) rfl rfl rfl
    (neverSkips_of_nodes rfl rfl (by decide) _)

/-- With an edge back only, the validator accepts the workflow and the first advance accepts the run. -/
theorem managed_bypassed :
    defValidate [] (managed "1" "" "02") = none ∧ (managed "1" "" "02").enforced = true ∧
      (∃ w, (managedStore "1").item? "wi_1" = some w ∧ w.state = "active" ∧
        w.currentStage = (managed "1" "" "02").start) ∧
      ¬AcceptedByDelivery (managedDaemon (managed "1" "" "02")) "wi_1" (managedStore "1") [advanced] := by
  refine ⟨by decide, rfl, ⟨_, rfl, rfl, rfl⟩, fun h => ?_⟩
  have hnot : ¬accepted "wi_1" (managedStore "1") := by
    rintro ⟨w, hw, hstate⟩
    cases hw
    exact absurd hstate (by decide)
  have haccepted : accepted "wi_1" (run (managedDaemon (managed "1" "" "02")) "wi_1" (managedStore "1")
      ([] ++ [advanced])) := ⟨_, rfl, by decide +kernel⟩
  obtain ⟨now, input, r, n, -, -, -, hnode, hblock⟩ := h [] _ (List.prefix_refl _) hnot haccepted
  cases hnode
  cases hblock

end Wfe
