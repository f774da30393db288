-- SUMMARY: The engine's view of the tree: counts since progress, sweeps that resume or abandon, stopping, parking and deleting trees.
import Aimee.Workflow.Transitions

/-!
# Sweeps and trees

The operations of `lifecycle_engine.go` on work items and their events.
-/

namespace Workflow

def lifecycleListMax : ℤ := 512

/-! ## Counts since progress -/

/-- `text LIKE pattern || '%'`: the `_` of the pattern stands for any character. -/
def likePrefix : (pattern text : List Char) → Bool
  | [], _ => true
  | _ :: _, [] => false
  | p :: pattern, c :: text => (p = '_' || p = c) && likePrefix pattern text

/-- `detail LIKE 'capacity_backpressure:%'`. -/
def isCapacityDetail (detail : String) : Bool :=
  likePrefix "capacity_backpressure:".toList detail.toList

namespace Store

/-- The events of a run that count as progress. -/
def progressKinds : List String := ["advance", "loop", "create"]

/-- The newest progress event of a run, zero if it has none. -/
def lastProgress (s : Store) (workItemId : String) : ℕ :=
  ((s.events.filter fun e => e.workItemId = workItemId && e.kind ∈ progressKinds).map (·.id)).foldl max 0

/-- `wfeSinceProgressSQL`: the pauses of a stage since the run last made progress, on one side
    of the capacity predicate. -/
def pausesSince (s : Store) (workItemId stage : String) (capacity : Bool) : ℕ :=
  s.events.countP fun e =>
    e.workItemId = workItemId && e.stage = stage && e.kind = "pause" &&
      isCapacityDetail e.detail = capacity && s.lastProgress workItemId < e.id

end Store

def wfeRunnerFailuresSince (workItemId stage : String) (s : Store) : Reply ℕ :=
  if workItemId = "" then .invalid else .ok (s.pausesSince workItemId stage false)

def wfeCapacityWaitsSince (workItemId stage : String) (s : Store) : Reply ℕ :=
  if workItemId = "" then .invalid else .ok (s.pausesSince workItemId stage true)

/-! ## Sweeps -/

def wfeResumeTransient (now : Time) (reason : String) (secs : ℤ) (s : Store) : Store × Reply ℕ :=
  if reason = "" ∨ secs < 0 then (s, .invalid) else
  let hit := fun w : WorkItem =>
    w.state = "active" && w.pauseReason = reason && w.updatedAt ≤ now - secs
  (s.updateItems hit (fun w => { w with pauseReason := "", pausedState := "", updatedAt := now })
    (cleared_workItemId now), .ok (s.items.matched hit))

/-- A run gets `maxResumes` chances, and the counter is what spends them. -/
def wfeResumeWallCaps (now : Time) (maxResumes : ℤ) (s : Store) : Store × Reply ℕ :=
  if maxResumes < 0 then (s, .invalid) else
  let hit := fun w : WorkItem =>
    w.state = "active" && w.pauseReason = "wall_cap" && (w.overrideCount : ℤ) < maxResumes
  (s.updateItems hit
    (fun w => { w with
      pauseReason := "", pausedState := "", overrideCount := w.overrideCount + 1, updatedAt := now })
    fun _ => rfl, .ok (s.items.matched hit))

def wfeAbandonExhaustedWallCaps (now : Time) (maxResumes graceSecs : ℤ) (s : Store) :
    Store × Reply ℕ :=
  if maxResumes < 0 ∨ graceSecs < 0 then (s, .invalid) else
  let hit := fun w : WorkItem =>
    w.state = "active" && w.pauseReason = "wall_cap" && maxResumes ≤ (w.overrideCount : ℤ) &&
      w.updatedAt < now - graceSecs
  (s.updateItems hit
    (fun w => { w with state := "abandoned", pauseReason := "", pausedState := "", updatedAt := now })
    (abandoned_workItemId now), .ok (s.items.matched hit))

/-- Parents that fanned out and whose slices have all finished. -/
def wfeResumeReadyParents (now : Time) (s : Store) : Store × Reply ℕ :=
  let hit := fun parent : WorkItem =>
    parent.state = "active" && parent.pauseReason = "slices_running" &&
      s.items.rows.any (·.parentId = parent.workItemId) &&
      !s.items.rows.any fun child => child.parentId = parent.workItemId && child.state = "active"
  (s.updateItems hit (fun w => { w with pauseReason := "", pausedState := "", updatedAt := now })
    (cleared_workItemId now), .ok (s.items.matched hit))

/-! ## Ending sets of runs -/

/-- The states of a parent whose children are orphans. -/
def endedStates : List String := ["accepted", "rejected", "stopped", "abandoned"]

namespace Store

/-- `orphanCTE`: active runs whose parent has ended, and their active descendants. -/
def orphans (s : Store) : List String :=
  RecursiveUnion.recursiveUnion
    (fun id => (s.items.rows.filter fun w => w.parentId = id && w.state = "active").map (·.workItemId))
    (s.items.rows.map (·.workItemId))
    ((s.items.rows.filter fun child => child.state = "active" &&
      s.items.rows.any fun parent =>
        parent.workItemId = child.parentId && parent.state ∈ endedStates).map (·.workItemId))

/-- The active members of a set, in the order of their identifiers. -/
def activeIn (s : Store) (ids : List String) : List String :=
  ((s.items.rows.filter fun w => w.workItemId ∈ ids && w.state = "active").map (·.workItemId)).mergeSort

/-- A terminal event for every member that is ended, from its own row. -/
def addTerminalEvents (s : Store) (ids : List String) (detail : String) : Store :=
  (s.items.rows.filter fun w => w.workItemId ∈ ids && w.state = "active").foldl
    (fun t w => t.addEvent w.workItemId w.currentStage "terminal" "go-wfe" detail w.contentHash 0) s

end Store

/-- Writes a terminal event for every active member of a set, stops it and drops its frozen
    creates. -/
def endActiveSet (now : Time) (ids : List String) (detail : String) (s : Store) : Store × List String :=
  let ended := s.activeIn ids
  if ended = [] then (s, []) else
  let s := s.addTerminalEvents ended detail
  let s := s.updateItems (fun w => w.workItemId ∈ ended && w.state = "active")
    (fun w => { w with state := "stopped", pauseReason := "", pausedState := "", updatedAt := now })
    fun _ => rfl
  (s.deleteFrozen (· ∈ ended), ended)

/-- Stops a run and everything under it. -/
def wfeStopTree (now : Time) (workItemId : String) (limit : ℤ) (s : Store) : Store × Reply (List String) :=
  if workItemId = "" ∨ limit ≤ 0 ∨ lifecycleListMax < limit then (s, .invalid) else
  let (s, ids) := endActiveSet now (s.tree workItemId) "operator_stop" s
  (s, .ok (ids.take limit.toNat))

/-- Stops active runs whose parent already finished. -/
def wfeReconcileOrphans (now : Time) (limit : ℤ) (s : Store) : Store × Reply (List String) :=
  if limit ≤ 0 ∨ lifecycleListMax < limit then (s, .invalid) else
  let (s, ids) := endActiveSet now s.orphans "ancestor_terminal" s
  (s, .ok (ids.take limit.toNat))

/-- The tree ran out of money. Charging is skipped when there is nothing to charge, so a park with
    no completed invocation does not clear a reservation it never consumed. -/
def wfeParkBudgetTree (now : Time) (rootId completedId : String) (addedCost : ℚ) (s : Store) :
    Store × Reply Unit :=
  if rootId = "" then (s, .invalid) else
  let s := if 0 < addedCost ∧ completedId ≠ "" then
      s.updateItems (·.workItemId = completedId)
        (fun w => { w with
          cumCostUsd := w.cumCostUsd + addedCost.toNNRat, reservation := clearReservation })
        fun _ => rfl
    else s
  (s.updateItems
    (fun w => w.state = "active" && w.pauseReason = "" && w.workItemId ∈ s.tree rootId &&
      (w.reservation.state = .none || w.workItemId = completedId))
    (fun w => { w with pauseReason := "budget_cap", pausedState := w.currentStage, updatedAt := now })
    fun _ => rfl, .ok ())

/-- Removes a run and everything under it from every table. -/
def wfeDeleteTree (workItemId : String) (s : Store) : Store × Reply Unit :=
  if workItemId = "" then (s, .invalid) else
  let ids := s.tree workItemId
  ({ s with
      frozen := s.frozen.delete (·.workItemId ∈ ids)
      convergence := s.convergence.delete (·.workItemId ∈ ids)
      attempts := s.attempts.delete (·.workItemId ∈ ids)
      events := s.events.filter (·.workItemId ∉ ids)
      items := s.items.delete (·.workItemId ∈ ids) }, .ok ())

end Workflow
