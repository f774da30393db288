-- SUMMARY: The scheduler's survey of a listing, and the calls of a pass.
import Aimee.Workflow.Tree

/-!
# A pass of the scheduler

`scheduler.go`: `survey` says what a listing has to do and when to look again, and `fill` makes the calls to the
store that follow from it. The clean-up of worktrees and the dispatch after them change neither.
-/

namespace Scheduler

open Workflow (endedStates)

/-- Nanoseconds since the zero time. -/
abbrev Instant := ℤ

abbrev Duration := Int64

def second : Duration := 1000000000

def storeRetry : Duration := 5 * second
def cancelTerminalRetry : Duration := 30 * second
def minimumRecheck : Duration := second

def Instant.add (t : Instant) (d : Duration) : Instant := t + d.toInt

structure TransientPause where
  reason : String
  backoff : Duration
  deriving DecidableEq

def schedulerTransientPauses : List TransientPause :=
  [{ reason := "runner_unavailable", backoff := 5 * second },
   { reason := "capacity_backpressure", backoff := 30 * second },
   { reason := "panel_capacity", backoff := 30 * second },
   { reason := "panel_capacity_deadline", backoff := 30 * second },
   { reason := "panel_deadline", backoff := 60 * second },
   { reason := "ci_pending", backoff := 15 * second },
   { reason := "merge_pending", backoff := 15 * second },
   { reason := "panel_unreachable", backoff := 60 * second },
   { reason := "roundtable_discussion", backoff := 60 * second },
   { reason := "roundtable_chairman", backoff := 60 * second },
   { reason := "dependency_pending", backoff := 30 * second }]

/-- The part of `RunPolicy` that a pass reads. -/
structure RunPolicy where
  autoResumeWall : Bool := false
  maxResumes : ℤ := 0
  staleAbandon : Duration := 0
  deriving DecidableEq

/-- The columns of a listed work item that a survey reads. -/
structure Item where
  id : String
  state : String
  parentId : String
  pauseReason : String
  overrideCount : ℤ
  updatedAt : String
  deriving DecidableEq

/-! ## Survey -/

structure PendingWork where
  transientDue : List String := []
  wallResumable : Bool := false
  wallAbandon : Bool := false
  fanInParents : Bool := false
  orphans : Bool := false
  terminal : ℕ := 0
  next : Instant := 0

/-- The next due time is the zero time while there is none. -/
def PendingWork.dueAt (work : PendingWork) (due : Instant) : PendingWork :=
  if work.next = 0 ∨ due < work.next then { work with next := due } else work

/-- The shortest backoff of the pauses, zero without one. -/
def shortest (pauses : List TransientPause) : Duration :=
  pauses.foldl (fun shortest pause => if shortest = 0 ∨ pause.backoff < shortest then pause.backoff else shortest) 0

def PendingWork.sweepAll (work : PendingWork) (pauses : List TransientPause) (now : Instant) : PendingWork :=
  PendingWork.dueAt
    { work with
      transientDue := pauses.map (·.reason) ++ work.transientDue
      wallResumable := true, wallAbandon := true, fanInParents := true, orphans := true }
    (now.add (shortest pauses))

section

variable (storeTime : String → Option Instant) (pauses : List TransientPause) (policy : RunPolicy) (now : Instant)

/-- The case of a wall cap. The store compares at whole seconds, so the grace is rounded up by one. -/
def surveyWallCap (item : Item) (work : PendingWork) : PendingWork :=
  if policy.autoResumeWall ∧ item.overrideCount < policy.maxResumes then { work with wallResumable := true }
  else
    match storeTime item.updatedAt with
    | none => work
    | some updated =>
      if 0 < policy.staleAbandon then
        let due := updated.add (policy.staleAbandon + second)
        if due ≤ now then { work with wallAbandon := true } else work.dueAt due
      else work

/-- When the backoff of a pause is over, at once where the stamp does not parse. -/
def backoffOver (item : Item) (pause : TransientPause) : Instant :=
  match storeTime item.updatedAt with
  | none => now
  | some updated => updated.add (pause.backoff + second)

/-- The case of any other pause. Of two backoffs of one reason the map has the last. -/
def surveyTransient (item : Item) (work : PendingWork) : PendingWork :=
  match pauses.reverse.find? (·.reason = item.pauseReason) with
  | none => work
  | some pause =>
    let due := backoffOver storeTime now item pause
    if due ≤ now then { work with transientDue := item.pauseReason :: work.transientDue } else work.dueAt due

def surveyItem (active : List String) (work : PendingWork) (item : Item) : PendingWork :=
  if item.state ∈ endedStates then { work with terminal := work.terminal + 1 }
  else if item.state ≠ "active" then work
  else
    let work := if item.parentId ≠ "" ∧ item.parentId ∉ active then { work with orphans := true } else work
    if item.pauseReason = "" then work
    else if item.pauseReason = "slices_running" then { work with fanInParents := true }
    else if item.pauseReason = "wall_cap" then surveyWallCap storeTime policy now item work
    else surveyTransient storeTime pauses now item work

/-- The identifiers of the active items. -/
def activeIds (items : List Item) : List String := (items.filter (·.state = "active")).map (·.id)

/-- `survey`. `storeTime` parses a stamp. -/
def survey (items : List Item) : PendingWork :=
  items.foldl (surveyItem storeTime pauses policy now (activeIds items)) {}

end

/-! ## Pass -/

/-- The calls of a pass to the store and to the resource plane. -/
inductive Call where
  | resumeWallCaps (maxResumes : ℤ)
  | abandonExhaustedWallCaps (maxResumes : ℤ) (grace : Duration)
  | reconcileOrphanedDescendants
  | cancelTerminal
  | resumeTransient (reason : String) (backoff : Duration)
  | resumeReadyParents
  deriving DecidableEq

/-- A listing of the store, where an identifier stands once. -/
structure Listing where
  items : List Item
  nodup : (items.map (·.id)).Nodup

def listCeiling : ℕ := 512

/-- What a pass meets: the listing, or none where it fails, the clock, the policy of the source, and how many rows a
    call changes, none where it fails. -/
structure Pass where
  listing : Option Listing
  now : Instant
  policy : Option RunPolicy
  answer : Call → Option ℕ

/-- What a scheduler keeps from pass to pass, and whether it has a `cancelTerminal`. -/
structure State where
  cancelTerminal : Bool
  lastTerminal : ℕ := 0
  cancelRetry : Instant := 0
  deriving DecidableEq

/-- Whether a pass cancels the delegate jobs of terminal runs. -/
def State.cancels (s : State) (terminal : ℕ) (now : Instant) : Bool :=
  s.cancelTerminal && (s.lastTerminal < terminal || (s.cancelRetry ≠ 0 && s.cancelRetry ≤ now : Bool))

/-- When to try it again. -/
def State.retryAt (s : State) (terminal : ℕ) (pass : Pass) : Instant :=
  if s.cancels terminal pass.now then
    match pass.answer .cancelTerminal with
    | none => pass.now.add cancelTerminalRetry
    | some 0 => 0
    | some _ => pass.now.add cancelTerminalRetry
  else s.cancelRetry

/-- The calls of the wall caps. -/
def wallCalls (policy : Option RunPolicy) (work : PendingWork) : List Call :=
  match policy with
  | none => []
  | some policy =>
    (if policy.autoResumeWall && work.wallResumable then [.resumeWallCaps policy.maxResumes] else []) ++
      if 0 < policy.staleAbandon ∧
        work.wallAbandon then [.abandonExhaustedWallCaps policy.maxResumes policy.staleAbandon] else []

/-- The pauses whose resumption is due. -/
def duePauses (pauses : List TransientPause) (work : PendingWork) : List TransientPause :=
  pauses.filter (·.reason ∈ work.transientDue)

/-- `fill`: the state after it, its calls, and when to look again, the zero time if never. -/
def fill (storeTime : String → Option Instant) (pauses : List TransientPause) (s : State) (pass : Pass) :
    State × List Call × Instant :=
  match pass.listing with
  | none => (s, [], pass.now.add storeRetry)
  | some listing =>
    let surveyed := survey storeTime pauses (pass.policy.getD {}) pass.now listing.items
    let work := if listCeiling ≤ listing.items.length then surveyed.sweepAll pauses pass.now else surveyed
    let retryAt := s.retryAt work.terminal pass
    let timed := if retryAt ≠ 0 then work.dueAt retryAt else work
    -- Past due by this clock and not yet by the store's: look again shortly.
    let rechecked := (duePauses pauses work).foldl
      (fun timed pause =>
        if pass.answer (.resumeTransient pause.reason pause.backoff) = some 0 then
          timed.dueAt (pass.now.add minimumRecheck)
        else timed) timed
    ({ s with lastTerminal := work.terminal, cancelRetry := retryAt },
      wallCalls pass.policy work ++
        (if work.orphans then [.reconcileOrphanedDescendants] else []) ++
        (if s.cancels work.terminal pass.now then [.cancelTerminal] else []) ++
        (duePauses pauses work).map (fun pause => .resumeTransient pause.reason pause.backoff) ++
        if work.fanInParents then [.resumeReadyParents] else [],
      rechecked.next)

end Scheduler
