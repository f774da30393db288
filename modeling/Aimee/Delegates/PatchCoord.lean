-- SUMMARY: Where the patches of a coordinated run stand: the state of each packet, and what the report counts.
import Aimee.Delegates.Handoff
import Aimee.Delegates.Rescue

/-!
# Patch coordination

`patchcoord.go`. A packet is reviewable when its handoff is believable, inside its ownership, on the
integration base and tested, and touches no file of a packet that is reviewable already.
-/

namespace Delegates

open Economizer (Text utf8 JsonValue)

def patchMaxFiles : ℕ := 32

def patchMaxTasks : ℕ := 64

def patchDefaultNext : Text := utf8 "./aimee git verify"

def patchReviewSchema : Text := utf8 "delegate_review_v1"

def patchResultSchema : Text := utf8 "delegate_result_v1"

structure PatchTask where
  id : ℤ
  stepId : ℤ
  status : Text
  files : Text
  result : Text
  error : Text
  deriving DecidableEq

inductive PatchState where
  | planned
  | running
  | returned
  | reviewable
  | accepted
  | failed
  | needsSupervisor
  | reviewer
  deriving DecidableEq

structure PatchTaskReport where
  taskId : ℤ
  stepId : ℤ
  taskStatus : Text
  patchState : PatchState
  handoffStatus : Text
  handoffValid : Bool
  changedFilesCount : ℕ
  passedTests : ℕ
  outsideOwnershipCount : ℕ
  overlapTaskId : ℤ
  staleBase : Bool
  supervisorActions : ℕ
  note : Text
  deriving DecidableEq

/-- The row of a task whose handoff has not been read. -/
def PatchTaskReport.start (task : PatchTask) (state : PatchState) (note : Text) : PatchTaskReport where
  taskId := task.id
  stepId := task.stepId
  taskStatus := task.status
  patchState := state
  handoffStatus := []
  handoffValid := false
  changedFilesCount := 0
  passedTests := 0
  outsideOwnershipCount := 0
  overlapTaskId := 0
  staleBase := false
  supervisorActions := 0
  note := note

structure PatchReport where
  implementationPackets : ℕ
  planned : ℕ
  running : ℕ
  returned : ℕ
  verified : ℕ
  reviewable : ℕ
  accepted : ℕ
  failed : ℕ
  needsSupervisor : ℕ
  invalidHandoffs : ℕ
  outsideOwnershipTouches : ℕ
  patchOverlaps : ℕ
  staleWorktrees : ℕ
  focusedTestsPassed : ℕ
  reviewerPackets : ℕ
  reviewerBlockingFindings : ℕ
  reviewerOwnerPacketRoutes : ℕ
  reviewerStatus : Text
  recommendedNextCommand : Text
  tasks : List PatchTaskReport
  deriving DecidableEq

def PatchReport.initial : PatchReport where
  implementationPackets := 0
  planned := 0
  running := 0
  returned := 0
  verified := 0
  reviewable := 0
  accepted := 0
  failed := 0
  needsSupervisor := 0
  invalidHandoffs := 0
  outsideOwnershipTouches := 0
  patchOverlaps := 0
  staleWorktrees := 0
  focusedTestsPassed := 0
  reviewerPackets := 0
  reviewerBlockingFindings := 0
  reviewerOwnerPacketRoutes := 0
  reviewerStatus := utf8 "not_run"
  recommendedNextCommand := patchDefaultNext
  tasks := []

/-! ## The handoff of a task -/

def isSchema (v : Option JsonValue) (name : Text) : Bool :=
  match v.bind (·.get "schema_version") with
  | some (.string s) => s = name
  | _ => false

def isHandoffOrReview (v : Option JsonValue) : Bool := isSchema v patchResultSchema || isSchema v patchReviewSchema

/-- A result is a handoff, or carries one as a `response`. -/
def patchHandoffText (root : Option JsonValue) (raw : Text) : Text :=
  if isHandoffOrReview root then raw
  else match root.bind (·.get "response") with
  | some (.string s) => s
  | some (.object members) => (JsonValue.object members).print
  | _ => []

def patchHandoffObject (root : Option JsonValue) (text : Text) : Option JsonValue :=
  if isHandoffOrReview root then root
  else if text = [] then none
  else (parseJSONPrefix text).filter fun parsed => isHandoffOrReview (some parsed)

/-- The strings of a list that are not empty, up to the limit. -/
def stringList (v : Option JsonValue) : List Text :=
  match v with
  | some (.array items) => (nonEmptyStrings items).take patchMaxFiles
  | _ => []

def listsOverlap (a b : List Text) : Bool := a.any fun x => b.contains x

/-- The paths a list does not have yet, onto its end, up to the limit or an empty path. -/
def addUnique (list : List Text) : List Text → List Text
  | [] => list
  | path :: rest =>
    if path = [] ∨ patchMaxFiles ≤ list.length then list
    else addUnique (if list.contains path then list else list ++ [path]) rest

def supervisorActionCount (handoff : Option JsonValue) : ℕ :=
  match handoff.bind (·.get "supervisor_actions") with
  | some (.array items) => items.length
  | _ => 0

/-- The first of the keys that holds a string. -/
def firstString (v : JsonValue) (keys : List String) : Option Text :=
  keys.findSome? fun k =>
    match v.get k with
    | some (.string s) => some s
    | _ => none

/-- An explicit flag wins; else both commits must be known, and differ. -/
def handoffBaseIsStale (handoff : Option JsonValue) : Bool :=
  match handoff with
  | some (.object members) =>
    let handoff := JsonValue.object members
    match (handoff.get "stale_base").or (handoff.get "worktree_stale") with
    | some (.bool true) => true
    | _ =>
      match firstString handoff ["base_commit", "delegate_base_commit", "base_sha"],
        firstString handoff ["integration_base_commit", "integration_head", "integration_base_sha"] with
      | some base, some integration => base ≠ integration
      | _, _ => false
  | _ => false

/-- The findings that are not explicitly minor. -/
def reviewerBlockingCount (findings : Option JsonValue) : ℕ :=
  match findings with
  | some (.array items) => items.countP fun finding =>
    match finding.get "severity" with
    | some (.string severity) => severity ≠ utf8 "note" && severity ≠ utf8 "low"
    | _ => true
  | _ => 0

/-- The findings that name the packet responsible. -/
def reviewerFindingRoutes (findings : Option JsonValue) : ℕ :=
  match findings with
  | some (.array items) => items.countP fun finding => finding.getString "owner_packet" ≠ []
  | _ => 0

namespace PatchTask

variable (task : PatchTask)

def root : Option JsonValue := if task.result = [] then none else parseJSONPrefix task.result

def handoffText : Text := patchHandoffText task.root task.result

/-- The handoff as the ordered reader has it. -/
def handoff : Option JsonValue := patchHandoffObject task.root task.handoffText

/-- The changed files of that handoff. -/
def changedFiles : List Text := stringList (task.handoff.bind (·.get "changed_files"))

def verdict : HandoffVerdict := (validateHandoff task.handoffText task.files true).1

/-- A well-formed handoff of a task that is done. -/
def handedOff : Bool :=
  task.status = utf8 "done" && task.handoffText ≠ [] && (validateHandoff task.handoffText task.files true).2

end PatchTask

/-! ## The report -/

/-- A reviewer's packet is counted on its own. -/
def PatchReport.addState (r : PatchReport) : PatchState → PatchReport
  | .planned => { r with planned := r.planned + 1 }
  | .running => { r with running := r.running + 1 }
  | .returned => { r with returned := r.returned + 1 }
  | .reviewable => { r with reviewable := r.reviewable + 1 }
  | .accepted => { r with accepted := r.accepted + 1 }
  | .failed => { r with failed := r.failed + 1 }
  | .needsSupervisor => { r with needsSupervisor := r.needsSupervisor + 1 }
  | .reviewer => r

/-- The row of a task, and its state counted. -/
def PatchReport.setTaskState (r : PatchReport) (row : PatchTaskReport) : PatchReport :=
  { r.addState row.patchState with tasks := r.tasks ++ [row] }

def PatchReport.processReviewer (r : PatchReport) (handoff : Option JsonValue) : PatchReport :=
  let status := match handoff.bind (·.get "status") with
    | some (.string s) => if s = [] then utf8 "needs_supervisor" else s
    | _ => utf8 "needs_supervisor"
  let findings := handoff.bind (·.get "findings")
  { r with
    reviewerPackets := r.reviewerPackets + 1
    reviewerStatus := status
    reviewerBlockingFindings := r.reviewerBlockingFindings +
      if status = utf8 "block" then reviewerBlockingCount findings else 0
    reviewerOwnerPacketRoutes := r.reviewerOwnerPacketRoutes + reviewerFindingRoutes findings }

def orElse (primary : Text) (fallback : String) : Text := if primary = [] then utf8 fallback else primary

/-- A task that has nothing to hand off, with its state and its note. -/
def notReturned (task : PatchTask) : Option (PatchState × Text) :=
  if task.status = utf8 "pending" then some (.planned, utf8 "packet has not launched")
  else if task.status = utf8 "claimed" ∨ task.status = utf8 "running" then some (.running, utf8 "delegate is active")
  else if task.status = utf8 "failed" then some (.failed, orElse task.error "delegate failed")
  else none

/-- The files of the reviewable packets, and who claimed them. -/
abbrev Claims := List (List Text × ℤ)

/-- The first packet that claimed one of the files; 0 stands for none. -/
def overlap (claimed : Claims) (files : List Text) : ℤ :=
  match claimed.find? fun c => listsOverlap files c.1 with
  | some (_, id) => id
  | none => 0

/-- The state of a packet with a handoff, its note, and the packet it overlaps. -/
def judgeState (claimed : Claims) (task : PatchTask) : PatchState × Text × ℤ :=
  let verdict := task.verdict
  if verdict.status = utf8 "failed" then (.failed, orElse verdict.error "delegate reported failed", 0)
  else if verdict.status = utf8 "blocked" then (.needsSupervisor, orElse verdict.error "delegate reported blocked", 0)
  else if 0 < verdict.outsideOwnershipCount then
    (.needsSupervisor, orElse verdict.error "changed files outside owned_files", 0)
  else if handoffBaseIsStale task.handoff then
    (.needsSupervisor, utf8 "delegate base differs from integration base", 0)
  else if verdict.passedTests = 0 then (.returned, orElse verdict.error "focused verification not reported", 0)
  else if 0 < overlap claimed task.changedFiles then
    (.needsSupervisor, utf8 "changed files overlap another packet", overlap claimed task.changedFiles)
  else (.reviewable, utf8 "ownership and verification checks passed", 0)

/-- The report, and the files of its reviewable packets. -/
structure PatchRun where
  report : PatchReport
  claimed : Claims
  deriving DecidableEq

def PatchRun.initial : PatchRun := ⟨.initial, []⟩

/-- A packet with a handoff. -/
def PatchRun.judge (s : PatchRun) (task : PatchTask) : PatchRun :=
  let verdict := task.verdict
  let stale := handoffBaseIsStale task.handoff
  let (state, note, overlaps) := judgeState s.claimed task
  let report := { s.report with
    focusedTestsPassed := s.report.focusedTestsPassed + verdict.passedTests
    outsideOwnershipTouches := s.report.outsideOwnershipTouches + verdict.outsideOwnershipCount
    staleWorktrees := s.report.staleWorktrees + if stale then 1 else 0
    verified := s.report.verified + if 0 < verdict.passedTests then 1 else 0
    patchOverlaps := s.report.patchOverlaps + if 0 < overlaps then 1 else 0 }
  { report := report.setTaskState { PatchTaskReport.start task state note with
      handoffStatus := verdict.status
      handoffValid := verdict.valid
      changedFilesCount := verdict.changedFilesCount
      passedTests := verdict.passedTests
      outsideOwnershipCount := verdict.outsideOwnershipCount
      overlapTaskId := overlaps
      staleBase := stale
      supervisorActions := supervisorActionCount task.handoff }
    claimed := if state = .reviewable then s.claimed ++ [(addUnique [] task.changedFiles, task.id)] else s.claimed }

/-- One task of the run. -/
def PatchRun.step (s : PatchRun) (task : PatchTask) : PatchRun :=
  let packet := { s.report with implementationPackets := s.report.implementationPackets + 1 }
  match notReturned task with
  | some (state, note) => { s with report := packet.setTaskState (.start task state note) }
  | none =>
    if isSchema task.handoff patchReviewSchema then
      let report := s.report.processReviewer task.handoff
      { s with report := report.setTaskState (.start task .reviewer (utf8 "read-only reviewer result")) }
    else if !task.handedOff then
      let missing := "missing or invalid structured handoff"
      let note := if task.status = utf8 "done" ∧ task.handoffText ≠ [] then orElse task.verdict.error missing
        else utf8 missing
      let report := { packet with invalidHandoffs := packet.invalidHandoffs + 1 }
      { s with report := report.setTaskState { PatchTaskReport.start task .needsSupervisor note with
          handoffStatus := statusNeedsReview } }
    else { s with report := packet }.judge task

/-- The tasks one after the other, until the report is full. -/
def PatchRun.steps (s : PatchRun) : List PatchTask → PatchRun
  | [] => s
  | task :: rest => if patchMaxTasks ≤ s.report.tasks.length then s else (s.step task).steps rest

def buildPatchReport (tasks : List PatchTask) : PatchReport := (PatchRun.initial.steps tasks).report

end Delegates
