-- SUMMARY: The tables of the lifecycle family, the statements its operations are made of, and the tree of work items.
import Mathlib.Data.NNRat.Lemmas
import Aimee.Lib.Table
import Aimee.Lib.RecursiveUnion

/-!
# The lifecycle tables

Rows and statements of `schema_lifecycle.sql`. Costs are exact rationals, and the columns with
a check against negative values hold non-negative ones. Every operation of the family takes the
lifecycle lock before its first read, so an operation is a function of the store; one that ends
without a commit returns the store it was given.
-/

namespace Workflow

/-- A reading of the database clock, in seconds. -/
abbrev Time := ℤ

/-! ## Rows -/

inductive ReservationState where
  | none
  | reserved
  | unresolved
  | actual
  deriving DecidableEq

/-- The reservation columns of a work item. -/
structure Reservation where
  reservedCostUsd : ℚ≥0
  state : ReservationState
  owner : String
  leaseUntil : Option Time
  deriving DecidableEq

/-- What every transition clears: the reservation is spent once the invocation it
    authorised has ended. -/
def clearReservation : Reservation where
  reservedCostUsd := 0
  state := .none
  owner := ""
  leaseUntil := none

structure WorkItem where
  workItemId : String
  repo : String
  proposalPath : String
  workflowName : String
  workflowVersion : String
  currentStage : String
  state : String
  mode : String
  pauseReason : String
  pausedState : String
  contentHash : String
  prRef : String
  worktree : String
  submitter : String
  cumCostUsd : ℚ≥0
  reservation : Reservation
  workItemMaxCostUsd : ℚ≥0
  overrideCount : ℕ
  parentId : String
  sourcePath : String
  createdAt : Time
  updatedAt : Time
  deriving DecidableEq

structure Event where
  id : ℕ
  workItemId : String
  stage : String
  kind : String
  actor : String
  detail : String
  contentHash : String
  costUsd : ℚ
  deriving DecidableEq

structure StageAttempt where
  workItemId : String
  stage : String
  attempts : ℕ
  deriving DecidableEq

def StageAttempt.key (a : StageAttempt) : String × String := (a.workItemId, a.stage)

structure Convergence where
  workItemId : String
  gate : String
  artifactHash : String
  feedbackHash : String
  identicalRepeats : ℕ
  blockerSet : String
  deriving DecidableEq

def Convergence.key (c : Convergence) : String × String := (c.workItemId, c.gate)

structure FrozenCreate where
  parentId : String
  path : String
  workItemId : String
  contentHash : String
  deriving DecidableEq

def FrozenCreate.key (c : FrozenCreate) : String × String × String :=
  (c.parentId, c.path, c.workItemId)

structure Store where
  items : Table WorkItem WorkItem.workItemId
  events : List Event
  nextEventId : ℕ
  attempts : Table StageAttempt StageAttempt.key
  convergence : Table Convergence Convergence.key
  frozen : Table FrozenCreate FrozenCreate.key

def Store.empty : Store where
  items := .empty
  events := []
  nextEventId := 1
  attempts := .empty
  convergence := .empty
  frozen := .empty

/-- What an operation answers. `error` is a statement that the database refused. -/
inductive Reply (α : Type) where
  | ok (cells : α)
  | failed
  | invalid
  | missing
  | error
  deriving DecidableEq

/-! ## Statements on work items -/

namespace Store

def item? (s : Store) (workItemId : String) : Option WorkItem := s.items.find? workItemId

def updateItems (s : Store) (p : WorkItem → Bool) (f : WorkItem → WorkItem)
    (hf : ∀ w, (f w).workItemId = w.workItemId) : Store :=
  { s with items := s.items.update p f hf }

/-- The insert of a row, which the unique and check constraints of the table may refuse. -/
def insertItem (s : Store) (w : WorkItem) : Option Store :=
  if w.parentId = w.workItemId then none
  else if s.items.rows.any fun r => r.repo = w.repo && r.proposalPath = w.proposalPath then none
  else (s.items.insert w).map fun items => { s with items := items }

/-! ## Statements on the other tables -/

def addEvent (s : Store) (workItemId stage kind actor detail contentHash : String) (cost : ℚ) :
    Store :=
  { s with
    events := s.events ++ [
      { id := s.nextEventId, workItemId := workItemId, stage := stage, kind := kind,
        actor := actor, detail := detail, contentHash := contentHash, costUsd := cost }]
    nextEventId := s.nextEventId + 1 }

/-- The attempts of a stage, zero without a row. -/
def attemptsOf (s : Store) (workItemId stage : String) : ℕ :=
  (s.attempts.find? (workItemId, stage)).elim 0 (·.attempts)

/-- `stageAttemptIncSQL`. -/
def incAttempts (s : Store) (workItemId stage : String) : Store :=
  { s with
    attempts := s.attempts.upsert
      { workItemId := workItemId, stage := stage, attempts := s.attemptsOf workItemId stage + 1 } }

def dropStageAttempts (s : Store) (workItemId stage : String) : Store :=
  { s with attempts := s.attempts.delete fun a => a.workItemId = workItemId && a.stage = stage }

def deleteFrozen (s : Store) (p : String → Bool) : Store :=
  { s with frozen := s.frozen.delete fun c => p c.workItemId }

/-! ## What a statement leaves alone -/

section Frames

variable (s : Store) (p : WorkItem → Bool) (f : WorkItem → WorkItem)
  (hf : ∀ w, (f w).workItemId = w.workItemId) (q : String → Bool) (a b c d e g : String) (x : ℚ)

@[simp] theorem events_updateItems : (s.updateItems p f hf).events = s.events := rfl
@[simp] theorem frozen_updateItems : (s.updateItems p f hf).frozen = s.frozen := rfl

@[simp] theorem items_addEvent : (s.addEvent a b c d e g x).items = s.items := rfl
@[simp] theorem frozen_addEvent : (s.addEvent a b c d e g x).frozen = s.frozen := rfl

@[simp] theorem items_incAttempts : (s.incAttempts a b).items = s.items := rfl

@[simp] theorem items_dropStageAttempts : (s.dropStageAttempts a b).items = s.items := rfl

@[simp] theorem items_deleteFrozen : (s.deleteFrozen q).items = s.items := rfl

end Frames

/-! ## What a statement does -/

theorem item?_congr {s t : Store} (h : t.items = s.items) (id : String) : t.item? id = s.item? id := by
  rw [item?, item?, h]

@[simp] theorem item?_addEvent (s : Store) (a b c d e g : String) (x : ℚ) (id : String) :
    (s.addEvent a b c d e g x).item? id = s.item? id := rfl

@[simp] theorem item?_incAttempts (s : Store) (a b id : String) :
    (s.incAttempts a b).item? id = s.item? id := rfl

@[simp] theorem item?_dropStageAttempts (s : Store) (a b id : String) :
    (s.dropStageAttempts a b).item? id = s.item? id := rfl

@[simp] theorem item?_deleteFrozen (s : Store) (q : String → Bool) (id : String) :
    (s.deleteFrozen q).item? id = s.item? id := rfl

theorem item?_updateItems (s : Store) (p : WorkItem → Bool) (f : WorkItem → WorkItem)
    (hf : ∀ w, (f w).workItemId = w.workItemId) (id : String) :
    (s.updateItems p f hf).item? id = (s.item? id).map fun w => if p w then f w else w :=
  Table.find?_update s.items p f hf id

variable {w : WorkItem} {id : String}

theorem item?_updateItems_of_hit {s : Store} {p : WorkItem → Bool} {f : WorkItem → WorkItem}
    {hf : ∀ w, (f w).workItemId = w.workItemId} (hw : s.item? id = some w)
    (hp : p w = true) : (s.updateItems p f hf).item? id = some (f w) := by
  rw [item?_updateItems, hw, Option.map_some, if_pos hp]

theorem item?_updateItems_of_miss {s : Store} {p : WorkItem → Bool} {f : WorkItem → WorkItem}
    {hf : ∀ w, (f w).workItemId = w.workItemId} (hw : s.item? id = some w)
    (hp : p w = false) : (s.updateItems p f hf).item? id = some w := by
  rw [item?_updateItems, hw, Option.map_some, if_neg (Bool.eq_false_iff.mp hp)]

theorem workItemId_of_item? {s : Store} (h : s.item? id = some w) :
    w.workItemId = id :=
  Table.key_of_find? h

theorem items_of_insertItem {s t : Store} (h : s.insertItem w = some t) :
    t.items.rows = s.items.rows ++ [w] ∧ s.item? w.workItemId = none ∧
      w.parentId ≠ w.workItemId ∧ t = { s with items := t.items } := by
  unfold insertItem at h
  split at h
  · cases h
  · next hself =>
    split at h
    · cases h
    · obtain ⟨items, hitems, rfl⟩ := Option.map_eq_some_iff.mp h
      exact ⟨(Table.rows_of_insert hitems).1, (Table.rows_of_insert hitems).2, hself, rfl⟩

theorem attemptsOf_incAttempts (s : Store) (a b c d : String) :
    (s.incAttempts a b).attemptsOf c d =
      if a = c ∧ b = d then s.attemptsOf a b + 1 else s.attemptsOf c d := by
  unfold attemptsOf incAttempts
  rw [Table.find?_upsert]
  by_cases h : a = c ∧ b = d
  · rw [if_pos h, if_pos (by simp [StageAttempt.key, h.1, h.2])]
    rfl
  · rw [if_neg h, if_neg (by simpa [StageAttempt.key] using h)]

theorem attemptsOf_dropStageAttempts (s : Store) (a b c d : String) :
    (s.dropStageAttempts a b).attemptsOf c d = if a = c ∧ b = d then 0 else s.attemptsOf c d := by
  unfold attemptsOf dropStageAttempts
  rw [Table.find?_delete]
  cases hfind : s.attempts.find? (c, d) with
  | none => simp
  | some r =>
    have hkey : r.key = (c, d) := Table.key_of_find? hfind
    rw [StageAttempt.key, Prod.mk.injEq] at hkey
    by_cases h : a = c ∧ b = d
    · simp [Option.filter, hkey.1, hkey.2, h.1, h.2]
    · have h' : ¬(c = a ∧ d = b) := fun ⟨h₁, h₂⟩ => h ⟨h₁.symm, h₂.symm⟩
      have hkeep : (!(decide (r.workItemId = a) && decide (r.stage = b))) = true := by
        simpa [hkey.1, hkey.2, imp_iff_not_or] using h'
      rw [if_neg h, Option.filter_some, if_pos hkeep]

/-! ## The tree of work items -/

/-- `treeCTE`: a run and everything under it, the run itself whether or not it exists. -/
def tree (s : Store) (rootId : String) : List String :=
  RecursiveUnion.recursiveUnion
    (fun id => (s.items.rows.filter (·.parentId = id)).map (·.workItemId))
    (s.items.rows.map (·.workItemId)) [rootId]

/-- The rows of the climb in `budgetRootSQL`. -/
def ancestors (s : Store) (workItemId : String) : List WorkItem :=
  RecursiveUnion.recursiveUnion (fun w => s.items.rows.filter (·.workItemId = w.parentId))
    s.items.rows (s.item? workItemId).toList

/-- The rows of a tree. -/
def treeItems (s : Store) (rootId : String) : List WorkItem :=
  s.items.rows.filter (·.workItemId ∈ s.tree rootId)

/-- `child` is a row right under `id`. -/
def ChildOf (s : Store) (id childId : String) : Prop :=
  ∃ w ∈ s.items.rows, w.parentId = id ∧ w.workItemId = childId

theorem mem_tree {s : Store} {rootId id : String} :
    id ∈ s.tree rootId ↔ Relation.ReflTransGen s.ChildOf rootId id := by
  have hstep : RecursiveUnion.Joins
      (fun id => (s.items.rows.filter (·.parentId = id)).map (·.workItemId)) = s.ChildOf := by
    funext a b
    simp [RecursiveUnion.Joins, ChildOf, and_assoc]
  have hrows : ∀ a b : String, b ∈ (s.items.rows.filter (·.parentId = a)).map (·.workItemId) →
      b ∈ s.items.rows.map (·.workItemId) := by
    intro a b hb
    obtain ⟨w, hw, rfl⟩ := List.mem_map.mp hb
    exact List.mem_map_of_mem (List.mem_filter.mp hw).1
  rw [tree, RecursiveUnion.mem_recursiveUnion hrows, hstep]
  simp

theorem mem_ancestors {s : Store} {workItemId : String} :
    w ∈ s.ancestors workItemId ↔
      ∃ v, s.item? workItemId = some v ∧
        Relation.ReflTransGen (fun v w => w ∈ s.items.rows ∧ w.workItemId = v.parentId) v w := by
  have hstep : RecursiveUnion.Joins
      (fun w : WorkItem => s.items.rows.filter (·.workItemId = w.parentId)) =
      fun v w => w ∈ s.items.rows ∧ w.workItemId = v.parentId := by
    funext v w
    simp [RecursiveUnion.Joins]
  have hrows : ∀ v w : WorkItem, w ∈ s.items.rows.filter (·.workItemId = v.parentId) →
      w ∈ s.items.rows := fun v w hw => (List.mem_filter.mp hw).1
  rw [ancestors, RecursiveUnion.mem_recursiveUnion hrows, hstep]
  simp

end Store

end Workflow
