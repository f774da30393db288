-- SUMMARY: What stopping a tree and stopping orphans end: the recursive unions end, and nothing else changes.
import Aimee.Workflow.Rows

/-!
# Stops of trees

`wfeStopTree` and `wfeReconcileOrphans` end the active members of a recursive union. The rows may link to
one another in any way: `treeCTE` and `orphanCTE` end on cycles too, at the rows that are reachable.
-/

namespace Workflow

open Relation

/-! ## The two recursive unions -/

namespace Store

variable (s : Store)

/-- The joins of `treeCTE`. -/
def children (id : String) : List String := (s.items.rows.filter (·.parentId = id)).map (·.workItemId)

/-- The joins and the seed of `orphanCTE`. -/
def activeChildren (id : String) : List String :=
  (s.items.rows.filter fun w => w.parentId = id && w.state = "active").map (·.workItemId)

def orphanSeed : List String :=
  (s.items.rows.filter fun child => child.state = "active" &&
    s.items.rows.any fun parent => parent.workItemId = child.parentId && parent.state ∈ endedStates).map (·.workItemId)

/-- An active run with a parent that has ended, or with one that is itself an orphan. -/
inductive Orphaned : WorkItem → Prop where
  | seed {w p : WorkItem} (hw : w ∈ s.items.rows) (hactive : w.state = "active") (hp : p ∈ s.items.rows)
      (hparent : p.workItemId = w.parentId) (hended : p.state ∈ endedStates) : Orphaned w
  | under {w v : WorkItem} (hw : w ∈ s.items.rows) (hactive : w.state = "active") (hv : Orphaned v)
      (hparent : v.workItemId = w.parentId) : Orphaned w

variable {s} {w : WorkItem} {id : String}

theorem Orphaned.mem (h : s.Orphaned w) : w ∈ s.items.rows := by
  cases h with
  | seed hw => exact hw
  | under hw => exact hw

theorem Orphaned.active (h : s.Orphaned w) : w.state = "active" := by
  cases h with
  | seed _ hactive => exact hactive
  | under _ hactive => exact hactive

theorem children_subset (a b : String) (h : b ∈ s.children a) : b ∈ s.items.rows.map (·.workItemId) := by
  obtain ⟨w, hw, rfl⟩ := List.mem_map.mp h
  exact List.mem_map_of_mem (List.mem_filter.mp hw).1

theorem mem_activeChildren {a b : String} :
    b ∈ s.activeChildren a ↔ ∃ w ∈ s.items.rows, w.parentId = a ∧ w.state = "active" ∧ w.workItemId = b := by
  simp [activeChildren, and_assoc]

theorem activeChildren_subset (a b : String) (h : b ∈ s.activeChildren a) : b ∈ s.items.rows.map (·.workItemId) := by
  obtain ⟨w, hw, -, -, rfl⟩ := mem_activeChildren.mp h
  exact List.mem_map_of_mem hw

theorem mem_orphanSeed : id ∈ s.orphanSeed ↔ ∃ w ∈ s.items.rows, w.state = "active" ∧
    (∃ p ∈ s.items.rows, p.workItemId = w.parentId ∧ p.state ∈ endedStates) ∧ w.workItemId = id := by
  simp [orphanSeed, and_assoc]

theorem tree_ends (s : Store) (rootId : String) :
    RecursiveUnion.Ends s.children [rootId].dedup [rootId].dedup (s.tree rootId) :=
  RecursiveUnion.recursiveUnion_ends children_subset _

theorem orphans_ends (s : Store) :
    RecursiveUnion.Ends s.activeChildren s.orphanSeed.dedup s.orphanSeed.dedup s.orphans :=
  RecursiveUnion.recursiveUnion_ends activeChildren_subset _

theorem mem_orphans : id ∈ s.orphans ↔ ∃ w, s.Orphaned w ∧ w.workItemId = id := by
  have hunion : id ∈ s.orphans ↔ ∃ a ∈ s.orphanSeed, ReflTransGen (RecursiveUnion.Joins s.activeChildren) a id :=
    RecursiveUnion.mem_recursiveUnion activeChildren_subset
  rw [hunion]
  clear hunion
  constructor
  · rintro ⟨a, ha, hpath⟩
    induction hpath with
    | refl =>
      obtain ⟨w, hw, hactive, ⟨p, hp, hparent, hended⟩, hid⟩ := mem_orphanSeed.mp ha
      exact ⟨w, .seed hw hactive hp hparent hended, hid⟩
    | tail _ hjoin ih =>
      obtain ⟨v, hv, rfl⟩ := ih
      obtain ⟨w, hw, hparent, hactive, hid⟩ := mem_activeChildren.mp hjoin
      exact ⟨w, .under hw hactive hv hparent.symm, hid⟩
  · rintro ⟨w, horphan, rfl⟩
    induction horphan with
    | @seed w p hw hactive hp hparent hended =>
      exact ⟨w.workItemId, mem_orphanSeed.mpr ⟨w, hw, hactive, ⟨p, hp, hparent, hended⟩, rfl⟩, .refl⟩
    | @under w v hw hactive _ hparent ih =>
      obtain ⟨a, ha, hpath⟩ := ih
      exact ⟨a, ha, hpath.tail (mem_activeChildren.mpr ⟨w, hw, hparent.symm, hactive, rfl⟩)⟩

end Store

/-! ## Ending a set -/

/-- A run that was ended, as its row is left. -/
def WorkItem.stopped (now : Time) (w : WorkItem) : WorkItem :=
  { w with state := "stopped", pauseReason := "", pausedState := "", updatedAt := now }

/-- The event of an ending, without its identifier. -/
def Event.IsEnding (detail : String) (w : WorkItem) (e : Event) : Prop :=
  e = { id := e.id, workItemId := w.workItemId, stage := w.currentStage, kind := "terminal", actor := "go-wfe",
        detail := detail, contentHash := w.contentHash, costUsd := 0 }

/-- Between two stores the runs that satisfy a condition were stopped, each with one terminal event, and no
    other run was changed. -/
structure EndsExactly (now : Time) (detail : String) (s t : Store) (ended : WorkItem → Prop) : Prop where
  stopped : ∀ w ∈ s.items.rows, ended w → t.item? w.workItemId = some (w.stopped now)
  kept : ∀ w ∈ s.items.rows, ¬ended w → t.item? w.workItemId = some w
  absent : ∀ id, s.item? id = none → t.item? id = none
  events : ∃ rows events, t.events = s.events ++ events ∧ List.Forall₂ (Event.IsEnding detail) rows events ∧
    rows.Nodup ∧ ∀ w, w ∈ rows ↔ w ∈ s.items.rows ∧ ended w

section

variable {s : Store} {now : Time} {ids : List String} {detail : String} {w : WorkItem}

theorem mem_activeIn {id : String} :
    id ∈ s.activeIn ids ↔ ∃ w ∈ s.items.rows, w.workItemId ∈ ids ∧ w.state = "active" ∧ w.workItemId = id := by
  simp [Store.activeIn, and_assoc]

theorem mem_activeIn_of_mem (hw : w ∈ s.items.rows) :
    (w.workItemId ∈ s.activeIn ids && w.state = "active") = true ↔ w.workItemId ∈ ids ∧ w.state = "active" := by
  simp only [Bool.and_eq_true, decide_eq_true_eq]
  constructor
  · rintro ⟨hmem, hactive⟩
    obtain ⟨v, -, hids, -, hid⟩ := mem_activeIn.mp hmem
    exact ⟨hid ▸ hids, hactive⟩
  · rintro ⟨hids, hactive⟩
    exact ⟨mem_activeIn.mpr ⟨w, hw, hids, hactive, rfl⟩, hactive⟩

theorem events_addTerminalEvents (s : Store) (ids : List String) (detail : String) :
    ∃ events, (s.addTerminalEvents ids detail).events = s.events ++ events ∧
      List.Forall₂ (Event.IsEnding detail) (s.items.rows.filter fun w =>
        w.workItemId ∈ ids && w.state = "active") events := by
  unfold Store.addTerminalEvents
  generalize s.items.rows.filter _ = rows
  have hfold : ∀ t : Store, ∃ events, (rows.foldl (fun t w =>
      t.addEvent w.workItemId w.currentStage "terminal" "go-wfe" detail w.contentHash 0) t).events =
        t.events ++ events ∧
        List.Forall₂ (Event.IsEnding detail) rows events := by
    induction rows with
    | nil => exact fun t => ⟨[], (List.append_nil _).symm, .nil⟩
    | cons w rows ih =>
      intro t
      obtain ⟨events, hevents, hrows⟩ :=
        ih (t.addEvent w.workItemId w.currentStage "terminal" "go-wfe" detail w.contentHash 0)
      refine ⟨_ :: events, ?_, .cons (show Event.IsEnding detail w
        ⟨t.nextEventId, w.workItemId, w.currentStage, "terminal", "go-wfe", detail, w.contentHash, 0⟩ from rfl) hrows⟩
      rw [List.foldl_cons, hevents, Store.addEvent, List.append_assoc, List.singleton_append]
  exact hfold s

theorem endActiveSet_endsExactly (now : Time) (ids : List String) (detail : String) (s : Store) :
    EndsExactly now detail s (endActiveSet now ids detail s).1 fun w => w.workItemId ∈ ids ∧ w.state = "active" := by
  by_cases hnone : s.activeIn ids = []
  · -- No member is active, and the store is as it was.
    have hstore : (endActiveSet now ids detail s).1 = s := by rw [endActiveSet, if_pos hnone]
    have hended : ∀ w ∈ s.items.rows, ¬(w.workItemId ∈ ids ∧ w.state = "active") := by
      intro w hw hended
      have hmem := mem_activeIn.mpr ⟨w, hw, hended.1, hended.2, rfl⟩
      rw [hnone] at hmem
      exact List.not_mem_nil hmem
    rw [hstore]
    refine ⟨fun w hw h => absurd h (hended w hw), fun w hw _ => Table.find?_of_mem hw, fun id h => h, ?_⟩
    refine ⟨[], [], (List.append_nil _).symm, .nil, .nil, fun w => ⟨fun h => absurd h List.not_mem_nil, fun h => ?_⟩⟩
    exact absurd h.2 (hended w h.1)
  · have hitem : ∀ id, (endActiveSet now ids detail s).1.item? id =
        (s.item? id).map fun w => if w.workItemId ∈ s.activeIn ids && w.state = "active" then w.stopped now else w := by
      intro id
      rw [endActiveSet, if_neg hnone]
      rw [Store.item?_deleteFrozen, Store.item?_updateItems, Store.item?_congr (rows_addTerminalEvents s _ detail)]
      rfl
    refine ⟨fun w hw hended => ?_, fun w hw hended => ?_, fun id hid => ?_, ?_⟩
    · have hfind : s.item? w.workItemId = some w := Table.find?_of_mem hw
      rw [hitem, hfind, Option.map_some, if_pos ((mem_activeIn_of_mem hw).mpr hended)]
    · have hfind : s.item? w.workItemId = some w := Table.find?_of_mem hw
      rw [hitem, hfind, Option.map_some, if_neg fun h => hended ((mem_activeIn_of_mem hw).mp h)]
    · rw [hitem, hid, Option.map_none]
    · obtain ⟨events, hevents, hrows⟩ := events_addTerminalEvents s (s.activeIn ids) detail
      refine ⟨_, events, ?_, hrows, (List.Nodup.of_map _ s.items.nodup).filter _, fun w => ?_⟩
      · rw [endActiveSet, if_neg hnone]
        exact hevents
      · rw [List.mem_filter]
        exact and_congr_right fun hw => mem_activeIn_of_mem hw

theorem EndsExactly.congr {t : Store} {p q : WorkItem → Prop} (h : EndsExactly now detail s t p)
    (hpq : ∀ w ∈ s.items.rows, p w ↔ q w) : EndsExactly now detail s t q := by
  obtain ⟨rows, events, hevents, hrows, hnodup, hmem⟩ := h.events
  refine ⟨fun w hw hq => h.stopped w hw ((hpq w hw).mpr hq), fun w hw hq => h.kept w hw fun hp => hq ((hpq w hw).mp hp),
    h.absent, rows, events, hevents, hrows, hnodup, fun w => ?_⟩
  rw [hmem w]
  exact and_congr_right fun hw => hpq w hw

end

/-! ## The two operations -/

section

variable {s : Store} {now : Time} {rootId : String} {limit : ℤ}

theorem wfeStopTree_endsExactly (hroot : rootId ≠ "") (hlimit : 0 < limit ∧ limit ≤ lifecycleListMax) (s : Store) :
    EndsExactly now "operator_stop" s (wfeStopTree now rootId limit s).1
      fun w => w.state = "active" ∧ ReflTransGen s.ChildOf rootId w.workItemId := by
  have hargs : ¬(rootId = "" ∨ limit ≤ 0 ∨ lifecycleListMax < limit) := by
    simp only [not_or, not_le, not_lt]
    exact ⟨hroot, hlimit⟩
  have hstore : (wfeStopTree now rootId limit s).1 = (endActiveSet now (s.tree rootId) "operator_stop" s).1 := by
    rw [wfeStopTree, if_neg hargs]
  rw [hstore]
  refine (endActiveSet_endsExactly now (s.tree rootId) "operator_stop" s).congr fun w _ => ?_
  rw [Store.mem_tree, and_comm]

theorem wfeReconcileOrphans_endsExactly (hlimit : 0 < limit ∧ limit ≤ lifecycleListMax) (s : Store) :
    EndsExactly now "ancestor_terminal" s (wfeReconcileOrphans now limit s).1 s.Orphaned := by
  have hargs : ¬(limit ≤ 0 ∨ lifecycleListMax < limit) := by
    simp only [not_or, not_le, not_lt]
    exact hlimit
  have hstore : (wfeReconcileOrphans now limit s).1 = (endActiveSet now s.orphans "ancestor_terminal" s).1 := by
    rw [wfeReconcileOrphans, if_neg hargs]
  rw [hstore]
  refine (endActiveSet_endsExactly now s.orphans "ancestor_terminal" s).congr fun w hw => ?_
  constructor
  · rintro ⟨hmem, -⟩
    obtain ⟨v, horphan, hid⟩ := Store.mem_orphans.mp hmem
    exact s.items.eq_of_key horphan.mem hw hid ▸ horphan
  · exact fun horphan => ⟨Store.mem_orphans.mpr ⟨w, horphan, rfl⟩, horphan.active⟩

/-- A row of the later store is the row that it was, or that row as it is stopped. -/
theorem EndsExactly.exists_row {t : Store} {detail : String} {ended : WorkItem → Prop}
    (h : EndsExactly now detail s t ended) {v : WorkItem} (hv : v ∈ t.items.rows) :
    ∃ w ∈ s.items.rows, w.workItemId = v.workItemId ∧ w.parentId = v.parentId ∧
      (ended w ∧ v.state = "stopped" ∨ ¬ended w ∧ v = w) := by
  have hfind : t.item? v.workItemId = some v := Table.find?_of_mem hv
  cases hw : s.item? v.workItemId with
  | none =>
    rw [h.absent _ hw] at hfind
    cases hfind
  | some w =>
    have hmem : w ∈ s.items.rows := Table.mem_of_find? hw
    have hid : w.workItemId = v.workItemId := Table.key_of_find? hw
    rw [← hid] at hfind
    by_cases hended : ended w
    · rw [h.stopped w hmem hended] at hfind
      obtain rfl := Option.some.inj hfind
      exact ⟨w, hmem, hid, rfl, .inl ⟨hended, rfl⟩⟩
    · rw [h.kept w hmem hended] at hfind
      obtain rfl := Option.some.inj hfind
      exact ⟨w, hmem, hid, rfl, .inr ⟨hended, rfl⟩⟩

theorem EndsExactly.no_orphan {t : Store} {detail : String} (h : EndsExactly now detail s t s.Orphaned) {w p : WorkItem}
    (hw : w ∈ t.items.rows) (hp : p ∈ t.items.rows) (hparent : p.workItemId = w.parentId)
    (hended : p.state ∈ endedStates) :
    w.state ≠ "active" := by
  intro hactive
  obtain ⟨v, hv, -, hvparent, ⟨-, hstopped⟩ | ⟨hkept, rfl⟩⟩ := h.exists_row hw
  · rw [hstopped] at hactive
    exact absurd hactive (by decide)
  -- The run was not ended, so it was no orphan; its parent would have made it one.
  obtain ⟨q, hq, hqid, -, ⟨horphan, -⟩ | ⟨-, rfl⟩⟩ := h.exists_row hp
  · exact hkept (.under hv hactive horphan (hqid.trans hparent))
  · exact hkept (.seed hv hactive hq hparent hended)

/-- Both recursive unions end, and the operations end exactly the active runs under the root and the orphans. -/
theorem treeStops_complete (now : Time) (hroot : rootId ≠ "")
    (hlimit : 0 < limit ∧ limit ≤ lifecycleListMax) (s : Store) :
    (RecursiveUnion.Ends s.children [rootId].dedup [rootId].dedup (s.tree rootId)
      ∧ EndsExactly now "operator_stop" s (wfeStopTree now rootId limit s).1
          fun w => w.state = "active" ∧ ReflTransGen s.ChildOf rootId w.workItemId)
    ∧ RecursiveUnion.Ends s.activeChildren s.orphanSeed.dedup s.orphanSeed.dedup s.orphans
      ∧ EndsExactly now "ancestor_terminal" s (wfeReconcileOrphans now limit s).1 s.Orphaned
      ∧ ∀ w ∈ (wfeReconcileOrphans now limit s).1.items.rows, ∀ p ∈ (wfeReconcileOrphans now limit s).1.items.rows,
          p.workItemId = w.parentId → p.state ∈ endedStates → w.state ≠ "active" := by
  refine ⟨⟨s.tree_ends rootId, wfeStopTree_endsExactly hroot hlimit s⟩, s.orphans_ends, ?_⟩
  have horphans : EndsExactly now "ancestor_terminal" s (wfeReconcileOrphans now limit s).1 s.Orphaned :=
    wfeReconcileOrphans_endsExactly hlimit s
  exact ⟨horphans, fun w hw p hp => horphans.no_orphan hw hp⟩

/-- Two runs that are each other's parent, a run that was accepted, and a slice of it. -/
def cyclicStore : Store :=
  { Store.empty with
    items :=
      { rows := [
          { WorkItem.new 0 "a" "" "a.md" "build" "1" "plan" "" with parentId := "b" },
          { WorkItem.new 0 "b" "" "b.md" "build" "1" "plan" "" with parentId := "a" },
          { WorkItem.new 0 "c" "" "c.md" "build" "1" "plan" "" with state := "accepted" },
          { WorkItem.new 0 "d" "" "d.md" "build" "1" "plan" "" with parentId := "c" }]
        nodup := by decide } }

theorem treeStops_complete_cyclic :
    EndsExactly 5 "operator_stop" cyclicStore (wfeStopTree 5 "a" 10 cyclicStore).1
        (fun w => w.state = "active" ∧ ReflTransGen cyclicStore.ChildOf "a" w.workItemId)
      ∧ EndsExactly 5 "ancestor_terminal" cyclicStore (wfeReconcileOrphans 5 10 cyclicStore).1
        cyclicStore.Orphaned := by
  obtain ⟨⟨-, hstop⟩, -, horphans, -⟩ := treeStops_complete 5 (show "a" ≠ "" by decide) (show 0 < (10 : ℤ) ∧
    10 ≤ lifecycleListMax by decide) cyclicStore
  exact ⟨hstop, horphans⟩

end

end Workflow
