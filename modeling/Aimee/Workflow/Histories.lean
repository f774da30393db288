-- SUMMARY: What a run of operations cannot undo: money that was spent, and the history of a work item.
import Mathlib.Algebra.Order.Ring.NNRat
import Aimee.Workflow.Log

/-!
# Histories

Over any run of the lifecycle operations, in any order and by any callers: the cost of a row only grows, and
the events of a work item stay as they were written, all of them, unless all of them are erased. As long as
its row stays, they stay.
-/

namespace Workflow

variable {s t u : Store} {op : Op} {now : Time} {id : String} {w w' : WorkItem} {steps : List (Time × Op)}

/-! ## Money -/

theorem MoneyStep.le (h : MoneyStep now op w w') : w.cumCostUsd ≤ w'.cumCostUsd := by
  cases h with
  | keep hcost | takeOver _ _ _ _ hcost | steal _ _ _ _ hcost | extend _ hcost | measure _ _ _ hcost
  | reserve _ _ _ _ hcost | retain _ _ _ hcost => exact hcost.ge
  | spend d _ hcost | settle d _ hcost =>
    rw [hcost]
    exact le_add_of_nonneg_right zero_le

/-- As long as a row is there, its cost only grows. -/
theorem cumCostUsd_run (hw : s.item? id = some w) (hthere : AlongRun (fun s => (s.item? id).isSome) s steps) :
    ∃ w', (s.run steps).item? id = some w' ∧ w.cumCostUsd ≤ w'.cumCostUsd := by
  induction steps generalizing s w with
  | nil => exact ⟨w, hw, le_rfl⟩
  | cons step steps ih =>
    obtain ⟨v, hv⟩ := Option.isSome_iff_exists.mp hthere.2.head
    obtain ⟨w', hw', hle⟩ := ih hv hthere.2
    refine ⟨w', hw', le_trans ?_ hle⟩
    rcases item?_apply hv with ⟨v', hv', hstep⟩ | ⟨-, -, hnone⟩
    · rw [hw] at hv'
      cases hv'
      exact hstep.money.le
    · rw [hw] at hnone
      cases hnone

/-! ## Events -/

/-- What is left of a log behind another: the events that are new are newer than all before, and of the others
    each work item has kept all or none, and those of which `R` holds have kept all. -/
structure Continues (R : String → Prop) (s t : Store) : Prop where
  le : s.nextEventId ≤ t.nextEventId
  old : ∃ p : String → Bool, (∀ id, R id → p id = true) ∧
    t.events.filter (·.id < s.nextEventId) = s.events.filter fun e => p e.workItemId

variable {P : Event → Prop} {E R : String → Prop}

theorem Store.LogOrdered.filter_eq (hs : s.LogOrdered) : s.events.filter (·.id < s.nextEventId) = s.events :=
  List.filter_eq_self.mpr fun e he => decide_eq_true (hs e he)

theorem Continues.of_same (hs : s.LogOrdered) (hevents : t.events = s.events) (hid : t.nextEventId = s.nextEventId) :
    Continues R s t :=
  ⟨hid.ge, fun _ => true, fun _ _ => rfl, by rw [hevents, hs.filter_eq]; simp⟩

theorem LogStep.continues (h : LogStep P E s t) (hs : s.LogOrdered) (hR : ∀ id, R id → ¬E id) : Continues R s t := by
  induction h with
  | keep hevents hid => exact .of_same hs hevents hid
  | append _ e _ heid hevents hid ih =>
    obtain ⟨hle, p, hp, hold⟩ := ih
    refine ⟨hid ▸ Nat.le_succ_of_le hle, p, hp, ?_⟩
    rw [hevents, List.filter_append, hold, List.filter_singleton]
    simp [heid, Nat.not_lt.mpr hle]
  | erase _ p hE hevents hid ih =>
    obtain ⟨hle, q, hq, hold⟩ := ih
    have hp : ∀ id, R id → p id = true := fun id hr => (Bool.not_eq_false _).mp fun hgone => hR id hr (hE id hgone)
    refine ⟨hid ▸ hle, fun id => p id && q id, fun id hr => by simp [hp id hr, hq id hr], ?_⟩
    rw [hevents, List.filter_comm, hold, List.filter_filter]

theorem Continues.trans (h : Continues R s t) (h' : Continues R t u) : Continues R s u := by
  obtain ⟨hle, p, hp, hold⟩ := h
  obtain ⟨hle', q, hq, hold'⟩ := h'
  refine ⟨hle.trans hle', fun id => q id && p id, fun id hr => by simp [hp id hr, hq id hr], ?_⟩
  have hboth : u.events.filter (·.id < s.nextEventId) =
      (u.events.filter (·.id < t.nextEventId)).filter (·.id < s.nextEventId) := by
    rw [List.filter_filter]
    refine List.filter_congr fun e _ => ?_
    grind
  rw [hboth, hold', List.filter_comm, hold, List.filter_filter]

/-- A work item whose row is there all along keeps its events. -/
theorem continues_run (hs : s.LogOrdered) (steps : List (Time × Op)) :
    Continues (fun id => AlongRun (fun s => (s.item? id).isSome) s steps) s (s.run steps) := by
  induction steps generalizing s with
  | nil => exact .of_same hs rfl rfl
  | cons step steps ih =>
    refine ((logStep_apply step.1 s step.2).continues hs fun id hthere hgone => ?_).trans ?_
    · have hrow := hthere.2.head
      rw [hgone] at hrow
      cases hrow
    · obtain ⟨hle, p, hp, hold⟩ := ih (hs.apply step.1 step.2)
      exact ⟨hle, p, fun id hthere => hp id hthere.2, hold⟩

theorem LogStep.sorted (h : LogStep P E s t) (hs : s.LogOrdered) (hsorted : s.events.Pairwise fun a b => a.id < b.id) :
    t.events.Pairwise fun a b => a.id < b.id := by
  induction h with
  | keep hevents => rwa [hevents]
  | append h e _ heid hevents _ ih =>
    rw [hevents, List.pairwise_append]
    refine ⟨ih, List.pairwise_singleton _ _, fun a ha b hb => ?_⟩
    rw [List.mem_singleton.mp hb, heid]
    exact h.ordered hs a ha
  | erase _ p _ hevents _ ih =>
    rw [hevents]
    exact ih.filter _

theorem Store.sorted_run (hs : s.LogOrdered) (hsorted : s.events.Pairwise fun a b => a.id < b.id)
    (steps : List (Time × Op)) : (s.run steps).events.Pairwise fun a b => a.id < b.id := by
  induction steps generalizing s with
  | nil => exact hsorted
  | cons step steps ih => exact ih (hs.apply step.1 step.2) ((logStep_apply step.1 s step.2).sorted hs hsorted)

/-- From any point of a run on: no cost of a row that stays is taken back; the events are numbered upwards, the new ones
    behind the old; and the old events of a work item are all there, unchanged and in their order, or are all gone, and
    they are there if its row was there all along. -/
theorem histories_kept (before after : List (Time × Op)) :
    (∀ id w, (Store.empty.run before).item? id = some w →
      AlongRun (fun s => (s.item? id).isSome) (Store.empty.run before) after →
      ∃ w', (Store.empty.run (before ++ after)).item? id = some w' ∧ w.cumCostUsd ≤ w'.cumCostUsd) ∧
    (Store.empty.run (before ++ after)).events.Pairwise (fun a b => a.id < b.id) ∧
    ∃ kept : String → Bool,
      (∀ id, AlongRun (fun s => (s.item? id).isSome) (Store.empty.run before) after → kept id = true) ∧
      (Store.empty.run (before ++ after)).events.filter (·.id < (Store.empty.run before).nextEventId) =
        (Store.empty.run before).events.filter fun e => kept e.workItemId := by
  have hempty : Store.empty.LogOrdered := fun e he => absurd he List.not_mem_nil
  refine ⟨fun id w hw hthere => ?_, Store.sorted_run hempty .nil _, ?_⟩
  · rw [Store.run_append]
    exact cumCostUsd_run hw hthere
  · rw [Store.run_append]
    exact (continues_run (hempty.run before) after).old

end Workflow
