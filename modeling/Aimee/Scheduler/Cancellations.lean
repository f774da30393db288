-- SUMMARY: When a pass cancels the delegate jobs of terminal runs: the count of terminal runs against the runs themselves.
import Aimee.Scheduler.Survey

/-!
# Cancellations

A pass calls `cancelTerminal` when it lists more terminal runs than the pass before it did, or when a retry is due. A
run that is newly terminal goes unnoticed where as many have left the listing.
-/

namespace Scheduler

open Workflow (endedStates)

/-! ## Terminal runs of a listing -/

def terminalIds (items : List Item) : List String := (items.filter (·.state ∈ endedStates)).map (·.id)

theorem nodup_terminalIds (listing : Listing) : (terminalIds listing.items).Nodup :=
  listing.nodup.sublist (List.filter_sublist.map _)

/-- The runs that are terminal now and were not, and those that were and are not. -/
def newly (last now : List String) : List String := now.filter (· ∉ last)
def gone (last now : List String) : List String := last.filter (· ∉ now)

section

variable {last now : List String}

theorem length_kept (hlast : last.Nodup) (hnow : now.Nodup) :
    (now.filter (· ∈ last)).length = (last.filter (· ∈ now)).length := by
  refine List.Perm.length_eq ((List.perm_ext_iff_of_nodup (hnow.filter _) (hlast.filter _)).mpr fun id => ?_)
  simp only [List.mem_filter, decide_eq_true_eq]
  exact and_comm

theorem length_split (ids : List String) (p : String → Prop) [DecidablePred p] :
    ids.length = (ids.filter (p ·)).length + (ids.filter (¬p ·)).length := by
  induction ids with
  | nil => rfl
  | cons id ids ih =>
    by_cases hid : p id
    · simp only [List.filter_cons, hid, decide_true, not_true_eq_false, decide_false, if_true,
        Bool.false_eq_true, if_false, List.length_cons, ih]
      omega
    · simp only [List.filter_cons, hid, decide_false, not_false_eq_true, decide_true, if_true,
        Bool.false_eq_true, if_false, List.length_cons, ih]
      omega

/-- The count grows where more runs came than went. -/
theorem length_lt_iff (hlast : last.Nodup) (hnow : now.Nodup) :
    last.length < now.length ↔ (gone last now).length < (newly last now).length := by
  have hsplitNow := length_split now (· ∈ last)
  have hsplitLast := length_split last (· ∈ now)
  have hkept := length_kept hlast hnow
  unfold gone newly
  omega

end

/-! ## A pass -/

section

variable {storeTime : String → Option Instant}
  {pauses : List TransientPause} {policy : RunPolicy} {now : Instant} {active : List String}
  {item : Item} {work : PendingWork}

@[simp] theorem terminal_dueAt (work : PendingWork) (due : Instant) : (work.dueAt due).terminal = work.terminal := by
  unfold PendingWork.dueAt
  split
  · rfl
  · rfl

@[simp] theorem terminal_sweepAll (work : PendingWork) : (work.sweepAll pauses now).terminal = work.terminal :=
  terminal_dueAt _ _

theorem terminal_surveyWallCap : (surveyWallCap storeTime policy now item work).terminal = work.terminal := by
  unfold surveyWallCap
  split
  · rfl
  · split
    · rfl
    · split
      · dsimp only
        split
        · rfl
        · exact terminal_dueAt work _
      · rfl

theorem terminal_surveyTransient : (surveyTransient storeTime pauses now item work).terminal = work.terminal := by
  unfold surveyTransient
  split
  · rfl
  · dsimp only
    split
    · rfl
    · exact terminal_dueAt work _

theorem terminal_surveyItem : (surveyItem storeTime pauses policy now active work item).terminal =
    work.terminal + if item.state ∈ endedStates then 1 else 0 := by
  have horphans : ∀ p : Prop, [Decidable p] →
    (if p then { work with orphans := true } else work).terminal = work.terminal := by
    intro p _
    split
    · rfl
    · rfl
  unfold surveyItem
  split
  · rfl
  · split
    · rfl
    · dsimp only
      split
      · exact horphans _
      · split
        · exact horphans _
        · split
          · exact terminal_surveyWallCap.trans (horphans _)
          · exact terminal_surveyTransient.trans (horphans _)

theorem terminal_survey (items : List Item) :
    (survey storeTime pauses policy now items).terminal = (terminalIds items).length := by
  have hfold : ∀ (rest : List Item) (work : PendingWork),
      (rest.foldl (surveyItem storeTime pauses policy now (activeIds items)) work).terminal =
        work.terminal + (terminalIds rest).length := by
    intro rest
    induction rest with
    | nil => exact fun _ => rfl
    | cons item rest ih =>
      intro work
      have hcons : (terminalIds (item :: rest)).length = (if item.state ∈ endedStates then 1 else 0) +
        (terminalIds rest).length := by
        by_cases hended : item.state ∈ endedStates
        · simp [terminalIds, hended, Nat.add_comm]
        · simp [terminalIds, hended]
      rw [List.foldl_cons, ih, terminal_surveyItem, hcons, Nat.add_assoc]
  rw [survey, hfold, Nat.zero_add]

theorem cancelTerminal_not_mem_wallCalls (policy : Option RunPolicy) (work : PendingWork) :
    Call.cancelTerminal ∉ wallCalls policy work := by
  unfold wallCalls
  split
  · exact List.not_mem_nil
  · intro hmem
    rcases List.mem_append.mp hmem with hmem | hmem
    · split at hmem
      · cases List.mem_singleton.mp hmem
      · cases hmem
    · split at hmem
      · cases List.mem_singleton.mp hmem
      · cases hmem

/-- A pass with a listing remembers how many runs are terminal in it, and makes the call if the count or a retry
    says so. -/
theorem fill_listing (s : State) {pass : Pass} {listing : Listing} (hlisting : pass.listing = some listing) :
    (fill storeTime pauses s pass).1 =
        { s with
          lastTerminal := (terminalIds listing.items).length
          cancelRetry := s.retryAt (terminalIds listing.items).length pass } ∧
      (Call.cancelTerminal ∈ (fill storeTime pauses s pass).2.1 ↔
        s.cancels (terminalIds listing.items).length pass.now = true) := by
  unfold fill
  rw [hlisting]
  dsimp only
  generalize hwork : (if listCeiling ≤ listing.items.length then
    (survey storeTime pauses (pass.policy.getD {}) pass.now listing.items).sweepAll pauses pass.now
    else survey storeTime pauses (pass.policy.getD {}) pass.now listing.items) = work
  have hterminal : work.terminal = (terminalIds listing.items).length := by
    rw [← hwork]
    split
    · rw [terminal_sweepAll, terminal_survey]
    · rw [terminal_survey]
  rw [hterminal]
  refine ⟨rfl, ?_⟩
  have hif : ∀ (p : Prop) [Decidable p] (call : Call), call ≠ .cancelTerminal →
    Call.cancelTerminal ∉ if p then [call] else [] := by
    intro p _ call hne hmem
    split at hmem
    · exact hne (List.mem_singleton.mp hmem).symm
    · cases hmem
  have hpauses : Call.cancelTerminal ∉ (duePauses pauses work).map fun pause =>
    Call.resumeTransient pause.reason pause.backoff := by
    intro hmem
    obtain ⟨pause, -, hpause⟩ := List.mem_map.mp hmem
    cases hpause
  have horphans := hif (work.orphans = true) .reconcileOrphanedDescendants (by decide)
  have hparents := hif (work.fanInParents = true) .resumeReadyParents (by decide)
  have hwalls := cancelTerminal_not_mem_wallCalls pass.policy work
  simp only [List.mem_append, hwalls, horphans, hpauses, hparents, false_or, or_false]
  split
  case isTrue h => exact ⟨fun _ => h, fun _ => List.mem_singleton_self _⟩
  case isFalse h => exact ⟨fun hmem => absurd hmem List.not_mem_nil, fun hcancels => absurd hcancels h⟩

theorem fill_failed (s : State) {pass : Pass} (hlisting : pass.listing = none) :
    (fill storeTime pauses s pass).1 = s := by
  unfold fill
  rw [hlisting]

/-! ## Runs -/

/-- The state after the passes of a scheduler. -/
def runPasses (storeTime : String → Option Instant) (cancelTerminal : Bool) (passes : List Pass) : State :=
  passes.foldl (fun s pass => (fill storeTime schedulerTransientPauses s pass).1) { cancelTerminal }

/-- The terminal runs of the last listing. -/
def lastTerminalIds (passes : List Pass) : List String :=
  passes.foldl (fun last pass => pass.listing.elim last fun listing => terminalIds listing.items) []

/-- A scheduler remembers the number of them. -/
theorem runPasses_spec (storeTime : String → Option Instant) (cancelTerminal : Bool) (passes : List Pass) :
    (runPasses storeTime cancelTerminal passes).cancelTerminal = cancelTerminal ∧
      (runPasses storeTime cancelTerminal passes).lastTerminal = (lastTerminalIds passes).length ∧
        (lastTerminalIds passes).Nodup := by
  induction passes using List.reverseRecOn with
  | nil => exact ⟨rfl, rfl, List.nodup_nil⟩
  | append_singleton passes pass ih =>
    obtain ⟨hset, hlast, hnodup⟩ := ih
    have hrun : runPasses storeTime cancelTerminal (passes ++ [pass]) =
        (fill storeTime schedulerTransientPauses (runPasses storeTime cancelTerminal passes) pass).1 := by
      rw [runPasses, List.foldl_append]
      rfl
    have hids : lastTerminalIds (passes ++ [pass]) = pass.listing.elim (lastTerminalIds passes)
      fun listing => terminalIds listing.items := by
      rw [lastTerminalIds, List.foldl_append]
      rfl
    rw [hrun, hids]
    cases hlisting : pass.listing with
    | none =>
      rw [fill_failed _ hlisting]
      exact ⟨hset, hlast, hnodup⟩
    | some listing =>
      rw [(fill_listing _ hlisting).1]
      exact ⟨hset, rfl, nodup_terminalIds listing⟩

/-- In every run, a pass cancels for every run that is newly terminal exactly if none is, or more of them came than
    went, or a retry is due. -/
theorem cancels_newly_iff (storeTime : String → Option Instant) (cancelTerminal : Bool) (passes : List Pass)
    {pass : Pass} {listing : Listing} (hlisting : pass.listing = some listing) :
    (∀ item ∈ listing.items, item.state ∈ endedStates → item.id ∉ lastTerminalIds passes →
        Call.cancelTerminal ∈
          (fill storeTime schedulerTransientPauses (runPasses storeTime cancelTerminal passes) pass).2.1) ↔
      newly (lastTerminalIds passes) (terminalIds listing.items) = [] ∨
        cancelTerminal = true ∧
          ((gone (lastTerminalIds passes) (terminalIds listing.items)).length <
              (newly (lastTerminalIds passes) (terminalIds listing.items)).length ∨
            (runPasses storeTime cancelTerminal passes).cancelRetry ≠ 0 ∧
              (runPasses storeTime cancelTerminal passes).cancelRetry ≤ pass.now) := by
  obtain ⟨hset, hlast, hnodup⟩ := runPasses_spec storeTime cancelTerminal passes
  rw [(fill_listing (runPasses storeTime cancelTerminal passes) hlisting).2]
  have hcancels : (runPasses storeTime cancelTerminal passes).cancels (terminalIds listing.items).length
      pass.now = true ↔
      cancelTerminal = true ∧
        ((gone (lastTerminalIds passes) (terminalIds listing.items)).length <
            (newly (lastTerminalIds passes) (terminalIds listing.items)).length ∨
          (runPasses storeTime cancelTerminal passes).cancelRetry ≠ 0 ∧
            (runPasses storeTime cancelTerminal passes).cancelRetry ≤ pass.now) := by
    rw [← length_lt_iff hnodup (nodup_terminalIds listing)]
    simp only [State.cancels, hset, hlast, Bool.and_eq_true, Bool.or_eq_true, decide_eq_true_eq]
  rw [hcancels]
  constructor
  · intro h
    by_cases hnone : newly (lastTerminalIds passes) (terminalIds listing.items) = []
    · exact .inl hnone
    · obtain ⟨id, hid⟩ := List.exists_mem_of_ne_nil _ hnone
      obtain ⟨hmem, hnew⟩ := List.mem_filter.mp hid
      obtain ⟨item, hitem, rfl⟩ := List.mem_map.mp hmem
      obtain ⟨hlisted, hended⟩ := List.mem_filter.mp hitem
      exact .inr (h item hlisted (of_decide_eq_true hended) (of_decide_eq_true hnew))
  · rintro (hnone | h) item hitem hended hnew
    · have hmem : item.id ∈ newly (lastTerminalIds passes) (terminalIds listing.items) :=
        List.mem_filter.mpr ⟨List.mem_map_of_mem (List.mem_filter.mpr ⟨hitem, decide_eq_true hended⟩),
          decide_eq_true hnew⟩
      rw [hnone] at hmem
      exact absurd hmem List.not_mem_nil
    · exact h

end

/-! ## Two passes to look at -/

def terminalItem (id : String) : Item := ⟨id, "accepted", "", "", 0, ""⟩

/-- A pass over the given items, where nothing is left to cancel. -/
def passOver (id : String) : Pass where
  listing := some ⟨[terminalItem id], List.nodup_singleton _⟩
  now := 1
  policy := none
  answer _ := some 0

theorem cancels_newly_first :
    Call.cancelTerminal ∈ (fill (fun _ => none) schedulerTransientPauses (runPasses (fun _ => none) true [])
      (passOver "a")).2.1 :=
  (cancels_newly_iff (fun _ => none) true [] (show (passOver "a").listing =
    some ⟨[terminalItem "a"], List.nodup_singleton _⟩ from rfl)).mpr
    (.inr ⟨rfl, .inl (by decide)⟩) (terminalItem "a") (List.mem_singleton_self _) (by decide) (by decide)

/-- A run is deleted and another one ends between two passes: the count is the same, and nothing is cancelled. -/
theorem not_cancels_newly :
    ¬∀ (storeTime : String → Option Instant) (passes : List Pass) (pass : Pass) (listing : Listing),
      pass.listing = some listing →
      ∀ item ∈ listing.items, item.state ∈ endedStates → item.id ∉ lastTerminalIds passes →
        Call.cancelTerminal ∈ (fill storeTime schedulerTransientPauses (runPasses storeTime true passes) pass).2.1 := by
  intro h
  have hcall := h (fun _ => none) [passOver "a"] (passOver "b")
    ⟨[terminalItem "b"], List.nodup_singleton _⟩ rfl (terminalItem "b")
    (List.mem_singleton_self _) (by decide) (by decide)
  revert hcall
  decide

end Scheduler
