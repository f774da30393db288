-- SUMMARY: Which packets a report calls reviewable, and when no two of them touch one file.
import Aimee.Delegates.PatchCoord
import Aimee.Lib.Greedy

/-!
# Reports on patches

A packet is reviewable when it passes the tests on its handoff and is not noticed to overlap a packet
that is reviewable already. What the second test notices is less than what two handoffs can share.
-/

namespace Delegates

open Economizer (Text utf8 JsonValue)
open Unmarshal (unmarshal)

/-! ## One task -/

namespace PatchTask

/-- The files a reviewable packet claims. -/
def claim (task : PatchTask) : List Text × ℤ := (addUnique [] task.changedFiles, task.id)

/-- The task passes every test that is about its own handoff. -/
def clears (task : PatchTask) : Bool :=
  (notReturned task).isNone && !isSchema task.handoff patchReviewSchema && task.handedOff &&
    (task.verdict.status ≠ utf8 "failed" && task.verdict.status ≠ utf8 "blocked" &&
      task.verdict.outsideOwnershipCount = 0 && !handoffBaseIsStale task.handoff && task.verdict.passedTests ≠ 0)

end PatchTask

/-- The test for an overlap with packets that are reviewable already. -/
def noticed (packets : List PatchTask) (task : PatchTask) : Bool :=
  0 < overlap (packets.map PatchTask.claim) task.changedFiles

def accepts (packets : List PatchTask) (task : PatchTask) : Bool := task.clears && !noticed packets task

/-- The count a report keeps of a state. -/
def PatchReport.stateCount (r : PatchReport) : PatchState → ℕ
  | .planned => r.planned
  | .running => r.running
  | .returned => r.returned
  | .reviewable => r.reviewable
  | .accepted => r.accepted
  | .failed => r.failed
  | .needsSupervisor => r.needsSupervisor
  | .reviewer => r.reviewerPackets

theorem stateCount_setTaskState (r : PatchReport) (row : PatchTaskReport)
    (hrow : row.patchState ≠ .reviewer) (state : PatchState) :
    (r.setTaskState row).stateCount state = r.stateCount state + if row.patchState = state then 1 else 0 := by
  rw [PatchReport.setTaskState]
  cases hr : row.patchState with
  | reviewer => exact absurd hr hrow
  | _ => cases state <;> rfl

theorem stateCount_processReviewer (r : PatchReport) (handoff : Option JsonValue) (row : PatchTaskReport)
    (hrow : row.patchState = .reviewer) (state : PatchState) :
    ((r.processReviewer handoff).setTaskState row).stateCount state =
      r.stateCount state + if row.patchState = state then 1 else 0 := by
  rw [PatchReport.setTaskState, hrow]
  cases state <;> rfl

theorem notReturned_state {task : PatchTask} {state : PatchState} {note : Text}
    (h : notReturned task = some (state, note)) :
    state ≠ .reviewer ∧ state ≠ .reviewable := by
  unfold notReturned at h
  split at h
  · cases h
    decide
  · split at h
    · cases h
      decide
    · split at h
      · cases h
        decide
      · cases h

theorem judgeState_ne_reviewer (claimed : Claims) (task : PatchTask) : (judgeState claimed task).1 ≠ .reviewer := by
  unfold judgeState
  dsimp only
  split_ifs <;> nofun

theorem judgeState_reviewable (claimed : Claims) (task : PatchTask) :
    (judgeState claimed task).1 = .reviewable ↔
      (task.verdict.status ≠ utf8 "failed" ∧ task.verdict.status ≠ utf8 "blocked" ∧
        task.verdict.outsideOwnershipCount = 0 ∧
        handoffBaseIsStale task.handoff = false ∧ task.verdict.passedTests ≠ 0) ∧
      ¬ 0 < overlap claimed task.changedFiles := by
  unfold judgeState
  dsimp only
  constructor
  · intro h
    split_ifs at h with h1 h2 h3 h4 h5 h6
    exact ⟨⟨h1, h2, Nat.eq_zero_of_not_pos h3, Bool.eq_false_iff.mpr h4, h5⟩, h6⟩
  · rintro ⟨⟨h1, h2, h3, h4, h5⟩, h6⟩
    simp [h1, h2, h3, h4, h5, h6]

/-- What one task adds: a row, its state to the counts, and its files where it is reviewable. -/
theorem step_cases (s : PatchRun) (task : PatchTask) :
    ∃ row : PatchTaskReport, (s.step task).report.tasks = s.report.tasks ++ [row] ∧
      (∀ state, (s.step task).report.stateCount state = s.report.stateCount state + if row.patchState =
        state then 1 else 0) ∧
      (s.step task).claimed = (if row.patchState = .reviewable then s.claimed ++ [task.claim] else s.claimed) ∧
      (row.patchState = .reviewable ↔ task.clears ∧ ¬ 0 < overlap s.claimed task.changedFiles) := by
  unfold PatchRun.step
  split
  · rename_i state note hstate
    obtain ⟨hreviewer, hreviewable⟩ := notReturned_state hstate
    refine ⟨_, rfl, fun state => ?_, ?_, ?_⟩
    · rw [stateCount_setTaskState _ _ hreviewer]
      cases state <;> rfl
    · exact (if_neg hreviewable).symm
    · simp [PatchTaskReport.start, PatchTask.clears, hstate, hreviewable]
  · rename_i hreturned
    split
    · rename_i hreview
      refine ⟨_, rfl, fun state => ?_, ?_, ?_⟩
      · rw [stateCount_processReviewer _ _ _ rfl]
      · exact (if_neg (show PatchState.reviewer ≠ .reviewable by decide)).symm
      · simp [PatchTaskReport.start, PatchTask.clears, hreview]
    · rename_i hreview
      split
      · rename_i hhanded
        refine ⟨_, rfl, fun state => ?_, ?_, ?_⟩
        · refine (stateCount_setTaskState _ _ (show PatchState.needsSupervisor ≠ .reviewer by decide) _).trans ?_
          cases state <;> rfl
        · exact (if_neg (show PatchState.needsSupervisor ≠ .reviewable by decide)).symm
        · simp_all [PatchTaskReport.start, PatchTask.clears]
      · rename_i hhanded
        refine ⟨_, rfl, fun state => ?_, rfl, ?_⟩
        · refine (stateCount_setTaskState _ _ (judgeState_ne_reviewer s.claimed task) _).trans ?_
          cases state <;> rfl
        · refine (judgeState_reviewable s.claimed task).trans (and_congr_left fun _ => ?_)
          simp_all [PatchTask.clears, and_assoc]

/-! ## The run -/

def runTasks (tasks : List PatchTask) : PatchRun := tasks.foldl PatchRun.step .initial

theorem runTasks_snoc (tasks : List PatchTask) (task : PatchTask) :
    runTasks (tasks ++ [task]) = (runTasks tasks).step task := by
  simp [runTasks]

/-- What holds after the tasks so far. -/
structure RunBook (tasks : List PatchTask) : Prop where
  claimed : (runTasks tasks).claimed = (Greedy.taken accepts tasks).map PatchTask.claim
  length : (runTasks tasks).report.tasks.length = tasks.length
  states : ∀ i task, tasks[i]? = some task →
    (((runTasks tasks).report.tasks[i]?).map (·.patchState) = some .reviewable ↔ Greedy.TakenAt accepts tasks i task)
  counted : ∀ state, (runTasks tasks).report.stateCount state = (runTasks tasks).report.tasks.countP
    (·.patchState = state)

theorem runBook_nil : RunBook [] where
  claimed := rfl
  length := rfl
  states i task h := by cases h
  counted state := by cases state <;> rfl

theorem RunBook.snoc {tasks : List PatchTask} (h : RunBook tasks) (task : PatchTask) : RunBook (tasks ++ [task]) := by
  obtain ⟨row, hrows, hcount, hclaimed, hstate⟩ := step_cases (runTasks tasks) task
  rw [← runTasks_snoc] at hrows hcount hclaimed
  have haccepts : row.patchState = .reviewable ↔ accepts (Greedy.taken accepts tasks) task = true := by
    rw [hstate, h.claimed, accepts, noticed]
    simp
  constructor
  · rw [hclaimed, h.claimed, Greedy.taken_snoc, Greedy.take]
    by_cases hrow : row.patchState = .reviewable
    · rw [if_pos hrow, if_pos (haccepts.mp hrow), List.map_append, List.map_singleton]
    · rw [if_neg hrow, if_neg (fun hacc => hrow (haccepts.mpr hacc))]
  · rw [hrows, List.length_append, List.length_append, h.length, List.length_singleton, List.length_singleton]
  · intro i task' hi
    rw [hrows, Greedy.takenAt_snoc]
    by_cases hlt : i < tasks.length
    · rw [List.getElem?_append_left hlt] at hi
      rw [List.getElem?_append_left (h.length ▸ hlt), h.states i task' hi]
      exact ⟨.inl, fun h => h.resolve_right fun h => absurd h.1 (Nat.ne_of_lt hlt)⟩
    · -- the place of the last task
      obtain rfl : i = tasks.length := by
        have hbound := (List.getElem?_eq_some_iff.mp hi).1
        simp only [List.length_append, List.length_singleton] at hbound
        omega
      rw [List.getElem?_concat_length] at hi
      obtain rfl := Option.some.inj hi
      rw [← h.length, List.getElem?_concat_length, Option.map_some, Option.some.injEq, haccepts, h.length]
      exact ⟨fun hacc => .inr ⟨rfl, rfl, hacc⟩, fun h => h.elim (fun h => absurd h.lt_length (lt_irrefl _)) (·.2.2)⟩
  · intro state
    rw [hcount, h.counted, hrows, List.countP_append]
    simp

theorem runBook (tasks : List PatchTask) : RunBook tasks := by
  induction tasks using List.reverseRecOn with
  | nil => exact runBook_nil
  | append_singleton tasks task ih => exact ih.snoc task

/-- The report stops at its limit: the tasks behind it are not looked at. -/
theorem steps_eq_foldl (tasks : List PatchTask) (s : PatchRun) :
    s.steps tasks = (tasks.take (patchMaxTasks - s.report.tasks.length)).foldl PatchRun.step s := by
  induction tasks generalizing s with
  | nil => rw [PatchRun.steps, List.take_nil, List.foldl_nil]
  | cons task rest ih =>
    rw [PatchRun.steps]
    split
    · rename_i hfull
      rw [Nat.sub_eq_zero_of_le hfull, List.take_zero, List.foldl_nil]
    · rename_i hroom
      obtain ⟨row, hrows, -⟩ := step_cases s task
      have hroom : patchMaxTasks - s.report.tasks.length = patchMaxTasks - (s.step task).report.tasks.length + 1 := by
        rw [hrows, List.length_append, List.length_singleton]
        omega
      rw [ih, hroom, List.take_succ_cons, List.foldl_cons]

theorem buildPatchReport_eq (tasks : List PatchTask) :
    buildPatchReport tasks = (runTasks (tasks.take patchMaxTasks)).report := by
  rw [buildPatchReport, steps_eq_foldl]
  rfl

/-! ## Handoffs -/

namespace PatchTask

/-- The handoff as `json.Unmarshal` has it. -/
def handoffRead (task : PatchTask) : Option JsonValue := unmarshal task.handoffText

/-- Every file the handoff says was changed. -/
def handoffFiles (task : PatchTask) : List Text :=
  nonEmptyStrings ((asArray (task.handoffRead.bind (·.get "changed_files"))).getD [])

end PatchTask

theorem judge_fields (v : HandoffVerdict) (requireVerification : Bool) :
    (v.judge requireVerification).valid ∧ (v.judge requireVerification).passedTests = v.passedTests ∧
      (v.judge requireVerification).outsideOwnershipCount = v.outsideOwnershipCount := by
  unfold HandoffVerdict.judge
  dsimp only
  split_ifs <;> exact ⟨rfl, rfl, rfl⟩

/-- The verdict on a well-formed handoff goes back to its fields. -/
theorem validateHandoff_ok {text files : Text} {requireVerification : Bool}
    (h : (validateHandoff text files requireVerification).2) :
    ∃ members changed tests, unmarshal text = some (.object members) ∧
      requiredFields (.object members) = some (changed, tests) ∧
      (validateHandoff text files requireVerification).1.valid ∧
      (validateHandoff text files requireVerification).1.passedTests = passedTestCount tests ∧
      (validateHandoff text files requireVerification).1.outsideOwnershipCount =
        outsideOwnedCount changed
          ((asArray ((JsonValue.object members).get "outside_ownership_touches")).getD []) (ownedFiles files) := by
  unfold validateHandoff at h ⊢
  dsimp only at h ⊢
  split_ifs at h ⊢ with htext
  split at h
  · rename_i members hread
    rw [hread]
    split_ifs at h ⊢ with hschema hstatus
    split at h
    · cases h
    · rename_i changed tests hfields
      exact ⟨members, changed, tests, rfl, hfields, judge_fields _ _⟩
  · cases h

theorem requiredFields_changed {root : JsonValue} {changed tests : List JsonValue}
    (h : requiredFields root = some (changed, tests)) :
    asArray (root.get "changed_files") = some changed ∧ asArray (root.get "tests") = some tests := by
  unfold requiredFields at h
  split at h
  · rename_i changed' tests' summary hchanged htests hsummary
    dsimp only at h
    split_ifs at h
    obtain ⟨rfl, rfl⟩ := Prod.mk.inj (Option.some.inj h)
    exact ⟨hchanged, htests⟩
  · cases h

/-- Where ownership is scoped and nothing is outside, the changed files are the owned ones. -/
theorem owned_of_outsideOwnedCount {changed outside owned : List JsonValue}
    (h : outsideOwnedCount changed outside (some owned) = 0) (howned : owned ≠ []) :
    ∀ f ∈ nonEmptyStrings changed, f ∈ nonEmptyStrings owned := by
  intro f hf
  cases owned with
  | nil => exact absurd rfl howned
  | cons item owned =>
    obtain ⟨hout, hcount⟩ := Nat.add_eq_zero_iff.mp h
    have hoff := List.countP_eq_zero.mp hcount f hf
    have hnone : nonEmptyStrings outside = [] := List.length_eq_zero_iff.mp hout
    have hnot : containsString outside f = false := by
      rw [containsString, hnone]
      rfl
    by_contra hmiss
    have hown : containsString (item :: owned) f = false := Bool.eq_false_iff.mpr fun h =>
      hmiss (List.contains_iff_mem.mp h)
    exact hoff (by rw [hown, hnot]; rfl)

/-- A handoff that can be reviewed: it is valid and tested, inside its ownership, and on the integration base
    as both readers have it. -/
structure HandoffSound (task : PatchTask) : Prop where
  valid : task.handedOff ∧ task.verdict.valid
  tested : ∃ tests, asArray (task.handoffRead.bind (·.get "tests")) = some tests ∧ 0 < passedTestCount tests
  inside : task.verdict.outsideOwnershipCount = 0
  owned : ∀ owned, ownedFiles task.files = some owned → owned ≠ [] → ∀ f ∈ task.handoffFiles, f ∈ nonEmptyStrings owned
  seen : handoffBaseIsStale task.handoff = false
  fresh : handoffBaseIsStale task.handoffRead = false

theorem handoffSound_iff {task : PatchTask} (h : task.clears) :
    HandoffSound task ↔ handoffBaseIsStale task.handoffRead = false := by
  constructor
  · exact HandoffSound.fresh
  · intro hfresh
    simp only [PatchTask.clears, Bool.and_eq_true, Bool.not_eq_true', decide_eq_true_eq] at h
    obtain ⟨⟨-, hhanded⟩, ⟨⟨-, hinside⟩, hseen⟩, htested⟩ := h
    have hok : (validateHandoff task.handoffText task.files true).2 := by
      simp only [PatchTask.handedOff, Bool.and_eq_true] at hhanded
      exact hhanded.2
    obtain ⟨members, changed, tests, hread, hfields, hvalid, hpassed, houtside⟩ := validateHandoff_ok hok
    obtain ⟨hchanged, htests⟩ := requiredFields_changed hfields
    have hroot : task.handoffRead = some (.object members) := hread
    refine ⟨⟨hhanded, hvalid⟩, ⟨tests, ?_, ?_⟩, hinside, ?_, hseen, hfresh⟩
    · rw [hroot, Option.bind_some, htests]
    · rw [PatchTask.verdict, hpassed] at htested
      exact Nat.pos_of_ne_zero htested
    · intro owned howned hne
      rw [PatchTask.verdict, houtside, howned] at hinside
      rw [PatchTask.handoffFiles, hroot, Option.bind_some, hchanged]
      exact owned_of_outsideOwnedCount hinside hne

/-! ## Reviewable packets -/

/-- The report has the task, at that place, as reviewable. -/
def ReviewableAt (tasks : List PatchTask) (i : ℕ) (task : PatchTask) : Prop :=
  tasks[i]? = some task ∧ ((buildPatchReport tasks).tasks[i]?).map (·.patchState) = some .reviewable

def PatchTask.Shares (a b : PatchTask) : Prop := ∃ f ∈ a.handoffFiles, f ∈ b.handoffFiles

structure PacketsSound (tasks : List PatchTask) : Prop where
  disjoint : ∀ i j a b, ReviewableAt tasks i a → ReviewableAt tasks j b → i < j → ¬ a.Shares b
  handoffs : ∀ i task, ReviewableAt tasks i task → HandoffSound task
  counters : ∀ state, (buildPatchReport tasks).stateCount state = (buildPatchReport tasks).tasks.countP
    (·.patchState = state)

theorem reviewableAt_iff {tasks : List PatchTask} {i : ℕ} {task : PatchTask} :
    ReviewableAt tasks i task ↔ Greedy.TakenAt accepts (tasks.take patchMaxTasks) i task := by
  have hbook := runBook (tasks.take patchMaxTasks)
  rw [ReviewableAt, buildPatchReport_eq]
  constructor
  · rintro ⟨hi, hstate⟩
    have hlt : i < (tasks.take patchMaxTasks).length := by
      rw [← hbook.length]
      by_contra hge
      rw [List.getElem?_eq_none (Nat.le_of_not_lt hge)] at hstate
      cases hstate
    have htake : (tasks.take patchMaxTasks)[i]? = some task := by
      rw [List.getElem?_take_of_lt (lt_of_lt_of_le hlt (List.length_take_le _ _)), hi]
    exact (hbook.states i task htake).mp hstate
  · intro h
    have htake : (tasks.take patchMaxTasks)[i]? = some task := by
      obtain ⟨pre, post, hsplit, rfl, -⟩ := h
      rw [hsplit, List.getElem?_append_right (Nat.le_refl _), Nat.sub_self, List.getElem?_cons_zero]
    refine ⟨?_, (hbook.states i task htake).mpr h⟩
    rw [List.getElem?_take] at htake
    split_ifs at htake
    exact htake

/-- The packets of a report are sound exactly when each task that clears its own tests, and shares a file with a
    reviewable packet before it or is on a stale base, is noticed to overlap. -/
theorem packetsSound_iff (tasks : List PatchTask) :
    PacketsSound tasks ↔ ∀ pre task post, tasks.take patchMaxTasks = pre ++ task :: post → task.clears →
      ((∃ packet ∈ Greedy.taken accepts pre, packet.Shares task) ∨ handoffBaseIsStale task.handoffRead) →
      noticed (Greedy.taken accepts pre) task := by
  have haccepts : ∀ packets task, accepts packets task ↔ task.clears ∧ ¬ noticed packets task := by
    intro packets task
    simp [accepts]
  have hconflict := @Greedy.no_conflict_iff _ accepts (tasks.take patchMaxTasks) PatchTask.Shares
  constructor
  · rintro h pre task post hsplit hclears hbad
    by_contra hnotice
    have htest : accepts (Greedy.taken accepts pre) task := (haccepts _ _).mpr ⟨hclears, hnotice⟩
    rcases hbad with ⟨packet, hmem, hshares⟩ | hstale
    · refine hconflict.mp (fun i j a b ha hb => ?_) pre task post hsplit htest packet hmem hshares
      exact h.disjoint i j a b (reviewableAt_iff.mpr ha) (reviewableAt_iff.mpr hb)
    · have hsound := h.handoffs pre.length task (reviewableAt_iff.mpr ⟨pre, post, hsplit, rfl, htest⟩)
      exact absurd hstale (by rw [hsound.fresh]; decide)
  · intro h
    refine ⟨fun i j a b ha hb => ?_, fun i task hi => ?_, fun state => ?_⟩
    · refine hconflict.mpr (fun pre task post hsplit htest packet hmem hshares => ?_) i j a b
        (reviewableAt_iff.mp ha) (reviewableAt_iff.mp hb)
      obtain ⟨hclears, hnotice⟩ := (haccepts _ _).mp htest
      exact hnotice (h pre task post hsplit hclears (.inl ⟨packet, hmem, hshares⟩))
    · obtain ⟨pre, post, hsplit, -, htest⟩ := reviewableAt_iff.mp hi
      obtain ⟨hclears, hnotice⟩ := (haccepts _ _).mp htest
      refine (handoffSound_iff hclears).mpr (Bool.eq_false_iff.mpr fun hstale => ?_)
      exact hnotice (h pre task post hsplit hclears (.inr hstale))
    · rw [buildPatchReport_eq]
      exact (runBook _).counted state

/-! ## The limit on the files -/

/-- A packet with 32 files of its own, and one that others have too. -/
def crowdedPacket (id : ℤ) (letter : UInt8) : PatchTask where
  id := id
  stepId := id
  status := utf8 "done"
  files := []
  result :=
    utf8 "\x7b\"schema_version\":\"delegate_result_v1\",\"status\":\"done\",\"summary\":\"s\",\"changed_files\":[" ++
      (List.range 32).flatMap (fun i => [34, letter, 48 + UInt8.ofNat i, 34, 44]) ++
      utf8 "\"shared\"],\"tests\":[\x7b\"status\":\"passed\"\x7d]\x7d"
  error := []

/-- Two packets with a common file, the last of the 33 that each changed, are both reviewable. -/
theorem not_packetsSound_crowded : ¬ PacketsSound [crowdedPacket 1 97, crowdedPacket 2 98] := by
  intro h
  have hstates : (buildPatchReport [crowdedPacket 1 97, crowdedPacket 2 98]).tasks.map (·.patchState) =
    [.reviewable, .reviewable] := by
    decide +kernel
  have hat : ∀ i, i < 2 →
    ((buildPatchReport [crowdedPacket 1 97, crowdedPacket 2 98]).tasks[i]?).map (·.patchState) = some .reviewable := by
    intro i hi
    rw [← List.getElem?_map, hstates]
    match i, hi with
    | 0, _ | 1, _ => rfl
  refine h.disjoint 0 1 _ _ ⟨rfl, hat 0 (by decide)⟩ ⟨rfl, hat 1 (by decide)⟩ (by decide) ⟨utf8 "shared", ?_, ?_⟩
  · exact List.contains_iff_mem.mp (by decide +kernel)
  · exact List.contains_iff_mem.mp (by decide +kernel)

end Delegates
