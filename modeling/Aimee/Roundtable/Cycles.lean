-- SUMMARY: The discussion loop as a sequence of cycles: the issues each one votes on, the decisions they leave, and what the loop's calls and state are after any number of turns.
import Mathlib.Data.List.Range
import Aimee.Roundtable.Ballots
import Aimee.Roundtable.Calls

/-!
# Cycles

The issues of cycle `k + 1` are a function of the replies to the first `k` cycles, and so are the
decisions. The loop computes them turn by turn, and the calls it makes are those cycles in order.
-/

namespace Roundtable

/-! ## Lists of requests -/

theorem mapM_ok_of_forall {α β : Type} {f : α → Except String β} {l : List α} (h : ∀ a ∈ l, ∃ b, f a = .ok b) :
    ∃ bs, l.mapM f = .ok bs ∧ bs.length = l.length := by
  induction l with
  | nil => exact ⟨[], rfl, rfl⟩
  | cons a rest ih =>
    obtain ⟨b, hb⟩ := h a List.mem_cons_self
    obtain ⟨bs, hbs, hlen⟩ := ih fun x hx => h x (List.mem_cons_of_mem _ hx)
    refine ⟨b :: bs, ?_, by rw [List.length_cons, List.length_cons, hlen]⟩
    rw [List.mapM_cons, hb, hbs]
    rfl

theorem forall_of_mapM_ok {α β : Type} {f : α → Except String β} {l : List α} {bs : List β} (h : l.mapM f = .ok bs) :
    bs.length = l.length ∧ ∀ a ∈ l, ∃ b, f a = .ok b := by
  induction l generalizing bs with
  | nil =>
    cases h
    exact ⟨rfl, fun a ha => absurd ha List.not_mem_nil⟩
  | cons a rest ih =>
    rw [List.mapM_cons] at h
    cases ha : f a with
    | error err =>
      rw [ha] at h
      cases h
    | ok b =>
      cases hrest : rest.mapM f with
      | error err =>
        rw [ha, hrest] at h
        cases h
      | ok cs =>
        rw [ha, hrest] at h
        cases h
        obtain ⟨hlen, hall⟩ := ih hrest
        exact ⟨by rw [List.length_cons, List.length_cons, hlen], List.forall_mem_cons.mpr ⟨⟨b, ha⟩, hall⟩⟩

/-! ## The sequence of cycles -/

section Sequence

variable (P : Platform) (delegates : Delegates) (runId : String) (analysis : Analysis)

/-- The replies of a cycle, one for each report. -/
def cycleReplies (cycle : ℕ) :
    List SeatResult := (List.range analysis.reports.length).map (delegates.reply (.discussion cycle))

/-- What a cycle counts when it votes on the issues. -/
def cycleCount (cycle : ℕ) (issues : List DiscussionIssue) : CycleCount :=
  (cycleReplies delegates analysis cycle).foldl
    (countBallot P runId analysis.feedback.artifactHash (requiredIds issues))
    { votes := fun _ => .zero, successful := 0, costUsd := 0, costUnknown := false }

/-- The majority of a count. -/
def CycleCount.majority (c : CycleCount) : ℕ := c.successful / 2 + 1

/-- The issues that cycle `k + 1` votes on. -/
def votedOn : ℕ → List DiscussionIssue
  | 0 => makeDiscussionIssues P analysis.feedback.findings
  | k + 1 =>
    let c := cycleCount P delegates runId analysis (k + 1) (votedOn k)
    contestedIssues c.votes c.majority (votedOn k)

/-- The count of cycle `k + 1`. -/
def countIn (k : ℕ) : CycleCount := cycleCount P delegates runId analysis (k + 1) (votedOn P delegates runId analysis k)

/-- The valid ballots of cycle `k + 1`. -/
def ballotsIn (k : ℕ) : List DiscussionResponse :=
  validBallots P runId analysis.feedback.artifactHash (votedOn P delegates runId analysis k)
    (cycleReplies delegates analysis (k + 1))

/-- The decisions after `k` cycles. -/
def decided : ℕ → String → Decision
  | 0 => fun _ => .zero
  | k + 1 =>
    let c := countIn P delegates runId analysis k
    recordDecisions c.votes c.majority (votedOn P delegates runId analysis k) (decided k)

end Sequence

section Loop

variable {P : Platform} {delegates : Delegates} {clock : Clock} {run : Run} {panel : Panel} {analysis : Analysis}
  {artifactStage : String}

variable (P delegates run analysis) in
theorem successful_countIn (k : ℕ) :
    (countIn P delegates run.id analysis k).successful = (ballotsIn P delegates run.id analysis k).length :=
  (foldl_countBallot_successful _ _).trans (Nat.zero_add _)

theorem costUsd_countIn (k : ℕ) :
    (countIn P delegates run.id analysis k).costUsd =
      ((cycleReplies delegates analysis (k + 1)).map SeatResult.costUsd).sum :=
  (foldl_countBallot_costUsd _ _).trans (zero_add _)

theorem votes_countIn (k : ℕ) (id : String) :
    (countIn P delegates run.id analysis k).votes id =
      { agree := (ballotsIn P delegates run.id analysis k).countP (·.casts "agree" id),
        disagree := (ballotsIn P delegates run.id analysis k).countP (·.casts "disagree" id) } := by
  refine (foldl_countBallot_votes _ _ id).trans ?_
  rw [Votes.mk.injEq]
  exact ⟨Nat.zero_add _, Nat.zero_add _⟩

/-! ## A cycle of the code -/

/-- Every reporting seat had its analysis input built. -/
def Admitted (run : Run) (analysis : Analysis) : Prop :=
  ∀ r ∈ analysis.reports, ∃ procedure input, reviewInput run r.seat.persona procedure [] = .ok input

variable (P delegates artifactStage) in
/-- A cycle whose reporting seats were admitted asks them all and counts their replies. -/
theorem runDiscussionCycle_eq (hadmitted : Admitted run analysis) (limit : ℚ)
    (issues : List DiscussionIssue) (cycle : ℕ) :
    ∃ requests, requests.length = analysis.reports.length ∧
      runDiscussionCycle P delegates (run.limited limit) analysis.reports issues
          (discussionPrompt run.id analysis.feedback.artifactHash cycle) analysis.feedback.artifactHash
            artifactStage cycle
          (discussionData analysis.reports issues) =
        { count := cycleCount P delegates run.id analysis cycle issues
          launches := [{ phase := .discussion cycle, costLimitUsd := limit, requests := requests,
                         results := cycleReplies delegates analysis cycle }] } := by
  have hbuild : ∀ r ∈ analysis.reports, ∃ q, discussionRequest P (run.limited limit)
      analysis.feedback.artifactHash artifactStage (discussionPrompt run.id analysis.feedback.artifactHash cycle)
      (discussionData analysis.reports issues) cycle r = .ok q := by
    intro r hr
    obtain ⟨procedure, input, hinput⟩ := hadmitted r hr
    -- the texts of the cycle are marshalled, so they are refused nowhere the analysis was not
    have hdata : ∀ t ∈ [discussionData analysis.reports issues], GoText.Plain t :=
      fun t ht => List.mem_singleton.mp ht ▸ discussionData_plain analysis.reports issues
    obtain ⟨q, hq⟩ := reviewInput_ok_of_ok hinput
      (discussionPrompt_plain run.id analysis.feedback.artifactHash cycle) hdata
      (by rw [List.length_singleton]; omega)
    have hq' : reviewInput (run.limited limit) r.seat.persona
        (discussionPrompt run.id analysis.feedback.artifactHash cycle)
          [discussionData analysis.reports issues] = .ok q := hq
    exact ⟨_, by rw [discussionRequest, hq']; rfl⟩
  obtain ⟨requests, hrequests, hlen⟩ := mapM_ok_of_forall hbuild
  refine ⟨requests, hlen, ?_⟩
  rw [runDiscussionCycle, hrequests]
  simp only [Delegates.group, hlen]
  rfl

/-- The loop's state after a cycle was counted. -/
def Loop.counted (st : Loop) (analysis : Analysis) (c : CycleCount) (l : Launch) : Loop :=
  { st with
    totalCost := st.totalCost + c.costUsd
    totalCostUnknown := st.totalCostUnknown || c.costUnknown
    phaseCost := st.phaseCost + c.costUsd
    discussionFailed := if st.discussionFailed < (analysis.reports.length : ℤ) - c.successful
      then (analysis.reports.length : ℤ) - c.successful else st.discussionFailed
    launches := st.launches ++ [l] }

variable (P delegates clock panel artifactStage) in
/-- A turn of the loop, with the call it makes spelled out. -/
theorem discussionTurn_eq (hadmitted : Admitted run analysis) (st : Loop) :
    ∃ requests, requests.length = analysis.reports.length ∧
      discussionTurn P delegates clock run panel analysis artifactStage st =
        (let limit := remainingCostLimit run.costLimitUsd st.phaseCost
         let c := cycleCount P delegates run.id analysis st.cycle st.active
         let l : Launch := { phase := .discussion st.cycle, costLimitUsd := limit, requests := requests,
                             results := cycleReplies delegates analysis st.cycle }
         let st' := st.counted analysis c l
         let contested := contestedIssues c.votes c.majority st.active
         let decisions := recordDecisions c.votes c.majority st.active st.decisions
         if clock (.cycleStart st.cycle) ≠ none then (st, .failed deadlineText)
         else if 0 < run.costLimitUsd ∧ limit ≤ 0 then (st, .failed exhaustedText)
         else if (c.successful : ℤ) < panel.minSuccessful then
           if clock (.cycleEnd st.cycle) ≠ none then (st', .failed deadlineText)
           else (st', .failed (quorumText c.successful analysis.reports.length panel.minSuccessful))
         else if contested = [] then ({ st' with decisions := decisions }, .settled)
         else ({ st' with decisions := decisions, active := contested, cycle := st.cycle + 1 }, .again)) := by
  obtain ⟨requests, hlen, hcycle⟩ := runDiscussionCycle_eq P delegates artifactStage hadmitted
    (remainingCostLimit run.costLimitUsd st.phaseCost) st.active st.cycle
  refine ⟨requests, hlen, ?_⟩
  unfold discussionTurn
  simp only [hcycle]
  rfl

/-! ## The loop -/

/-- The state after the calls of `n` cycles. -/
structure Ran (delegates : Delegates) (run : Run) (analysis : Analysis) (n : ℕ) (st : Loop) : Prop where
  phases : st.launches.map Launch.phase = (List.range n).map fun k => .discussion (k + 1)
  results : ∀ l ∈ st.launches, ∀ c, l.phase = .discussion c → l.results = cycleReplies delegates analysis c
  phaseCost : st.phaseCost = spent st.launches
  totalCost : st.totalCost = analysis.costUsd + spent st.launches
  capped : Capped run.costLimitUsd 0 st.launches

/-- The state in which cycle `k + 1` begins. -/
structure AtCycle (P : Platform) (delegates : Delegates) (run : Run) (panel : Panel) (analysis : Analysis) (k : ℕ)
    (st : Loop) : Prop extends Ran delegates run analysis k st where
  active : st.active = votedOn P delegates run.id analysis k
  cycle : st.cycle = k + 1
  decisions : st.decisions = decided P delegates run.id analysis k
  quorate : ∀ j < k, panel.minSuccessful ≤ ((ballotsIn P delegates run.id analysis j).length : ℤ)

variable (P delegates run panel analysis) in
theorem atCycle_startLoop : AtCycle P delegates run panel analysis 0 (startLoop P analysis) where
  phases := rfl
  results := fun _ hl => absurd hl List.not_mem_nil
  phaseCost := rfl
  totalCost := (add_zero _).symm
  capped := trivial
  active := rfl
  cycle := rfl
  decisions := rfl
  quorate := fun _ hj => absurd hj (Nat.not_lt_zero _)

/-- The call of cycle `k + 1`. -/
structure CycleCall (delegates : Delegates) (run : Run) (analysis : Analysis) (k : ℕ) (before : ℚ)
    (l : Launch) : Prop where
  phase : l.phase = .discussion (k + 1)
  results : l.results = cycleReplies delegates analysis (k + 1)
  ceiling : l.costLimitUsd = remainingCostLimit run.costLimitUsd before
  funded : 0 < run.costLimitUsd → 0 < l.costLimitUsd

theorem ran_counted {k : ℕ} {st : Loop} (h : Ran delegates run analysis k st) {c : CycleCount} {l : Launch}
    (hl : CycleCall delegates run analysis k st.phaseCost l) (hcost : l.cost = c.costUsd) :
    Ran delegates run analysis (k + 1) (st.counted analysis c l) where
  phases := by
    rw [Loop.counted, List.map_append, h.phases, List.range_succ, List.map_append, List.map_singleton,
      List.map_singleton, hl.phase]
  results := by
    intro m hm cycle hphase
    rcases List.mem_append.mp hm with hm | hm
    · exact h.results m hm cycle hphase
    · cases List.mem_singleton.mp hm
      rw [hl.phase] at hphase
      cases hphase
      exact hl.results
  phaseCost := by rw [Loop.counted, spent_append, spent_singleton, hcost, ← h.phaseCost]
  totalCost := by rw [Loop.counted, spent_append, spent_singleton, hcost, ← add_assoc, ← h.totalCost]
  capped := by
    rw [Loop.counted, capped_append, capped_singleton, zero_add, ← h.phaseCost]
    exact ⟨h.capped, hl.ceiling, hl.funded⟩

/-- How a turn ends. In every case but the first the cycle was called and counted. -/
inductive TurnCase (P : Platform) (delegates : Delegates) (run : Run) (panel : Panel) (analysis : Analysis)
    (k : ℕ) (st : Loop) :
    Loop × Turn → Prop where
  | stopped (err : String) : TurnCase P delegates run panel analysis k st (st, .failed err)
  | inquorate (st' : Loop) (err : String) (hran : Ran delegates run analysis (k + 1) st')
      (hshort : ((ballotsIn P delegates run.id analysis k).length : ℤ) < panel.minSuccessful) :
      TurnCase P delegates run panel analysis k st (st', .failed err)
  | settled (st' : Loop) (hran : Ran delegates run analysis (k + 1) st')
      (hdecisions : st'.decisions = decided P delegates run.id analysis (k + 1))
      (hquorate : ∀ j < k + 1, panel.minSuccessful ≤ ((ballotsIn P delegates run.id analysis j).length : ℤ))
      (hdone : votedOn P delegates run.id analysis (k + 1) = []) : TurnCase P delegates run panel analysis k
        st (st', .settled)
  | again (st' : Loop) (hat : AtCycle P delegates run panel analysis (k + 1) st')
      (hmore : votedOn P delegates run.id analysis (k + 1) ≠ []) : TurnCase P delegates run panel analysis k
        st (st', .again)

variable (clock artifactStage) in
theorem discussionTurn_case (hadmitted : Admitted run analysis) {k : ℕ} {st : Loop}
    (h : AtCycle P delegates run panel analysis k st) :
    TurnCase P delegates run panel analysis k st
      (discussionTurn P delegates clock run panel analysis artifactStage st) := by
  obtain ⟨requests, hlen, hturn⟩ := discussionTurn_eq P delegates clock panel artifactStage hadmitted st
  rw [hturn]
  dsimp only
  rw [h.cycle, h.active]
  have hcall : ¬(0 < run.costLimitUsd ∧ remainingCostLimit run.costLimitUsd st.phaseCost ≤ 0) →
      Ran delegates run analysis (k + 1) (st.counted analysis (countIn P delegates run.id analysis k)
        { phase := .discussion (k + 1), costLimitUsd := remainingCostLimit run.costLimitUsd st.phaseCost,
          requests := requests, results := cycleReplies delegates analysis (k + 1) }) := by
    intro hfunds
    refine ran_counted h.toRan ⟨rfl, rfl, rfl, fun hpos => ?_⟩ (costUsd_countIn k).symm
    exact not_le.mp fun hle => hfunds ⟨hpos, hle⟩
  have hballots := successful_countIn P delegates run analysis k
  split_ifs with hclock hfunds hquorum hend hdone
  · exact .stopped _
  · exact .stopped _
  · exact .inquorate _ _ (hcall hfunds) (by rw [← hballots]; exact hquorum)
  · exact .inquorate _ _ (hcall hfunds) (by rw [← hballots]; exact hquorum)
  all_goals
    have hran := hcall hfunds
    have hquorate : ∀ j < k + 1, panel.minSuccessful ≤ ((ballotsIn P delegates run.id analysis j).length : ℤ) := by
      intro j hj
      rcases Nat.lt_succ_iff_lt_or_eq.mp hj with hj | rfl
      · exact h.quorate j hj
      · rw [← hballots]
        exact not_lt.mp hquorum
  · exact .settled _ ⟨hran.phases, hran.results, hran.phaseCost, hran.totalCost, hran.capped⟩
      (by rw [h.decisions]; rfl) hquorate hdone
  · exact .again _ { hran with
      active := rfl, cycle := rfl, decisions := by rw [h.decisions]; rfl, quorate := hquorate } hdone

/-- What the loop returns: some cycles were called, and if it settled, they were the whole
    discussion. -/
structure Ended (P : Platform) (delegates : Delegates) (run : Run) (panel : Panel) (analysis : Analysis) (n : ℕ)
    (r : Loop × Turn) : Prop where
  ran : Ran delegates run analysis n r.1
  settled : r.2 = .settled → 0 < n ∧ votedOn P delegates run.id analysis n = [] ∧
    r.1.decisions = decided P delegates run.id analysis n ∧
    ∀ j < n, panel.minSuccessful ≤ ((ballotsIn P delegates run.id analysis j).length : ℤ)

variable (clock artifactStage) in
theorem discussionLoop_ended (hadmitted : Admitted run analysis) (fuel : ℕ) {k : ℕ} {st : Loop}
    (h : AtCycle P delegates run panel analysis k st) :
    ∃ n, Ended P delegates run panel analysis n
      (discussionLoop P delegates clock run panel analysis artifactStage fuel st) := by
  induction fuel generalizing k st with
  | zero => exact ⟨k, h.toRan, fun hturn => absurd hturn (by simp [discussionLoop])⟩
  | succ fuel ih =>
    rw [discussionLoop]
    generalize hr : discussionTurn P delegates clock run panel analysis artifactStage st = r
    have hcase := discussionTurn_case clock artifactStage hadmitted h
    rw [hr] at hcase
    cases hcase with
    | stopped err => exact ⟨k, h.toRan, fun hturn => by cases hturn⟩
    | inquorate st' err hran hshort => exact ⟨k + 1, hran, fun hturn => by cases hturn⟩
    | settled st' hran hdecisions hquorate hdone =>
      exact ⟨k + 1, hran, fun _ => ⟨Nat.succ_pos k, hdone, hdecisions, hquorate⟩⟩
    | again st' hat hmore => exact ih hat

/-! ## Decisions -/

variable {id : String} {votes : VoteMap} {majority : ℕ} {active : List DiscussionIssue}

theorem recordDecisions_of_mem (h : id ∈ active.map DiscussionIssue.id) (decisions : String → Decision) :
    recordDecisions votes majority active decisions id = { votes := votes id, majority := majority } := by
  unfold recordDecisions
  induction active using List.reverseRecOn with
  | nil => cases h
  | append_singleton rest issue ih =>
    rw [List.foldl_append, List.foldl_cons, List.foldl_nil]
    by_cases hid : id = issue.id
    · subst hid
      rw [Function.update_self]
    · rw [Function.update_of_ne hid]
      refine ih ?_
      rw [List.map_append, List.mem_append, List.map_singleton, List.mem_singleton] at h
      exact h.resolve_right hid

theorem recordDecisions_of_notMem (h : id ∉ active.map DiscussionIssue.id) (decisions : String → Decision) :
    recordDecisions votes majority active decisions id = decisions id := by
  unfold recordDecisions
  induction active using List.reverseRecOn with
  | nil => rfl
  | append_singleton rest issue ih =>
    rw [List.map_append, List.mem_append, List.map_singleton, List.mem_singleton, not_or] at h
    rw [List.foldl_append, List.foldl_cons, List.foldl_nil, Function.update_of_ne h.2, ih h.1]

/-- The decision of an issue is the one of the last cycle that voted on it. -/
structure LastVote (P : Platform) (delegates : Delegates) (runId : String) (analysis : Analysis) (n : ℕ)
    (id : String) (j : ℕ) :
    Prop where
  lt : j < n
  voted : id ∈ (votedOn P delegates runId analysis j).map DiscussionIssue.id
  last : ∀ i, j < i → i < n → id ∉ (votedOn P delegates runId analysis i).map DiscussionIssue.id

theorem exists_lastVote {n : ℕ} (hn : 0 < n)
    (h : id ∈ (votedOn P delegates run.id analysis 0).map DiscussionIssue.id) :
    ∃ j, LastVote P delegates run.id analysis n id j ∧ decided P delegates run.id analysis n id =
      { votes := (countIn P delegates run.id analysis j).votes id,
        majority := (countIn P delegates run.id analysis j).majority } := by
  induction n with
  | zero => exact absurd hn (Nat.lt_irrefl 0)
  | succ n ih =>
    by_cases hvoted : id ∈ (votedOn P delegates run.id analysis n).map DiscussionIssue.id
    · refine ⟨n, ⟨Nat.lt_succ_self n, hvoted, fun i hi hlt => absurd hlt (by omega)⟩, ?_⟩
      exact recordDecisions_of_mem hvoted _
    · rcases Nat.eq_zero_or_pos n with rfl | hpos
      · exact absurd h hvoted
      obtain ⟨j, hj, hdecided⟩ := ih hpos
      refine ⟨j, ⟨hj.lt.trans (Nat.lt_succ_self n), hj.voted, fun i hi hlt => ?_⟩, ?_⟩
      · rcases Nat.lt_succ_iff_lt_or_eq.mp hlt with hlt | rfl
        · exact hj.last i hi hlt
        · exact hvoted
      · exact (recordDecisions_of_notMem hvoted _).trans hdecided

/-! ## Synthesis -/

theorem filterMap_issues_from (decisions : String → Decision) (before rest : List Finding) :
    (rest.mapIdx fun i f =>
        (⟨issueId P f, f.severity, f.location, f.summary, f.recommendation, i + before.length⟩ :
        DiscussionIssue)).filterMap
        (fun issue => if (decisions issue.id).rejects then none else
          (withIssueIds P (before ++ rest))[issue.feedbackIndex]?) =
      (withIssueIds P rest).filter fun f => !(decisions f.id).rejects := by
  induction rest generalizing before with
  | nil => rfl
  | cons f rest ih =>
    have hget : (withIssueIds P (before ++ f :: rest))[before.length]? = some { f with id := issueId P f } := by
      rw [withIssueIds, List.getElem?_map, List.getElem?_append_right le_rfl, Nat.sub_self]
      rfl
    have hrest := ih (before ++ [f])
    rw [List.append_assoc, List.singleton_append, List.length_append, List.length_singleton] at hrest
    have hindex : ∀ i, i + 1 + before.length = i + (before.length + 1) := fun i => by omega
    rw [List.mapIdx_cons, List.filterMap_cons]
    simp only [Nat.zero_add, hindex, hget]
    rw [hrest, withIssueIds, withIssueIds, List.map_cons, List.filter_cons]
    cases (decisions (issueId P f)).rejects <;> rfl

theorem keptFindings_eq (decisions : String → Decision) (findings : List Finding) :
    keptFindings decisions (makeDiscussionIssues P findings) (withIssueIds P findings) =
      (withIssueIds P findings).filter fun f => !(decisions f.id).rejects := by
  have h := filterMap_issues_from (P := P) decisions [] findings
  exact h

/-- What the discussion hands on: the calls of some cycles, and, if it settled, the feedback that
    their decisions leave. -/
structure Discussed (P : Platform) (delegates : Delegates) (run : Run) (panel : Panel) (analysis : Analysis) (n : ℕ)
    (d : DiscussionResult) : Prop where
  phases : d.launches.map Launch.phase = (List.range n).map fun k => .discussion (k + 1)
  results : ∀ l ∈ d.launches, ∀ c, l.phase = .discussion c → l.results = cycleReplies delegates analysis c
  capped : Capped run.costLimitUsd 0 d.launches
  cost : d.costUsd = analysis.costUsd + spent d.launches
  settled : d.turn = .settled → 0 < n ∧ votedOn P delegates run.id analysis n = [] ∧
    (∀ j < n, panel.minSuccessful ≤ ((ballotsIn P delegates run.id analysis j).length : ℤ)) ∧
    d.feedback.findings =
      (withIssueIds P analysis.feedback.findings).filter (fun f =>
        !(decided P delegates run.id analysis n f.id).rejects) ∧
    d.approvals = if d.feedback.findings = [] then analysis.reports.length else analysis.approvals

variable (P delegates clock panel artifactStage) in
theorem runDiscussion_discussed (hadmitted : Admitted run analysis) (fuel : ℕ) :
    ∃ n, Discussed P delegates run panel analysis n
      (runDiscussion P delegates clock run panel analysis artifactStage fuel) := by
  unfold runDiscussion
  split_ifs with hnone
  · exact ⟨0, rfl, fun _ hl => absurd hl List.not_mem_nil, trivial, (add_zero _).symm, fun h => by cases h⟩
  obtain ⟨n, hend⟩ := discussionLoop_ended clock artifactStage hadmitted fuel
    (atCycle_startLoop P delegates run panel analysis)
  revert hend
  generalize discussionLoop P delegates clock run panel analysis artifactStage fuel (startLoop P analysis) = r
  intro hend
  refine ⟨n, ?_⟩
  obtain ⟨st, turn⟩ := r
  cases turn with
  | settled =>
    obtain ⟨hn, hdone, hdecisions, hquorate⟩ := hend.settled rfl
    have hran : Ran delegates run analysis n st := hend.ran
    have hdec : st.decisions = decided P delegates run.id analysis n := hdecisions
    refine ⟨hran.phases, hran.results, hran.capped, hran.totalCost, fun _ => ⟨hn, hdone, hquorate, ?_, rfl⟩⟩
    rw [← hdec]
    exact keptFindings_eq st.decisions analysis.feedback.findings
  | failed err =>
    have hran : Ran delegates run analysis n st := hend.ran
    exact ⟨hran.phases, hran.results, hran.capped, hran.totalCost, fun h => by cases h⟩
  | again =>
    have hran : Ran delegates run analysis n st := hend.ran
    exact ⟨hran.phases, hran.results, hran.capped, hran.totalCost, fun h => by cases h⟩

end Loop

end Roundtable
