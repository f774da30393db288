-- SUMMARY: Valid ballots of a discussion cycle, what the cycle counts of them, and why the inputs of a discussion always build.
import Mathlib.Data.List.Dedup
import Mathlib.Data.List.Perm.Subperm
import Aimee.Roundtable.Reports

/-!
# Ballots

A ballot is valid when it names the run and the artifact, takes one of three positions on every
issue put to it, and on nothing else. A cycle counts exactly the valid ballots among its replies.
-/

namespace Roundtable

open GoText

/-! ## Valid ballots -/

structure IsBallot (runId artifactHash : String) (ids : List String) (r : DiscussionResponse) : Prop where
  runId_eq : r.runId = runId
  artifactHash_eq : r.artifactHash = artifactHash
  nodup : (r.positions.map DiscussionPosition.id).Nodup
  mem_iff : ∀ id, id ∈ r.positions.map DiscussionPosition.id ↔ id ∈ ids
  stance : ∀ p ∈ r.positions, isStance p.position = true

theorem scanPositions_eq_some_iff {required seen seen' : List String} {ps : List DiscussionPosition} :
    scanPositions required seen ps = some seen' ↔
      ((ps.map DiscussionPosition.id).Nodup ∧ (∀ p ∈ ps, p.id ∉ seen ∧ p.id ∈ required ∧ isStance p.position = true)) ∧
        seen' = (ps.map DiscussionPosition.id).reverse ++ seen := by
  induction ps generalizing seen with
  | nil =>
    rw [scanPositions, Option.some.injEq, eq_comm]
    exact (and_iff_right ⟨List.nodup_nil, fun _ h => absurd h List.not_mem_nil⟩).symm
  | cons p rest ih =>
    rw [scanPositions]
    by_cases hbad : p.id ∈ seen ∨ p.id ∉ required ∨ ¬isStance p.position = true
    · rw [if_pos hbad]
      simp only [reduceCtorEq, false_iff]
      rintro ⟨⟨-, h⟩, -⟩
      have hp := h p List.mem_cons_self
      rcases hbad with hb | hb | hb
      · exact hp.1 hb
      · exact hb hp.2.1
      · exact hb hp.2.2
    · rw [if_neg hbad, ih]
      push Not at hbad
      simp only [List.map_cons, List.nodup_cons, List.mem_cons, forall_eq_or_imp, List.reverse_cons, List.append_assoc,
        List.singleton_append, not_or]
      constructor
      · rintro ⟨⟨hnodup, hrest⟩, rfl⟩
        refine ⟨⟨⟨?_, hnodup⟩, ⟨hbad.1, hbad.2.1, hbad.2.2⟩, fun q hq => ⟨(hrest q hq).1.2, (hrest q hq).2⟩⟩, rfl⟩
        intro hmem
        obtain ⟨q, hq, hid⟩ := List.mem_map.mp hmem
        exact (hrest q hq).1.1 hid
      · rintro ⟨⟨⟨hnew, hnodup⟩, -, hrest⟩, rfl⟩
        refine ⟨⟨hnodup, fun q hq => ⟨⟨?_, (hrest q hq).1⟩, (hrest q hq).2⟩⟩, rfl⟩
        intro hid
        exact hnew (List.mem_map.mpr ⟨q, hq, hid⟩)

/-- The checks of the code are the definition of a valid ballot. -/
theorem countsAsBallot_iff {runId artifactHash : String} {ids : List String} {r : DiscussionResponse} :
    countsAsBallot runId artifactHash ids.dedup r = true ↔ IsBallot runId artifactHash ids r := by
  have hlen : ∀ {l : List String}, l.Nodup → l ⊆ ids.dedup → (l.length = ids.dedup.length ↔ ∀ id, id ∈ l ↔
    id ∈ ids) := by
    intro l hl hsub
    constructor
    · intro h id
      have hperm : l.Perm ids.dedup := (List.subperm_of_subset hl hsub).perm_of_length_le h.ge
      rw [hperm.mem_iff, List.mem_dedup]
    · intro h
      refine List.Perm.length_eq ((List.perm_ext_iff_of_nodup hl (List.nodup_dedup ids)).mpr fun id => ?_)
      rw [h id, List.mem_dedup]
  rw [countsAsBallot, Bool.and_eq_true, Bool.and_eq_true, Bool.and_eq_true, decide_eq_true_eq, decide_eq_true_eq,
    decide_eq_true_eq]
  constructor
  · rintro ⟨⟨⟨hrun, hart⟩, hcount⟩, hscan⟩
    split at hscan
    · cases hscan
    · next seen hseen =>
      obtain ⟨⟨hnodup, hall⟩, -⟩ := scanPositions_eq_some_iff.mp hseen
      have hsub : r.positions.map DiscussionPosition.id ⊆ ids.dedup := by
        intro id hid
        obtain ⟨p, hp, rfl⟩ := List.mem_map.mp hid
        exact (hall p hp).2.1
      exact ⟨hrun, hart, hnodup, (hlen hnodup hsub).mp (by rw [List.length_map, hcount]), fun p hp => (hall p hp).2.2⟩
  · intro h
    have hsub : r.positions.map DiscussionPosition.id ⊆ ids.dedup := fun id hid =>
      List.mem_dedup.mpr ((h.mem_iff id).mp hid)
    have hcount : r.positions.length = ids.dedup.length := by
      rw [← (hlen h.nodup hsub).mpr h.mem_iff, List.length_map]
    refine ⟨⟨⟨h.runId_eq, h.artifactHash_eq⟩, hcount⟩, ?_⟩
    rw [scanPositions_eq_some_iff.mpr ⟨⟨h.nodup, fun p hp =>
      ⟨List.not_mem_nil, hsub (List.mem_map.mpr ⟨p, hp, rfl⟩), h.stance p hp⟩⟩, rfl⟩]
    simp [hcount]

/-- Whether a list of positions takes a stance on an issue. -/
def takes (ps : List DiscussionPosition) (stance id : String) : Bool :=
  ps.any fun p => p.id = id && normal p.position = stance

/-- Whether a ballot casts a stance on an issue. -/
def DiscussionResponse.casts (r : DiscussionResponse) (stance id : String) : Bool := takes r.positions stance id

/-! ## Counting -/

/-- The positions of a list on one issue, counted. -/
def tallyOf (ps : List DiscussionPosition) (stance id : String) : ℕ :=
  ps.countP fun p => p.id = id && normal p.position = stance

theorem castPosition_apply (votes : VoteMap) (p : DiscussionPosition) (id : String) :
    castPosition votes p id =
      { agree := (votes id).agree + tallyOf [p] "agree" id,
        disagree := (votes id).disagree + tallyOf [p] "disagree" id } := by
  unfold castPosition tallyOf
  by_cases hid : p.id = id
  · subst hid
    by_cases ha : normal p.position = "agree"
    · simp [ha]
    · by_cases hd : normal p.position = "disagree"
      · simp [hd]
      · simp [ha, hd]
  · rw [Function.update_of_ne (Ne.symm hid)]
    simp [hid]

theorem foldl_castPosition (ps : List DiscussionPosition) (votes : VoteMap) (id : String) :
    ps.foldl castPosition votes id =
      { agree := (votes id).agree + tallyOf ps "agree" id,
        disagree := (votes id).disagree + tallyOf ps "disagree" id } := by
  induction ps generalizing votes with
  | nil => rfl
  | cons p rest ih =>
    rw [List.foldl_cons, ih, castPosition_apply]
    simp only [tallyOf, List.countP_cons, List.countP_nil, Votes.mk.injEq]
    omega

theorem tallyOf_of_nodup {ps : List DiscussionPosition} (h : (ps.map DiscussionPosition.id).Nodup)
    (stance id : String) :
    tallyOf ps stance id = (takes ps stance id).toNat := by
  induction ps with
  | nil => rfl
  | cons p rest ih =>
    rw [List.map_cons, List.nodup_cons] at h
    have hrest := ih h.2
    unfold tallyOf takes at hrest ⊢
    rw [List.countP_cons, hrest, List.any_cons]
    by_cases hp : p.id = id
    · -- the identity is taken, so nothing behind it counts
      have hnone : (rest.any fun q => q.id = id && normal q.position = stance) = false := by
        rw [List.any_eq_false]
        intro q hq hcast
        rw [Bool.and_eq_true, decide_eq_true_eq] at hcast
        exact h.1 (List.mem_map.mpr ⟨q, hq, hcast.1.trans hp.symm⟩)
      rw [hnone, Bool.or_false, Bool.toNat_false, Nat.zero_add]
      exact (Bool.cond_eq_ite _ _ _).symm
    · simp [hp]

/-- A reply's ballot, when it is a valid one. -/
def ballotOf (P : Platform) (runId artifactHash : String) (issues : List DiscussionIssue) (call : SeatResult) :
    Option DiscussionResponse :=
  match readBallot P call with
  | .error _ => none
  | .ok r => if countsAsBallot runId artifactHash (requiredIds issues) r then some r else none

/-- The valid ballots among the replies of a cycle, in the order of the seats. -/
def validBallots (P : Platform) (runId artifactHash : String) (issues : List DiscussionIssue)
    (calls : List SeatResult) :
    List DiscussionResponse :=
  calls.filterMap (ballotOf P runId artifactHash issues)

section Counting

variable {P : Platform} {runId artifactHash : String} {issues : List DiscussionIssue}

variable {call : SeatResult} {r : DiscussionResponse} {c : CycleCount}

theorem isBallot_of_ballotOf (h : ballotOf P runId artifactHash issues call = some r) :
    IsBallot runId artifactHash (issues.map DiscussionIssue.id) r := by
  unfold ballotOf at h
  split at h
  · cases h
  · split at h
    · next hcounts => exact Option.some.inj h ▸ countsAsBallot_iff.mp hcounts
    · cases h

theorem isBallot_of_mem {calls : List SeatResult}
    (h : r ∈ validBallots P runId artifactHash issues calls) :
    IsBallot runId artifactHash (issues.map DiscussionIssue.id) r := by
  obtain ⟨call, -, hcall⟩ := List.mem_filterMap.mp h
  exact isBallot_of_ballotOf hcall

theorem countBallot_of_none (h : ballotOf P runId artifactHash issues call = none) :
    countBallot P runId artifactHash (requiredIds issues) c call =
      { c with costUsd := c.costUsd + call.costUsd, costUnknown := c.costUnknown || call.costUnknown } := by
  unfold ballotOf at h
  unfold countBallot
  cases hread : readBallot P call with
  | error err => rfl
  | ok r =>
    by_cases hok : countsAsBallot runId artifactHash (requiredIds issues) r = true
    · rw [hread] at h
      simp [hok] at h
    · simp only [hok]
      rfl

theorem countBallot_of_some (h : ballotOf P runId artifactHash issues call = some r) :
    countBallot P runId artifactHash (requiredIds issues) c call =
      { votes := r.positions.foldl castPosition c.votes, successful := c.successful + 1,
        costUsd := c.costUsd + call.costUsd, costUnknown := c.costUnknown || call.costUnknown } := by
  unfold ballotOf at h
  unfold countBallot
  cases hread : readBallot P call with
  | error err =>
    rw [hread] at h
    cases h
  | ok r' =>
    rw [hread] at h
    dsimp only at h ⊢
    split at h
    · next hok => rw [if_pos hok, Option.some.inj h]
    · cases h

theorem countBallot_costUsd (c : CycleCount) (call : SeatResult) :
    (countBallot P runId artifactHash (requiredIds issues) c call).costUsd = c.costUsd + call.costUsd := by
  cases h : ballotOf P runId artifactHash issues call with
  | none => rw [countBallot_of_none h]
  | some r => rw [countBallot_of_some h]

theorem foldl_countBallot_costUsd (calls : List SeatResult) (c : CycleCount) :
    (calls.foldl (countBallot P runId artifactHash (requiredIds issues)) c).costUsd =
      c.costUsd + (calls.map SeatResult.costUsd).sum := by
  induction calls generalizing c with
  | nil => exact (add_zero _).symm
  | cons call rest ih => rw [List.foldl_cons, ih, countBallot_costUsd, List.map_cons, List.sum_cons, add_assoc]

theorem foldl_countBallot_successful (calls : List SeatResult) (c : CycleCount) :
    (calls.foldl (countBallot P runId artifactHash (requiredIds issues)) c).successful =
      c.successful + (validBallots P runId artifactHash issues calls).length := by
  induction calls generalizing c with
  | nil => rfl
  | cons call rest ih =>
    rw [List.foldl_cons, ih]
    cases h : ballotOf P runId artifactHash issues call with
    | none => rw [countBallot_of_none h, validBallots, validBallots, List.filterMap_cons_none h]
    | some r =>
      rw [countBallot_of_some h, validBallots, validBallots, List.filterMap_cons_some h, List.length_cons]
      dsimp only
      omega

theorem foldl_countBallot_votes (calls : List SeatResult) (c : CycleCount) (id : String) :
    (calls.foldl (countBallot P runId artifactHash (requiredIds issues)) c).votes id =
      { agree := (c.votes id).agree + (validBallots P runId artifactHash issues calls).countP (·.casts "agree" id),
        disagree := (c.votes id).disagree + (validBallots P runId artifactHash issues calls).countP
          (·.casts "disagree" id) } := by
  induction calls generalizing c with
  | nil => rfl
  | cons call rest ih =>
    rw [List.foldl_cons, ih]
    cases h : ballotOf P runId artifactHash issues call with
    | none => rw [countBallot_of_none h, validBallots, validBallots, List.filterMap_cons_none h]
    | some r =>
      have hnodup := (isBallot_of_ballotOf h).nodup
      rw [countBallot_of_some h, validBallots, validBallots, List.filterMap_cons_some h, List.countP_cons,
        List.countP_cons]
      dsimp only
      rw [foldl_castPosition, tallyOf_of_nodup hnodup, tallyOf_of_nodup hnodup]
      have hcast : ∀ stance, (takes r.positions stance id).toNat = if r.casts stance id = true then 1 else 0 := by
        intro stance
        cases h : r.casts stance id <;> simp [DiscussionResponse.casts] at h <;> simp [h]
      rw [hcast, hcast]
      simp only [Votes.mk.injEq]
      omega

end Counting

/-! ## The inputs of a cycle -/

theorem promptContract_plain : Plain promptContract := by
  refine .append (.append ?_ ?_) ?_
  all_goals with_reducible apply plain_ofList
  all_goals decide

theorem promptRules_plain : Plain promptRules := by
  refine .append (.append (.append (.append (.append (.append ?_ ?_) ?_) ?_) ?_) ?_) ?_
  all_goals with_reducible apply plain_ofList
  all_goals decide

theorem discussionPrompt_plain (runId artifactHash : String) (cycle : ℕ) :
    Plain (discussionPrompt runId artifactHash cycle) := by
  have hopening : Plain promptOpening ∧ Plain promptRun ∧ Plain promptArtifact ∧ Plain promptHashMember := by
    refine ⟨?_, ?_, ?_, ?_⟩
    · unfold promptOpening
      with_reducible exact plain_ofList rfl
    · unfold promptRun
      with_reducible exact plain_ofList rfl
    · unfold promptArtifact
      with_reducible exact plain_ofList rfl
    · unfold promptHashMember
      with_reducible exact plain_ofList rfl
  simp only [discussionPrompt, plain_append_iff, quote_plain, toString_plain, hopening, promptContract_plain,
    promptRules_plain, and_true]

theorem sliceJson_plain {α : Type} {json : α → Json} (h : ∀ a, Plain (marshal (json a))) (items : Option (List α)) :
    Plain (marshal (sliceJson json items)) := by
  cases items with
  | none => exact show Plain "null" by decide
  | some items =>
    refine marshal_arr_plain fun v hv => ?_
    obtain ⟨a, -, rfl⟩ := List.mem_map.mp hv
    exact h a

theorem PanelFinding.json_plain (f : PanelFinding) : Plain (marshal f.json) := by
  refine marshal_obj_plain fun m hm => ?_
  simp only [List.mem_cons, List.not_mem_nil, or_false] at hm
  rcases hm with rfl | rfl | rfl | rfl | rfl <;> exact marshal_str_plain _

theorem PanelRequirement.json_plain (r : PanelRequirement) : Plain (marshal r.json) := by
  refine marshal_obj_plain fun m hm => ?_
  simp only [List.mem_cons, List.not_mem_nil, or_false] at hm
  rcases hm with rfl | rfl | rfl
  · exact marshal_str_plain _
  · exact marshal_bool_plain _
  · exact marshal_str_plain _

theorem PanelResponse.json_plain (r : PanelResponse) : Plain (marshal r.json) := by
  refine marshal_obj_plain fun m hm => ?_
  simp only [List.mem_cons, List.not_mem_nil, or_false] at hm
  rcases hm with rfl | rfl | rfl | rfl | rfl | rfl | rfl
  · exact marshal_str_plain _
  · exact marshal_str_plain _
  · exact marshal_str_plain _
  · refine marshal_obj_plain fun m hm => ?_
    simp only [List.mem_cons, List.not_mem_nil, or_false] at hm
    rcases hm with rfl | rfl <;> exact marshal_str_plain _
  · exact sliceJson_plain PanelRequirement.json_plain _
  · exact marshal_str_plain _
  · exact sliceJson_plain PanelFinding.json_plain _

theorem SeatReport.json_plain (r : SeatReport) : Plain (marshal r.json) := by
  refine marshal_obj_plain fun m hm => ?_
  simp only [List.mem_append, List.mem_cons, List.not_mem_nil, or_false] at hm
  rcases hm with (rfl | hm) | rfl | rfl
  · exact marshal_nat_plain _
  · exact omitempty_plain hm
  · exact marshal_str_plain _
  · exact r.response.json_plain

theorem DiscussionIssue.json_plain (i : DiscussionIssue) : Plain (marshal i.json) := by
  refine marshal_obj_plain fun m hm => ?_
  simp only [List.mem_append, List.mem_cons, List.not_mem_nil, or_false] at hm
  rcases hm with (((rfl | rfl) | hm) | rfl) | hm
  · exact marshal_str_plain _
  · exact marshal_str_plain _
  · exact omitempty_plain hm
  · exact marshal_str_plain _
  · exact omitempty_plain hm

theorem discussionData_plain (reports : List SeatReport) (issues : List DiscussionIssue) :
    Plain (discussionData reports issues) := by
  refine Plain.append (Plain.append (by decide) (marshal_obj_plain fun m hm => ?_)) (by decide)
  simp only [List.mem_cons, List.not_mem_nil, or_false] at hm
  rcases hm with rfl | rfl
  · refine marshal_arr_plain fun v hv => ?_
    obtain ⟨r, -, rfl⟩ := List.mem_map.mp hv
    exact r.json_plain
  · refine marshal_arr_plain fun v hv => ?_
    obtain ⟨i, -, rfl⟩ := List.mem_map.mp hv
    exact i.json_plain

end Roundtable
