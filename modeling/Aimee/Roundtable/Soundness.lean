-- SUMMARY: Approval soundness: what the seats and the ballots of a run said whenever the run returns approved.
import Aimee.Lib.Hash
import Aimee.Roundtable.Cycles

/-!
# Approval soundness

Every phase overwrites the approvals, so the quorum at the end is traced back phase by phase: to
the usable reports of the analysis, and to the ballots of the last cycle that voted on an issue.
-/

namespace Roundtable

open GoText

/-! ## One outcome for every seat -/

/-- What a phase keeps of a seat. -/
def Seat.key (s : Seat) : String × ℕ := (s.persona, s.ordinal)

theorem seat_repairedOutcome (P : Platform) (o : SeatOutcome) (call : SeatResult) :
    (repairedOutcome P o call).seat = o.seat := rfl

theorem seat_mergeRepairs (P : Platform) (firsts : List (SeatOutcome × Option Request)) (calls : List SeatResult) :
    (mergeRepairs P firsts calls).map SeatOutcome.seat = firsts.map fun f => f.1.seat := by
  induction firsts, calls using mergeRepairs.induct with
  | case1 calls => rfl
  | case2 o rest calls ih => rw [mergeRepairs, List.map_cons, ih, List.map_cons]
  | case3 o input rest call calls ih => rw [mergeRepairs, List.map_cons, ih, List.map_cons, seat_repairedOutcome]
  | case4 o input rest ih => rw [mergeRepairs, List.map_cons, ih, List.map_cons]

theorem key_firstOutcome (P : Platform) (run : Run) (hash stage : String) (seat : Seat) (request : SeatRequest)
    (call : SeatResult) : (firstOutcome P run hash stage seat request call).1.seat.key = seat.key := by
  unfold firstOutcome
  dsimp only
  split
  · split <;> rfl
  · rfl

variable {seats : List Seat} {requests : List SeatRequest} {panelRound : ℕ} {o : SeatOutcome}

theorem key_firstOutcomes {P : Platform} {run : Run} {hash stage : String}
    {delegated : List SeatResult} (hlen : requests.length = seats.length)
    (hdelegated : delegated.length = requests.length) :
    (firstOutcomes P run hash stage seats requests delegated).map (fun f => f.1.seat.key) = seats.map Seat.key := by
  have hzip : seats.length ≤ (requests.zip delegated).length := by
    rw [List.length_zip, hdelegated, min_self, hlen]
  rw [firstOutcomes, List.map_map]
  calc (seats.zip (requests.zip delegated)).map _
      = (seats.zip (requests.zip delegated)).map (Seat.key ∘ Prod.fst) :=
        List.map_congr_left fun c _ => key_firstOutcome P run hash stage c.1 c.2.1 c.2.2
    _ = seats.map Seat.key := by rw [← List.map_map, List.map_fst_zip hzip]

/-- Every seat has one outcome, in the order of the seats. -/
theorem key_seatOutcomes {P : Platform} {delegates : Delegates} {run : Run} {hash stage : String}
    (hlen : requests.length = seats.length) :
    (seatOutcomes P delegates run hash stage panelRound seats requests).1.map (fun o => o.seat.key) =
      seats.map Seat.key := by
  have hfirsts : (firstOutcomes P run hash stage seats requests (delegates.group .analysis requests)).map
      (fun f => f.1.seat.key) =
      seats.map Seat.key := key_firstOutcomes hlen (length_group delegates .analysis requests)
  unfold seatOutcomes
  dsimp only
  split
  · rw [List.map_map]
    exact hfirsts
  · rw [← hfirsts, ← Function.comp_def, ← List.map_map, seat_mergeRepairs, List.map_map]
    rfl

/-! ## Outcomes come from replies -/

/-- The outcome's response was read from a reply to its own seat's request, or from a repair. -/
def FromReply (P : Platform) (delegates : Delegates) (o : SeatOutcome) : Prop :=
  ∃ call, (call = delegates.reply .analysis o.seat.ordinal ∨ ∃ k, call = delegates.reply .analysisRepair k) ∧
    parsePanelResponse P call.semanticText = .ok o.result

theorem parse_of_err_none {parsed : Except String PanelResponse} (h : errorOf parsed = none) :
    parsed = .ok (responseOf parsed) := by
  cases parsed with
  | error err => cases h
  | ok r => rfl

theorem parse_firstOutcome {P : Platform} {run : Run} {hash stage : String} {seat : Seat} {request : SeatRequest}
    {call : SeatResult} (h : (firstOutcome P run hash stage seat request call).1.err = none) :
    parsePanelResponse P call.semanticText = .ok (firstOutcome P run hash stage seat request call).1.result := by
  unfold firstOutcome at h ⊢
  dsimp only at h ⊢
  split_ifs at h ⊢
  · split at h
    · cases h
    · exact parse_of_err_none h
  · exact parse_of_err_none h

theorem mem_mergeRepairs {P : Platform} {firsts : List (SeatOutcome × Option Request)}
    {calls : List SeatResult} (h : o ∈ mergeRepairs P firsts calls) :
    (∃ f ∈ firsts, f.1 = o) ∨ ∃ first, ∃ call ∈ calls, o = repairedOutcome P first call := by
  induction firsts, calls using mergeRepairs.induct with
  | case1 calls => cases h
  | case2 first rest calls ih =>
    rcases List.mem_cons.mp h with rfl | h
    · exact .inl ⟨_, List.mem_cons_self, rfl⟩
    · exact (ih h).imp_left fun ⟨f, hf, heq⟩ => ⟨f, List.mem_cons_of_mem _ hf, heq⟩
  | case3 first input rest call calls ih =>
    rcases List.mem_cons.mp h with rfl | h
    · exact .inr ⟨first, call, List.mem_cons_self, rfl⟩
    · rcases ih h with ⟨f, hf, heq⟩ | ⟨f, c, hc, heq⟩
      · exact .inl ⟨f, List.mem_cons_of_mem _ hf, heq⟩
      · exact .inr ⟨f, c, List.mem_cons_of_mem _ hc, heq⟩
  | case4 first input rest ih =>
    rcases List.mem_cons.mp h with rfl | h
    · exact .inl ⟨_, List.mem_cons_self, rfl⟩
    · exact (ih h).imp_left fun ⟨f, hf, heq⟩ => ⟨f, List.mem_cons_of_mem _ hf, heq⟩

theorem mem_firstOutcomes {P : Platform} {delegates : Delegates} {run : Run} {hash stage : String}
    {f : SeatOutcome × Option Request} (hseats : ∀ i, ∀ h : i < seats.length, seats[i].ordinal = i)
    (h : f ∈ firstOutcomes P run hash stage seats requests (delegates.group .analysis requests))
    (herr : f.1.err = none) :
    FromReply P delegates f.1 := by
  obtain ⟨i, hi, rfl⟩ := List.getElem_of_mem h
  have hlen : i < seats.length ∧ i < requests.length := by
    rw [firstOutcomes, List.length_map, List.length_zip, List.length_zip] at hi
    omega
  obtain ⟨hseat, hrequest⟩ := hlen
  have hget : (firstOutcomes P run hash stage seats requests (delegates.group .analysis requests))[i] =
      firstOutcome P run hash stage seats[i] requests[i] (delegates.reply .analysis i) := by
    simp [firstOutcomes, Delegates.group]
  rw [hget] at herr ⊢
  have hordinal : (firstOutcome P run hash stage seats[i] requests[i]
    (delegates.reply .analysis i)).1.seat.ordinal = i :=
    (congrArg Prod.snd (key_firstOutcome P run hash stage seats[i] requests[i]
      (delegates.reply .analysis i))).trans (hseats i hseat)
  exact ⟨delegates.reply .analysis i, .inl (by rw [hordinal]), parse_firstOutcome herr⟩

/-- Whatever a seat is left with, when it is a response, is one the delegates returned. -/
theorem fromReply_of_mem {P : Platform} {delegates : Delegates} {run : Run} {hash stage : String}
    (hseats : ∀ i, ∀ h : i < seats.length, seats[i].ordinal = i)
    (h : o ∈ (seatOutcomes P delegates run hash stage panelRound seats requests).1) (herr : o.err = none) :
    FromReply P delegates o := by
  unfold seatOutcomes at h
  dsimp only at h
  split at h
  · obtain ⟨f, hf, rfl⟩ := List.mem_map.mp h
    exact mem_firstOutcomes hseats hf herr
  · rcases mem_mergeRepairs h with ⟨f, hf, rfl⟩ | ⟨first, call, hcall, rfl⟩
    · exact mem_firstOutcomes hseats hf herr
    · obtain ⟨k, -, rfl⟩ := List.mem_map.mp hcall
      exact ⟨_, .inr ⟨k, rfl⟩, parse_of_err_none herr⟩

section Run

variable (P : Platform) (delegates : Delegates) (run : Run) (panel : Panel) (stage : String)

/-- The final outcomes of a run's analysis: one for each seat, or none when no seat was asked. -/
def finalOutcomes : List SeatOutcome :=
  match (conveneSeats panel).mapM (analysisRequest P run (P.basePrompt run) run.reviewed.hash stage 1) with
  | .error _ => []
  | .ok requests => (seatOutcomes P delegates run run.reviewed.hash stage 1 (conveneSeats panel) requests).1

def DiscussionRuns : Prop := panel.discussion = true ∧ 1 < panel.seats.length

def ChairmanRuns : Prop := panel.chairmanEnabled = true ∧ 1 < panel.seats.length

/-- The cycle of a discussion call. -/
def Launch.cycle? (l : Launch) : Option ℕ :=
  match l.phase with
  | .discussion c => some c
  | _ => none

/-- What an approval rests on. -/
structure Earned (launches : List Launch) (result : RunResult) : Prop where
  /-- nothing in the returned feedback blocks -/
  findings : ∃ feedback, result.feedback = some feedback ∧ ∀ f ∈ feedback.findings, nonBlocking f.severity = true
  /-- enough seats, each counted once, returned a usable report -/
  reports : ∃ outcomes : List SeatOutcome, outcomes.Sublist (finalOutcomes P delegates run panel stage) ∧
    (outcomes.map fun o => o.seat.ordinal).Nodup ∧ (∀ o ∈ outcomes, o.seat.ordinal < panel.seats.length) ∧
    (∀ o ∈ outcomes, Usable P run run.reviewed.hash stage o ∧ FromReply P delegates o) ∧
    panel.minSuccessful ≤ (outcomes.length : ℤ)
  /-- without discussion and chairman, the reports themselves approve, and none of them objects -/
  analysisAlone : ¬DiscussionRuns panel → ¬ChairmanRuns panel →
    panel.minSuccessful ≤ ((finalOutcomes P delegates run panel stage).countP fun o =>
      Usable P run run.reviewed.hash stage o ∧ FullApproval o.result : ℕ) ∧
    ∀ o ∈ finalOutcomes P delegates run panel stage, Usable P run run.reviewed.hash stage o →
      alignmentOk o.result = true ∧ coverageGap o.result = false ∧ ∀ f ∈ o.result.listed, nonBlocking f.severity = true
  /-- with discussion alone, every cycle was quorate, and every blocking finding was voted down by
      more than half of the ballots of the last cycle that voted on it -/
  discussed : DiscussionRuns panel → ¬ChairmanRuns panel →
    ∃ n, 0 < n ∧ launches.filterMap Launch.cycle? = (List.range n).map (· + 1) ∧
      (∀ j < n, panel.minSuccessful ≤
        ((ballotsIn P delegates run.id (conveneAnalysis P delegates run panel stage).analysis j).length : ℤ)) ∧
      (∀ j < n, ∀ r ∈ ballotsIn P delegates run.id (conveneAnalysis P delegates run panel stage).analysis j,
        IsBallot run.id run.reviewed.hash
          ((votedOn P delegates run.id (conveneAnalysis P delegates run panel stage).analysis j).map
            DiscussionIssue.id) r) ∧
      ∀ f ∈ (conveneAnalysis P delegates run panel stage).analysis.feedback.findings, nonBlocking f.severity = false →
        ∃ j, LastVote P delegates run.id (conveneAnalysis P delegates run panel stage).analysis n (issueId P f) j ∧
          (ballotsIn P delegates run.id (conveneAnalysis P delegates run panel stage).analysis j).length <
            2 * (ballotsIn P delegates run.id (conveneAnalysis P delegates run panel stage).analysis j).countP
              (·.casts "disagree" (issueId P f))

end Run

section Analysis

variable {P : Platform} {delegates : Delegates} {clock : Clock} {run : Run} {panel : Panel} {stage : String}

variable (P delegates run panel stage) in
theorem conveneAnalysis_cases :
    ((conveneAnalysis P delegates run panel stage).analysis =
        analysisOf P run run.reviewed.hash stage (finalOutcomes P delegates run panel stage) ∧
      (finalOutcomes P delegates run panel stage).map (fun o => o.seat.key) = (conveneSeats panel).map Seat.key ∧
      ∀ seat ∈ conveneSeats panel, ∃ procedure input, reviewInput run seat.persona procedure [] = .ok input) ∨
    ∃ err, (conveneAnalysis P delegates run panel stage).analysis = unbuiltAnalysis err ∧
      finalOutcomes P delegates run panel stage = [] := by
  unfold conveneAnalysis runAnalysis finalOutcomes
  cases hm : (conveneSeats panel).mapM (analysisRequest P run (P.basePrompt run) run.reviewed.hash stage 1) with
  | error err => exact .inr ⟨err, rfl, rfl⟩
  | ok requests =>
    obtain ⟨hlen, hall⟩ := forall_of_mapM_ok hm
    refine .inl ⟨rfl, key_seatOutcomes hlen, fun seat hseat => ?_⟩
    obtain ⟨q, hq⟩ := hall seat hseat
    cases hinput : reviewInput run seat.persona (P.basePrompt run) [] with
    | error err =>
      rw [analysisRequest, hinput] at hq
      cases hq
    | ok input => exact ⟨_, input, hinput⟩

theorem reports_conveneAnalysis :
    (conveneAnalysis P delegates run panel stage).analysis.reports =
      ((finalOutcomes P delegates run panel stage).filter (Usable P run run.reviewed.hash stage)).map
        SeatOutcome.report := by
  rcases conveneAnalysis_cases P delegates run panel stage with
    ⟨h, -⟩ | ⟨err, h, hnil⟩
  · rw [h, analysisOf_reports]
  · rw [h, hnil]
    rfl

variable (P delegates run panel stage) in
theorem approvals_conveneAnalysis :
    (conveneAnalysis P delegates run panel stage).analysis.approvals =
      (finalOutcomes P delegates run panel stage).countP fun o => Usable P run run.reviewed.hash stage o ∧
        FullApproval o.result := by
  rcases conveneAnalysis_cases P delegates run panel stage with
    ⟨h, -⟩ | ⟨err, h, hnil⟩
  · rw [h, analysisOf_approvals]
  · rw [h, hnil]
    rfl

theorem findings_conveneAnalysis :
    (conveneAnalysis P delegates run panel stage).analysis.feedback.findings =
      (finalOutcomes P delegates run panel stage).flatMap (seatFindings P run run.reviewed.hash stage) := by
  rcases conveneAnalysis_cases P delegates run panel stage with
    ⟨h, -⟩ | ⟨err, h, hnil⟩
  · rw [h, analysisOf_findings]
  · rw [h, hnil]
    rfl

variable (P delegates run panel stage) in
theorem approvals_le_reports :
    (conveneAnalysis P delegates run panel stage).analysis.approvals ≤
      (conveneAnalysis P delegates run panel stage).analysis.reports.length := by
  rcases conveneAnalysis_cases P delegates run panel stage with
    ⟨h, -⟩ | ⟨err, h, -⟩
  · rw [h]
    exact analysisOf_approvals_le _
  · rw [h]
    exact le_rfl

theorem length_conveneSeats (panel : Panel) : (conveneSeats panel).length = panel.seats.length := by
  rw [conveneSeats, List.length_mapIdx]

theorem ordinals_conveneSeats (panel : Panel) :
    (conveneSeats panel).map Seat.ordinal = List.range panel.seats.length := by
  refine List.ext_getElem (by rw [List.length_map, length_conveneSeats, List.length_range]) fun i h1 h2 => ?_
  simp [conveneSeats]

theorem fromReply_finalOutcomes {o : SeatOutcome} (h : o ∈ finalOutcomes P delegates run panel stage)
    (herr : o.err = none) :
    FromReply P delegates o := by
  unfold finalOutcomes at h
  split at h
  · cases h
  · refine fromReply_of_mem (fun i hi => ?_) h herr
    simp [conveneSeats]

variable (P delegates run panel stage) in
theorem ordinals_finalOutcomes :
    (finalOutcomes P delegates run panel stage).map (fun o => o.seat.ordinal) = List.range panel.seats.length ∨
      finalOutcomes P delegates run panel stage = [] := by
  rcases conveneAnalysis_cases P delegates run panel stage with
    ⟨-, hkeys, -⟩ | ⟨err, -, hnil⟩
  · refine .inl ?_
    have h := congrArg (List.map Prod.snd) hkeys
    rw [List.map_map, List.map_map] at h
    exact h.trans (ordinals_conveneSeats panel)
  · exact .inr hnil

variable (P delegates run panel stage) in
/-- The seats with a report had their input built, so a discussion can ask them. -/
theorem admitted_conveneAnalysis : Admitted run (conveneAnalysis P delegates run panel stage).analysis := by
  intro r hr
  rcases conveneAnalysis_cases P delegates run panel stage with
    ⟨-, hkeys, hbuilt⟩ | ⟨err, h, -⟩
  · rw [reports_conveneAnalysis] at hr
    obtain ⟨o, ho, rfl⟩ := List.mem_map.mp hr
    have hkey : o.seat.key ∈ (conveneSeats panel).map Seat.key := by
      rw [← hkeys]
      exact List.mem_map.mpr ⟨o, (List.mem_filter.mp ho).1, rfl⟩
    obtain ⟨seat, hseat, heq⟩ := List.mem_map.mp hkey
    have hpersona : seat.persona = o.seat.persona := congrArg Prod.fst heq
    have hseat := hbuilt seat hseat
    rw [hpersona] at hseat
    exact hseat
  · rw [h] at hr
    cases hr

/-! ## The decision -/

variable {analysis : Analysis} {total : ℕ} {s : Standing} {result : RunResult}

theorem decideQuorum_approved (h : (decideQuorum panel analysis total s).status = .approved) :
    (decideQuorum panel analysis total s).feedback = some s.feedback ∧ panel.minSuccessful ≤ (s.approvals : ℤ) ∧
      ∀ f ∈ s.feedback.findings, nonBlocking f.severity = true := by
  unfold decideQuorum at h ⊢
  split at h
  · next hc => exact ⟨by rw [if_pos hc]; rfl, hc.1, blockingFindingCount_eq_zero_iff.mp hc.2⟩
  · cases h

variable {feedback : ReviewFeedback} {costUnknown : Bool} {launches : List Launch}

theorem chairmanVerdict_approvals_le {cost : ℚ}
    {final : PanelResponse} (h : analysis.approvals ≤ analysis.reports.length) :
    (chairmanVerdict P run analysis feedback stage cost costUnknown launches final).approvals ≤
      analysis.reports.length := by
  unfold chairmanVerdict
  dsimp only
  split_ifs
  all_goals first | exact h | exact le_rfl | exact Nat.zero_le _

theorem runChairman_approvals_le {cost : ℚ}
    (h : analysis.approvals ≤ analysis.reports.length) :
    (runChairman P delegates run panel analysis feedback cost costUnknown stage).approvals ≤
      analysis.reports.length := by
  unfold runChairman
  dsimp only
  split_ifs
  · exact h
  split
  · exact h
  split
  · exact h
  split
  · exact chairmanVerdict_approvals_le h
  split
  · exact h
  split
  · exact h
  split
  · exact h
  · exact chairmanVerdict_approvals_le h

theorem chairedResult_approved {c : ChairmanResult}
    (h : (chairedResult clock panel analysis total s c).status = .approved) :
    (∃ feedback, (chairedResult clock panel analysis total s c).feedback = some feedback ∧
      ∀ f ∈ feedback.findings, nonBlocking f.severity = true) ∧ panel.minSuccessful ≤ (c.approvals : ℤ) := by
  unfold chairedResult at h ⊢
  split_ifs at h ⊢ with hblocked
  · cases h
  · cases herr : c.err with
    | some err =>
      rw [herr] at h
      cases h
    | none =>
      rw [herr] at h
      obtain ⟨hfeedback, hquorum, hclean⟩ := decideQuorum_approved h
      exact ⟨⟨_, hfeedback, hclean⟩, hquorum⟩

/-- An approved run ended in the decision, on what the chairman or the phase before handed on. -/
theorem chairAndDecide_approved
    (h : (chairAndDecide P delegates clock run panel stage analysis total s launches).answer = some (.ok result))
    (happroved : result.status = .approved) (hle : analysis.approvals ≤ analysis.reports.length) :
    (∃ feedback, result.feedback = some feedback ∧ ∀ f ∈ feedback.findings, nonBlocking f.severity = true) ∧
      ((panel.chairmanEnabled = true ∧ 1 < total ∧ panel.minSuccessful ≤ (analysis.reports.length : ℤ)) ∨
        (¬(panel.chairmanEnabled = true ∧ 1 < total) ∧ panel.minSuccessful ≤ (s.approvals : ℤ) ∧
          (∀ f ∈ s.feedback.findings, nonBlocking f.severity = true) ∧
          (chairAndDecide P delegates clock run panel stage analysis total s launches).launches = launches)) := by
  unfold chairAndDecide at h ⊢
  dsimp only at h ⊢
  split_ifs at h ⊢ with hchair hfunds
  · -- parked before the chairman
    cases h
    cases happroved
  · cases h
    obtain ⟨hclean, hquorum⟩ := chairedResult_approved happroved
    refine ⟨hclean, .inl ⟨hchair.1, hchair.2, hquorum.trans ?_⟩⟩
    exact_mod_cast runChairman_approvals_le hle
  · cases h
    obtain ⟨hfeedback, hquorum, hclean⟩ := decideQuorum_approved happroved
    exact ⟨⟨_, hfeedback, hclean⟩, .inr ⟨hchair, hquorum, hclean, rfl⟩⟩

variable (P delegates run panel stage) in
theorem filterMap_cycle_analysis :
    (conveneAnalysis P delegates run panel stage).launches.filterMap Launch.cycle? = [] := by
  unfold conveneAnalysis runAnalysis
  split
  · rfl
  · unfold seatOutcomes
    dsimp only
    split <;> rfl

theorem filterMap_cycle_discussion {launches : List Launch} {n : ℕ}
    (h : launches.map Launch.phase = (List.range n).map fun k => .discussion (k + 1)) :
    launches.filterMap Launch.cycle? = (List.range n).map (· + 1) := by
  have hcycle : Launch.cycle? =
      (fun p : Phase => match p with | .discussion c => some c | _ => none) ∘ Launch.phase := rfl
  rw [hcycle, ← List.filterMap_map, h, List.filterMap_map]
  exact congrFun List.filterMap_eq_map (List.range n)

theorem reports_of_quorum
    (h : panel.minSuccessful ≤ ((conveneAnalysis P delegates run panel stage).analysis.reports.length : ℤ)) :
    ∃ outcomes : List SeatOutcome, outcomes.Sublist (finalOutcomes P delegates run panel stage) ∧
      (outcomes.map fun o => o.seat.ordinal).Nodup ∧ (∀ o ∈ outcomes, o.seat.ordinal < panel.seats.length) ∧
      (∀ o ∈ outcomes, Usable P run run.reviewed.hash stage o ∧ FromReply P delegates o) ∧
      panel.minSuccessful ≤ (outcomes.length : ℤ) := by
  rw [reports_conveneAnalysis, List.length_map] at h
  have hsub : ((finalOutcomes P delegates run panel stage).filter (Usable P run run.reviewed.hash stage)).Sublist
      (finalOutcomes P delegates run panel stage) := List.filter_sublist
  have hordinals : ((finalOutcomes P delegates run panel stage).map fun o => o.seat.ordinal).Sublist
      (List.range panel.seats.length) := by
    rcases ordinals_finalOutcomes P delegates run panel stage with ho | ho
    · rw [ho]
    · rw [ho]
      exact List.nil_sublist _
  have hmap := (hsub.map fun o => o.seat.ordinal).trans hordinals
  refine ⟨_, hsub, hmap.nodup List.nodup_range, fun o ho => ?_, fun o ho => ?_, h⟩
  · exact List.mem_range.mp (hmap.subset (List.mem_map.mpr ⟨o, ho, rfl⟩))
  · have hu : Usable P run run.reviewed.hash stage o := of_decide_eq_true (List.mem_filter.mp ho).2
    exact ⟨hu, fromReply_finalOutcomes (List.mem_filter.mp ho).1 hu.1⟩

/-- Where the findings of the analysis do not block, no usable report objects. -/
theorem clean_of_findings
    (h : ∀ f ∈ (conveneAnalysis P delegates run panel stage).analysis.feedback.findings, nonBlocking f.severity = true)
    {o : SeatOutcome} (ho : o ∈ finalOutcomes P delegates run panel stage)
    (hu : Usable P run run.reviewed.hash stage o) :
    alignmentOk o.result = true ∧ coverageGap o.result = false ∧
      ∀ f ∈ o.result.listed, nonBlocking f.severity = true := by
  refine clean_of_reportFindings hu fun f hf => h f ?_
  rw [findings_conveneAnalysis]
  exact List.mem_flatMap.mpr ⟨o, ho, by rw [seatFindings, if_pos hu]; exact hf⟩

/-- A finding that blocks and was dropped was voted down by a majority of the ballots of the last
    cycle that voted on it. -/
theorem votedDown_of_dropped {n : ℕ} (hn : 0 < n)
    (h : ∀ f ∈ (withIssueIds P analysis.feedback.findings).filter (fun f =>
      !(decided P delegates run.id analysis n f.id).rejects), nonBlocking f.severity = true)
    {f : Finding} (hf : f ∈ analysis.feedback.findings) (hblocks : nonBlocking f.severity = false) :
    ∃ j, LastVote P delegates run.id analysis n (issueId P f) j ∧
      (ballotsIn P delegates run.id analysis j).length <
        2 * (ballotsIn P delegates run.id analysis j).countP (·.casts "disagree" (issueId P f)) := by
  have hrejects : (decided P delegates run.id analysis n (issueId P f)).rejects = true := by
    by_contra hkept
    have hmem : ({ f with id := issueId P f } : Finding) ∈
        (withIssueIds P analysis.feedback.findings).filter (fun f =>
          !(decided P delegates run.id analysis n f.id).rejects) :=
      List.mem_filter.mpr ⟨List.mem_map.mpr ⟨f, hf, rfl⟩, by simpa using hkept⟩
    have hnb := h _ hmem
    rw [hblocks] at hnb
    cases hnb
  have hvoted : issueId P f ∈ (votedOn P delegates run.id analysis 0).map DiscussionIssue.id := by
    obtain ⟨i, hi, rfl⟩ := List.getElem_of_mem hf
    exact List.mem_map.mpr ⟨_, List.mem_mapIdx.mpr ⟨i, hi, rfl⟩, rfl⟩
  obtain ⟨j, hlast, hdecided⟩ := exists_lastVote hn hvoted
  refine ⟨j, hlast, ?_⟩
  rw [hdecided, Decision.rejects, decide_eq_true_eq, CycleCount.majority, successful_countIn, votes_countIn] at hrejects
  dsimp only at hrejects
  omega

/-- The ceiling plays no part in building an input. -/
theorem admitted_limited (h : Admitted run analysis) (limit : ℚ) : Admitted (run.limited limit) analysis := h

theorem artifactHash_conveneAnalysis {k : ℕ}
    (h : ballotsIn P delegates run.id (conveneAnalysis P delegates run panel stage).analysis k ≠ []) :
    (conveneAnalysis P delegates run panel stage).analysis.feedback.artifactHash = run.reviewed.hash := by
  rcases conveneAnalysis_cases P delegates run panel stage with ⟨heq, -⟩ | ⟨err, heq, -⟩
  · rw [heq]
    rfl
  · -- nobody reported, so nobody votes
    rw [heq] at h
    exact absurd rfl h

theorem discussAndDecide_earned {fuel : ℕ}
    (h : (discussAndDecide P delegates clock run panel stage (conveneAnalysis P delegates run panel stage).analysis
      panel.seats.length (conveneAnalysis P delegates run panel stage).launches fuel).answer = some (.ok result))
    (happroved : result.status = .approved) :
    Earned P delegates run panel stage
      (discussAndDecide P delegates clock run panel stage (conveneAnalysis P delegates run panel stage).analysis
        panel.seats.length (conveneAnalysis P delegates run panel stage).launches fuel).launches result := by
  have hle := approvals_le_reports P delegates run panel stage
  have hadmitted := admitted_conveneAnalysis P delegates run panel stage
  have hcycles := filterMap_cycle_analysis P delegates run panel stage
  have happrovals := approvals_conveneAnalysis P delegates run panel stage
  unfold discussAndDecide at h ⊢
  dsimp only at h ⊢
  split_ifs at h ⊢ with hdiscussion
  · obtain ⟨n, hd⟩ := runDiscussion_discussed P delegates clock panel stage
      (admitted_limited hadmitted (remainingCostLimit run.costLimitUsd
        (conveneAnalysis P delegates run panel stage).analysis.costUsd)) fuel
    revert h hd
    generalize runDiscussion P delegates clock _ panel _ stage fuel = d
    intro h hd
    cases hturn : d.turn with
    | again =>
      rw [hturn] at h
      cases h
    | failed err =>
      rw [hturn] at h
      cases h
      cases happroved
    | settled =>
      rw [hturn] at h
      obtain ⟨hn, hdone, hquorate, hfindings, happr⟩ := hd.settled hturn
      obtain ⟨hclean, hend⟩ := chairAndDecide_approved h happroved hle
      have hreports : panel.minSuccessful ≤
        ((conveneAnalysis P delegates run panel stage).analysis.reports.length : ℤ) := by
        rcases hend with ⟨-, -, hq⟩ | ⟨-, hq, -⟩
        · exact hq
        · refine hq.trans ?_
          rw [happr]
          split_ifs
          · exact le_rfl
          · exact_mod_cast hle
      refine ⟨hclean, reports_of_quorum hreports, fun hno => absurd hdiscussion hno, fun _ hchair => ?_⟩
      rcases hend with ⟨hc1, hc2, -⟩ | ⟨-, -, hkept, hlaunches⟩
      · exact absurd ⟨hc1, hc2⟩ hchair
      refine ⟨n, hn, ?_, hquorate, fun j _ r hr => ?_, fun f hf hblocks => ?_⟩
      · rw [hlaunches, List.filterMap_append, hcycles]
        exact filterMap_cycle_discussion hd.phases
      · have hballot := isBallot_of_mem hr
        rwa [artifactHash_conveneAnalysis (List.ne_nil_of_mem hr)] at hballot
      · rw [hfindings] at hkept
        exact votedDown_of_dropped hn hkept hf hblocks
  · obtain ⟨hclean, hend⟩ := chairAndDecide_approved h happroved hle
    have hreports : panel.minSuccessful ≤
      ((conveneAnalysis P delegates run panel stage).analysis.reports.length : ℤ) := by
      rcases hend with ⟨-, -, hq⟩ | ⟨-, hq, -⟩
      · exact hq
      · exact hq.trans (by exact_mod_cast hle)
    refine ⟨hclean, reports_of_quorum hreports, fun _ hchair => ?_, fun hruns => absurd hruns hdiscussion⟩
    rcases hend with ⟨hc1, hc2, -⟩ | ⟨-, hq, hkept, -⟩
    · exact absurd ⟨hc1, hc2⟩ hchair
    rw [happrovals] at hq
    exact ⟨hq, fun o ho hu => clean_of_findings hkept ho hu⟩

/-- An approval is earned. -/
theorem approval_earned {focus : String} {fuel : ℕ}
    (h : (convene P delegates clock run panel focus fuel).answer = some (.ok result))
    (happroved : result.status = .approved) :
    ∃ stage, normalizeStage run.reviewed.stage = some stage ∧
      Earned P delegates (preparedRun run stage focus) panel stage
        (convene P delegates clock run panel focus fuel).launches result := by
  unfold convene at h ⊢
  split at h
  · cases h
  · next hsource =>
    split at h
    · cases h
    · next stage hstage =>
      refine ⟨stage, hstage, ?_⟩
      rw [if_neg hsource]
      dsimp only at h ⊢
      rw [length_conveneSeats] at h ⊢
      unfold conveneAnalysed at h ⊢
      split_ifs at h ⊢ with hunreachable hlost
      · cases h
      · cases h
        cases happroved
      · exact discussAndDecide_earned h happroved

end Analysis

/-! ## A discussed approval -/

def hexText (bytes : List UInt8) : String :=
  String.ofList (bytes.flatMap fun b => [hexDigit (b.toNat / 16), hexDigit b.toNat])

def sampleApproval : PanelResponse where
  runId := "run-1"
  artifactHash := "c0ffee"
  artifactStage := "plan"
  originalRequestAlignment := { status := "aligned", summary := "" }
  coverage := some [{ requirement := "the cache", addressed := true, evidence := "step 1" }]
  verdict := "approve"
  findings := some []

def sampleBallot : DiscussionResponse := { runId := "run-1", artifactHash := "c0ffee", positions := [] }

def sampleBallotText : String := "\x7b\"run_id\":\"run-1\",\"artifact_hash\":\"c0ffee\",\"positions\":[]\x7d"

/-- A platform that reads the texts of the sample. Each of them is one JSON object. -/
def samplePlatform (reports : List PanelResponse) (ballots : List (String × DiscussionResponse)) : Platform where
  sha256 := fun text => hexText (sha256 text.toUTF8.toList).val
  goQuote := fun bytes => "\"" ++ String.ofList (bytes.map fun b => Char.ofNat b.toNat) ++ "\""
  extractJsonObject := .ok
  unmarshalPanelResponse := fun text =>
    match reports.find? fun r => marshal r.json = text with
    | some r => .ok r
    | none => .error "invalid character"
  unmarshalDiscussionResponse := fun text =>
    match ballots.find? fun b => b.1 = text with
    | some b => .ok b.2
    | none => .error "invalid character"
  basePrompt := fun _ => "Review the complete artifact against the complete original request."
  chairmanPrompt := fun _ => "You are the configured roundtable chairman."
  chairmanPacket := fun _ _ _ _ => "[]"
  repairPrompt := fun _ _ _ => "Your preceding roundtable report was not valid JSON."

def sampleReply (participant text : String) (cost : ℚ) : SeatResult where
  participant := participant
  output := some { semanticText := .ok text, clone := .ok [] }
  costUsd := cost
  costUnknown := false
  err := none
  failureCategory := ""
  failureDetail := ""
  replayLost := false

def sampleRun (limit : ℚ) : Run where
  focus := ""
  brief := ""
  request := some {
    system := []
    messages := [{ role := "user", blocks := [textBlock 5 1 2 "plan the cache"], contentScalar := true }]
    restValid := true
    decodes := true }
  id := "run-1"
  stage := "review"
  costLimitUsd := limit
  reviewed := { stage := "plan", content := "step 1: the cache", hash := "c0ffee" }

def samplePanel (discussion : Bool) : Panel where
  seats := [{ persona := "qa", selector := "", participant := "", ordinal := 0 },
            { persona := "architect", selector := "", participant := "", ordinal := 0 }]
  minSuccessful := 2
  discussion := discussion
  chairman := ""
  chairmanEnabled := false

/-- Seats that approve at one price and vote at another. -/
def sampleDelegates (analysisCost ballotCost : ℚ) : Delegates where
  reply
    | .discussion _, i => sampleReply (toString i) sampleBallotText ballotCost
    | _, i => sampleReply (toString i) (marshal sampleApproval.json) analysisCost

def Convened.status? (c : Convened) : Option Status :=
  match c.answer with
  | some (.ok result) => some result.status
  | _ => none

theorem Convened.exists_of_status? {c : Convened} {status : Status} (h : c.status? = some status) :
    ∃ result, c.answer = some (.ok result) ∧ result.status = status := by
  unfold Convened.status? at h
  split at h
  · next result hr => exact ⟨result, hr, Option.some.inj h⟩
  · cases h

theorem approval_earned_samplePanel :
    ∃ result stage, Earned (samplePlatform [sampleApproval] []) (sampleDelegates 0 0)
      (preparedRun (sampleRun 0) stage "")
      (samplePanel false) stage
      (convene (samplePlatform [sampleApproval] []) (sampleDelegates 0 0) (fun _ =>
        none) (sampleRun 0) (samplePanel false) "" 0).launches
      result := by
  have happroved : (convene (samplePlatform [sampleApproval] []) (sampleDelegates 0 0) (fun _ => none) (sampleRun 0)
      (samplePanel false) "" 0).status? = some .approved := by decide +kernel
  obtain ⟨result, hanswer, hstatus⟩ := Convened.exists_of_status? happroved
  obtain ⟨stage, -, hearned⟩ := approval_earned hanswer hstatus
  exact ⟨result, stage, hearned⟩

end Roundtable
