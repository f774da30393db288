-- SUMMARY: The cost reservation of a run: what each phase's calls cost and are launched with, and exactly when the run stays within its limit.
import Aimee.Roundtable.Soundness

/-!
# Cost reservation

A run with a limit should launch no call without one and cost no more than it. The analysis and its
repair keep to that, and so do the cycles of a discussion that starts on something. A discussion
that starts on nothing runs without a ceiling, since zero is no limit; and the chairman's repair is
launched with the ceiling of the reply before it.
-/

namespace Roundtable

variable {P : Platform} {delegates : Delegates} {clock : Clock} {run : Run} {panel : Panel} {stage : String}

/-! ## Analysis -/

theorem costUsd_firstOutcome (P : Platform) (run : Run) (hash stage : String) (seat : Seat) (request : SeatRequest)
    (call : SeatResult) : (firstOutcome P run hash stage seat request call).1.costUsd = call.costUsd := by
  unfold firstOutcome
  dsimp only
  split
  · split <;> rfl
  · rfl

variable {requests : List SeatRequest}

theorem sum_firstOutcomes {hash : String} {seats : List Seat} {delegated : List SeatResult}
    (hlen : requests.length = seats.length) (hdelegated : delegated.length = requests.length) :
    ((firstOutcomes P run hash stage seats requests delegated).map fun f => f.1.costUsd).sum =
      (delegated.map SeatResult.costUsd).sum := by
  have hzip : delegated.length ≤ requests.length := hdelegated.le
  have hzip' : (requests.zip delegated).length ≤ seats.length := by
    rw [List.length_zip, hdelegated, min_self, hlen]
  rw [firstOutcomes, List.map_map]
  congr 1
  calc (seats.zip (requests.zip delegated)).map _
      = (seats.zip (requests.zip delegated)).map ((SeatResult.costUsd ∘ Prod.snd) ∘ Prod.snd) :=
        List.map_congr_left fun c _ => costUsd_firstOutcome P run hash stage c.1 c.2.1 c.2.2
    _ = delegated.map SeatResult.costUsd := by
        rw [← List.map_map, List.map_snd_zip hzip', ← List.map_map, List.map_snd_zip hzip]

theorem sum_mergeRepairs (P : Platform) (firsts : List (SeatOutcome × Option Request)) (calls : List SeatResult)
    (h : calls.length = firsts.countP fun f => f.2.isSome) :
    ((mergeRepairs P firsts calls).map SeatOutcome.costUsd).sum =
      (firsts.map fun f => f.1.costUsd).sum + (calls.map SeatResult.costUsd).sum := by
  induction firsts, calls using mergeRepairs.induct with
  | case1 calls =>
    have hnil : calls = [] := List.length_eq_zero_iff.mp h
    rw [hnil, mergeRepairs, List.map_nil, List.map_nil, List.map_nil, List.sum_nil, add_zero]
  | case2 o rest calls ih =>
    rw [mergeRepairs, List.map_cons, List.sum_cons, ih h, List.map_cons, List.sum_cons, add_assoc]
  | case3 o input rest call calls ih =>
    rw [List.countP_cons_of_pos (by simp), List.length_cons, Nat.add_right_cancel_iff] at h
    rw [mergeRepairs, List.map_cons, List.sum_cons, ih h, List.map_cons, List.sum_cons, List.map_cons, List.sum_cons]
    show o.costUsd + call.costUsd + _ = _
    ring
  | case4 o input rest ih =>
    rw [List.countP_cons_of_pos (by simp)] at h
    cases h

variable {limit cost before : ℚ}

theorem repairLimit_eq_some {firsts : List (SeatOutcome × Option Request)} (hrun : 0 < run.costLimitUsd)
    (h : repairLimit run firsts = some limit) :
    limit = remainingCostLimit run.costLimitUsd (firsts.map fun f => f.1.costUsd).sum ∧ 0 < limit := by
  unfold repairLimit at h
  dsimp only at h
  split_ifs at h with hnone hle
  cases h
  exact ⟨rfl, not_le.mp hle⟩

/-- Whether a call belongs to the analysis. -/
def Launch.isAnalysis (l : Launch) : Bool := l.phase = .analysis || l.phase = .analysisRepair

/-- The calls of the outcomes are capped, and cost what the outcomes cost. -/
theorem seatOutcomes_capped {hash : String} {panelRound : ℕ} {seats : List Seat}
    (hlen : requests.length = seats.length) (hrun : 0 < run.costLimitUsd) :
    ((seatOutcomes P delegates run hash stage panelRound seats requests).1.map SeatOutcome.costUsd).sum =
        spent (seatOutcomes P delegates run hash stage panelRound seats requests).2 ∧
      (∀ l ∈ (seatOutcomes P delegates run hash stage panelRound seats requests).2, l.isAnalysis = true) ∧
      Capped run.costLimitUsd 0 (seatOutcomes P delegates run hash stage panelRound seats requests).2 := by
  have hsum : ((firstOutcomes P run hash stage seats requests (delegates.group .analysis requests)).map
      fun f => f.1.costUsd).sum =
      ((delegates.group .analysis requests).map SeatResult.costUsd).sum :=
    sum_firstOutcomes hlen (length_group delegates .analysis requests)
  have hfirst : run.costLimitUsd = remainingCostLimit run.costLimitUsd 0 := by
    rw [remainingCostLimit_of_le hrun hrun.le, sub_zero]
  unfold seatOutcomes
  dsimp only
  split
  · refine ⟨?_, fun l hl => List.mem_singleton.mp hl ▸ rfl, capped_singleton.mpr ⟨hfirst, id⟩⟩
    rw [List.map_map, spent_singleton]
    exact hsum
  · next limit hlimit =>
    obtain ⟨hlimit, hpos⟩ := repairLimit_eq_some hrun hlimit
    have hcount : ((firstOutcomes P run hash stage seats requests
      (delegates.group .analysis requests)).filterMap fun f =>
        f.2.map (analysisRepairRequest P run hash stage panelRound f.1)).length =
        (firstOutcomes P run hash stage seats requests (delegates.group .analysis requests)).countP fun f =>
          f.2.isSome := by
      rw [List.length_filterMap_eq_countP]
      exact List.countP_congr fun f _ => by rw [Option.isSome_map]
    refine ⟨?_, ?_, ?_⟩
    · rw [sum_mergeRepairs P _ _ ((length_group delegates .analysisRepair _).trans hcount), hsum, spent_pair]
      rfl
    · intro l hl
      rcases List.mem_cons.mp hl with rfl | hl
      · rfl
      · exact List.mem_singleton.mp hl ▸ rfl
    · refine ⟨⟨hfirst, id⟩, capped_singleton.mpr ⟨?_, fun _ => hpos⟩⟩
      rw [zero_add]
      exact hlimit.trans (by rw [hsum]; rfl)

variable (P delegates panel stage) in
/-- The analysis phase of a run: its calls are capped, and it reports what they cost. -/
theorem conveneAnalysis_capped (hrun : 0 < run.costLimitUsd) :
    (conveneAnalysis P delegates run panel stage).analysis.costUsd =
      spent (conveneAnalysis P delegates run panel stage).launches ∧
      (∀ l ∈ (conveneAnalysis P delegates run panel stage).launches, l.isAnalysis = true) ∧
      Capped run.costLimitUsd 0 (conveneAnalysis P delegates run panel stage).launches := by
  unfold conveneAnalysis runAnalysis
  cases hm : (conveneSeats panel).mapM (analysisRequest P run (P.basePrompt run) run.reviewed.hash stage 1) with
  | error err => exact ⟨rfl, fun l hl => absurd hl List.not_mem_nil, trivial⟩
  | ok requests =>
    obtain ⟨hsum, hphases, hcapped⟩ := seatOutcomes_capped (forall_of_mapM_ok hm).1 hrun
    exact ⟨(analysisOf_costUsd _).trans hsum, hphases, hcapped⟩

/-! ## Chairman -/

/-- The calls of a chairman: none, one, or one and its repair, all under the run's ceiling. -/
inductive ChairmanCalls (delegates : Delegates) (limit cost : ℚ) : List Launch → ℚ → Prop where
  | none : ChairmanCalls delegates limit cost [] cost
  | one (requests : List SeatRequest) : ChairmanCalls delegates limit cost
      [{ phase := .chairman, costLimitUsd := limit, requests := requests, results := [delegates.one .chairman] }]
      (cost + (delegates.one .chairman).costUsd)
  | repaired (requests repairs : List SeatRequest) : ChairmanCalls delegates limit cost
      [{ phase := .chairman, costLimitUsd := limit, requests := requests, results := [delegates.one .chairman] },
       { phase := .chairmanRepair, costLimitUsd := limit, requests := repairs,
         results := [delegates.one .chairmanRepair] }]
      (cost + (delegates.one .chairman).costUsd + (delegates.one .chairmanRepair).costUsd)

variable {feedback : ReviewFeedback}

theorem chairmanVerdict_calls {analysis : Analysis} {costUnknown : Bool}
    {launches : List Launch} {final : PanelResponse} :
    (chairmanVerdict P run analysis feedback stage cost costUnknown launches final).launches = launches ∧
      (chairmanVerdict P run analysis feedback stage cost costUnknown launches final).costUsd = cost := by
  unfold chairmanVerdict
  dsimp only
  split_ifs
  all_goals exact ⟨rfl, rfl⟩

variable (run) in
theorem runChairman_calls {analysis : Analysis} {costUnknown : Bool} :
    ChairmanCalls delegates run.costLimitUsd cost
      (runChairman P delegates run panel analysis feedback cost costUnknown stage).launches
      (runChairman P delegates run panel analysis feedback cost costUnknown stage).costUsd := by
  unfold runChairman
  dsimp only
  split_ifs
  · exact .none
  split
  · exact .none
  split
  · exact .one _
  split
  · rw [chairmanVerdict_calls.1, chairmanVerdict_calls.2]
    exact .one _
  split
  · exact .one _
  split
  · exact .repaired _ _
  split
  · exact .repaired _ _
  · rw [chairmanVerdict_calls.1, chairmanVerdict_calls.2]
    exact .repaired _ _

/-! ## The reservation -/

/-- The cost a run returns, beside a result or an error. -/
def Convened.costUsd? (c : Convened) : Option ℚ :=
  match c.answer with
  | none => none
  | some (.ok result) => some result.costUsd
  | some (.error (.replayUnavailable _ cost _)) => some cost
  | some (.error (.validation _)) => some 0

/-- No call without a ceiling, and no more spent than the limit. -/
structure Reserved (limit : ℚ) (c : Convened) : Prop where
  ceilings : ∀ l ∈ c.launches, 0 < l.costLimitUsd
  cost : ∀ cost, c.costUsd? = some cost → cost ≤ limit

/-- The replies leave something for what is launched after them: the analysis for a discussion, and
    the chairman's reply for its repair. -/
structure Funded (delegates : Delegates) (limit : ℚ) (launches : List Launch) : Prop where
  discussion : (∃ l ∈ launches, ∃ cycle, l.phase = .discussion cycle) →
    spent (launches.filter Launch.isAnalysis) < limit
  chairmanRepair : ∀ l ∈ launches, l.phase = .chairmanRepair →
    (delegates.reply .chairman 0).costUsd + (delegates.reply .chairmanRepair 0).costUsd ≤ l.costLimitUsd

variable {c : Convened} {calls analysisCalls discussionCalls : List Launch}

section Decision

variable {analysis : Analysis} {total : ℕ} {s : Standing} {launches : List Launch}

theorem costUsd_decideQuorum : (decideQuorum panel analysis total s).costUsd = s.totalCost := by
  unfold decideQuorum
  split <;> rfl

theorem costUsd_chairedResult {c : ChairmanResult} :
    (chairedResult clock panel analysis total s c).costUsd = c.costUsd := by
  unfold chairedResult
  split
  · rfl
  · split
    · rfl
    · exact costUsd_decideQuorum

/-- What the decision returns: the calls so far and the chairman's, and what they cost. -/
theorem chairAndDecide_calls (hcost : s.totalCost = spent launches) :
    ∃ calls cost, (chairAndDecide P delegates clock run panel stage analysis total s launches).launches =
      launches ++ calls ∧
      (chairAndDecide P delegates clock run panel stage analysis total s launches).costUsd? = some cost ∧
      ChairmanCalls delegates (remainingCostLimit run.costLimitUsd (spent launches)) (spent launches) calls cost ∧
      (calls ≠ [] → 0 < run.costLimitUsd → 0 < remainingCostLimit run.costLimitUsd (spent launches)) := by
  unfold chairAndDecide
  dsimp only
  rw [hcost]
  split_ifs with hchair hfunds
  · exact ⟨[], spent launches, (List.append_nil _).symm, rfl, .none, fun h => absurd rfl h⟩
  · refine ⟨_, _, rfl, ?_, runChairman_calls (run.limited (remainingCostLimit run.costLimitUsd (spent launches))),
      fun _ hpos => not_le.mp fun hle => hfunds ⟨hpos, hle⟩⟩
    exact congrArg some costUsd_chairedResult
  · refine ⟨[], spent launches, (List.append_nil _).symm, congrArg some ?_, .none, fun h => absurd rfl h⟩
    exact costUsd_decideQuorum.trans hcost

/-- From calls within the reservation, the run stays within it exactly when a repaired chairman
    keeps to one ceiling with both replies. -/
theorem reserved_iff_of_calls (hle : spent launches ≤ limit)
    (hpos : ∀ l ∈ launches, 0 < l.costLimitUsd) (hno : ∀ l ∈ launches, l.phase ≠ .chairmanRepair)
    (hlaunches : c.launches = launches ++ calls) (hcost : c.costUsd? = some cost)
    (hcalls : ChairmanCalls delegates (limit - spent launches) (spent launches) calls cost)
    (hfunded : calls ≠ [] → 0 < limit - spent launches) (hpriced : ∀ l ∈ calls, Priced l) :
    Reserved limit c ↔ ∀ l ∈ c.launches, l.phase = .chairmanRepair →
      (delegates.reply .chairman 0).costUsd + (delegates.reply .chairmanRepair 0).costUsd ≤ l.costLimitUsd := by
  have hreserved : Reserved limit c ↔ (∀ l ∈ calls, 0 < l.costLimitUsd) ∧ cost ≤ limit := by
    constructor
    · intro h
      exact ⟨fun l hl => h.ceilings l (by rw [hlaunches]; exact List.mem_append_right _ hl), h.cost cost hcost⟩
    · rintro ⟨hceil, hbound⟩
      refine ⟨fun l hl => ?_, fun x hx => ?_⟩
      · rw [hlaunches] at hl
        exact (List.mem_append.mp hl).elim (hpos l) (hceil l)
      · rw [hcost] at hx
        exact Option.some.inj hx ▸ hbound
  have hrepair : (∀ l ∈ c.launches, l.phase = .chairmanRepair →
      (delegates.reply .chairman 0).costUsd + (delegates.reply .chairmanRepair 0).costUsd ≤ l.costLimitUsd) ↔
      ∀ l ∈ calls, l.phase = .chairmanRepair →
        (delegates.reply .chairman 0).costUsd + (delegates.reply .chairmanRepair 0).costUsd ≤ l.costLimitUsd := by
    rw [hlaunches]
    constructor
    · exact fun h l hl => h l (List.mem_append_right _ hl)
    · exact fun h l hl hphase => (List.mem_append.mp hl).elim (fun hl => absurd hphase (hno l hl)) fun hl =>
        h l hl hphase
  rw [hreserved, hrepair]
  cases hcalls with
  | none => exact ⟨fun _ l hl => absurd hl List.not_mem_nil, fun _ => ⟨fun l hl => absurd hl List.not_mem_nil, hle⟩⟩
  | one requests =>
    have hcall := hpriced _ (List.mem_singleton.mpr rfl)
    have hone := cost_le hcall (hfunded (by simp))
    rw [Launch.cost, List.map_singleton, List.sum_singleton] at hone
    refine ⟨fun _ l hl hphase => ?_, fun _ => ⟨fun l hl => ?_, by linarith⟩⟩
    · rw [List.mem_singleton.mp hl] at hphase
      cases hphase
    · rw [List.mem_singleton.mp hl]
      exact hfunded (by simp)
  | repaired requests repairs =>
    have hfunds := hfunded (by simp)
    simp only [List.mem_cons, List.not_mem_nil, or_false, forall_eq_or_imp, forall_eq, reduceCtorEq,
      false_imp_iff, true_and, forall_const, hfunds]
    -- the two replies together against the one ceiling
    show _ + (delegates.reply .chairman 0).costUsd + (delegates.reply .chairmanRepair 0).costUsd ≤ _ ↔ _
    constructor
    · intro h
      linarith
    · intro h
      linarith

end Decision

/-! ## Runs -/

theorem filter_isAnalysis_of_all {launches : List Launch} (h : ∀ l ∈ launches, l.isAnalysis = true) :
    launches.filter Launch.isAnalysis = launches := List.filter_eq_self.mpr h

theorem filter_isAnalysis_of_none {launches : List Launch} (h : ∀ l ∈ launches, l.isAnalysis = false) :
    launches.filter Launch.isAnalysis = [] := List.filter_eq_nil_iff.mpr fun l hl => by simp [h l hl]

theorem not_isAnalysis_of_chairmanCalls (h : ChairmanCalls delegates limit before calls cost) :
    ∀ l ∈ calls, l.isAnalysis = false ∧ ∀ cycle, l.phase ≠ .discussion cycle := by
  cases h with
  | none => exact fun l hl => absurd hl List.not_mem_nil
  | one requests =>
    intro l hl
    rw [List.mem_singleton.mp hl]
    exact ⟨rfl, fun _ hphase => by cases hphase⟩
  | repaired requests repairs =>
    intro l hl
    rcases List.mem_cons.mp hl with rfl | hl
    · exact ⟨rfl, fun _ hphase => by cases hphase⟩
    · rw [List.mem_singleton.mp hl]
      exact ⟨rfl, fun _ hphase => by cases hphase⟩

theorem phase_of_discussed {analysis : Analysis} {n : ℕ} {d : DiscussionResult}
    (h : Discussed P delegates run panel analysis n d) : ∀ l ∈ d.launches, ∃ cycle, l.phase = .discussion cycle := by
  intro l hl
  have hmem : l.phase ∈ d.launches.map Launch.phase := List.mem_map.mpr ⟨l, hl, rfl⟩
  rw [h.phases] at hmem
  obtain ⟨k, -, hk⟩ := List.mem_map.mp hmem
  exact ⟨k + 1, hk.symm⟩

theorem limit_of_capped_zero {launches : List Launch} (h : Capped 0 before launches) :
    ∀ l ∈ launches, l.costLimitUsd = 0 := by
  induction launches generalizing before with
  | nil => exact fun l hl => absurd hl List.not_mem_nil
  | cons l rest ih =>
    obtain ⟨⟨hceil, -⟩, hrest⟩ := h
    exact List.forall_mem_cons.mpr ⟨hceil.trans (remainingCostLimit_zero before), ih hrest⟩

/-- Calls of the analysis followed by calls of another phase. -/
theorem filter_isAnalysis_append {a b : List Launch} (ha : ∀ l ∈ a, l.isAnalysis = true)
    (hb : ∀ l ∈ b, l.isAnalysis = false) : (a ++ b).filter Launch.isAnalysis = a := by
  rw [List.filter_append, filter_isAnalysis_of_all ha, filter_isAnalysis_of_none hb, List.append_nil]

theorem not_discussion_of_isAnalysis {l : Launch} (h : l.isAnalysis = true) :
    (∀ cycle, l.phase ≠ .discussion cycle) ∧ l.phase ≠ .chairmanRepair := by
  unfold Launch.isAnalysis at h
  constructor
  · intro cycle hphase
    rw [hphase] at h
    simp at h
  · intro hphase
    rw [hphase] at h
    simp at h

theorem not_isAnalysis_of_discussion {l : Launch} {cycle : ℕ} (h : l.phase = .discussion cycle) :
    l.isAnalysis = false ∧ l.phase ≠ .chairmanRepair := by
  unfold Launch.isAnalysis
  rw [h]
  exact ⟨by simp, by simp⟩

variable (delegates) in
/-- A discussion that is launched under a spent reservation has no ceiling, and its analysis left it
    nothing. -/
theorem not_reserved_of_unfunded {rest : List Launch}
    (hlaunches : c.launches = analysisCalls ++ (discussionCalls ++ rest))
    (ha : ∀ l ∈ analysisCalls, l.isAnalysis = true)
    (hd : ∀ l ∈ discussionCalls, ∃ cycle, l.phase = .discussion cycle) (hne : discussionCalls ≠ [])
    (hzero : ∀ l ∈ discussionCalls, l.costLimitUsd = 0) (hr : ∀ l ∈ rest, l.isAnalysis = false)
    (hspent : limit ≤ spent analysisCalls) : ¬Reserved limit c ∧ ¬Funded delegates limit c.launches := by
  obtain ⟨l, hl⟩ := List.exists_mem_of_ne_nil _ hne
  have hmem : l ∈ c.launches := by
    rw [hlaunches]
    exact List.mem_append_right _ (List.mem_append_left _ hl)
  constructor
  · intro h
    have hpos := h.ceilings l hmem
    rw [hzero l hl] at hpos
    exact lt_irrefl 0 hpos
  · intro h
    have hlt := h.discussion ⟨l, hmem, hd l hl⟩
    rw [hlaunches, filter_isAnalysis_append ha] at hlt
    · exact absurd hlt (not_lt.mpr hspent)
    · intro m hm
      rcases List.mem_append.mp hm with hm | hm
      · obtain ⟨cycle, hphase⟩ := hd m hm
        exact (not_isAnalysis_of_discussion hphase).1
      · exact hr m hm

variable (delegates) in
/-- A run that ends after calls within the reservation. -/
theorem reserved_and_funded
    (hlaunches : c.launches = analysisCalls ++ discussionCalls) (ha : ∀ l ∈ analysisCalls, l.isAnalysis = true)
    (hd : ∀ l ∈ discussionCalls, ∃ cycle, l.phase = .discussion cycle)
    (hfunds : discussionCalls ≠ [] → spent analysisCalls < limit) (hpos : ∀ l ∈ c.launches, 0 < l.costLimitUsd)
    (hcost : ∀ cost, c.costUsd? = some cost → cost ≤ limit) : Reserved limit c ∧ Funded delegates limit c.launches := by
  have hother : ∀ l ∈ discussionCalls, l.isAnalysis = false ∧ l.phase ≠ .chairmanRepair := fun l hl =>
    let ⟨_, hphase⟩ := hd l hl
    not_isAnalysis_of_discussion hphase
  refine ⟨⟨hpos, hcost⟩, ⟨?_, ?_⟩⟩
  · rintro ⟨l, hl, cycle, hphase⟩
    rw [hlaunches, filter_isAnalysis_append ha fun l hl => (hother l hl).1]
    rw [hlaunches] at hl
    rcases List.mem_append.mp hl with hl | hl
    · exact absurd hphase ((not_discussion_of_isAnalysis (ha l hl)).1 cycle)
    · exact hfunds (List.ne_nil_of_mem hl)
  · intro l hl hphase
    rw [hlaunches] at hl
    rcases List.mem_append.mp hl with hl | hl
    · exact absurd hphase (not_discussion_of_isAnalysis (ha l hl)).2
    · exact absurd hphase (hother l hl).2

/-- A run that is chaired or decided after calls within the reservation. -/
theorem chairAndDecide_reserved_iff {analysis : Analysis} {total : ℕ} {s : Standing}
    (hrun : 0 < run.costLimitUsd) (hcost : s.totalCost = spent (analysisCalls ++ discussionCalls))
    (hle : spent (analysisCalls ++ discussionCalls) ≤ run.costLimitUsd)
    (hpos : ∀ l ∈ analysisCalls ++ discussionCalls, 0 < l.costLimitUsd)
    (ha : ∀ l ∈ analysisCalls, l.isAnalysis = true) (hd : ∀ l ∈ discussionCalls, ∃ cycle, l.phase = .discussion cycle)
    (hfunds : discussionCalls ≠ [] → spent analysisCalls < run.costLimitUsd)
    (hpriced : ∀ l ∈ (chairAndDecide P delegates clock run panel stage analysis total s
      (analysisCalls ++ discussionCalls)).launches, Priced l) :
    Reserved run.costLimitUsd (chairAndDecide P delegates clock run panel stage analysis total s
      (analysisCalls ++ discussionCalls)) ↔
      Funded delegates run.costLimitUsd
        (chairAndDecide P delegates clock run panel stage analysis total s
          (analysisCalls ++ discussionCalls)).launches := by
  obtain ⟨calls, cost, hlaunches, hcost?, hcalls, hfunded⟩ := chairAndDecide_calls (P := P) hcost
  rw [remainingCostLimit_of_le hrun hle] at hcalls hfunded
  have hother : ∀ l ∈ discussionCalls, l.isAnalysis = false ∧ l.phase ≠ .chairmanRepair := fun l hl =>
    let ⟨_, hphase⟩ := hd l hl
    not_isAnalysis_of_discussion hphase
  have hchair := not_isAnalysis_of_chairmanCalls hcalls
  have hno : ∀ l ∈ analysisCalls ++ discussionCalls, l.phase ≠ .chairmanRepair := fun l hl =>
    (List.mem_append.mp hl).elim (fun hl => (not_discussion_of_isAnalysis (ha l hl)).2) fun hl => (hother l hl).2
  rw [reserved_iff_of_calls hle hpos hno hlaunches hcost? hcalls (fun hne => hfunded hne hrun) fun l hl =>
    hpriced l (by rw [hlaunches]; exact List.mem_append_right _ hl)]
  -- what is left is the discussion's half, which the calls so far grant
  refine ⟨fun h => ⟨?_, h⟩, fun h => h.chairmanRepair⟩
  rintro ⟨l, hl, cycle, hphase⟩
  rw [hlaunches, List.append_assoc] at hl ⊢
  rw [filter_isAnalysis_append ha fun m hm =>
    (List.mem_append.mp hm).elim (fun hm => (hother m hm).1) fun hm => (hchair m hm).1]
  rcases List.mem_append.mp hl with hl | hl
  · exact absurd hphase ((not_discussion_of_isAnalysis (ha l hl)).1 cycle)
  · rcases List.mem_append.mp hl with hl | hl
    · exact hfunds (List.ne_nil_of_mem hl)
    · exact absurd hphase ((hchair l hl).2 cycle)

theorem launches_chairAndDecide (P : Platform) (delegates : Delegates) (clock : Clock) (run : Run) (panel : Panel)
    (stage : String) (analysis : Analysis) (total : ℕ) (s : Standing) (launches : List Launch) :
    launches ⊆ (chairAndDecide P delegates clock run panel stage analysis total s launches).launches := by
  unfold chairAndDecide
  dsimp only
  split_ifs
  · exact List.Subset.refl _
  · exact List.subset_append_left _ _
  · exact List.Subset.refl _

theorem discussion_ceilings (hlimit : 0 < limit)
    (hle : spent analysisCalls ≤ limit)
    (hcapped : Capped (remainingCostLimit limit (spent analysisCalls)) 0 discussionCalls) :
    (spent analysisCalls < limit ∧ (∀ l ∈ discussionCalls, 0 < l.costLimitUsd) ∧
      ((∀ l ∈ discussionCalls, Priced l) → spent (analysisCalls ++ discussionCalls) ≤ limit)) ∨
    (limit ≤ spent analysisCalls ∧ ∀ l ∈ discussionCalls, l.costLimitUsd = 0) := by
  rw [remainingCostLimit_of_le hlimit hle] at hcapped
  rcases lt_or_ge (spent analysisCalls) limit with hlt | hge
  · have hleft : 0 < limit - spent analysisCalls := sub_pos.mpr hlt
    refine .inl ⟨hlt, pos_of_capped hleft hcapped, fun hpriced => ?_⟩
    have h := spent_le_of_capped hleft hleft.le hcapped hpriced
    rw [spent_append]
    linarith
  · rw [le_antisymm hle hge, sub_self] at hcapped
    exact .inr ⟨hge, limit_of_capped_zero hcapped⟩

/-- A run that ends without a decision. -/
theorem unsettled_reserved_iff (hlimit : 0 < limit)
    (hlaunches : c.launches = analysisCalls ++ discussionCalls)
    (hcost : ∀ cost, c.costUsd? = some cost → cost = spent (analysisCalls ++ discussionCalls))
    (ha : ∀ l ∈ analysisCalls, l.isAnalysis = true) (hposA : ∀ l ∈ analysisCalls, 0 < l.costLimitUsd)
    (hle : spent analysisCalls ≤ limit) (hd : ∀ l ∈ discussionCalls, ∃ cycle, l.phase = .discussion cycle)
    (hcapped : Capped (remainingCostLimit limit (spent analysisCalls)) 0 discussionCalls)
    (hpriced : ∀ l ∈ c.launches, Priced l) : Reserved limit c ↔ Funded delegates limit c.launches := by
  have hpricedD : ∀ l ∈ discussionCalls, Priced l := fun l hl => hpriced l (by
    rw [hlaunches]
    exact List.mem_append_right _ hl)
  rcases discussion_ceilings hlimit hle hcapped with ⟨hlt, hposD, hbound⟩ | ⟨hge, hzero⟩
  · obtain ⟨h1, h2⟩ := reserved_and_funded delegates hlaunches ha hd (fun _ => hlt)
      (fun l hl => by
        rw [hlaunches] at hl
        exact (List.mem_append.mp hl).elim (hposA l) (hposD l))
      fun cost h => (hcost cost h).le.trans (hbound hpricedD)
    exact ⟨fun _ => h2, fun _ => h1⟩
  · rcases List.eq_nil_or_concat discussionCalls with rfl | ⟨_, _, hne⟩
    · rw [List.append_nil] at hlaunches hcost
      obtain ⟨h1, h2⟩ := reserved_and_funded delegates (hlaunches.trans (List.append_nil _).symm) ha hd
        (fun h => absurd rfl h) (fun l hl => hposA l (by rwa [hlaunches] at hl)) fun cost h =>
          (hcost cost h).le.trans hle
      exact ⟨fun _ => h2, fun _ => h1⟩
    · obtain ⟨h1, h2⟩ := not_reserved_of_unfunded delegates
        (show c.launches = analysisCalls ++ (discussionCalls ++ []) by rw [hlaunches, List.append_nil]) ha
          hd (by rw [hne]; simp) hzero (fun l hl => absurd hl List.not_mem_nil) hge
      exact ⟨fun h => absurd h h1, fun h => absurd h h2⟩

variable {fuel : ℕ}

/-- From the calls of the analysis, the rest of the run keeps the reservation exactly when its
    phases were left something. -/
theorem discussAndDecide_reserved_iff {analysis : Analysis}
    (hrun : 0 < run.costLimitUsd) (hcost : analysis.costUsd = spent analysisCalls)
    (ha : ∀ l ∈ analysisCalls, l.isAnalysis = true)
    (hcapped : Capped run.costLimitUsd 0 analysisCalls) (hadmitted : Admitted run analysis)
    (hpricedA : ∀ l ∈ analysisCalls, Priced l)
    (hpriced : ∀ l ∈ (discussAndDecide P delegates clock run panel stage analysis panel.seats.length
      analysisCalls fuel).launches, Priced l) :
    Reserved run.costLimitUsd (discussAndDecide P delegates clock run panel stage analysis
      panel.seats.length analysisCalls fuel) ↔
      Funded delegates run.costLimitUsd
        (discussAndDecide P delegates clock run panel stage analysis panel.seats.length
          analysisCalls fuel).launches := by
  have hposA := pos_of_capped hrun hcapped
  have hleA := spent_le_of_capped hrun hrun.le hcapped hpricedA
  rw [zero_add] at hleA
  unfold discussAndDecide at hpriced ⊢
  dsimp only at hpriced ⊢
  split_ifs at hpriced ⊢ with hdiscussion
  swap
  · -- no discussion: the calls so far are the analysis's
    rw [← List.append_nil analysisCalls] at hpriced ⊢
    exact chairAndDecide_reserved_iff hrun (by rw [List.append_nil]; exact hcost) (by rwa [List.append_nil])
      (by rwa [List.append_nil]) ha (fun l hl => absurd hl List.not_mem_nil) (fun h => absurd rfl h) hpriced
  obtain ⟨n, hd⟩ := runDiscussion_discussed P delegates clock panel stage
    (admitted_limited hadmitted (remainingCostLimit run.costLimitUsd analysis.costUsd)) fuel
  revert hpriced hd
  generalize runDiscussion P delegates clock _ panel analysis stage fuel = d
  intro hpriced hd
  have hphases := phase_of_discussed hd
  have hcapD : Capped (remainingCostLimit run.costLimitUsd analysis.costUsd) 0 d.launches := hd.capped
  have hcostD : d.costUsd = spent (analysisCalls ++ d.launches) := by rw [hd.cost, hcost, spent_append]
  rw [hcost] at hcapD
  cases hturn : d.turn with
  | again =>
    rw [hturn] at hpriced
    exact unsettled_reserved_iff hrun rfl (fun cost h => by cases h) ha hposA hleA hphases hcapD hpriced
  | failed err =>
    rw [hturn] at hpriced
    exact unsettled_reserved_iff hrun rfl (fun cost h => by cases h; exact hcostD) ha hposA hleA hphases hcapD hpriced
  | settled =>
    rw [hturn] at hpriced
    have hpricedD : ∀ l ∈ d.launches, Priced l := fun l hl =>
      hpriced l (launches_chairAndDecide P delegates clock run panel stage analysis _ _ _ (List.mem_append_right _ hl))
    rcases discussion_ceilings hrun hleA hcapD with ⟨hlt, hposD, hbound⟩ | ⟨hge, hzero⟩
    · exact chairAndDecide_reserved_iff hrun hcostD (hbound hpricedD)
        (fun l hl => (List.mem_append.mp hl).elim (hposA l) (hposD l)) ha hphases (fun _ => hlt) hpriced
    · -- the loop settled, so at least one cycle was called, and without a ceiling
      have hne : d.launches ≠ [] := by
        intro hnil
        have hlen := congrArg List.length hd.phases
        rw [hnil, List.length_map, List.length_map, List.length_range] at hlen
        exact absurd (hd.settled hturn).1 (by rw [← hlen]; exact lt_irrefl 0)
      obtain ⟨calls, cost, hlaunches, -, hcalls, -⟩ := chairAndDecide_calls (P := P) (s :=
        ⟨d.feedback, d.approvals, d.costUsd, d.costUnknown, d.failed,
          clock.deadlineExceeded .analysis || clock.deadlineExceeded .discussion⟩)
        hcostD
      obtain ⟨h1, h2⟩ := not_reserved_of_unfunded delegates (hlaunches.trans (List.append_assoc _ _ _)) ha
        hphases hne hzero
        (fun l hl => (not_isAnalysis_of_chairmanCalls hcalls l hl).1) hge
      exact ⟨fun h => absurd h h1, fun h => absurd h h2⟩

theorem launches_discussAndDecide (P : Platform) (delegates : Delegates) (clock : Clock) (run : Run) (panel : Panel)
    (stage : String) (analysis : Analysis) (total : ℕ) (launches : List Launch) (fuel : ℕ) :
    launches ⊆ (discussAndDecide P delegates clock run panel stage analysis total launches fuel).launches := by
  unfold discussAndDecide
  dsimp only
  split_ifs
  · generalize runDiscussion P delegates clock _ panel analysis stage fuel = d
    cases d.turn with
    | again => exact List.subset_append_left _ _
    | failed err => exact List.subset_append_left _ _
    | settled => exact List.Subset.trans (List.subset_append_left _ _) (launches_chairAndDecide ..)
  · exact launches_chairAndDecide ..

theorem conveneAnalysed_reserved_iff (hrun : 0 < run.costLimitUsd)
    (hpriced : ∀ l ∈ (conveneAnalysed P delegates clock run panel stage (conveneAnalysis P delegates run panel stage)
      panel.seats.length fuel).launches, Priced l) :
    Reserved run.costLimitUsd
        (conveneAnalysed P delegates clock run panel stage (conveneAnalysis P delegates run panel stage)
        panel.seats.length fuel) ↔
      Funded delegates run.costLimitUsd (conveneAnalysed P delegates clock run panel stage
        (conveneAnalysis P delegates run panel stage) panel.seats.length fuel).launches := by
  obtain ⟨hcost, ha, hcapped⟩ := conveneAnalysis_capped P delegates panel stage hrun
  have hadmitted := admitted_conveneAnalysis P delegates run panel stage
  revert hpriced hcost ha hcapped hadmitted
  generalize conveneAnalysis P delegates run panel stage = a
  intro hpriced hcost ha hcapped hadmitted
  have hpos := pos_of_capped hrun hcapped
  have hpricedA : ∀ l ∈ a.launches, Priced l := by
    intro l hl
    refine hpriced l ?_
    unfold conveneAnalysed
    split_ifs
    · exact hl
    · exact hl
    · exact launches_discussAndDecide _ _ _ _ _ _ _ _ _ _ hl
  have hle := spent_le_of_capped hrun hrun.le hcapped hpricedA
  rw [zero_add] at hle
  have hspent : ∀ x, x = a.analysis.costUsd → x = spent (a.launches ++ []) := by
    intro x hx
    rw [List.append_nil, hx, hcost]
  unfold conveneAnalysed at hpriced ⊢
  split_ifs at hpriced ⊢
  · exact unsettled_reserved_iff hrun (List.append_nil _).symm (fun x hx =>
      hspent x (Option.some.inj hx).symm) ha hpos hle
      (fun l hl => absurd hl List.not_mem_nil) trivial hpriced
  · exact unsettled_reserved_iff hrun (List.append_nil _).symm (fun x hx =>
      hspent x (Option.some.inj hx).symm) ha hpos hle
      (fun l hl => absurd hl List.not_mem_nil) trivial hpriced
  · exact discussAndDecide_reserved_iff hrun hcost ha hcapped hadmitted hpricedA hpriced

/-- A request that is refused calls nobody. -/
theorem refused_reserved_iff (hlimit : 0 < limit) (err : String) :
    Reserved limit ⟨[], some (.error (.validation err))⟩ ↔ Funded delegates limit [] := by
  have hnone : ∀ l : Launch, l ∉ ([] : List Launch) := fun _ => List.not_mem_nil
  refine ⟨fun _ => ⟨?_, fun l hl => absurd hl (hnone l)⟩, fun _ => ⟨fun l hl => absurd hl (hnone l), ?_⟩⟩
  · rintro ⟨l, hl, -⟩
    exact absurd hl (hnone l)
  · intro cost hcost
    exact Option.some.inj hcost ▸ hlimit.le

/-- A run keeps its reservation exactly when its discussion and its chairman's repair were left
    something. -/
theorem convene_reserved_iff {focus : String} {fuel : ℕ} (hrun : 0 < run.costLimitUsd)
    (hpriced : ∀ l ∈ (convene P delegates clock run panel focus fuel).launches, Priced l) :
    Reserved run.costLimitUsd (convene P delegates clock run panel focus fuel) ↔
      Funded delegates run.costLimitUsd (convene P delegates clock run panel focus fuel).launches := by
  unfold convene at hpriced ⊢
  split at hpriced
  · next hsource =>
    rw [if_pos hsource]
    exact refused_reserved_iff hrun _
  next hsource =>
  rw [if_neg hsource]
  split at hpriced
  · exact refused_reserved_iff hrun _
  next stage hstage =>
  dsimp only at hpriced ⊢
  rw [length_conveneSeats] at hpriced ⊢
  have hrun' : 0 < (preparedRun run stage focus).costLimitUsd := hrun
  have h := conveneAnalysed_reserved_iff hrun' hpriced
  exact h

/-! ## Discussions with and without a ceiling -/

section Discussion

variable {analysis : Analysis}

theorem launches_discussionTurn (hadmitted : Admitted run analysis) {st : Loop}
    (hclock : clock (.cycleStart st.cycle) = none)
    (hfunds : ¬(0 < run.costLimitUsd ∧ remainingCostLimit run.costLimitUsd st.phaseCost ≤ 0)) :
    ∃ requests, (discussionTurn P delegates clock run panel analysis stage st).1.launches = st.launches ++
      [{ phase := .discussion st.cycle, costLimitUsd := remainingCostLimit run.costLimitUsd st.phaseCost,
         requests := requests, results := cycleReplies delegates analysis st.cycle }] := by
  obtain ⟨requests, -, hturn⟩ := discussionTurn_eq P delegates clock panel stage hadmitted st
  refine ⟨requests, ?_⟩
  rw [hturn]
  rw [if_neg (not_not.mpr hclock)]
  split_ifs
  all_goals rfl

variable (P delegates panel stage) in
/-- The first turn of a discussion that has reports and may start is a call. -/
theorem launches_runDiscussion_one (hadmitted : Admitted run analysis) (hreports : analysis.reports ≠ [])
    (hclock : clock (.cycleStart 1) = none)
    (hfunds : ¬(0 < run.costLimitUsd ∧ remainingCostLimit run.costLimitUsd 0 ≤ 0)) :
    ∃ requests, (runDiscussion P delegates clock run panel analysis stage 1).launches =
      [{ phase := .discussion 1, costLimitUsd := remainingCostLimit run.costLimitUsd 0, requests := requests,
         results := cycleReplies delegates analysis 1 }] := by
  have hturn : ∃ requests,
      (discussionTurn P delegates clock run panel analysis stage (startLoop P analysis)).1.launches =
      [{ phase := .discussion 1, costLimitUsd := remainingCostLimit run.costLimitUsd 0, requests := requests,
         results := cycleReplies delegates analysis 1 }] := launches_discussionTurn hadmitted hclock hfunds
  obtain ⟨requests, hturn⟩ := hturn
  refine ⟨requests, hturn ▸ ?_⟩
  unfold runDiscussion
  rw [if_neg hreports, discussionLoop]
  generalize discussionTurn P delegates clock run panel analysis stage (startLoop P analysis) = r
  obtain ⟨st, turn⟩ := r
  cases turn with
  | again => rfl
  | settled => rfl
  | failed err => rfl

theorem launches_unchaired {total : ℕ} {launches : List Launch} (hdiscussion : panel.discussion = true ∧ 1 < total)
    (hchair : panel.chairmanEnabled = false) :
    (discussAndDecide P delegates clock run panel stage analysis total launches fuel).launches =
      launches ++ (runDiscussion P delegates clock
        (run.limited (remainingCostLimit run.costLimitUsd analysis.costUsd)) panel
        analysis stage fuel).launches := by
  unfold discussAndDecide
  dsimp only
  rw [if_pos hdiscussion]
  generalize runDiscussion P delegates clock _ panel analysis stage fuel = d
  cases d.turn with
  | again => rfl
  | failed err => rfl
  | settled =>
    have hnone : ¬(panel.chairmanEnabled = true ∧ 1 < total) := by
      rw [hchair]
      exact fun h => Bool.noConfusion h.1
    rw [chairAndDecide, if_neg hnone]

end Discussion

variable (P delegates clock run panel stage) in
theorem convene_eq_discussAndDecide (focus : String) (hsource : hasReviewSource run.request = true)
    (hstage : normalizeStage run.reviewed.stage = some stage)
    (hreach : unreachablePanel panel (conveneAnalysis P delegates (preparedRun run stage focus) panel
      stage).analysis = false) :
    convene P delegates clock run panel focus fuel =
      discussAndDecide P delegates clock (preparedRun run stage focus) panel stage
        (conveneAnalysis P delegates (preparedRun run stage focus) panel stage).analysis panel.seats.length
        (conveneAnalysis P delegates (preparedRun run stage focus) panel stage).launches fuel := by
  have hno : ¬unreachablePanel panel
      (conveneAnalysis P delegates (preparedRun run stage focus) panel stage).analysis = true := by
    rw [hreach]
    exact Bool.noConfusion
  unfold convene
  rw [if_neg (not_not.mpr hsource), hstage]
  dsimp only
  rw [conveneAnalysed, if_neg hno, length_conveneSeats]

variable (P delegates clock panel stage) in
/-- The first call of a discussion has what the analysis left as its ceiling, and none when that is nothing. -/
theorem launches_of_discussion {a : AnalysisRun} {left : ℚ} (hadmitted : Admitted run a.analysis)
    (hreports : a.analysis.reports ≠ [])
    (hleft : remainingCostLimit run.costLimitUsd a.analysis.costUsd = left) (hnonneg : 0 ≤ left)
    (hclock : clock (.cycleStart 1) = none) (hdiscussion : panel.discussion = true ∧ 1 < panel.seats.length)
    (hchair : panel.chairmanEnabled = false) :
    ∃ requests, (discussAndDecide P delegates clock run panel stage a.analysis panel.seats.length a.launches
      1).launches =
      a.launches ++ [{ phase := .discussion 1, costLimitUsd := left, requests := requests,
                       results := cycleReplies delegates a.analysis 1 }] := by
  have hceiling : remainingCostLimit left 0 = left := by
    rcases hnonneg.eq_or_lt with h | h
    · rw [← h, remainingCostLimit_zero]
    · rw [remainingCostLimit_of_le h h.le, sub_zero]
  obtain ⟨requests, hlaunches⟩ :=
    launches_runDiscussion_one P delegates panel stage (admitted_limited hadmitted left) hreports hclock
    (fun h => absurd (h.1.trans_le (hceiling.ge.trans h.2)) (lt_irrefl 0))
  refine ⟨requests, ?_⟩
  rw [launches_unchaired hdiscussion hchair, hleft, hlaunches, Run.limited, hceiling]

/-! ## Sample runs -/

/-- Seats that approve at one each, and a chairman whose first reply is empty. -/
def emptyChair : Delegates where
  reply
    | .chairman, i => sampleReply (toString i) "" 1
    | phase, i => (sampleDelegates 1 5).reply phase i

def chairedRun : Convened :=
  convene (samplePlatform [sampleApproval] []) emptyChair (fun _ => none) (sampleRun 10)
    { samplePanel false with chairmanEnabled := true } "" 0

/-- The analysis of two seats at one each, before they vote at five each. -/
def sampleAnalysis (limit : ℚ) : AnalysisRun :=
  conveneAnalysis (samplePlatform [sampleApproval] [(sampleBallotText, sampleBallot)]) (sampleDelegates 1 5)
    (preparedRun (sampleRun limit) "plan" "") (samplePanel true) "plan"

def discussedRun (limit : ℚ) : Convened :=
  convene (samplePlatform [sampleApproval] [(sampleBallotText, sampleBallot)]) (sampleDelegates 1 5) (fun _ => none)
    (sampleRun limit) (samplePanel true) "" 1

/-- The analysis leaves this much of the limit, and a discussion follows. -/
abbrev Leaves (limit left : ℚ) : Prop :=
  unreachablePanel (samplePanel true) (sampleAnalysis limit).analysis = false ∧
    (sampleAnalysis limit).analysis.reports.length = 2 ∧
    remainingCostLimit limit (sampleAnalysis limit).analysis.costUsd = left ∧ 0 ≤ left ∧
    ∀ l ∈ (sampleAnalysis limit).launches, Priced l

theorem launches_discussedRun {limit left : ℚ} (h : Leaves limit left) :
    ∃ requests, (discussedRun limit).launches = (sampleAnalysis limit).launches ++
      [{ phase := .discussion 1, costLimitUsd := left, requests := requests,
         results := cycleReplies (sampleDelegates 1 5) (sampleAnalysis limit).analysis 1 }] := by
  obtain ⟨hreach, hreports, hleft, hnonneg, -⟩ := h
  have hadmitted := admitted_conveneAnalysis (samplePlatform [sampleApproval] [(sampleBallotText, sampleBallot)])
    (sampleDelegates 1 5) (preparedRun (sampleRun limit) "plan" "") (samplePanel true) "plan"
  have hsource : hasReviewSource (sampleRun limit).request = true := rfl
  have hstage : normalizeStage (sampleRun limit).reviewed.stage = some "plan" := by
    have hplan : normalizeStage "plan" = some "plan" := by decide
    exact hplan
  unfold sampleAnalysis at *
  rw [discussedRun, convene_eq_discussAndDecide _ _ _ _ _ "plan" "" hsource hstage hreach]
  revert hreports hleft hadmitted
  generalize conveneAnalysis _ (sampleDelegates 1 5) (preparedRun (sampleRun limit) "plan" "")
    (samplePanel true) "plan" = a
  intro hreports hleft hadmitted
  have hsome : a.analysis.reports ≠ [] := List.ne_nil_of_length_pos (by omega)
  exact launches_of_discussion (samplePlatform [sampleApproval] [(sampleBallotText, sampleBallot)])
    (sampleDelegates 1 5)
    (fun _ => none) (samplePanel true) "plan" hadmitted hsome hleft hnonneg rfl (by decide) rfl

/-- Two votes cost ten. -/
theorem priced_discussedRun {limit left : ℚ} (h : Leaves limit left) (hleft : left = 0 ∨ 10 ≤ left) :
    ∀ l ∈ (discussedRun limit).launches, Priced l := by
  obtain ⟨requests, hlaunches⟩ := launches_discussedRun h
  obtain ⟨-, hreports, -, -, hpriced⟩ := h
  rw [hlaunches]
  revert hreports hpriced
  generalize sampleAnalysis limit = a
  intro hreports hpriced
  refine List.forall_mem_append.mpr ⟨hpriced, List.forall_mem_singleton.mpr fun r hr => ?_⟩
  have hlength : (cycleReplies (sampleDelegates 1 5) a.analysis 1).length = 2 := by
    rw [cycleReplies, List.length_map, List.length_range, hreports]
  obtain ⟨i, -, rfl⟩ := List.mem_map.mp hr
  have hcost : (0 : ℚ) ≤ 5 := by norm_num
  refine ⟨hcost, fun hpos => ?_⟩
  change (5 : ℚ) ≤ left / (cycleReplies (sampleDelegates 1 5) a.analysis 1).length
  rw [hlength]
  rcases hleft with rfl | hten
  · exact absurd hpos (lt_irrefl 0)
  · norm_num
    linarith

theorem leaves_two : Leaves 2 0 := by decide +kernel

theorem leaves_twelve : Leaves 12 10 := by decide +kernel

theorem chairedRun_phases : chairedRun.launches.map Launch.phase = [.analysis, .chairman, .chairmanRepair] ∧
    ∀ l ∈ chairedRun.launches, Priced l := by
  decide +kernel

/-- A chairman who is asked again, and a discussion that has a ceiling. -/
theorem convene_reserved_iff_samplePanel :
    (Reserved 10 chairedRun ↔ Funded emptyChair 10 chairedRun.launches) ∧
      chairedRun.launches.map Launch.phase = [.analysis, .chairman, .chairmanRepair] ∧
      (Reserved 12 (discussedRun 12) ↔ Funded (sampleDelegates 1 5) 12 (discussedRun 12).launches) ∧
      ∃ l ∈ (discussedRun 12).launches, l.phase = .discussion 1 := by
  have hrun : 0 < (sampleRun 10).costLimitUsd := by decide
  have hrun' : 0 < (sampleRun 12).costLimitUsd := by decide
  obtain ⟨requests, hlaunches⟩ := launches_discussedRun leaves_twelve
  refine ⟨convene_reserved_iff hrun chairedRun_phases.2, chairedRun_phases.1,
    convene_reserved_iff hrun' (priced_discussedRun leaves_twelve (.inr le_rfl)), ?_⟩
  rw [hlaunches]
  exact ⟨_, List.mem_append_right _ (List.mem_singleton_self _), rfl⟩

/-- Two seats spend a limit of two on their analysis, and then vote at five each. -/
theorem discussion_unlimited_samplePanel :
    (∀ l ∈ (discussedRun 2).launches, Priced l) ∧ ¬Reserved 2 (discussedRun 2) := by
  refine ⟨priced_discussedRun leaves_two (.inl rfl), fun h => ?_⟩
  obtain ⟨requests, hlaunches⟩ := launches_discussedRun leaves_two
  have hlast := h.ceilings { phase := .discussion 1, costLimitUsd := 0, requests := requests,
                             results := cycleReplies (sampleDelegates 1 5) (sampleAnalysis 2).analysis 1 } (by
    rw [hlaunches]
    exact List.mem_append_right _ (List.mem_singleton.mpr rfl))
  exact lt_irrefl 0 hlast

end Roundtable
