-- SUMMARY: What the fold over a panel's outcomes counts: the usable reports, the full approvals, the findings in the order of the seats, and the cost.
import Aimee.Roundtable.Convene

/-!
# Reports

Closed forms for the fold of `RunAnalysis`. An outcome is usable when it names the run, the
artifact and the stage and carries a consistent verdict; only usable outcomes become reports.
-/

namespace Roundtable

open GoText

variable {P : Platform} {run : Run} {hash stage : String}

/-! ## Usable outcomes -/

/-- A reply that echoes the run, the artifact and the stage, with a verdict its findings support. -/
def Usable (P : Platform) (run : Run) (hash stage : String) (o : SeatOutcome) : Prop :=
  o.err = none ∧ o.result.runId = run.id ∧ o.result.artifactHash = hash ∧
    normalizeStage o.result.artifactStage = some stage ∧ panelVerdictError P o.result = none

instance : DecidablePred (Usable P run hash stage) := fun _ => inferInstanceAs (Decidable (_ ∧ _))

/-- An outcome that names the run and the artifact and another stage. -/
def Misstaged (run : Run) (hash stage : String) (o : SeatOutcome) : Prop :=
  o.err = none ∧ o.result.runId = run.id ∧ o.result.artifactHash = hash ∧
    normalizeStage o.result.artifactStage ≠ some stage

instance : DecidablePred (Misstaged run hash stage) := fun _ => inferInstanceAs (Decidable (_ ∧ _))

/-- An aligned approval with every enumerated requirement addressed. -/
def FullApproval (r : PanelResponse) : Prop :=
  panelVerdict r = "approve" ∧ alignmentOk r = true ∧ coverageGap r = false

instance : DecidablePred FullApproval := fun _ => inferInstanceAs (Decidable (_ ∧ _))

def SeatOutcome.report (o : SeatOutcome) : SeatReport := { seat := o.seat, response := o.result }

/-- What an outcome adds to the findings. -/
def seatFindings (P : Platform) (run : Run) (hash stage : String) (o : SeatOutcome) : List Finding :=
  if Usable P run hash stage o then reportFindings o
  else if Misstaged run hash stage o then [stageFinding o stage] else []

/-! ## One turn of the fold -/

theorem countSeat_cases (t : Tally) (o : SeatOutcome) :
    (Usable P run hash stage o ∧ countSeat P run hash stage t o =
      { t with
        costUsd := t.costUsd + o.costUsd
        costUnknown := t.costUnknown || o.costUnknown
        reports := t.reports ++ [o.report]
        approvals := if FullApproval o.result then t.approvals + 1 else t.approvals
        findings := t.findings ++ reportFindings o }) ∨
    (¬Usable P run hash stage o ∧ Misstaged run hash stage o ∧
      (countSeat P run hash stage t o).findings = t.findings ++ [stageFinding o stage] ∧
      (countSeat P run hash stage t o).reports = t.reports ∧ (countSeat P run hash stage t o).approvals = t.approvals ∧
      (countSeat P run hash stage t o).costUsd = t.costUsd + o.costUsd) ∨
    (¬Usable P run hash stage o ∧ ¬Misstaged run hash stage o ∧
      (countSeat P run hash stage t o).findings = t.findings ∧
      (countSeat P run hash stage t o).reports = t.reports ∧ (countSeat P run hash stage t o).approvals = t.approvals ∧
      (countSeat P run hash stage t o).costUsd = t.costUsd + o.costUsd) := by
  cases herr : o.err with
  | some err =>
    refine .inr (.inr ⟨fun h => ?_, fun h => ?_, ?_⟩)
    · exact absurd (h.1.symm.trans herr) (by simp)
    · exact absurd (h.1.symm.trans herr) (by simp)
    · simp [countSeat, herr, Tally.drop]
  | none =>
    by_cases hid : o.result.runId = run.id ∧ o.result.artifactHash = hash
    swap
    · have hmiss : o.result.runId ≠ run.id ∨ o.result.artifactHash ≠ hash := by
        by_contra hcon
        push Not at hcon
        exact hid hcon
      refine .inr (.inr ⟨fun h => hid ⟨h.2.1, h.2.2.1⟩, fun h => hid ⟨h.2.1, h.2.2.1⟩, ?_⟩)
      simp [countSeat, herr, hmiss, Tally.drop]
    have hsame : ¬(o.result.runId ≠ run.id ∨ o.result.artifactHash ≠ hash) := by simp [hid.1, hid.2]
    by_cases hstage : normalizeStage o.result.artifactStage = some stage
    swap
    · refine .inr (.inl ⟨fun h => hstage h.2.2.2.1, ⟨herr, hid.1, hid.2, hstage⟩, ?_⟩)
      simp [countSeat, herr, hsame, hstage]
    have hnot : ¬Misstaged run hash stage o := fun h => h.2.2.2 hstage
    cases hverdict : panelVerdictError P o.result with
    | some err =>
      refine .inr (.inr ⟨fun h => absurd (h.2.2.2.2.symm.trans hverdict) (by simp), hnot, ?_⟩)
      simp [countSeat, herr, hsame, hstage, hverdict, Tally.drop]
    | none =>
      refine .inl ⟨⟨herr, hid.1, hid.2, hstage, hverdict⟩, ?_⟩
      simp only [countSeat, herr, hsame, hstage, hverdict, SeatOutcome.report, FullApproval, if_false, ne_eq,
        not_true_eq_false, Bool.not_eq_true]
      congr 1

theorem countSeat_reports (t : Tally) (o : SeatOutcome) :
    (countSeat P run hash stage t o).reports =
      t.reports ++ if Usable P run hash stage o then [o.report] else [] := by
  rcases countSeat_cases (P := P) t o with ⟨hu, h⟩ | ⟨hu, -, -, h, -⟩ | ⟨hu, -, -, h, -⟩
  · rw [h, if_pos hu]
  · rw [h, if_neg hu, List.append_nil]
  · rw [h, if_neg hu, List.append_nil]

theorem countSeat_findings (t : Tally) (o : SeatOutcome) :
    (countSeat P run hash stage t o).findings = t.findings ++ seatFindings P run hash stage o := by
  rcases countSeat_cases (P := P) t o with ⟨hu, h⟩ | ⟨hu, hm, h, -⟩ | ⟨hu, hm, h, -⟩
  · rw [h, seatFindings, if_pos hu]
  · rw [h, seatFindings, if_neg hu, if_pos hm]
  · rw [h, seatFindings, if_neg hu, if_neg hm, List.append_nil]

theorem countSeat_approvals (t : Tally) (o : SeatOutcome) :
    (countSeat P run hash stage t o).approvals =
      t.approvals + if Usable P run hash stage o ∧ FullApproval o.result then 1 else 0 := by
  rcases countSeat_cases (P := P) t o with ⟨hu, h⟩ | ⟨hu, -, -, -, h, -⟩ | ⟨hu, -, -, -, h, -⟩
  · rw [h]
    by_cases hf : FullApproval o.result
    · simp [hf, hu]
    · simp [hf]
  · simp [h, hu]
  · simp [h, hu]

theorem countSeat_costUsd (t : Tally) (o : SeatOutcome) :
    (countSeat P run hash stage t o).costUsd = t.costUsd + o.costUsd := by
  rcases countSeat_cases (P := P) t o with ⟨-, h⟩ | ⟨-, -, -, -, -, h⟩ | ⟨-, -, -, -, -, h⟩
  · rw [h]
  · exact h
  · exact h

/-! ## The fold -/

section

variable (outcomes : List SeatOutcome)
include outcomes

theorem foldl_reports (t : Tally) :
    (outcomes.foldl (countSeat P run hash stage) t).reports =
      t.reports ++ (outcomes.filter (Usable P run hash stage)).map SeatOutcome.report := by
  induction outcomes generalizing t with
  | nil => simp
  | cons o rest ih =>
    rw [List.foldl_cons, ih, countSeat_reports]
    by_cases hu : Usable P run hash stage o
    · simp [hu]
    · simp [hu]

theorem foldl_findings (t : Tally) :
    (outcomes.foldl (countSeat P run hash stage) t).findings =
      t.findings ++ outcomes.flatMap (seatFindings P run hash stage) := by
  induction outcomes generalizing t with
  | nil => simp
  | cons o rest ih => rw [List.foldl_cons, ih, countSeat_findings, List.flatMap_cons, List.append_assoc]

theorem foldl_approvals (t : Tally) :
    (outcomes.foldl (countSeat P run hash stage) t).approvals =
      t.approvals + outcomes.countP fun o => Usable P run hash stage o ∧ FullApproval o.result := by
  induction outcomes generalizing t with
  | nil => simp
  | cons o rest ih =>
    rw [List.foldl_cons, ih, countSeat_approvals, List.countP_cons]
    simp only [decide_eq_true_eq]
    omega

theorem foldl_costUsd (t : Tally) :
    (outcomes.foldl (countSeat P run hash stage) t).costUsd = t.costUsd + (outcomes.map SeatOutcome.costUsd).sum := by
  induction outcomes generalizing t with
  | nil => simp
  | cons o rest ih => rw [List.foldl_cons, ih, countSeat_costUsd, List.map_cons, List.sum_cons, add_assoc]

theorem analysisOf_reports :
    (analysisOf P run hash stage outcomes).reports = (outcomes.filter (Usable P run hash stage)).map
      SeatOutcome.report :=
  foldl_reports outcomes _

theorem analysisOf_findings :
    (analysisOf P run hash stage outcomes).feedback.findings = outcomes.flatMap (seatFindings P run hash stage) :=
  foldl_findings outcomes _

theorem analysisOf_approvals :
    (analysisOf P run hash stage outcomes).approvals =
      outcomes.countP fun o => Usable P run hash stage o ∧ FullApproval o.result := by
  refine (foldl_approvals outcomes _).trans ?_
  exact Nat.zero_add _

theorem analysisOf_costUsd :
    (analysisOf P run hash stage outcomes).costUsd = (outcomes.map SeatOutcome.costUsd).sum :=
  (foldl_costUsd outcomes _).trans (zero_add _)

theorem analysisOf_approvals_le :
    (analysisOf P run hash stage outcomes).approvals ≤ (analysisOf P run hash stage outcomes).reports.length := by
  rw [analysisOf_approvals, analysisOf_reports, List.length_map, ← List.countP_eq_length_filter]
  refine List.countP_mono_left fun o _ h => ?_
  rw [decide_eq_true_eq] at h ⊢
  exact h.1

end

/-! ## What a report adds to the findings -/

variable {o : SeatOutcome} {f : PanelFinding}

theorem severity_listedFinding_of_blank (h : trimSpace f.severity = "") (i : ℕ) :
    (listedFinding o i f).severity = if panelVerdict o.result = "approve" then "suggestion" else "blocking" :=
  if_pos h

theorem severity_listedFinding_of_not_blank (h : trimSpace f.severity ≠ "") (i : ℕ) :
    (listedFinding o i f).severity = f.severity :=
  if_neg h

/-- A finding that blocks in the seat's own words blocks in the feedback, unless the seat approves. -/
theorem nonBlocking_listedFinding {i : ℕ} (hv : panelVerdict o.result ≠ "approve")
    (h : nonBlocking (listedFinding o i f).severity = true) : nonBlocking f.severity = true := by
  by_cases hb : trimSpace f.severity = ""
  · rw [severity_listedFinding_of_blank hb, if_neg hv] at h
    exact absurd h (by decide)
  · rwa [severity_listedFinding_of_not_blank hb] at h

/-- A usable report whose findings do not block is aligned, leaves no requirement open and lists
    nothing that blocks. -/
theorem clean_of_reportFindings (hu : Usable P run hash stage o)
    (h : ∀ f ∈ reportFindings o, nonBlocking f.severity = true) :
    alignmentOk o.result = true ∧ coverageGap o.result = false ∧
      ∀ f ∈ o.result.listed, nonBlocking f.severity = true := by
  have hmem : ∀ f, f ∈ reportFindings o ↔ (f ∈ (if alignmentOk o.result then [] else [alignmentFinding o]) ∨
      f ∈ (o.result.requirements.filter fun req => !req.addressed).map (coverageFinding o)) ∨
      f ∈ o.result.listed.mapIdx (listedFinding o) := by
    intro f
    rw [reportFindings, List.mem_append, List.mem_append]
  refine ⟨?_, ?_, ?_⟩
  · by_contra hal
    have hb := h (alignmentFinding o) ((hmem _).mpr (.inl (.inl (by simp [hal]))))
    exact absurd hb (by simp only [alignmentFinding]; decide)
  · rw [coverageGap, List.any_eq_false]
    intro req hreq hopen
    have hb := h (coverageFinding o req) ((hmem _).mpr (.inl (.inr
      (List.mem_map.mpr ⟨req, List.mem_filter.mpr ⟨hreq, hopen⟩, rfl⟩))))
    exact absurd hb (by simp only [coverageFinding]; decide)
  · intro f hf
    by_cases hv : panelVerdict o.result = "approve"
    · exact nonBlocking_of_approve hv hu.2.2.2.2 hf
    · obtain ⟨i, hi, rfl⟩ := List.getElem_of_mem hf
      refine nonBlocking_listedFinding (i := i) hv (h _ ((hmem _).mpr (.inr ?_)))
      exact List.mem_mapIdx.mpr ⟨i, hi, rfl⟩

end Roundtable
