-- SUMMARY: The chairman of a roundtable and the run as a whole, from the admission of the request to the quorum decision.
import Aimee.Roundtable.Discussion

/-!
# Convene

`chairman.go` and `convene.go`. A run analyses, discusses if the panel says so, is chaired if the
panel says so, and then decides: enough approvals and nothing blocking. What a run returns comes
with the calls it made; a run whose discussion was left unfinished returns nothing.
-/

namespace Roundtable

open GoText

/-! ## Chairman -/

structure ChairmanResult where
  feedback : ReviewFeedback
  approvals : ℕ
  costUsd : ℚ
  costUnknown : Bool
  err : Option String
  requestBlocked : Bool
  launches : List Launch

/-- The bounded excerpt of what the chairman returned. -/
def chairmanResponseNote (P : Platform) (response : String) : String :=
  let trimmed := trimSpace response
  if trimmed = "" then " (empty response)"
  else
    let excerpt := joinTexts " " ((trimmed.toList.splitBy fun a b => isSpace a = isSpace b).filterMap fun field =>
      if field.all isSpace then none else some (String.ofList field))
    let bytes := excerpt.toUTF8.toList
    let cut := if 300 < bytes.length then bytes.take 300 ++ "…".toUTF8.toList else bytes
    " (" ++ toString trimmed.utf8ByteSize ++ " bytes, begins " ++ P.goQuote cut ++ ")"

def stabilizeFeedbackIds (P : Platform) (feedback : ReviewFeedback) : ReviewFeedback :=
  { feedback with findings := withIssueIds P feedback.findings }

/-- The chairman's own `i`-th finding, with the defaults it left open. -/
def chairmanFinding (defaultSeverity : String) (i : ℕ) (f : PanelFinding) : Finding where
  id := firstNonempty f.id ("chairman-" ++ toString (i + 1))
  persona := "chairman"
  severity := firstNonempty f.severity defaultSeverity
  location := f.location
  summary := f.summary
  recommendation := f.recommendation

def chairmanAlignmentFinding (alignment summary : String) : Finding where
  id := "chairman-original-request-alignment"
  persona := "chairman"
  severity := "blocking"
  location := ""
  summary := "original-request alignment is " ++ alignment ++ ": " ++
    orElse (trimSpace summary) "chairman did not establish that the artifact follows the original request"
  recommendation := "revise the artifact so it directly serves the original request, " ++
    "then reconvene the configured roundtable"

/-- A parsed verdict, or why the text is none. -/
def parseVerdict (P : Platform) (text : String) : Except String PanelResponse := do
  let parsed ← parsePanelResponse P (.ok text)
  match panelVerdictError P parsed with
  | some err => .error err
  | none => .ok parsed

/-- What the chairman's final verdict makes of the feedback. -/
def chairmanVerdict (P : Platform) (run : Run) (analysis : Analysis) (feedback : ReviewFeedback)
    (artifactStage : String)
    (cost : ℚ) (costUnknown : Bool) (launches : List Launch) (final : PanelResponse) : ChairmanResult :=
  let failed (err : String) : ChairmanResult :=
    { feedback := feedback, approvals := analysis.approvals, costUsd := cost,
      costUnknown := costUnknown, err := some err, requestBlocked := false, launches := launches }
  let submitted (findings : List Finding) (approvals : ℕ) (blocked : Bool) : ChairmanResult :=
    { feedback := stabilizeFeedbackIds P
        { schemaVersion := 1, artifactHash := feedback.artifactHash, findings := findings },
      approvals := approvals, costUsd := cost, costUnknown := costUnknown, err := none, requestBlocked := blocked,
      launches := launches }
  let alignment := normal final.originalRequestAlignment.status
  if final.runId ≠ run.id ∨ final.artifactHash ≠ run.reviewed.hash then
    failed "chairman returned mismatched run or artifact identity"
  else if normalizeStage final.artifactStage ≠ some artifactStage then
    failed "chairman did not evaluate the declared artifact stage"
  else if alignment ≠ "aligned" ∧ alignment ≠ "drifted" ∧ alignment ≠ "unclear" then
    failed "chairman did not provide a valid original-request alignment"
  else if panelVerdict final = "approve" then
    if alignment ≠ "aligned" then failed "chairman returned approve without confirming original-request alignment"
    else submitted (final.listed.mapIdx (chairmanFinding "suggestion")) analysis.reports.length false
  else if panelVerdict final = "changes" then
    submitted ((if alignment ≠ "aligned" then
      [chairmanAlignmentFinding alignment final.originalRequestAlignment.summary] else []) ++
      final.listed.mapIdx (chairmanFinding "blocking")) 0 false
  else if panelVerdict final = "blocked" then submitted (final.listed.mapIdx (chairmanFinding "foundational")) 0 true
  else failed "chairman returned an invalid verdict"

def chairmanRequest (P : Platform) (run : Run) (panel : Panel) (artifactStage : String) (input : Request) :
    SeatRequest where
  role := delegateRole
  persona := "chairman"
  selector := panel.chairman
  participant := ""
  input := input
  durableSlot := chairmanDurableSlot P run
  artifactStage := artifactStage
  artifactHash := run.reviewed.hash
  tools := true
  maxTurnsCap := delegateMaxTurnsCap

def runChairman (P : Platform) (delegates : Delegates) (run : Run) (panel : Panel) (analysis : Analysis)
    (feedback : ReviewFeedback) (cost : ℚ) (costUnknown : Bool) (artifactStage : String) : ChairmanResult :=
  let failed (cost : ℚ) (costUnknown : Bool) (launches : List Launch) (err : String) : ChairmanResult :=
    { feedback := feedback, approvals := analysis.approvals, costUsd := cost,
      costUnknown := costUnknown, err := some err, requestBlocked := false, launches := launches }
  let hash := run.reviewed.hash
  if hash = "" then failed cost costUnknown [] "chairman cannot load the reviewed artifact"
  else
    let packet := P.chairmanPacket artifactStage hash feedback (analysis.reports.map fun r => (r.seat, r.response))
    match reviewInput run "chairman" (P.chairmanPrompt run) ["BEGIN_CHAIRMAN_DATA\n" ++ packet ++
      "\nEND_CHAIRMAN_DATA"] with
    | .error err => failed cost costUnknown [] ("canonical chairman input: " ++ err)
    | .ok input =>
      let request := chairmanRequest P run panel artifactStage input
      let result := delegates.one .chairman
      let cost := cost + result.costUsd
      let costUnknown := costUnknown || result.costUnknown
      let launch : Launch :=
        { phase := .chairman, costLimitUsd := run.costLimitUsd, requests := [request], results := [result] }
      match result.semanticText with
      | .error err => failed cost costUnknown [launch] ("chairman failed: " ++ err)
      | .ok text =>
        match parseVerdict P text with
        | .ok final => chairmanVerdict P run analysis feedback artifactStage cost costUnknown [launch] final
        | .error _ =>
          match repairRequest input result.output (P.repairPrompt run.id hash artifactStage) with
          | .error err => failed cost costUnknown [launch] ("chairman repair refused: " ++ err)
          | .ok repairInput =>
            let repair := { request with input := repairInput, durableSlot := chairmanDurableSlot P run ++ ":repair:1" }
            let repaired := delegates.one .chairmanRepair
            let cost := cost + repaired.costUsd
            let costUnknown := costUnknown || repaired.costUnknown
            let launches := [launch,
              { phase := .chairmanRepair, costLimitUsd := run.costLimitUsd, requests := [repair],
                results := [repaired] }]
            match repaired.semanticText with
            | .error err => failed cost costUnknown launches ("chairman failed: " ++ err)
            | .ok repairedText =>
              match parseVerdict P repairedText with
              | .error err => failed cost costUnknown launches
                  ("chairman returned no structured verdict after repair: " ++ err ++
                    chairmanResponseNote P repairedText)
              | .ok final => chairmanVerdict P run analysis feedback artifactStage cost costUnknown launches final

/-! ## Convene -/

/-- What a run did: its calls in order, and what it returned, which is nothing when the discussion
    was left unfinished. -/
structure Convened where
  launches : List Launch
  answer : Option (Except ConveneError RunResult)

/-- The reason and the detail of a panel that did not reach quorum, and whether a deadline was hit. -/
def panelUnavailableState (analysis : Analysis) (panelDeadline : Bool) : String × String × Bool :=
  let hasCapacity := analysis.failures.any fun f => f.category = "capacity_backpressure"
  let hasCapacityDeadline := analysis.failures.any fun f => f.category = "capacity_deadline"
  let hasExecutionDeadline := analysis.failures.any fun f => f.category = "deadline"
  if hasExecutionDeadline then
    ("panel_deadline", "delegate execution deadline expired before the panel reached quorum: " ++
      analysis.unreachable, true)
  else if hasCapacityDeadline || (hasCapacity && panelDeadline) then
    ("panel_capacity_deadline", "deadline expired while waiting for eligible delegate capacity: " ++
      analysis.unreachable, true)
  else if panelDeadline then
    ("panel_deadline", "panel deadline expired before quorum: " ++ analysis.unreachable, true)
  else if hasCapacity then
    ("panel_capacity", "eligible delegate capacity is saturated; retry after capacity clears: " ++
      analysis.unreachable, false)
  else ("panel_unreachable", analysis.unreachable, panelDeadline)

/-- What the phases hand on to the decision. -/
structure Standing where
  feedback : ReviewFeedback
  approvals : ℕ
  totalCost : ℚ
  totalCostUnknown : Bool
  discussionFailed : ℤ
  deadlineHit : Bool

def quorumFinding : Finding where
  id := "quorum"
  persona := "panel"
  severity := "blocking"
  location := ""
  summary := "required approval quorum was not reached"
  recommendation := "revise the artifact and reconvene the configured roundtable"

/-- The end of `Convene`: the quorum decision. -/
def decideQuorum (panel : Panel) (analysis : Analysis) (total : ℕ) (s : Standing) : RunResult :=
  let finish (rt : RunResult) : RunResult :=
    { rt with
      degraded := rt.degraded || 0 < s.discussionFailed
      deadlineHit := s.deadlineHit
      costUnknown := s.totalCostUnknown }
  if panel.minSuccessful ≤ s.approvals ∧ blockingFindingCount s.feedback.findings = 0 then
    finish (roundtableResult .approved s.feedback true true analysis total s.totalCost)
  else
    let findings := if s.feedback.findings = [] then [quorumFinding] else s.feedback.findings
    finish (roundtableResult .changes { s.feedback with findings := findings } false true analysis total s.totalCost)

/-- A parked result. -/
def parked (feedback : ReviewFeedback) (converged : Bool) (analysis : Analysis) (total : ℕ) (cost : ℚ)
    (costUnknown : Bool) (degraded deadlineHit : Bool) (pauseReason detail : String) : RunResult :=
  let rt := roundtableResult .pending feedback false converged analysis total cost
  { rt with
    degraded := rt.degraded || degraded, deadlineHit := deadlineHit, pauseReason := pauseReason
    detail := detail, costUnknown := costUnknown }

/-- The seats of a panel, numbered. -/
def conveneSeats (panel : Panel) : List Seat :=
  panel.seats.mapIdx fun i seat =>
    { persona := seat.persona, selector := seat.selector, participant := "", ordinal := i }

/-- The run as the phases see it: the stage normalised and the focus filled in. -/
def preparedRun (run : Run) (stage focus : String) : Run :=
  { run with
    reviewed := { run.reviewed with stage := stage }
    focus := if focus = "" then "correctness, completeness, security, and test quality" else focus }

/-- The result of a chaired run: parked, or decided on what the chairman submitted. -/
def chairedResult (clock : Clock) (panel : Panel) (analysis : Analysis) (total : ℕ) (s : Standing)
    (c : ChairmanResult) :
    RunResult :=
  let hit := s.deadlineHit || clock.deadlineExceeded .chairman
  if c.requestBlocked then
    parked c.feedback true analysis total c.costUsd c.costUnknown false s.deadlineHit "request_unimplementable"
      "the original request cannot be implemented as written; a human must amend it"
  else match c.err with
    | some err => parked c.feedback false analysis total c.costUsd c.costUnknown true
        (hit || clock.deadlineExceeded .chairmanFailed) "roundtable_chairman" err
    | none => decideQuorum panel analysis total
        { s with feedback := c.feedback, approvals := c.approvals, totalCost := c.costUsd,
                 totalCostUnknown := c.costUnknown, deadlineHit := hit }

/-- From the end of the discussion to the result: the chairman, if the panel has one, and the decision. -/
def chairAndDecide (P : Platform) (delegates : Delegates) (clock : Clock) (run : Run) (panel : Panel) (stage : String)
    (analysis : Analysis) (total : ℕ) (s : Standing) (launches : List Launch) : Convened :=
  if panel.chairmanEnabled ∧ 1 < total then
    let limit := remainingCostLimit run.costLimitUsd s.totalCost
    if 0 < run.costLimitUsd ∧ limit ≤ 0 then
      { launches := launches
        answer := some (.ok (parked s.feedback false analysis total s.totalCost s.totalCostUnknown true false
          "roundtable_chairman" "chairman cannot start after the workflow cost reservation is exhausted")) }
    else
      let c := runChairman P delegates (run.limited limit) panel analysis s.feedback s.totalCost
        s.totalCostUnknown stage
      { launches := launches ++ c.launches, answer := some (.ok (chairedResult clock panel analysis total s c)) }
  else { launches := launches, answer := some (.ok (decideQuorum panel analysis total s)) }

/-- From the end of the analysis to the result. -/
def discussAndDecide (P : Platform) (delegates : Delegates) (clock : Clock) (run : Run) (panel : Panel) (stage : String)
    (analysis : Analysis) (total : ℕ) (launches : List Launch) (fuel : ℕ) : Convened :=
  let hit := clock.deadlineExceeded .analysis
  let s : Standing :=
    { feedback := analysis.feedback, approvals := analysis.approvals, totalCost := analysis.costUsd,
      totalCostUnknown := analysis.costUnknown, discussionFailed := 0, deadlineHit := hit }
  if panel.discussion ∧ 1 < total then
    let limited := run.limited (remainingCostLimit run.costLimitUsd analysis.costUsd)
    let d := runDiscussion P delegates clock limited panel analysis stage fuel
    let hit := hit || clock.deadlineExceeded .discussion
    let launches := launches ++ d.launches
    match d.turn with
    | .again => { launches := launches, answer := none }
    | .failed err =>
      { launches := launches
        answer := some (.ok (parked d.feedback false analysis total d.costUsd d.costUnknown (0 < d.failed)
          (hit || clock.deadlineExceeded .discussionFailed) "roundtable_discussion" err)) }
    | .settled =>
      chairAndDecide P delegates clock run panel stage analysis total
        { feedback := d.feedback, approvals := d.approvals, totalCost := d.costUsd, totalCostUnknown := d.costUnknown,
          discussionFailed := d.failed, deadlineHit := hit } launches
  else chairAndDecide P delegates clock run panel stage analysis total s launches

/-- Whether the analysis falls short of the configured minimum. -/
def unreachablePanel (panel : Panel) (analysis : Analysis) : Bool :=
  analysis.unreachable ≠ "" && (analysis.reports.length : ℤ) < panel.minSuccessful

/-- From the analysis to the result. -/
def conveneAnalysed (P : Platform) (delegates : Delegates) (clock : Clock) (run : Run) (panel : Panel) (stage : String)
    (a : AnalysisRun) (total : ℕ) (fuel : ℕ) : Convened :=
  if unreachablePanel panel a.analysis then
    if a.analysis.replayLost then
      { launches := a.launches
        answer := some (.error
          (.replayUnavailable ("roundtable panel could not be replayed: " ++ a.analysis.unreachable ++
          ": replay-only roundtable result is unavailable") a.analysis.costUsd a.analysis.costUnknown)) }
    else
      let state := panelUnavailableState a.analysis (clock.deadlineExceeded .analysis)
      { launches := a.launches
        answer := some (.ok (parked a.analysis.feedback false a.analysis total a.analysis.costUsd
          a.analysis.costUnknown false
          state.2.2 state.1 state.2.1)) }
  else discussAndDecide P delegates clock run panel stage a.analysis total a.launches fuel

/-- The analysis phase of a run. -/
def conveneAnalysis (P : Platform) (delegates : Delegates) (run : Run) (panel : Panel) (stage : String) : AnalysisRun :=
  runAnalysis P delegates run (conveneSeats panel) (P.basePrompt run) run.reviewed.hash stage 1

def convene (P : Platform) (delegates : Delegates) (clock : Clock) (run : Run) (panel : Panel)
    (focus : String) (fuel : ℕ) :
    Convened :=
  if ¬hasReviewSource run.request then
    { launches := []
      answer := some (.error (.validation ("roundtable review requires original_request: without it the panel " ++
        "cannot detect goal drift or unrequested work, and an approval would be unearned"))) }
  else match normalizeStage run.reviewed.stage with
    | none =>
      { launches := []
        answer := some (.error
          (.validation ("roundtable unsupported artifact stage " ++ P.goQuote run.reviewed.stage.toUTF8.toList))) }
    | some stage =>
      let run := preparedRun run stage focus
      conveneAnalysed P delegates clock run panel stage (conveneAnalysis P delegates run panel stage)
        (conveneSeats panel).length fuel

end Roundtable
