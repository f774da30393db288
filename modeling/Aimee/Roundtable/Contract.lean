-- SUMMARY: The data of a roundtable: canonical requests, seats, reports, ballots, findings, delegate calls, and what a review returns.
import Mathlib.Algebra.Order.Ring.Rat
import Aimee.Lib.GoText

/-!
# Roundtable panels

The types of `modules/roundtable/panel` and the small functions of `response.go`, `result.go` and
`panelwire/response.go`. A cost is an exact rational. A nil error is `none`, and a string that is
empty for "no error" is an option too.
-/

namespace Roundtable

open GoText

/-! ## Canonical requests -/

structure Context where
  origin : ℤ
  authority : ℤ
  trust : ℤ
  sensitivity : ℤ
  modelVisible : Bool
  revisionDomain : String
  revisionScope : String
  revisionEpoch : String

/-- `canonical.Block`. `restValid` is what `ValidBlock` finds of the members other than the type
    and the text. -/
structure Block where
  type : String
  text : Option String
  context : Option Context
  restValid : Bool

structure Message where
  role : String
  blocks : List Block
  contentScalar : Bool

/-- `canonical.Request`. `restValid` is what `Valid` finds of the fields other than the system
    blocks and the messages, `decodes` whether `DecodeRequest` takes the request's own encoding. -/
structure Request where
  system : List Block
  messages : List Message
  restValid : Bool
  decodes : Bool

/-- `canonical.Response`, through the two functions of it the panel calls. -/
structure Response where
  semanticText : Except String String
  clone : Except String (List Block)

/-! ## Findings and seat responses -/

structure Finding where
  id : String
  persona : String
  severity : String
  location : String
  summary : String
  recommendation : String
  deriving DecidableEq, Repr

structure ReviewFeedback where
  schemaVersion : ℕ
  artifactHash : String
  findings : List Finding
  deriving DecidableEq, Repr

/-- `panelwire.Finding`. -/
structure PanelFinding where
  id : String
  severity : String
  location : String
  summary : String
  recommendation : String
  deriving DecidableEq, Repr

/-- `panelwire.Alignment`. -/
structure PanelAlignment where
  status : String
  summary : String
  deriving DecidableEq, Repr

structure PanelRequirement where
  requirement : String
  addressed : Bool
  evidence : String
  deriving DecidableEq, Repr

/-- A nil slice is `none`. -/
structure PanelResponse where
  runId : String
  artifactHash : String
  artifactStage : String
  originalRequestAlignment : PanelAlignment
  coverage : Option (List PanelRequirement)
  verdict : String
  findings : Option (List PanelFinding)
  deriving DecidableEq, Repr

def PanelResponse.empty : PanelResponse where
  runId := ""
  artifactHash := ""
  artifactStage := ""
  originalRequestAlignment := { status := "", summary := "" }
  coverage := none
  verdict := ""
  findings := none

/-- The findings a `range` over the slice visits. -/
def PanelResponse.listed (r : PanelResponse) : List PanelFinding := r.findings.getD []

/-- The requirements a `range` over the slice visits. -/
def PanelResponse.requirements (r : PanelResponse) : List PanelRequirement := r.coverage.getD []

structure DiscussionPosition where
  id : String
  position : String
  rationale : String
  deriving DecidableEq, Repr

structure DiscussionResponse where
  runId : String
  artifactHash : String
  positions : List DiscussionPosition
  deriving DecidableEq, Repr

structure DiscussionIssue where
  id : String
  severity : String
  location : String
  summary : String
  recommendation : String
  feedbackIndex : ℕ
  deriving DecidableEq, Repr

/-! ## Panels, runs and delegate calls -/

structure Seat where
  persona : String
  selector : String
  participant : String
  ordinal : ℕ
  deriving DecidableEq, Repr

structure Panel where
  seats : List Seat
  minSuccessful : ℤ
  discussion : Bool
  chairman : String
  chairmanEnabled : Bool

structure Artifact where
  stage : String
  content : String
  hash : String

structure Run where
  focus : String
  brief : String
  request : Option Request
  id : String
  stage : String
  costLimitUsd : ℚ
  reviewed : Artifact

/-- A copy of the run under another ceiling. -/
def Run.limited (run : Run) (limit : ℚ) : Run := { run with costLimitUsd := limit }

structure SeatRequest where
  role : String
  persona : String
  selector : String
  participant : String
  input : Request
  durableSlot : String
  artifactStage : String
  artifactHash : String
  tools : Bool
  maxTurnsCap : ℕ

structure SeatResult where
  participant : String
  output : Option Response
  costUsd : ℚ
  costUnknown : Bool
  err : Option String
  failureCategory : String
  failureDetail : String
  replayLost : Bool

/-- The five places from which a panel calls its delegates. -/
inductive Phase where
  | analysis
  | analysisRepair
  | discussion (cycle : ℕ)
  | chairman
  | chairmanRepair
  deriving DecidableEq, Repr

/-- What the delegates answer in one run: the reply to the `i`-th request of a phase's call. A
    phase is entered at most once in a run, so these are all the replies there are. -/
structure Delegates where
  reply : Phase → ℕ → SeatResult

/-- `Delegates.Group`: one result for each request, in order. -/
def Delegates.group (delegates : Delegates) (phase : Phase) (requests : List SeatRequest) : List SeatResult :=
  (List.range requests.length).map (delegates.reply phase)

def Delegates.one (delegates : Delegates) (phase : Phase) : SeatResult := delegates.reply phase 0

/-- A call of `Group` or `One` as the delegates see it: the ceiling it was launched with, what it
    asked, and what came back. -/
structure Launch where
  phase : Phase
  costLimitUsd : ℚ
  requests : List SeatRequest
  results : List SeatResult

def Launch.cost (l : Launch) : ℚ := (l.results.map SeatResult.costUsd).sum

inductive ContextError where
  | canceled
  | deadlineExceeded
  deriving DecidableEq, Repr

/-- The places where a run reads `ctx.Err()`. -/
inductive Reading where
  | analysis
  | cycleStart (cycle : ℕ)
  | cycleEnd (cycle : ℕ)
  | discussion
  | discussionFailed
  | chairman
  | chairmanFailed

abbrev Clock := Reading → Option ContextError

def Clock.deadlineExceeded (clock : Clock) (r : Reading) : Bool := clock r = some .deadlineExceeded

/-- What the panel takes from other packages, and the prompts, which it only sends. -/
structure Platform where
  /-- `sha256.Sum256`, in lower-case hexadecimal. -/
  sha256 : String → String
  /-- `strconv.Quote`, of the bytes of a text: the verb `%q`. -/
  goQuote : List UInt8 → String
  extractJsonObject : String → Except String String
  unmarshalPanelResponse : String → Except String PanelResponse
  unmarshalDiscussionResponse : String → Except String DiscussionResponse
  basePrompt : Run → String
  chairmanPrompt : Run → String
  chairmanPacket : (artifactStage artifactHash : String) → ReviewFeedback → List (Seat × PanelResponse) → String
  repairPrompt : (runId artifactHash artifactStage : String) → String

/-! ## Results -/

structure ParticipantFailure where
  seat : ℕ
  persona : String
  category : String
  detail : String
  deriving DecidableEq, Repr

inductive Status where
  | approved
  | changes
  | pending
  deriving DecidableEq, Repr

structure RunResult where
  status : Status
  pauseReason : String
  detail : String
  costUnknown : Bool
  artifact : String
  feedback : Option ReviewFeedback
  items : List Finding
  converged : Bool
  approved : Bool
  degraded : Bool
  deadlineHit : Bool
  participantsTotal : ℕ
  participantsFailed : ℤ
  participantsUsed : ℕ
  participantFailures : List ParticipantFailure
  costUsd : ℚ

inductive ConveneError where
  | validation (message : String)
  | replayUnavailable (message : String) (costUsd : ℚ) (costUnknown : Bool)

structure SeatReport where
  seat : Seat
  response : PanelResponse

structure Analysis where
  feedback : ReviewFeedback
  approvals : ℕ
  voters : ℤ
  costUsd : ℚ
  costUnknown : Bool
  unreachable : String
  reports : List SeatReport
  failures : List ParticipantFailure
  replayLost : Bool

/-! ## response.go -/

def firstNonempty (value fallback : String) : String := if trimSpace value = "" then fallback else value

def normalizeStage (raw : String) : Option String :=
  let stage := normal raw
  if stage = "intent" ∨ stage = "plan" ∨ stage = "frozen_diff" then some stage else none

def remainingCostLimit (limit spent : ℚ) : ℚ :=
  if limit ≤ 0 then 0 else if limit - spent < 0 then 0 else limit - spent

def panelVerdict (parsed : PanelResponse) : String := normal parsed.verdict

/-- The severities that do not stop an artifact. -/
def nonBlocking (severity : String) : Bool := normal severity = "suggestion" || normal severity = "nit"

def blockingFindingCount (findings : List Finding) : ℕ := findings.countP fun f => !nonBlocking f.severity

def panelVerdictError (P : Platform) (parsed : PanelResponse) : Option String :=
  if panelVerdict parsed = "approve" then
    if parsed.listed.all fun f => nonBlocking f.severity then none
    else some "approve verdict returned with blocking findings"
  else if panelVerdict parsed = "changes" then
    if parsed.listed = [] then some "changes verdict returned without findings" else none
  else if panelVerdict parsed = "blocked" then
    if parsed.listed = [] then some "blocked verdict returned without findings" else none
  else some ("unusable verdict " ++ P.goQuote parsed.verdict.toUTF8.toList)

def SeatResult.semanticText (s : SeatResult) : Except String String :=
  match s.err, s.output with
  | some err, _ => .error err
  | none, none => .error "seat has no canonical response"
  | none, some output => output.semanticText

/-- `parsePanelResponse`, with the text and the error of the delegate in one argument. -/
def parsePanelResponse (P : Platform) (response : Except String String) : Except String PanelResponse := do
  let text ← response
  let doc ← P.extractJsonObject text
  let parsed ← P.unmarshalPanelResponse doc
  if parsed.artifactStage = "" ∧ parsed.verdict = "" ∧ parsed.findings = none then
    .error "delegate returned a JSON fragment instead of the complete roundtable report"
  else .ok parsed

/-- `json.Marshal([]string{run.ID, run.Stage})`, hashed. -/
def runDigest (P : Platform) (run : Run) : String := P.sha256 (marshal (.arr [.str run.id, .str run.stage]))

def seatDurableSlot (P : Platform) (run : Run) (panelRound ordinal : ℕ) : String :=
  "panel:" ++ runDigest P run ++ ":round:" ++ toString panelRound ++ ":seat:" ++ toString ordinal

def discussionDurableSlot (P : Platform) (run : Run) (cycle ordinal : ℕ) : String :=
  "panel:" ++ runDigest P run ++ ":discussion:" ++ toString cycle ++ ":seat:" ++ toString ordinal

def chairmanDurableSlot (P : Platform) (run : Run) : String := "panel:" ++ runDigest P run ++ ":chairman"

def delegateRole : String := "review"

def delegateMaxTurnsCap : ℕ := 24

/-! ## result.go -/

/-- One line of the artifact text. -/
def findingLine (finding : Finding) : String :=
  "\n- **" ++ firstNonempty finding.severity "blocking" ++ "**" ++
    (if finding.location = "" then "" else " (" ++ finding.location ++ ")") ++ ": " ++ finding.summary ++
    (if finding.recommendation = "" then "" else " — " ++ finding.recommendation)

def assembleRoundtableArtifact (feedback : ReviewFeedback) (approved : Bool) : String :=
  if approved then "Roundtable approved the artifact with no findings.\n"
  else if feedback.findings = [] then "Roundtable did not approve the artifact and returned no usable findings.\n"
  else "Roundtable requested changes.\n" ++ String.join (feedback.findings.map findingLine) ++ "\n"

/-- `roundtableResult`. The status is the caller's to set. -/
def roundtableResult (status : Status) (feedback : ReviewFeedback) (approved converged : Bool) (analysis : Analysis)
    (total : ℕ) (cost : ℚ) : RunResult where
  status := status
  pauseReason := ""
  detail := ""
  costUnknown := false
  artifact := assembleRoundtableArtifact feedback approved
  feedback := some feedback
  items := feedback.findings
  converged := converged
  approved := approved
  degraded := 0 < (total : ℤ) - analysis.reports.length
  deadlineHit := false
  participantsTotal := total
  participantsFailed := total - analysis.reports.length
  participantsUsed := analysis.reports.length
  participantFailures := analysis.failures
  costUsd := cost

/-! ## Small facts -/

theorem length_group (delegates : Delegates) (phase : Phase) (requests : List SeatRequest) :
    (delegates.group phase requests).length = requests.length := by
  rw [Delegates.group, List.length_map, List.length_range]

theorem remainingCostLimit_of_le {limit spent : ℚ} (hlimit : 0 < limit) (h : spent ≤ limit) :
    remainingCostLimit limit spent = limit - spent := by
  rw [remainingCostLimit, if_neg (not_le.mpr hlimit), if_neg (not_lt.mpr (sub_nonneg.mpr h))]

theorem remainingCostLimit_zero (spent : ℚ) : remainingCostLimit 0 spent = 0 := by
  rw [remainingCostLimit, if_pos le_rfl]

theorem blockingFindingCount_eq_zero_iff {findings : List Finding} :
    blockingFindingCount findings = 0 ↔ ∀ f ∈ findings, nonBlocking f.severity = true := by
  rw [blockingFindingCount]
  simp

/-- An approval that passes `panelVerdictError` lists nothing that blocks. -/
theorem nonBlocking_of_approve {P : Platform} {r : PanelResponse} (hv : panelVerdict r = "approve")
    (h : panelVerdictError P r = none)
    {f : PanelFinding} (hf : f ∈ r.listed) : nonBlocking f.severity = true := by
  rw [panelVerdictError, if_pos hv] at h
  split at h
  · next hall => exact List.all_eq_true.mp hall f hf
  · cases h

end Roundtable
