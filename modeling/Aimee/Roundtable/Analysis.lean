-- SUMMARY: The independent analysis of a roundtable: one call for every seat, one repair attempt, and the fold of the replies into feedback, reports and approvals.
import Mathlib.Algebra.BigOperators.Group.List.Basic
import Aimee.Roundtable.ReviewInput

/-!
# Analysis

`analysis.go`. Every seat is asked once; a reply that cannot be read or contradicts itself is asked
for once more, on the same participant. What is left of each seat is an outcome, and the outcomes
are folded in the order of the seats.
-/

namespace Roundtable

open GoText

structure SeatOutcome where
  seat : Seat
  result : PanelResponse
  costUsd : ℚ
  costUnknown : Bool
  err : Option String
  category : String
  detail : String
  replayLost : Bool

def errorOf {α : Type} : Except String α → Option String
  | .error err => some err
  | .ok _ => none

def responseOf : Except String PanelResponse → PanelResponse
  | .error _ => .empty
  | .ok r => r

/-! ## Requests and outcomes -/

def analysisRequest (P : Platform) (run : Run) (prompt artifactHash artifactStage : String) (panelRound : ℕ)
    (seat : Seat) : Except String SeatRequest := do
  let input ← reviewInput run seat.persona prompt []
  .ok { role := delegateRole, persona := seat.persona, selector := seat.selector, participant := "", input := input,
        durableSlot := seatDurableSlot P run panelRound seat.ordinal, artifactStage := artifactStage,
        artifactHash := artifactHash, tools := true, maxTurnsCap := delegateMaxTurnsCap }

def seatOutcome (P : Platform) (seat : Seat) (call : SeatResult) : SeatOutcome :=
  let parsed := parsePanelResponse P call.semanticText
  { seat := { seat with participant := call.participant }, result := responseOf parsed, costUsd := call.costUsd,
    costUnknown := call.costUnknown, err := errorOf parsed, category := call.failureCategory,
    detail := call.failureDetail, replayLost := call.replayLost }

/-- A reply that was admitted and is no verdict earns the seat its repair attempt. -/
def wantsRepair (P : Platform) (call : SeatResult) (o : SeatOutcome) : Bool :=
  (errorOf call.semanticText).isNone && trimSpace call.participant ≠ "" &&
    (o.err.isSome || (panelVerdictError P o.result).isSome)

/-- What the first call leaves of a seat, and the input of its repair if there is to be one. -/
def firstOutcome (P : Platform) (run : Run) (artifactHash artifactStage : String)
    (seat : Seat) (request : SeatRequest) (call : SeatResult) : SeatOutcome × Option Request :=
  let o := seatOutcome P seat call
  if wantsRepair P call o then
    match repairRequest request.input call.output (P.repairPrompt run.id artifactHash artifactStage) with
    | .error err => ({ o with err := some err }, none)
    | .ok input => (o, some input)
  else (o, none)

/-- The outcomes of the first call. -/
def firstOutcomes (P : Platform) (run : Run) (artifactHash artifactStage : String) (seats : List Seat)
    (requests : List SeatRequest) (delegated : List SeatResult) : List (SeatOutcome × Option Request) :=
  (seats.zip (requests.zip delegated)).map fun c => firstOutcome P run artifactHash artifactStage c.1 c.2.1 c.2.2

def analysisRepairRequest (P : Platform) (run : Run) (artifactHash artifactStage : String) (panelRound : ℕ)
    (o : SeatOutcome) (input : Request) : SeatRequest where
  role := delegateRole
  persona := o.seat.persona
  selector := ""
  participant := o.seat.participant
  input := input
  durableSlot := seatDurableSlot P run panelRound o.seat.ordinal ++ ":repair:1"
  artifactStage := artifactStage
  artifactHash := artifactHash
  tools := true
  maxTurnsCap := delegateMaxTurnsCap

def repairedOutcome (P : Platform) (o : SeatOutcome) (call : SeatResult) : SeatOutcome :=
  let parsed := parsePanelResponse P call.semanticText
  { o with
    costUsd := o.costUsd + call.costUsd
    costUnknown := o.costUnknown || call.costUnknown
    result := responseOf parsed
    err := errorOf parsed
    category := call.failureCategory
    detail := call.failureDetail
    replayLost := call.replayLost }

/-- The repair replies put in the places of the outcomes they were asked for. -/
def mergeRepairs (P : Platform) : List (SeatOutcome × Option Request) → List SeatResult → List SeatOutcome
  | [], _ => []
  | (o, none) :: rest, calls => o :: mergeRepairs P rest calls
  | (o, some _) :: rest, call :: calls => repairedOutcome P o call :: mergeRepairs P rest calls
  | (o, some _) :: rest, [] => o :: mergeRepairs P rest []

/-- The ceiling of the repair call, or `none` when no repair is launched. -/
def repairLimit (run : Run) (firsts : List (SeatOutcome × Option Request)) : Option ℚ :=
  if firsts.all fun f => f.2.isNone then none
  else if 0 < run.costLimitUsd then
    let limit := remainingCostLimit run.costLimitUsd (firsts.map fun f => f.1.costUsd).sum
    if limit ≤ 0 then none else some limit
  else some run.costLimitUsd

/-- The outcomes of all seats, and the calls that were made for them. -/
def seatOutcomes (P : Platform) (delegates : Delegates) (run : Run) (artifactHash artifactStage : String)
    (panelRound : ℕ) (seats : List Seat) (requests : List SeatRequest) : List SeatOutcome × List Launch :=
  let delegated := delegates.group .analysis requests
  let first : Launch :=
    { phase := .analysis, costLimitUsd := run.costLimitUsd, requests := requests, results := delegated }
  let firsts := firstOutcomes P run artifactHash artifactStage seats requests delegated
  match repairLimit run firsts with
  | none => (firsts.map Prod.fst, [first])
  | some limit =>
    let repairs := firsts.filterMap fun f =>
      f.2.map (analysisRepairRequest P run artifactHash artifactStage panelRound f.1)
    let repaired := delegates.group .analysisRepair repairs
    (mergeRepairs P firsts repaired,
      [first, { phase := .analysisRepair, costLimitUsd := limit, requests := repairs, results := repaired }])

/-! ## Folding the outcomes -/

def alignmentOk (r : PanelResponse) : Bool := normal r.originalRequestAlignment.status = "aligned"

def coverageGap (r : PanelResponse) : Bool := r.requirements.any fun req => !req.addressed

def orElse (text fallback : String) : String := if text = "" then fallback else text

/-- The blocking finding of a seat that did not establish alignment. -/
def alignmentFinding (o : SeatOutcome) : Finding :=
  let status := normal o.result.originalRequestAlignment.status
  let alignment := if status ≠ "drifted" ∧ status ≠ "unclear" then "unclear" else status
  let summary := orElse (trimSpace o.result.originalRequestAlignment.summary)
    "reviewer did not establish that the direction follows the original request"
  { id := o.seat.persona ++ "-original-request-alignment", persona := o.seat.persona, severity := "blocking",
    location := "", summary := "original-request alignment is " ++ alignment ++ ": " ++ summary,
    recommendation := "revise the direction so it directly serves the original request, then rerun the panel" }

/-- The blocking finding of an enumerated requirement that is not addressed. -/
def coverageFinding (o : SeatOutcome) (req : PanelRequirement) : Finding where
  id := o.seat.persona ++ "-requirement-unaddressed"
  persona := o.seat.persona
  severity := "blocking"
  location := ""
  summary := "original request not fully addressed: " ++
    orElse (trimSpace req.requirement) "a requirement of the original request"
  recommendation := "address it in the artifact, or record it explicitly as out of scope: " ++
    orElse (trimSpace req.evidence) "the artifact does not address it"

/-- A seat's own `i`-th finding, with the defaults the seat left open. -/
def listedFinding (o : SeatOutcome) (i : ℕ) (f : PanelFinding) : Finding where
  id := firstNonempty f.id (o.seat.persona ++ "-" ++ toString (i + 1))
  persona := o.seat.persona
  severity := firstNonempty f.severity (if panelVerdict o.result = "approve" then "suggestion" else "blocking")
  location := f.location
  summary := f.summary
  recommendation := f.recommendation

/-- The findings of a usable report. -/
def reportFindings (o : SeatOutcome) : List Finding :=
  (if alignmentOk o.result then [] else [alignmentFinding o]) ++
  ((o.result.requirements.filter fun req => !req.addressed).map (coverageFinding o)) ++
  o.result.listed.mapIdx (listedFinding o)

/-- The blocking finding of a seat that reviewed another stage. -/
def stageFinding (o : SeatOutcome) (artifactStage : String) : Finding where
  id := o.seat.persona ++ "-artifact-stage"
  persona := o.seat.persona
  severity := "blocking"
  location := ""
  summary := "reviewer did not evaluate the declared artifact stage"
  recommendation := "review the artifact at stage " ++ artifactStage ++ " and echo that exact artifact_stage"

structure Tally where
  findings : List Finding
  reports : List SeatReport
  approvals : ℕ
  voters : ℤ
  costUsd : ℚ
  costUnknown : Bool
  seatFailures : List String
  failures : List ParticipantFailure
  replayLost : Bool

def SeatOutcome.failure (o : SeatOutcome) (category detail : String) : ParticipantFailure where
  seat := o.seat.ordinal + 1
  persona := o.seat.persona
  category := category
  detail := detail

def Tally.drop (t : Tally) (o : SeatOutcome) (category detail : String) : Tally :=
  { t with
    seatFailures := t.seatFailures ++ [o.seat.persona ++ ": " ++ category ++ ": " ++ detail]
    failures := t.failures ++ [o.failure category detail]
    voters := t.voters - 1 }

/-- One turn of the loop over the outcomes. -/
def countSeat (P : Platform) (run : Run) (artifactHash artifactStage : String) (t : Tally) (o : SeatOutcome) : Tally :=
  let t := { t with costUsd := t.costUsd + o.costUsd, costUnknown := t.costUnknown || o.costUnknown }
  match o.err with
  | some err =>
    ({ t with replayLost := t.replayLost || o.replayLost }).drop o (firstNonempty o.category "malformed_after_repair")
      (firstNonempty o.detail err)
  | none =>
    if o.result.runId ≠ run.id ∨ o.result.artifactHash ≠ artifactHash then
      t.drop o "identity_mismatch" "roundtable response identity mismatch"
    else if normalizeStage o.result.artifactStage ≠ some artifactStage then
      { t with
        failures := t.failures ++
          [o.failure "artifact_stage_mismatch" ("reviewer did not evaluate artifact stage " ++ artifactStage)]
        findings := t.findings ++ [stageFinding o artifactStage]
        voters := t.voters - 1 }
    else match panelVerdictError P o.result with
      | some err => t.drop o "malformed_after_repair" err
      | none =>
        { t with
          reports := t.reports ++ [{ seat := o.seat, response := o.result }]
          approvals := if panelVerdict o.result = "approve" ∧ alignmentOk o.result ∧ ¬coverageGap o.result
            then t.approvals + 1 else t.approvals
          findings := t.findings ++ reportFindings o }

def foldOutcomes (P : Platform) (run : Run) (artifactHash artifactStage : String)
    (outcomes : List SeatOutcome) : Tally :=
  outcomes.foldl (countSeat P run artifactHash artifactStage)
    { findings := [], reports := [], approvals := 0, voters := outcomes.length, costUsd := 0, costUnknown := false,
      seatFailures := [], failures := [], replayLost := false }

/-- `strings.Join`. -/
def joinTexts (sep : String) : List String → String
  | [] => ""
  | [a] => a
  | a :: b :: rest => a ++ sep ++ joinTexts sep (b :: rest)

def analysisOf (P : Platform) (run : Run) (artifactHash artifactStage : String)
    (outcomes : List SeatOutcome) : Analysis :=
  let t := foldOutcomes P run artifactHash artifactStage outcomes
  { feedback := { schemaVersion := 1, artifactHash := artifactHash, findings := t.findings }, approvals := t.approvals,
    voters := t.voters, costUsd := t.costUsd, costUnknown := t.costUnknown, unreachable :=
      joinTexts "; " t.seatFailures,
    reports := t.reports, failures := t.failures, replayLost := t.replayLost }

/-- The analysis whose requests could not be built: no seat was asked. -/
def unbuiltAnalysis (err : String) : Analysis where
  feedback := { schemaVersion := 0, artifactHash := "", findings := [] }
  approvals := 0
  voters := 0
  costUsd := 0
  costUnknown := false
  unreachable := "canonical review input: " ++ err
  reports := []
  failures := []
  replayLost := false

structure AnalysisRun where
  analysis : Analysis
  launches : List Launch

def runAnalysis (P : Platform) (delegates : Delegates) (run : Run) (seats : List Seat)
    (prompt artifactHash artifactStage : String) (panelRound : ℕ) : AnalysisRun :=
  match seats.mapM (analysisRequest P run prompt artifactHash artifactStage panelRound) with
  | .error err => { analysis := unbuiltAnalysis err, launches := [] }
  | .ok requests =>
    let outcomes := seatOutcomes P delegates run artifactHash artifactStage panelRound seats requests
    { analysis := analysisOf P run artifactHash artifactStage outcomes.1, launches := outcomes.2 }

end Roundtable
