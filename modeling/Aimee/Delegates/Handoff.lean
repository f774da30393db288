-- SUMMARY: The verdict on a delegate's handoff: whether it is well formed, inside its ownership, and verified.
import Aimee.Delegates.Unmarshal

/-!
# Handoffs

`handoff.go`. A delegate reports on its own work; what it touched outside its files and a `done`
without a passed test are not taken at face value.
-/

namespace Delegates

open Economizer (Text utf8 JsonValue)
open Unmarshal (unmarshal)

def statusNeedsReview : Text := utf8 "needs_supervisor_review"

structure HandoffVerdict where
  valid : Bool
  repairAttempted : Bool
  doneWithoutVerification : Bool
  needsSupervisorReview : Bool
  changedFilesCount : ℕ
  outsideOwnershipCount : ℕ
  passedTests : ℕ
  commandsRun : ℕ
  status : Text
  rawStatus : Text
  error : Text
  deriving DecidableEq

def HandoffVerdict.initial : HandoffVerdict where
  valid := false
  repairAttempted := false
  doneWithoutVerification := false
  needsSupervisorReview := false
  changedFilesCount := 0
  outsideOwnershipCount := 0
  passedTests := 0
  commandsRun := 0
  status := statusNeedsReview
  rawStatus := []
  error := []

def HandoffVerdict.fail (v : HandoffVerdict) (msg : String) : HandoffVerdict :=
  { v with error := utf8 msg, status := statusNeedsReview, needsSupervisorReview := true }

def statusAllowed (s : Text) : Bool := [utf8 "done", utf8 "partial", utf8 "blocked", utf8 "failed"].contains s

/-- The strings of a list that are not empty. -/
def nonEmptyStrings (raw : List JsonValue) : List Text :=
  raw.filterMap fun item =>
    match item with
    | .string s => if s = [] then none else some s
    | _ => none

def countNonEmptyStrings (raw : List JsonValue) : ℕ := (nonEmptyStrings raw).length

def containsString (raw : List JsonValue) (needle : Text) : Bool := (nonEmptyStrings raw).contains needle

/-- Both `passed` and `pass` count. -/
def passedTestCount (raw : List JsonValue) : ℕ :=
  raw.countP fun item => item.get "status" matches some (.string _) &&
    [utf8 "passed", utf8 "pass"].contains (item.getString "status")

/-- What was admitted, and what the list of owned files does not cover; without a list, or with an
    empty one, ownership was never scoped. -/
def outsideOwnedCount (changed outside : List JsonValue) (owned : Option (List JsonValue)) : ℕ :=
  countNonEmptyStrings outside +
    match owned with
    | none | some [] => 0
    | some owned => (nonEmptyStrings changed).countP fun s => !containsString owned s && !containsString outside s

def asArray : Option JsonValue → Option (List JsonValue)
  | some (.array items) => some items
  | _ => none

/-- `strings.TrimSpace` leaves nothing. -/
def isBlank : Text → Bool
  | [] => true
  | 0xC2 :: b :: rest => (b = 0x85 || b = 0xA0) && isBlank rest
  | 0xE1 :: 0x9A :: 0x80 :: rest => isBlank rest
  | 0xE2 :: 0x80 :: c :: rest => (c ≤ 0x8A && 0x80 ≤ c || c = 0xA8 || c = 0xA9 || c = 0xAF) && isBlank rest
  | 0xE2 :: 0x81 :: 0x9F :: rest => isBlank rest
  | 0xE3 :: 0x80 :: 0x80 :: rest => isBlank rest
  | a :: rest => (a = 32 || 9 ≤ a && a ≤ 13) && isBlank rest

/-- The list of owned files, where it is one; `null` is an empty list. -/
def ownedFiles (ownedFilesJSON : Text) : Option (List JsonValue) :=
  match unmarshal ownedFilesJSON with
  | some (.array items) => some items
  | some .null => some []
  | _ => none

/-- The fields every handoff has, of the right kinds: changed files, tests and a summary. -/
def requiredFields (root : JsonValue) : Option (List JsonValue × List JsonValue) :=
  match asArray (root.get "changed_files"), asArray (root.get "tests"), root.get "summary" with
  | some changed, some tests, some (.string summary) =>
    let supervisorOk := match root.get "supervisor_actions" with
      | none | some .null | some (.array _) => true
      | _ => false
    if supervisorOk && !isBlank summary then some (changed, tests) else none
  | _, _, _ => none

/-- A verdict on a well-formed handoff: what is outside, and what is done and not verified. -/
def HandoffVerdict.judge (v : HandoffVerdict) (requireVerification : Bool) : HandoffVerdict :=
  let v := { v with valid := true }
  if 0 < v.outsideOwnershipCount then
    { v with
      status := statusNeedsReview
      error := utf8 "handoff touched files outside owned_files"
      needsSupervisorReview := true }
  else if v.rawStatus = utf8 "done" ∧ requireVerification ∧ v.passedTests = 0 then
    { v with
      status := utf8 "partial"
      error := utf8 "status=done without passed focused verification; downgraded to partial"
      doneWithoutVerification := true }
  else v

/-- The verdict, and whether the report is well formed. -/
def validateHandoff (text ownedFilesJSON : Text) (requireVerification : Bool) : HandoffVerdict × Bool :=
  let v := HandoffVerdict.initial
  if text = [] then (v.fail "empty delegate handoff", false)
  else match unmarshal text with
  | some (.object members) =>
    let root := JsonValue.object members
    if root.getString "schema_version" ≠ utf8 "delegate_result_v1" then
      (v.fail "missing schema_version delegate_result_v1", false)
    else if !statusAllowed (root.getString "status") then (v.fail "invalid handoff status", false)
    else
      let v := { v with rawStatus := root.getString "status", status := root.getString "status" }
      match requiredFields root with
      | none => (v.fail "handoff missing required fields", false)
      | some (changed, tests) =>
        let outside := (asArray (root.get "outside_ownership_touches")).getD []
        let v := { v with
          changedFilesCount := countNonEmptyStrings changed
          commandsRun := ((asArray (root.get "commands_run")).getD []).length
          passedTests := passedTestCount tests
          outsideOwnershipCount := outsideOwnedCount changed outside (ownedFiles ownedFilesJSON) }
        (v.judge requireVerification, true)
  | _ => (v.fail "handoff is not valid JSON object", false)

end Delegates
