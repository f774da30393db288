-- SUMMARY: Task-cost reporting: canonical cost integers, units priced at integer rates, and the one pass over the entries of a declaration.
import Aimee.Lib.KeyMap
import Aimee.Lib.TextOrder

/-!
# Task cost

`modules/economizer/task_cost.go`. Amounts are nanodollars. The map `seen` and the slice
`out.Entries` grow together and hold the same entries, so the tally keeps the one list; likewise
`attempts` is the list of its keys.
-/

namespace TaskCost

open TextOrder

/-! ## Records -/

def taskCostStages : List String :=
  ["indexing_embedding", "retrieval_reranking", "context_transformation", "generation", "tools", "retries",
    "verification"]

structure TaskCostUnits where
  kind : String
  units : String
  rate : String
deriving DecidableEq, Repr

/-- `none` is the nil slice of units, which `reflect.DeepEqual` tells from an empty one. -/
structure TaskCostEntry where
  id : String
  attempt : String
  stage : String
  kind : String
  nanodollars : String
  provider : String
  model : String
  pricingSnapshot : String
  cacheAssumptions : String
  allocation : String
  allocationRule : String
  evidence : String
  latencyMs : String
  estimatedUnits : Option (List TaskCostUnits)
  estimateBasis : String
deriving DecidableEq, Repr

structure TaskCostRequest where
  schemaVersion : ℤ
  task : String
  stages : KeyMap String String
  entries : List TaskCostEntry

structure TaskCostReport where
  schemaVersion : ℤ
  task : String
  actual : String
  estimated : String
  knownTotal : String
  marginal : String
  amortized : String
  unpriced : List String
  unknownStages : List String
  entries : List TaskCostEntry
  attempts : List String
  coverage : String
  policyAdmission : String
deriving DecidableEq

/-! ## Cost integers and priced units -/

def maxInt64 : ℕ := 2 ^ 63 - 1

def parseDigits (digits : List Char) : Option ℤ :=
  if digits ≠ [] ∧ digits.all Char.isDigit = true then some (Nat.ofDigitChars 10 digits 0) else none

/-- `strconv.ParseInt(s, 10, 64)`. -/
def parseInt (s : String) : Option ℤ :=
  let n := match s.toList with
    | '-' :: digits => (parseDigits digits).map fun n => -n
    | '+' :: digits => parseDigits digits
    | digits => parseDigits digits
  n.filter fun n => decide (-2 ^ 63 ≤ n) && decide (n < 2 ^ 63)

def costInteger (s : String) : Except String ℕ :=
  match parseInt s with
  | none => .error "invalid cost integer"
  | some n => if n < 0 ∨ toString n ≠ s then .error "invalid cost integer" else .ok n.toNat

def rateUnits : List String :=
  ["input_uncached_tokens", "input_cached_tokens", "output_tokens", "embedding_tokens", "tool_invocations",
    "wall_milliseconds"]

/-- The loop of `priceTaskUnits`: the kinds that were seen, and the total before it is scaled. -/
def sumTaskUnits : List String → ℕ → List TaskCostUnits → Except String ℕ
  | _, total, [] => .ok total
  | seen, total, u :: units => do
    if u.kind ∉ rateUnits then throw "invalid rate unit"
    if u.kind ∈ seen then throw "duplicate rate unit"
    let n ← costInteger u.units
    let rate ← costInteger u.rate
    sumTaskUnits (u.kind :: seen) (total + n * rate) units

def priceTaskUnits (units : List TaskCostUnits) : Except String String := do
  let total ← sumTaskUnits [] 0 units
  let amount := (total + 999999) / 1000000
  if maxInt64 < amount then throw "priced call overflow"
  return toString amount

/-! ## One entry -/

/-- The running sums and collections of `ReportTaskCost`. -/
structure CostTally where
  counts : String → ℕ
  entries : List TaskCostEntry
  attempts : List String
  unpriced : List String
  actual : ℕ
  estimated : ℕ
  marginal : ℕ
  amortized : ℕ
  total : ℕ

def badDeclaration : String := "invalid task cost declaration"

def estimateUnitsBasis : String := "integer_rate_model_round_up_per_call"

/-- The part of the loop before the lookup in `seen`: the identity checks and the estimate. -/
def normaliseEntry (entry : TaskCostEntry) : Except String TaskCostEntry :=
  if entry.id = "" ∨ 256 < entry.id.utf8ByteSize ∨ entry.attempt = "" ∨ 256 < entry.attempt.utf8ByteSize ∨
      entry.evidence = "" ∨ 1024 < entry.evidence.utf8ByteSize then .error badDeclaration
  else if 0 < (entry.estimatedUnits.getD []).length then
    if entry.kind ≠ "estimated" ∨ 8 < (entry.estimatedUnits.getD []).length then .error badDeclaration
    else match priceTaskUnits (entry.estimatedUnits.getD []) with
      | .error _ => .error badDeclaration
      | .ok amount =>
        if entry.nanodollars ≠ "" ∧ entry.nanodollars ≠ amount then .error badDeclaration
        else .ok { entry with nanodollars := amount, estimateBasis := estimateUnitsBasis }
  else if entry.kind = "estimated" then .ok { entry with estimateBasis := "caller_declared" }
  else if entry.estimateBasis ≠ "" then .error badDeclaration
  else .ok entry

/-- The closure `add`. -/
def addAmount (dst n : ℕ) : Except String ℕ :=
  if maxInt64 - n < dst then .error badDeclaration else .ok (dst + n)

/-- The checks of a new entry before its amount. -/
def checkEntry (stages : KeyMap String String) (entry : TaskCostEntry) : Except String Unit := do
  if entry.stage ∉ taskCostStages ∨ stages.get? entry.stage ≠ some "observed" then throw badDeclaration
  let _ ← costInteger entry.latencyMs
  if entry.allocation ≠ "marginal" ∧ entry.allocation ≠ "amortized" then throw badDeclaration
  if entry.allocationRule = "" ∨ entry.cacheAssumptions = "" then throw badDeclaration

/-- The branch on the kind of a new entry. -/
def chargeEntry (t : CostTally) (entry : TaskCostEntry) : Except String CostTally := do
  if entry.kind = "unpriced" then
    if entry.nanodollars ≠ "" then throw badDeclaration
    return { t with unpriced := t.unpriced ++ [entry.id] }
  if entry.provider = "" ∨ entry.model = "" ∨ entry.pricingSnapshot = "" then throw badDeclaration
  let n ← costInteger entry.nanodollars
  let t ←
    if entry.kind = "actual" then do
      let actual ← addAmount t.actual n
      pure { t with actual := actual }
    else if entry.kind = "estimated" then do
      let estimated ← addAmount t.estimated n
      pure { t with estimated := estimated }
    else throw badDeclaration
  let total ← addAmount t.total n
  if entry.allocation = "marginal" then
    let marginal ← addAmount t.marginal n
    return { t with total := total, marginal := marginal }
  else
    let amortized ← addAmount t.amortized n
    return { t with total := total, amortized := amortized }

/-- The part of the loop after the lookup in `seen`. -/
def keepEntry (stages : KeyMap String String) (t : CostTally) (entry : TaskCostEntry) : Except String CostTally := do
  checkEntry stages entry
  let t ← chargeEntry t entry
  return { t with
    counts := fun stage => if stage = entry.stage then t.counts stage + 1 else t.counts stage
    entries := t.entries ++ [entry]
    attempts := t.attempts.insert entry.attempt }

/-- One turn of the loop over the entries. -/
def countEntry (stages : KeyMap String String) (t : CostTally) (raw : TaskCostEntry) : Except String CostTally := do
  let entry ← normaliseEntry raw
  match t.entries.find? fun old => old.id = entry.id with
  | some old => if old ≠ entry then throw "conflicting cost event" else return t
  | none => keepEntry stages t entry

/-! ## The report -/

def notApplicable : String := "not_applicable:"

/-- A declared state of a stage. -/
def stageState (state : String) : Bool :=
  state = "observed" || state = "unknown" || (15 < state.utf8ByteSize && notApplicable.toList.isPrefixOf state.toList)

def emptyTally : CostTally :=
  { counts := fun _ => 0, entries := [], attempts := [], unpriced := [], actual := 0, estimated := 0, marginal := 0,
    amortized := 0, total := 0 }

def unknownStages (stages : KeyMap String String) : List String :=
  taskCostStages.filter fun stage => stages.get? stage = some "unknown"

/-- The checks before the entries. -/
def requestBad (req : TaskCostRequest) : Bool :=
  req.schemaVersion ≠ 1 || req.task = "" || 256 < req.task.utf8ByteSize || 4096 < req.entries.length ||
    req.stages.size ≠ taskCostStages.length ||
    !taskCostStages.all fun stage => (req.stages.get? stage).any stageState

def finishReport (req : TaskCostRequest) (t : CostTally) : TaskCostReport :=
  { schemaVersion := 1
    task := req.task
    actual := toString t.actual
    estimated := toString t.estimated
    knownTotal := toString t.total
    marginal := toString t.marginal
    amortized := toString t.amortized
    unpriced := sortStrings t.unpriced
    unknownStages := sortStrings (unknownStages req.stages)
    entries := sortBy TaskCostEntry.id t.entries
    attempts := sortStrings t.attempts
    coverage := if t.unpriced ≠ [] ∨ unknownStages req.stages ≠ [] then "incomplete" else "caller_declared"
    policyAdmission := "observe_only_unqualified" }

def reportTaskCost (req : TaskCostRequest) : Except String TaskCostReport := do
  if requestBad req then throw badDeclaration
  let t ← req.entries.foldlM (countEntry req.stages) emptyTally
  if taskCostStages.any fun stage => req.stages.get? stage = some "observed" && t.counts stage = 0 then
    throw badDeclaration
  return finishReport req t

end TaskCost
