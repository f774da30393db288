-- SUMMARY: The workflow definitions of the daemon: blocks with their typed inputs, nodes with their edges, and the graph validator.
import Mathlib.Algebra.Group.Int.Defs
import Mathlib.Data.Rat.Defs

/-!
# Workflow definitions of the daemon

The graph of block instances of `wfe_def.h`, the block catalog of `wfe_def.c`, and the validator of
`wfe_validate.c`. A definition is taken as the parser leaves it; an edge that is the empty string is
no edge. The identifiers of a definition and the stage columns of a work item have the same width, so
nothing here is cut.
-/

namespace Wfe

/-! ## Parameters -/

/-- A value of a node's parameters. A number is a finite double. -/
inductive Json where
  | null
  | bool (b : Bool)
  | number (v : ℚ)
  | string (s : String)
  | array (items : List Json)
  | object (members : List (String × Json))

/-- `cJSON_GetObjectItemCaseSensitive`, on parameters that may be missing. -/
def Json.get? (params : Option Json) (key : String) : Option Json :=
  match params with
  | some (.object members) => members.lookup key
  | _ => none

/-- The `valueint` of a number: cut towards zero, and held in the range of an `int`. -/
def valueint (v : ℚ) : ℤ :=
  if 2 ^ 31 - 1 ≤ v then 2 ^ 31 - 1
  else if v ≤ -2 ^ 31 then -2 ^ 31
  else v.num.tdiv v.den

def paramBool (params : Option Json) (key : String) (dflt : Bool) : Bool :=
  match Json.get? params key with
  | some (.bool b) => b
  | _ => dflt

def paramStr (params : Option Json) (key : String) : Option String :=
  match Json.get? params key with
  | some (.string s) => some s
  | _ => none

/-! ## The block catalog -/

inductive Artifact where
  | none
  | proposal
  | plan
  | branch
  | frozenDiff
  | pr
  | verdict
  | approval
  | intent
  deriving DecidableEq

def Artifact.name : Artifact → String
  | .none => "none"
  | .proposal => "proposal"
  | .plan => "plan"
  | .branch => "branch"
  | .frozenDiff => "frozen_diff"
  | .pr => "pr"
  | .verdict => "verdict"
  | .approval => "approval"
  | .intent => "intent"

inductive Block where
  | unknown
  | authorProposal
  | authorPlan
  | implement
  | document
  | freeze
  | gateRoundtable
  | gateHuman
  | prOpen
  | merge
  | gateCi
  | checkMergeable
  | custom
  | understand
  | split
  | review
  | gateDeliver
  | branchOpen
  | foreachWorkflow
  | sourceArchive
  | triggerWatchDir
  deriving DecidableEq

structure CatalogEntry where
  name : String
  output : Artifact
  requiresInput : Bool
  accepts : List Artifact

/-- `CATALOG`. A custom block has its entry in the registry instead. -/
def catalog : Block → Option CatalogEntry
  | .unknown => none
  | .custom => none
  | .authorProposal => some ⟨"author.proposal", .proposal, false, [.proposal]⟩
  | .triggerWatchDir => some ⟨"trigger.watch-dir", .proposal, false, []⟩
  | .authorPlan => some ⟨"author.plan", .plan, true, [.proposal]⟩
  | .implement => some ⟨"implement", .branch, true, [.plan, .intent]⟩
  | .document => some ⟨"document", .branch, true, [.branch]⟩
  | .sourceArchive => some ⟨"source.archive", .branch, true, [.branch]⟩
  | .freeze => some ⟨"freeze", .frozenDiff, true, [.branch]⟩
  | .gateRoundtable => some ⟨"gate.roundtable", .verdict, true, [.proposal, .plan, .frozenDiff]⟩
  | .gateHuman => some ⟨"gate.human", .approval, true, [.proposal, .plan, .branch, .frozenDiff, .pr]⟩
  | .prOpen => some ⟨"pr.open", .pr, true, [.proposal, .frozenDiff]⟩
  | .merge => some ⟨"merge", .none, true, [.pr]⟩
  | .gateCi => some ⟨"gate.ci", .verdict, true, [.pr]⟩
  | .checkMergeable => some ⟨"check.mergeable", .verdict, true, [.pr]⟩
  | .understand => some ⟨"understand", .intent, false, []⟩
  | .split => some ⟨"split", .plan, true, [.intent, .plan]⟩
  | .review => some ⟨"review", .verdict, true, [.frozenDiff, .branch]⟩
  | .gateDeliver => some ⟨"gate.deliver", .none, true, [.verdict, .approval]⟩
  | .branchOpen => some ⟨"branch.open", .branch, false, [.plan]⟩
  | .foreachWorkflow => some ⟨"foreach.workflow", .branch, true, [.plan, .branch]⟩

def blockName (b : Block) : String := ((catalog b).map (·.name)).getD "unknown"

/-- What the registry of custom blocks says of a block. -/
structure CustomBlock where
  name : String
  consumes : Artifact
  produces : Artifact

/-! ## Nodes and definitions -/

/-- A logical input slot bound to the output of a producer. -/
structure Binding where
  inputName : String
  producerId : String

structure Node where
  id : String
  block : Block
  customName : String := ""
  params : Option Json := none
  ins : List Binding := []
  next : String := ""
  onPass : String := ""
  onFail : String := ""

structure Def where
  name : String
  start : String
  enforced : Bool
  nodes : List Node

/-- `wfe_def_node`. -/
def Def.node? (d : Def) (id : String) : Option Node := d.nodes.find? (·.id = id)

/-- A node without an outgoing edge, as the validator has it. -/
def Node.terminal (n : Node) : Bool := n.next = "" && n.onPass = "" && n.onFail = ""

section Typing

variable (registry : List CustomBlock)

def customLookup (name : String) : Option CustomBlock := registry.find? (·.name = name)

def nodeOutput (n : Node) : Artifact :=
  if n.block = .custom then ((customLookup registry n.customName).map (·.produces)).getD .none
  else ((catalog n.block).map (·.output)).getD .none

def nodeAcceptsInput (n : Node) (input : Artifact) : Bool :=
  if n.block = .custom then (customLookup registry n.customName).any (·.consumes = input)
  else input ≠ .none && (catalog n.block).any (input ∈ ·.accepts)

def nodeRequiresInput (n : Node) : Bool :=
  if n.block = .custom then (customLookup registry n.customName).any (·.consumes ≠ .none)
  else (catalog n.block).any (·.requiresInput)

end Typing

def nodeBlockName (n : Node) : String :=
  if n.block = .custom then n.customName else blockName n.block

def defaultMaxIters : ℤ := 20

/-- `wfe_node_max_iters`. -/
def nodeMaxIters (n : Node) : ℤ :=
  match Json.get? n.params "max_iters" with
  | some (.number v) => if 0 < valueint v then valueint v else defaultMaxIters
  | _ => defaultMaxIters

inductive OnMax where
  | human
  | fail
  | pass
  deriving DecidableEq

/-- `wfe_node_on_max`. -/
def nodeOnMax (n : Node) : OnMax :=
  match Json.get? n.params "on_max" with
  | some (.string "fail") => .fail
  | some (.string "pass") => .pass
  | _ => .human

/-! ## The validator

Each check gives the text of the first violation it finds. -/

/-- The pairs of a list, the earlier element first. -/
def pairs {α : Type} : List α → List (α × α)
  | [] => []
  | a :: rest => rest.map (Prod.mk a) ++ pairs rest

section Checks

variable (registry : List CustomBlock)

def checkBinding (d : Def) (n : Node) (b : Binding) : Option String :=
  match d.node? b.producerId with
  | none => some s!"node '{n.id}': input '{b.inputName}' references unknown producer '{b.producerId}'"
  | some producer =>
    let out := nodeOutput registry producer
    if nodeAcceptsInput registry n out then none
    else some (s!"node '{n.id}' ({nodeBlockName n}): input '{b.inputName}' bound to '{b.producerId}' " ++
      s!"which produces {out.name} (not an accepted input type)")

def checkInputs (d : Def) (n : Node) : Option String :=
  ((pairs n.ins).findSome? fun (a, b) =>
    if a.inputName = b.inputName then
      some s!"node '{n.id}': input '{a.inputName}' bound twice (ambiguous producer)"
    else none) <|>
  (if nodeRequiresInput registry n && n.ins.isEmpty then
    some s!"node '{n.id}' ({nodeBlockName n}) requires an input binding" else none) <|>
  n.ins.findSome? (checkBinding registry d n)

def checkGateRules (n : Node) : Option String :=
  (if n.block = .gateRoundtable then
    let required := match Json.get? (Json.get? n.params "panel") "required" with
      | some (.array items) => items.length
      | _ => 0
    if required < 2 then
      some (s!"node '{n.id}': gate.roundtable requires panel.required >= 2 " ++
        "(single-lens gates are forbidden)")
    else none
  else none) <|>
  (if n.block = .gateHuman then
    if paramStr n.params "policy" = some "preauthorized" then
      some (s!"node '{n.id}': gate.human policy 'preauthorized' is not allowed — a " ++
        "human gate cannot be auto-satisfied in autonomous mode")
    else if paramBool n.params "optional" false then
      some (s!"node '{n.id}': gate.human optional:true is not allowed — a human gate " ++
        "cannot be skipped or auto-satisfied")
    else none
  else none)

def checkLoopCap (n : Node) : Option String :=
  (match Json.get? n.params "max_iters" with
    | none => none
    | some (.number v) =>
      if 0 < valueint v then none else some s!"node '{n.id}': max_iters must be a positive integer"
    | some _ => some s!"node '{n.id}': max_iters must be a positive integer") <|>
  match Json.get? n.params "on_max" with
  | none => none
  | some (.string "pass") =>
    if n.onPass = "" ∧ n.next = "" then
      some s!"node '{n.id}': on_max:pass requires an on_pass or next edge to route forward"
    else none
  | some (.string "fail") => none
  | some (.string "human") => none
  | some _ => some s!"node '{n.id}': on_max must be one of \"pass\", \"fail\", \"human\""

def checkEdge (d : Def) (n : Node) (edge label : String) : Option String :=
  if edge = "" then none
  else if (d.node? edge).isSome then none
  else some s!"node '{n.id}': {label} edge -> unknown node '{edge}'"

/-- What the validator checks of each node. -/
def checkNode (d : Def) (n : Node) : Option String :=
  (if n.block = .unknown then some s!"node '{n.id}': unknown block" else none) <|>
  checkInputs registry d n <|> checkGateRules n <|> checkLoopCap n <|>
  checkEdge d n n.next "next" <|> checkEdge d n n.onPass "on_pass" <|> checkEdge d n n.onFail "on_fail"

end Checks

def checkDuplicateIds (d : Def) : Option String :=
  (pairs d.nodes).findSome? fun (a, b) =>
    if a.id = b.id then some s!"duplicate node id '{a.id}'" else none

/-- Identifiers become parts of file paths, so they are of `[A-Za-z0-9_-]`. -/
def checkId (n : Node) : Option String :=
  if n.id = "" then some "empty node id"
  else if n.id.toList.all fun c => c.isAlphanum || c = '_' || c = '-' then none
  else some s!"node id '{n.id}' has an invalid character (allowed: A-Za-z0-9_-)"

/-- A trigger is the start node, once, without bindings and without inbound edges. -/
def checkTrigger (d : Def) (first : Bool) (n : Node) : Option String :=
  if ¬first then some s!"node '{n.id}': at most one trigger block per workflow"
  else if d.start ≠ n.id then some s!"node '{n.id}': a trigger block must be the start node"
  else if ¬n.ins.isEmpty then some s!"node '{n.id}': a trigger block takes no `in` bindings"
  else d.nodes.findSome? fun m =>
    if m.id ≠ n.id ∧ (m.next = n.id ∨ m.onPass = n.id ∨ m.onFail = n.id) then
      some s!"node '{n.id}': a trigger block cannot have inbound edges (from '{m.id}')"
    else none

def checkTriggers (d : Def) : Option String :=
  match d.nodes.filter (·.block = .triggerWatchDir) with
  | [] => none
  | n :: rest => checkTrigger d true n <|> rest.findSome? (checkTrigger d false)

/-- The delivery gate of an enforced workflow: every node without an outgoing edge is one. -/
def checkEnforced (d : Def) : Option String :=
  if ¬d.enforced then none else
  ((d.nodes.filter (·.terminal)).findSome? fun n =>
    if n.block = .gateDeliver then none
    else some (s!"enforced workflow '{d.name}': terminal node '{n.id}' is not a gate.deliver " ++
      "(every exit must cross the delivery gate)")) <|>
  if d.nodes.any (·.terminal) then none
  else some s!"enforced workflow '{d.name}' must terminate in a gate.deliver node"

/-- `mark_reachable`, the marked nodes by their identifiers. Every level marks a node, so a fuel of one more
    than there are nodes is never used up. -/
def markReachable (d : Def) : ℕ → String → List String → List String
  | 0, _, seen => seen
  | fuel + 1, id, seen =>
    match d.node? id with
    | none => seen
    | some n =>
      if n.id ∈ seen then seen else
      let seen := n.id :: seen
      let seen := if n.next = "" then seen else markReachable d fuel n.next seen
      let seen := if n.onPass = "" then seen else markReachable d fuel n.onPass seen
      if n.onFail = "" then seen else markReachable d fuel n.onFail seen

def checkReachable (d : Def) : Option String :=
  let seen := markReachable d (d.nodes.length + 1) d.start []
  d.nodes.findSome? fun n =>
    if n.id ∈ seen then none else some s!"node '{n.id}' is unreachable from start '{d.start}'"

def panelHasPersona (params : Option Json) (persona : String) : Bool :=
  ["required", "eligible"].any fun key =>
    match Json.get? (Json.get? params "panel") key with
    | some (.array items) => items.any fun
        | .string s => s = persona
        | _ => false
    | _ => false

/-- The reviewer of a review sits on no panel that judges its lane. -/
def checkReview (d : Def) (n : Node) : Option String :=
  if n.block ≠ .review then none else
  match paramStr n.params "reviewer" with
  | none | some "" =>
    if d.enforced then
      some (s!"review '{n.id}' in an enforced workflow must set an explicit 'reviewer' " ++
        "persona (disjoint from the roundtable panel)")
    else none
  | some reviewer =>
    d.nodes.findSome? fun m =>
      if m.block = .gateRoundtable ∧ panelHasPersona m.params reviewer then
        some (s!"review '{n.id}' reviewer '{reviewer}' also sits on roundtable '{m.id}' panel " ++
          "(reviewer must be disjoint from the panel that judges its lane)")
      else none

/-- `wfe_def_validate`: none when the definition is accepted. -/
def defValidate (registry : List CustomBlock) (d : Def) : Option String :=
  (if d.nodes.isEmpty then some "empty workflow" else none) <|>
  checkDuplicateIds d <|>
  d.nodes.findSome? checkId <|>
  (if (d.node? d.start).isSome then none else some s!"start node '{d.start}' does not exist") <|>
  checkTriggers d <|>
  d.nodes.findSome? (checkNode registry d) <|>
  (if d.nodes.any (·.terminal) then none
    else some "workflow has no terminal node (graph never ends)") <|>
  checkEnforced d <|>
  checkReachable d <|>
  d.nodes.findSome? (checkReview d)

/-! ## What an accepted definition has -/

section Accepted

variable {registry : List CustomBlock} {d : Def}

/-- In an enforced workflow a node without an outgoing edge is the delivery gate. -/
theorem gateDeliver_of_terminal (h : defValidate registry d = none) (henforced : d.enforced = true) {n : Node}
    (hn : n ∈ d.nodes) (hterminal : n.terminal = true) : n.block = .gateDeliver := by
  simp only [defValidate, Option.orElse_eq_orElse, Option.orElse_eq_or, Option.or_eq_none_iff] at h
  obtain ⟨-, -, -, -, -, -, -, hexits, -, -⟩ := h
  simp only [checkEnforced, henforced, not_true_eq_false, if_false, Option.orElse_eq_orElse, Option.orElse_eq_or,
    Option.or_eq_none_iff, List.findSome?_eq_none_iff] at hexits
  have hgate := hexits.1 n (List.mem_filter.mpr ⟨hn, hterminal⟩)
  by_contra hblock
  rw [if_neg hblock] at hgate
  cases hgate

end Accepted

end Wfe
