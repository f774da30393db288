-- SUMMARY: Workflow definitions: nodes with their edges, bindings and parameters, and the validation every load path runs.
import Aimee.Workflow.Transitions

/-!
# Workflow definitions

The graph a run walks, from `definition.go` and the part of `catalog.go` that its validation
reads, with the parameters the engine looks up on a node. A map of the source is a list of pairs
with distinct keys; the error that is reported first can depend on the order of a map, whether
there is one does not.
-/

namespace Workflow

/-! ## Parameter values -/

/-- A double: a finite value, an infinity or not a number. -/
inductive Float64 where
  | finite (v : ℚ)
  | inf (negative : Bool)
  | nan
  deriving DecidableEq

/-- A value as the decoder of a definition returns it. Integers are in the range of a signed or
    an unsigned word of 64 bits, the unsigned type holding only what the signed one cannot;
    `other` is a value of any further type, such as a date or a mapping with other keys. -/
inductive Param where
  | null
  | bool (v : Bool)
  | int (v : ℤ)
  | float (v : Float64)
  | text (v : String)
  | list (vs : List Param)
  | map (entries : List (String × Param))
  | other

def maxInt64 : ℤ := 2 ^ 63 - 1

def Param.text? : Param → Option String
  | .text v => some v
  | _ => none

/-- `numericInt`: an unsigned value wraps, and a float has to be a whole number in range. -/
def numericInt : Param → Option ℤ
  | .int v => some (if v ≤ maxInt64 then v else v - 2 ^ 64)
  | .float (.finite v) =>
    if v = v.num ∧ -maxInt64 - 1 ≤ v.num ∧ v.num ≤ maxInt64 then some v.num else none
  | _ => none

/-- `numericFloat`. The rounding of an integer keeps its sign, which is all that is read. -/
def numericFloat : Param → Option Float64
  | .int v => some (.finite v)
  | .float v => some v
  | _ => none

/-! ## Nodes -/

structure Node where
  id : String
  block : String
  inputs : List (String × String)
  params : List (String × Param)
  next : String
  onPass : String
  onFail : String

structure Definition where
  name : String
  start : String
  nodes : List Node

namespace Node

def param? (node : Node) (key : String) : Option Param := node.params.lookup key

/-- The edge names of a node with their targets. -/
def edges (node : Node) : List (String × String) :=
  [("next", node.next), ("on_pass", node.onPass), ("on_fail", node.onFail)]

def paramString (node : Node) (key fallback : String) : String :=
  match node.param? key with
  | some (.text v) => if v = "" then fallback else v
  | _ => fallback

def positiveIntParam (node : Node) (key : String) : Option ℤ :=
  match node.param? key with
  | some (.int v) => if 0 < v ∧ v ≤ maxInt64 then some v else none
  | _ => none

/-- How many times one step may repeat before it parks. -/
def maxIterations (node : Node) : ℤ := (node.positiveIntParam "max_rounds").getD 20

theorem positiveIntParam_pos {node : Node} {key : String} {v : ℤ} (h : node.positiveIntParam key = some v) :
    0 < v := by
  unfold positiveIntParam at h
  split at h
  · split at h
    · next hv =>
      cases h
      exact hv.1
    · cases h
  · cases h

theorem maxIterations_pos (node : Node) : 0 < node.maxIterations := by
  unfold maxIterations
  cases h : node.positiveIntParam "max_rounds" with
  | none => decide
  | some v => exact positiveIntParam_pos h

end Node

/-- The node of a stage. -/
def Definition.node? (d : Definition) (id : String) : Option Node := d.nodes.find? (·.id = id)

theorem Definition.mem_of_node? {d : Definition} {id : String} {node : Node} (h : d.node? id = some node) :
    node ∈ d.nodes ∧ node.id = id :=
  ⟨List.mem_of_find?_eq_some h, by simpa using List.find?_some h⟩

/-- Splits a binding at its last dot into a producer and an output, neither of them empty. -/
def parseBinding (binding : String) : Option (String × String) :=
  let (output, rest) := binding.toList.reverse.span (· ≠ '.')
  match rest with
  | [] => none
  | _ :: producer =>
    if output = [] ∨ producer = [] then none
    else some (String.ofList producer.reverse, String.ofList output.reverse)

/-! ## Validation -/

inductive DefinitionError where
  | nameRequired
  | noNodes
  | invalidNodeId (id : String)
  | noBlock (id : String)
  | duplicateNodeId (id : String)
  | startMissing (start : String)
  | targetMissing (id edge target : String)
  | invalidBinding (id input binding : String)
  | producerMissing (id input producer : String)
  | unsupportedOutput (id input output : String)
  | paramRequired (id param block : String)
  | paramNotString (id param : String)
  | workspaceNotAbsolute (id : String)
  | dirNotConfined (id : String)
  | refInvalid (id : String)
  | modeInvalid (id : String)
  | spendInvalid (id : String)
  | personasUnsupported (id : String)
  | personaNameInvalid (id field : String)
  | personaDuplicated (id persona : String)
  | pinInvalid (id persona : String)
  | panelEmpty (id : String)
  | quorumOutOfRange (id : String) (personas : ℕ)
  deriving DecidableEq

/-- `nodeIDPattern`: `^[A-Za-z][A-Za-z0-9_-]*$`. -/
def matchesNodeId (id : String) : Bool :=
  match id.toList with
  | [] => false
  | c :: cs => c.isAlpha && cs.all fun c => c.isAlphanum || c = '_' || c = '-'

/-- The required parameters of the built-in blocks: only a roundtable gate has one. -/
def builtinRequiredParams (block : String) : List String :=
  if block = "gate.roundtable" then ["roundtable"] else []

def trimmed (text : String) : String := String.ofList (trimSpace text.toList)

/-- A character below the space, or delete. -/
def isControl (c : Char) : Bool := c.toNat < 0x20 || c.toNat = 0x7f

/-- The elements of a path with the empty ones, the dots and the pairs that cancel gone. -/
def cleanElements (rooted : Bool) (elements : List String) : List String :=
  (elements.foldl (fun kept element =>
    if element = "" ∨ element = "." then kept
    else if element = ".." then
      match kept with
      | [] => if rooted then [] else [".."]
      | last :: rest => if last = ".." then ".." :: kept else rest
    else element :: kept) []).reverse

/-- `path.Clean`. -/
def pathClean (path : String) : String :=
  let rooted := path.toList.head? = some '/'
  let cleaned := "/".intercalate (cleanElements rooted (path.splitOn "/"))
  if rooted then "/" ++ cleaned else if cleaned = "" then "." else cleaned

/-- The check of a parameter that has to be a string where it is given. -/
def checkText (node : Node) (key : String) (ok : String → Bool) (error : DefinitionError) :
    Except DefinitionError Unit :=
  match node.param? key with
  | none => .ok ()
  | some (.text v) => if ok v then .ok () else .error error
  | some _ => .error (.paramNotString node.id key)

def workspaceOk (workspace : String) : Bool :=
  workspace = "" || (workspace = trimmed workspace && workspace.toList.head? = some '/' &&
    !workspace.toList.any isControl)

def dirOk (directory : String) : Bool :=
  let clean := pathClean (trimmed directory)
  directory = "" || (directory = trimmed directory && '\\' ∉ directory.toList &&
    !directory.toList.any isControl && clean ≠ "." && clean.toList.head? ≠ some '/' &&
    clean ≠ ".." && !"../".toList.isPrefixOf clean.toList)

def refOk (ref : String) : Bool :=
  ref = trimmed ref && ref.toList.head? ≠ some '-' && !ref.toList.any isControl

def modeOk (mode : String) : Bool := mode = "" || mode = "autonomous" || mode = "interactive"

def spendOk (raw : Param) : Bool :=
  match numericFloat raw with
  | some (.finite v) => 0 ≤ v
  | _ => false

def validateWatchDirParams (node : Node) : Except DefinitionError Unit := do
  checkText node "workspace" workspaceOk (.workspaceNotAbsolute node.id)
  checkText node "dir" dirOk (.dirNotConfined node.id)
  checkText node "ref" refOk (.refInvalid node.id)
  checkText node "mode" modeOk (.modeInvalid node.id)
  match node.param? "max_spend_usd" with
  | some raw => if spendOk raw then .ok () else .error (.spendInvalid node.id)
  | none => .ok ()

/-- The personas of one field of a panel, added to those already seen. -/
def panelPersonas (id field : String) : List Param → List String → Except DefinitionError (List String)
  | [], personas => .ok personas
  | .text persona :: rest, personas =>
    if persona = "" then .error (.personaNameInvalid id field)
    else if persona ∈ personas then .error (.personaDuplicated id persona)
    else panelPersonas id field rest (persona :: personas)
  | _ :: _, _ => .error (.personaNameInvalid id field)

def panelField (id field : String) (panel : List (String × Param)) (personas : List String) :
    Except DefinitionError (List String) :=
  match panel.lookup field with
  | some (.list values) => panelPersonas id field values personas
  | _ => .ok personas

def checkPins (id : String) (personas : List String) : List (String × Param) → Except DefinitionError Unit
  | [] => .ok ()
  | (persona, .text agent) :: rest =>
    if agent = "" ∨ persona ∉ personas then .error (.pinInvalid id persona)
    else checkPins id personas rest
  | (persona, _) :: _ => .error (.pinInvalid id persona)

def validatePanel (node : Node) (panel : List (String × Param)) : Except DefinitionError Unit := do
  if (panel.lookup "personas").isSome then throw (.personasUnsupported node.id)
  let personas ← panelField node.id "required" panel []
  let personas ← panelField node.id "eligible" panel personas
  match panel.lookup "pins" with
  | some (.map pins) => checkPins node.id personas pins
  | _ => .ok ()
  if personas = [] then throw (.panelEmpty node.id)
  match node.param? "quorum" with
  | none => .ok ()
  | some raw =>
    match numericInt raw with
    | some q =>
      if 1 ≤ q ∧ q ≤ personas.length then .ok () else throw (.quorumOutOfRange node.id personas.length)
    | none => throw (.quorumOutOfRange node.id personas.length)

namespace Definition

/-- The first pass over the nodes: identifiers, blocks and duplicates. -/
def checkIds : List Node → List String → Except DefinitionError Unit
  | [], _ => .ok ()
  | node :: rest, seen =>
    if !matchesNodeId node.id then .error (.invalidNodeId node.id)
    else if node.block = "" then .error (.noBlock node.id)
    else if node.id ∈ seen then .error (.duplicateNodeId node.id)
    else checkIds rest (node.id :: seen)

def checkEdge (d : Definition) (node : Node) (edge : String × String) : Except DefinitionError Unit :=
  if edge.2 = "" ∨ (d.node? edge.2).isSome then .ok ()
  else .error (.targetMissing node.id edge.1 edge.2)

def checkInput (d : Definition) (node : Node) (input : String × String) : Except DefinitionError Unit :=
  match parseBinding input.2 with
  | none => .error (.invalidBinding node.id input.1 input.2)
  | some (producer, output) =>
    if (d.node? producer).isNone then .error (.producerMissing node.id input.1 producer)
    else if output ≠ "out" then .error (.unsupportedOutput node.id input.1 output)
    else .ok ()

def checkRequired (node : Node) (param : String) : Except DefinitionError Unit :=
  match (node.param? param).bind (·.text?) with
  | some v => if trimmed v = "" then .error (.paramRequired node.id param node.block) else .ok ()
  | none => .error (.paramRequired node.id param node.block)

def checkNode (d : Definition) (node : Node) : Except DefinitionError Unit := do
  node.edges.forM (d.checkEdge node)
  node.inputs.forM (d.checkInput node)
  (builtinRequiredParams node.block).forM (checkRequired node)
  if node.block = "trigger.watch-dir" then validateWatchDirParams node
  match node.param? "panel" with
  | some (.map panel) => if node.block = "gate.roundtable" then validatePanel node panel
  | _ => .ok ()

def validate (d : Definition) : Except DefinitionError Unit := do
  if d.name = "" then throw .nameRequired
  match d.nodes with
  | [] => throw .noNodes
  | first :: _ =>
    let start := if d.start = "" then first.id else d.start
    checkIds d.nodes []
    if (d.node? start).isNone then throw (.startMissing start)
    d.nodes.forM d.checkNode

theorem matches_of_checkIds {nodes : List Node} {seen : List String} (h : checkIds nodes seen = .ok ()) :
    ∀ node ∈ nodes, matchesNodeId node.id = true := by
  induction nodes generalizing seen with
  | nil => exact fun _ hmem => absurd hmem List.not_mem_nil
  | cons node rest ih =>
    rw [checkIds] at h
    split_ifs at h with hid hblock hseen
    intro node' hmem
    rcases List.mem_cons.mp hmem with rfl | hmem
    · simpa using hid
    · exact ih h node' hmem

theorem id_ne_empty_of_validate {d : Definition} (h : d.validate = .ok ()) :
    ∀ node ∈ d.nodes, node.id ≠ "" := by
  have hids : checkIds d.nodes [] = .ok () := by
    unfold validate at h
    cases hnodes : d.nodes with
    | nil => rfl
    | cons first rest =>
      rw [hnodes] at h
      cases hcheck : checkIds (first :: rest) [] with
      | ok _ => rfl
      | error e =>
        rw [hcheck] at h
        split_ifs at h <;> cases h
  intro node hmem hempty
  have hmatches := matches_of_checkIds hids node hmem
  rw [hempty] at hmatches
  exact absurd hmatches (by decide)

/-- An edge a passing step follows: `on_pass`, or `next`. -/
def Passes (d : Definition) (id target : String) : Prop :=
  ∃ node, d.node? id = some node ∧ target ≠ "" ∧ (target = node.next ∨ target = node.onPass)

/-- The next and on_pass edges form no cycle. -/
def Acyclic (d : Definition) : Prop := ∀ id, ¬Relation.TransGen d.Passes id id

end Definition

end Workflow
