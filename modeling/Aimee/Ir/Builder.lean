-- SUMMARY: The response builder: a builder is fed one delta at a time, which it accepts, refuses, or refuses half-way.
import Aimee.Ir.Response

/-!
# The response builder

`aimee_ir_response_builder_apply` of `modules/ir/aimee_ir.c`. A step answers whether the delta was
accepted and leaves a builder in either case: a delta is applied field by field, and the fields
before the one that is refused stay applied. The arrays `content` and `storage` are one list of
slots, allocation does not fail, and the buffers of a slot are as long as their texts.
-/

namespace AimeeIr

/-! ## Deltas -/

inductive DeltaType where
  | turnStart | blockStart | blockDelta | blockStop | turnStop | error
  deriving DecidableEq, Repr

/-- `aimee_delta_t`, zeroed by default. -/
structure Delta where
  type : DeltaType
  blockId : ℤ := 0
  kind : BlockType := .text
  messageGroup : ℤ := 0
  toolId : Option CString := none
  toolName : Option CString := none
  textDelta : Option CString := none
  signatureDelta : Option CString := none
  thinkingId : Option CString := none
  thinkingEncryptedContent : Option CString := none
  redactedContent : Option CString := none
  toolNamespace : Option CString := none
  toolInput : Option CJson := none
  toolArgsDelta : Option CString := none
  stopReason : StopReason := .unknown
  rawStopReason : Option CString := none
  usage : Usage := {}
  errorMessage : Option CString := none
  refusal : Option RefusalDetails := none

/-! ## Slots -/

/-- `IR_BUILDER_MAX_BYTES`. -/
def builderMaxBytes : ℕ := 16 * 1024 * 1024

/-- A block with its part of the builder's storage. -/
structure Slot where
  block : Block
  arguments : Option CString := none
  stopped : Bool := false

/-- The texts of a slot that the builder writes. -/
inductive Field where
  | text | signature | redacted | thinkingId | encrypted | toolId | toolName | toolNamespace | arguments
  deriving DecidableEq, Repr

def Slot.get (s : Slot) : Field → Option CString
  | .text => s.block.text
  | .signature => s.block.thinkingSignature
  | .redacted => s.block.thinkingRedacted
  | .thinkingId => s.block.thinkingId
  | .encrypted => s.block.thinkingEncryptedContent
  | .toolId => s.block.toolId
  | .toolName => s.block.toolName
  | .toolNamespace => s.block.toolNamespace
  | .arguments => s.arguments

def Slot.put (s : Slot) (value : Option CString) : Field → Slot
  | .text => { s with block := { s.block with text := value } }
  | .signature => { s with block := { s.block with thinkingSignature := value } }
  | .redacted => { s with block := { s.block with thinkingRedacted := value } }
  | .thinkingId => { s with block := { s.block with thinkingId := value } }
  | .encrypted => { s with block := { s.block with thinkingEncryptedContent := value } }
  | .toolId => { s with block := { s.block with toolId := value } }
  | .toolName => { s with block := { s.block with toolName := value } }
  | .toolNamespace => { s with block := { s.block with toolNamespace := value } }
  | .arguments => { s with arguments := value }

/-! ## Stages -/

/-- A slot that is being written, with the builder's count of bytes. -/
structure Work where
  slot : Slot
  bytes : ℕ

/-- One field of a delta: it is applied whole, or refused with nothing written. -/
abbrev Stage := Work → Option Work

/-- The stages up to the first that is refused. -/
def runStages : List Stage → Work → Bool × Work
  | [], w => (true, w)
  | stage :: rest, w =>
    match stage w with
    | none => (false, w)
    | some w' => runStages rest w'

/-- Whether a text still fits. -/
def fits (bytes : ℕ) (text : CString) : Bool :=
  text.val.length ≤ builderMaxBytes && bytes ≤ builderMaxBytes - text.val.length

/-- `builder_append_buffer`. -/
def appendBuffer (f : Field) (text : Option CString) : Stage := fun w =>
  match text with
  | none => some w
  | some text =>
    if fits w.bytes text then
      some ⟨w.slot.put (some (.concat [(w.slot.get f).getD .empty, text])) f, w.bytes + text.val.length⟩
    else none

/-- `builder_append`, for what arrives once. -/
def append (f : Field) (text : Option CString) : Stage := fun w =>
  if (w.slot.get f).isSome then none else appendBuffer f text w

/-- `builder_retain`, for what may be repeated. -/
def retain (f : Field) (value : Option CString) : Stage := fun w =>
  match value with
  | none => some w
  | some value =>
    match w.slot.get f with
    | some kept => if kept = value then some w else none
    | none => append f (some value) w

/-- A check that writes nothing. -/
def check (p : Slot → Bool) : Stage := fun w => if p w.slot then some w else none

/-- The initial arguments of a tool call. -/
def setInput (input : Option CJson) : Stage := fun w =>
  match input with
  | none => some w
  | some input =>
    match input.printUnformatted with
    | none => none
    | some json =>
      if json.length ≤ builderMaxBytes ∧ w.bytes ≤ builderMaxBytes - json.length then
        some ⟨{ w.slot with block := { w.slot.block with toolInput := some input } }, w.bytes + json.length⟩
      else none

/-- The writes of a block start. -/
def startStages (d : Delta) : List Stage :=
  if d.kind = .toolUse then
    [check fun _ => present d.toolId && present d.toolName && d.toolInput.all CJson.isObject,
      append .toolId d.toolId, append .toolName d.toolName, append .toolNamespace d.toolNamespace,
      setInput d.toolInput]
  else
    [appendBuffer .text (some (d.textDelta.getD .empty)), appendBuffer .signature d.signatureDelta,
      append .redacted d.redactedContent, retain .thinkingId d.thinkingId,
      retain .encrypted d.thinkingEncryptedContent]

/-- Whether a tool call takes an argument fragment: not behind initial arguments. -/
def takesArguments (d : Delta) (s : Slot) : Bool :=
  d.toolArgsDelta.isNone ||
    (s.block.type = .toolUse &&
      !(s.block.toolInput.any (fun input => input.arraySize ≠ 0) && present d.toolArgsDelta))

/-- The writes of a block delta. -/
def deltaStages (d : Delta) : List Stage :=
  [check (takesArguments d), appendBuffer .arguments d.toolArgsDelta,
    check fun s => d.textDelta.isNone || s.block.type = .text || s.block.type = .thinking,
    check fun s => (d.signatureDelta.isNone && d.redactedContent.isNone) || s.block.type = .thinking,
    appendBuffer .text d.textDelta, appendBuffer .signature d.signatureDelta,
    retain .thinkingId d.thinkingId, retain .encrypted d.thinkingEncryptedContent,
    -- A null payload is not a second one.
    if d.redactedContent.isSome then append .redacted d.redactedContent else some]

/-- A block stop: the argument text of a tool call becomes its input, an object. -/
def stopSlot (s : Slot) : Option Slot :=
  if s.block.type = .toolUse then
    if present s.arguments then
      match jsonParseFrame (s.arguments.getD .empty).val with
      | some (.object members) =>
        some { s with block := { s.block with toolInput := some (.object members) }, stopped := true }
      | _ => none
    else if s.block.toolInput.any CJson.isObject then some { s with stopped := true }
    else none
  else some { s with stopped := true }

/-! ## The builder -/

/-- `aimee_ir_response_builder_t`, zeroed by default. -/
structure Builder where
  header : Header := {}
  slots : List Slot := []
  capacity : ℕ := 0
  bytes : ℕ := 0
  started : Bool := false
  complete : Bool := false

def Builder.response (b : Builder) : Response := { b.header with content := b.slots.map (·.block) }

/-- `aimee_ir_response_builder_closed_prefix`. -/
def Builder.closedPrefix (b : Builder) : ℕ := (b.slots.takeWhile (·.stopped)).length

/-- `builder_grow`: room for one block more. -/
def builderGrow (b : Builder) : Option Builder :=
  if b.slots.length < b.capacity then some b
  else
    let doubled := if b.capacity ≠ 0 then b.capacity * 2 else 4
    let capacity := if maxBlocks < doubled then maxBlocks else doubled
    if capacity ≤ b.capacity then none else some { b with capacity := capacity }

/-- The checks on every delta: diagnostics end a filtered turn, a group belongs to the start of a
    text, and reasoning fields to a reasoning block. -/
def entryAllowed (b : Builder) (d : Delta) : Bool :=
  !b.complete &&
    d.refusal.all (fun details =>
      d.type = .turnStop && d.stopReason = .contentFilter && refusalDetailsValid details) &&
    (d.messageGroup = 0 ||
      (1 ≤ d.messageGroup && d.messageGroup ≤ maxBlocks && d.type = .blockStart && d.kind = .text)) &&
    ((d.thinkingId.isNone && d.thinkingEncryptedContent.isNone) ||
      (d.kind = .thinking && (d.type = .blockStart || d.type = .blockDelta)))

/-- The checks on a block start: no field of another kind, and the next index. -/
def startAllowed (b : Builder) (d : Delta) : Bool :=
  !(d.kind ≠ .thinking && (d.signatureDelta.isSome || d.redactedContent.isSome)) &&
    !(d.kind = .toolUse && d.textDelta.isSome) &&
    !(d.kind ≠ .toolUse &&
      (d.toolId.isSome || d.toolName.isSome || d.toolNamespace.isSome || d.toolInput.isSome ||
        d.toolArgsDelta.isSome)) &&
    d.blockId = b.slots.length && (d.kind = .text || d.kind = .thinking || d.kind = .toolUse)

/-- The slot of a delta that is not a start: there, and not stopped. -/
def openSlot (b : Builder) (d : Delta) : Option Slot :=
  (b.slots[d.blockId.toNat]?).filter (!·.stopped)

def applyTurnStart (b : Builder) : Bool × Builder :=
  if b.started then (false, b)
  else (true, { b with header := { b.header with role := some (.ofAscii "assistant") }, started := true })

def applyError (b : Builder) (d : Delta) : Bool × Builder :=
  let message := d.errorMessage.getD (.ofAscii "Provider stream failed")
  (true, { b with header := { b.header with errorMessage := some message, stopReason := .error }, complete := true })

/-- The size of refusal diagnostics: the record of two pointers, and each text with its terminator. -/
def refusalSize (details : RefusalDetails) : ℕ :=
  16 + (details.category.elim 0 fun s => s.val.length + 1) + details.explanation.elim 0 fun s => s.val.length + 1

/-- The diagnostics of a turn stop are kept before the response is looked at. -/
def keepRefusal (b : Builder) (d : Delta) : Option Builder :=
  match d.refusal with
  | none => some b
  | some details =>
    let size := refusalSize details
    if size ≤ builderMaxBytes ∧ b.bytes ≤ builderMaxBytes - size then
      some { b with header := { b.header with refusal := some details }, bytes := b.bytes + size }
    else none

def applyTurnStop (b : Builder) (d : Delta) : Bool × Builder :=
  if b.slots.any (!·.stopped) then (false, b)
  else
    match keepRefusal b d with
    | none => (false, b)
    | some b =>
      let b := { b with header :=
        { b.header with stopReason := d.stopReason, rawStopReason := d.rawStopReason, usage := d.usage } }
      if responseValid b.response then
        (true, { b with
          slots := b.slots.map fun s => { s with block := admitBlock b.response s.block }, complete := true })
      else (false, b)

def applyBlockStart (b : Builder) (d : Delta) : Bool × Builder :=
  if startAllowed b d then
    match builderGrow b with
    | none => (false, b)
    | some b =>
      let (ok, w) := runStages (startStages d)
        ⟨⟨{ type := d.kind, messageGroup := d.messageGroup }, none, false⟩, b.bytes⟩
      (ok, { b with slots := b.slots ++ [w.slot], bytes := w.bytes })
  else (false, b)

def applyBlockStop (b : Builder) (d : Delta) : Bool × Builder :=
  match openSlot b d with
  | none => (false, b)
  | some slot =>
    match stopSlot slot with
    | none => (false, b)
    | some slot => (true, { b with slots := b.slots.set d.blockId.toNat slot })

def applyBlockDelta (b : Builder) (d : Delta) : Bool × Builder :=
  match openSlot b d with
  | none => (false, b)
  | some slot =>
    if d.kind = slot.block.type then
      let (ok, w) := runStages (deltaStages d) ⟨slot, b.bytes⟩
      (ok, { b with slots := b.slots.set d.blockId.toNat w.slot, bytes := w.bytes })
    else (false, b)

/-- `aimee_ir_response_builder_apply`. -/
def builderApply (b : Builder) (d : Delta) : Bool × Builder :=
  if entryAllowed b d then
    if d.type = .turnStart then applyTurnStart b
    else if !b.started then (false, b)
    else if d.type = .error then applyError b d
    else if d.type = .turnStop then applyTurnStop b d
    else if d.blockId < 0 ∨ maxBlocks ≤ d.blockId then (false, b)
    else if d.type = .blockStart then applyBlockStart b d
    else if d.type = .blockStop then applyBlockStop b d
    else applyBlockDelta b d
  else (false, b)

/-- A builder fed with deltas one after another, whether it accepts them or not. -/
def builderRun (b : Builder) (ds : List Delta) : Builder := ds.foldl (fun b d => (builderApply b d).2) b

end AimeeIr
