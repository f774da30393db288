-- SUMMARY: Blocks and responses of the C runtime: the block record, response validity, and the classification of context.
import Aimee.Ir.Frame

/-!
# Blocks and responses

`aimee_block_t` and `aimee_response_t` of `aimee/ir/aimee_ir.h`, with the checks of
`modules/ir/aimee_ir.c` on them. A text is a C string, and `none` is the null pointer. The native
sidecars (`raw`) and the identity of a response (`id`, `model`) are read by no modelled function.
-/

namespace AimeeIr

/-- `AIMEE_IR_MAX_BLOCKS`. -/
def maxBlocks : ℕ := 4096

/-! ## Blocks -/

inductive BlockType where
  | text | toolUse | toolResult | image | document | thinking | unknown
  deriving DecidableEq, Repr

inductive ContextOrigin where
  | unknown | platform | operator | user | tool | retrieval | memory | model
  deriving DecidableEq, Repr

inductive ContextAuthority where
  | diagnostic | evidence | taskInstruction | policy
  deriving DecidableEq, Repr

inductive ContextTrust where
  | unknown | untrusted | unverified | reviewed | verified
  deriving DecidableEq, Repr

inductive ContextSensitivity where
  | pub | internal | confidential | restricted
  deriving DecidableEq, Repr

/-- `aimee_context_meta_t`, zeroed by default. -/
structure ContextMeta where
  origin : ContextOrigin := .unknown
  authority : ContextAuthority := .diagnostic
  trust : ContextTrust := .unknown
  sensitivity : ContextSensitivity := .pub
  modelVisible : Bool := false
  revisionDomain : CString := .empty
  revisionScope : CString := .empty
  revisionEpoch : UInt64 := 0
  deriving DecidableEq

/-- `aimee_block_t`, zeroed by default. -/
structure Block where
  type : BlockType
  context : ContextMeta := {}
  text : Option CString := none
  thinkingSignature : Option CString := none
  thinkingBinding : Option CString := none
  thinkingId : Option CString := none
  thinkingEncryptedContent : Option CString := none
  thinkingRedacted : Option CString := none
  toolId : Option CString := none
  toolName : Option CString := none
  toolNamespace : Option CString := none
  toolInput : Option CJson := none
  toolResult : Option CJson := none
  toolIsError : Bool := false
  mediaType : Option CString := none
  mediaRef : Option CString := none
  cacheControl : Option CString := none
  cacheTtl : Option CString := none
  messageGroup : ℤ := 0

/-- A string that is neither null nor empty. -/
def present (s : Option CString) : Bool := s.any fun s => s.val ≠ []

/-- `aimee_ir_thinking_binding_valid`, of a binding that is there: `ap1:` and three digests. -/
def thinkingBindingValid (binding : CString) : Bool :=
  let digit (c : UInt8) := (48 ≤ c && c ≤ 57) || (97 ≤ c && c ≤ 102)
  binding.val.length = 198 && binding.val.take 4 = ascii "ap1:" && binding.val.getD 68 0 = 58 &&
    binding.val.getD 133 0 = 58 &&
    (List.range 198).all fun i => i < 4 || i = 68 || i = 133 || digit (binding.val.getD i 0)

/-- `aimee_ir_block_valid`. -/
def blockValid (b : Block) : Bool :=
  b.type ≠ .unknown && 0 ≤ b.messageGroup && b.messageGroup ≤ 4096 &&
    !((b.type = .toolUse || b.type = .toolResult) && !present b.toolId) &&
    b.toolInput.all jsonUnique && b.toolResult.all jsonUnique &&
    b.thinkingBinding.all (fun binding => b.type = .thinking && thinkingBindingValid binding) &&
    !(b.type = .toolUse && !present b.toolName) &&
    !((b.type = .image || b.type = .document) && !present b.mediaRef)

/-! ## Classification -/

/-- Whether `classify_blocks` passes a block over: its context says something already. -/
def ContextMeta.classified (c : ContextMeta) : Bool :=
  c.origin ≠ .unknown || c.authority ≠ .diagnostic || c.trust ≠ .unknown || c.sensitivity ≠ .pub ||
    c.revisionDomain ≠ .empty || c.revisionScope ≠ .empty || c.revisionEpoch ≠ 0

/-- One block of `classify_blocks`. -/
def classifyBlock (origin : ContextOrigin) (authority : ContextAuthority) (trust : ContextTrust) (b : Block) : Block :=
  if b.context.classified then b
  else
    let (origin, authority) :=
      match b.type with
      | .toolResult => (ContextOrigin.tool, ContextAuthority.evidence)
      | .thinking => (.model, .diagnostic)
      | _ => (origin, authority)
    { b with context :=
      { origin := origin, authority := authority, trust := trust, sensitivity := .internal, modelVisible := true } }

/-- The message of `aimee_ir_classify_context`: what its role makes of its blocks. -/
def classifyMessage (role : CString) : Block → Block :=
  if role = .ofAscii "user" then classifyBlock .user .taskInstruction .unverified
  else if role = .ofAscii "assistant" then classifyBlock .model .evidence .unverified
  else if role = .ofAscii "tool" then classifyBlock .tool .evidence .unverified
  else classifyBlock .unknown .evidence .unverified

/-! ## Responses -/

inductive StopReason where
  | unknown | endTurn | maxTokens | toolUse | stopSequence | contentFilter | error
  deriving DecidableEq, Repr

/-- `aimee_refusal_details_t`. -/
structure RefusalDetails where
  category : Option CString
  explanation : Option CString

/-- The loop of `refusal_text_valid`; the fuel is the number of bytes left. -/
def utf8From : ℕ → List UInt8 → Bool
  | _, [] => true
  | 0, _ :: _ => false
  | fuel + 1, cp :: rest =>
    if cp < 0x80 then utf8From fuel rest
    else
      match afterMultibyte cp rest with
      | none => false
      | some rest => utf8From fuel rest

def refusalTextValid (text : Option CString) (maximum : ℕ) : Bool :=
  text.all fun s => s.val.length ≤ maximum && utf8From s.val.length s.val

/-- `aimee_refusal_details_valid`. -/
def refusalDetailsValid (details : RefusalDetails) : Bool :=
  refusalTextValid details.category 64 && refusalTextValid details.explanation 4096

/-- The token counts of a turn, as `aimee_response_t` and `aimee_delta_t` hold them. -/
structure Usage where
  input : ℤ := 0
  output : ℤ := 0
  cacheRead : ℤ := 0
  cacheWrite : ℤ := 0
  reasoning : ℤ := 0
  unobserved : ℤ := 0
  deriving DecidableEq

/-- The fields of `aimee_response_t` besides its content. -/
structure Header where
  role : Option CString := none
  stopReason : StopReason := .unknown
  errorMessage : Option CString := none
  rawStopReason : Option CString := none
  usage : Usage := {}
  refusal : Option RefusalDetails := none

/-- `aimee_response_t`. -/
structure Response extends Header where
  content : List Block

/-- The counts of a response are observed, or there are none. -/
def Usage.valid (u : Usage) : Bool :=
  0 ≤ u.input && 0 ≤ u.output && 0 ≤ u.cacheRead && 0 ≤ u.cacheWrite && 0 ≤ u.reasoning &&
    (u.unobserved = 0 || u.unobserved = 1) &&
    !(u.unobserved ≠ 0 && (u.input ≠ 0 || u.output ≠ 0 || u.cacheRead ≠ 0 || u.cacheWrite ≠ 0 || u.reasoning ≠ 0))

/-- The block checks of `aimee_ir_response_valid`, given the tool ids of the blocks before. -/
def contentValid (ids : List (Option CString)) : List Block → Bool
  | [] => true
  | b :: rest =>
    blockValid b && b.type ≠ .toolResult && !(b.type = .toolUse && !b.toolInput.any CJson.isObject) &&
      !(b.type = .toolUse && ids.contains b.toolId) &&
      contentValid (if b.type = .toolUse then b.toolId :: ids else ids) rest

/-- `aimee_ir_response_valid`. -/
def responseValid (r : Response) : Bool :=
  r.content.length ≤ maxBlocks && r.role.all (· = .ofAscii "assistant") &&
    r.refusal.all (fun details =>
      r.errorMessage.isNone && r.stopReason = .contentFilter && refusalDetailsValid details) &&
    r.usage.valid && contentValid [] r.content

/-- What `aimee_ir_response_admit` makes of each block of a valid response. -/
def admitBlock (r : Response) : Block → Block := classifyMessage (r.role.getD (.ofAscii "assistant"))

end AimeeIr
