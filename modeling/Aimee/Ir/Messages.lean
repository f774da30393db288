-- SUMMARY: Admission of canonical messages: the typed decoding of blocks and messages and the checks of the contract.
import Aimee.Economizer.Json

/-!
# Canonical messages

`DecodeMessages` of `ir/request.go`, with `Decode`, `ValidJSON` and `ValidBlock` of
`ir/session.go`, over the tree that the printed messages are read back to. The decoder takes a
member whose name is a field's up to letter case, later members overwrite earlier ones, and `null`
leaves a field as it was or clears a pointer; only the names inside a context are compared exactly.
-/

namespace Ir

open Economizer

/-! ## Well-formed JSON -/

mutual

/-- `ValidJSON` of a tree as it prints: scalar strings without NUL, names that occur once, and no
    value below the depth limit. -/
def validJson (depth : ℕ) : JsonValue → Bool
  | .null => depth ≤ JsonValue.maxDepth
  | .bool _ => depth ≤ JsonValue.maxDepth
  | .number lexeme => depth ≤ JsonValue.maxDepth && CJson.validNumberToken lexeme
  | .string value => depth ≤ JsonValue.maxDepth && validString value
  | .array items => depth ≤ JsonValue.maxDepth && validItems (depth + 1) items
  | .object members => depth ≤ JsonValue.maxDepth && validMembers (depth + 1) [] members

def validItems (depth : ℕ) : List JsonValue → Bool
  | [] => true
  | item :: rest => validJson depth item && validItems depth rest

def validMembers (depth : ℕ) (names : List Text) : List (Text × JsonValue) → Bool
  | [] => true
  | (name, value) :: rest =>
    validString name && !names.contains name && validJson depth value &&
      validMembers depth (name :: names) rest

/-- A string the printed form of which is read back. -/
def validString (s : Text) : Bool := JsonValue.validUtf8 s && !s.contains 0

end

/-! ## Typed decoding -/

/-- `foldName` of the decoder: letters without their case, with the two characters outside ASCII
    that fold into it. -/
def foldName : Text → Text
  | 0xC5 :: 0xBF :: rest => 115 :: foldName rest          -- ſ
  | 0xE2 :: 0x84 :: 0xAA :: rest => 107 :: foldName rest  -- the Kelvin sign
  | c :: rest => (if 65 ≤ c ∧ c ≤ 90 then c + 32 else c) :: foldName rest
  | [] => []

/-- The field a member is decoded into: an exact match first. -/
def fieldOf (fields : List String) (key : Text) : Option String :=
  match fields.find? fun f => utf8 f = key with
  | some f => some f
  | none => fields.find? fun f => foldName (utf8 f) = foldName key

/-- The members of an object, decoded into their fields one after another. -/
def decodeMembers {S : Type} (fields : List String) (assign : S → String → JsonValue → Option S) (s : S)
    (members : List (Text × JsonValue)) : Option S :=
  members.foldlM (fun s e => (fieldOf fields e.1).bind (assign s · e.2)) s

def decodeString (old : Text) : JsonValue → Option Text
  | .string s => some s
  | .null => some old
  | _ => none

def decodeStringPtr : JsonValue → Option (Option Text)
  | .string s => some (some s)
  | .null => some none
  | _ => none

def decodeBool (old : Bool) : JsonValue → Option Bool
  | .bool b => some b
  | .null => some old
  | _ => none

def decodeBoolPtr : JsonValue → Option (Option Bool)
  | .bool b => some (some b)
  | .null => some none
  | _ => none

def isDigit (c : UInt8) : Bool := 48 ≤ c && c ≤ 57

def digitsValue (s : Text) : ℕ := s.foldl (fun n c => 10 * n + (c.toNat - 48)) 0

/-- `strconv.ParseInt` of a number token. -/
def parseInt (lexeme : Text) : Option ℤ :=
  let negative := lexeme.head? = some 45
  let digits := if negative then lexeme.tail else lexeme
  let n : ℤ := if negative then -digitsValue digits else digitsValue digits
  if digits ≠ [] ∧ digits.all isDigit ∧ -2 ^ 63 ≤ n ∧ n < 2 ^ 63 then some n else none

def decodeInt : JsonValue → Option ℤ
  | .number lexeme => parseInt lexeme
  | _ => none

def decodeIntPtr : JsonValue → Option (Option ℤ)
  | .number lexeme => (parseInt lexeme).map some
  | .null => some none
  | _ => none

structure Context where
  origin : ℤ
  authority : ℤ
  trust : ℤ
  sensitivity : ℤ
  modelVisible : Bool
  revisionDomain : Text
  revisionScope : Text
  revisionEpoch : Text

/-- `canonicalUnsigned` with 64 bits. -/
def canonicalUnsigned (value : Text) : Bool :=
  value ≠ [] && value.all isDigit && digitsValue value < 2 ^ 64 &&
    (value.length = 1 || value.head? ≠ some 48)

def Context.valid (c : Context) : Bool :=
  0 ≤ c.origin && c.origin ≤ 7 && 0 ≤ c.authority && c.authority ≤ 3 && 0 ≤ c.trust && c.trust ≤ 4 &&
    0 ≤ c.sensitivity && c.sensitivity ≤ 3 && c.revisionDomain.length < 48 &&
    c.revisionScope.length < 128 && (c.revisionEpoch = [] || canonicalUnsigned c.revisionEpoch)

/-- `Context.UnmarshalJSON`: exactly the eight members, by their own names. -/
def decodeContext (v : JsonValue) : Option Context :=
  match v with
  | .object members => do
      if members.length ≠ 8 then none
      let origin ← decodeInt (← v.get "origin")
      let authority ← decodeInt (← v.get "authority")
      let trust ← decodeInt (← v.get "trust")
      let sensitivity ← decodeInt (← v.get "sensitivity")
      let modelVisible ← decodeBoolPtr (← v.get "model_visible")
      let revisionDomain ← decodeStringPtr (← v.get "revision_domain")
      let revisionScope ← decodeStringPtr (← v.get "revision_scope")
      let revisionEpoch ← decodeStringPtr (← v.get "revision_epoch")
      let c : Context :=
        { origin := origin, authority := authority, trust := trust, sensitivity := sensitivity
          modelVisible := ← modelVisible, revisionDomain := ← revisionDomain
          revisionScope := ← revisionScope, revisionEpoch := ← revisionEpoch }
      if c.revisionEpoch ≠ [] ∧ c.valid then some c else none
  | _ => none

structure Block where
  type : Text := []
  text : Option Text := none
  signature : Option Text := none
  thinkingBinding : Option Text := none
  redactedContent : Option Text := none
  thinkingId : Option Text := none
  encryptedContent : Option Text := none
  cacheControl : Option Text := none
  cacheTtl : Option Text := none
  messageGroup : Option ℤ := none
  toolId : Text := []
  name : Text := []
  nameSpace : Text := []
  input : Option JsonValue := none
  content : Option JsonValue := none
  isError : Option Bool := none
  mediaType : Text := []
  mediaRef : Text := []
  context : Option Context := none

def blockFields : List String :=
  ["type", "text", "signature", "thinking_binding", "redacted_content", "thinking_id", "encrypted_content",
    "cache_control", "cache_ttl", "message_group", "tool_id", "name", "namespace", "input", "content",
    "is_error", "media_type", "media_ref", "context"]

/-- A member of a block, decoded into its field. -/
def Block.assign (b : Block) (field : String) (v : JsonValue) : Option Block :=
  match field with
  | "type" => (decodeString b.type v).map ({ b with type := · })
  | "text" => (decodeStringPtr v).map ({ b with text := · })
  | "signature" => (decodeStringPtr v).map ({ b with signature := · })
  | "thinking_binding" => (decodeStringPtr v).map ({ b with thinkingBinding := · })
  | "redacted_content" => (decodeStringPtr v).map ({ b with redactedContent := · })
  | "thinking_id" => (decodeStringPtr v).map ({ b with thinkingId := · })
  | "encrypted_content" => (decodeStringPtr v).map ({ b with encryptedContent := · })
  | "cache_control" => (decodeStringPtr v).map ({ b with cacheControl := · })
  | "cache_ttl" => (decodeStringPtr v).map ({ b with cacheTtl := · })
  | "message_group" => (decodeIntPtr v).map ({ b with messageGroup := · })
  | "tool_id" => (decodeString b.toolId v).map ({ b with toolId := · })
  | "name" => (decodeString b.name v).map ({ b with name := · })
  | "namespace" => (decodeString b.nameSpace v).map ({ b with nameSpace := · })
  | "input" => some { b with input := some v }
  | "content" => some { b with content := some v }
  | "is_error" => (decodeBoolPtr v).map ({ b with isError := · })
  | "media_type" => (decodeString b.mediaType v).map ({ b with mediaType := · })
  | "media_ref" => (decodeString b.mediaRef v).map ({ b with mediaRef := · })
  | "context" =>
    match v with
    | .null => some { b with context := none }
    | v => (decodeContext v).map ({ b with context := some · })
  | _ => none

/-- A block, decoded over what the slice held at its place. -/
def decodeBlock (old : Block) : JsonValue → Option Block
  | .object members => decodeMembers blockFields Block.assign old members
  | .null => some old
  | _ => none

def decodeBlocks (old : List Block) : List JsonValue → Option (List Block)
  | [] => some []
  | item :: rest => do
      let b ← decodeBlock (old.headD {}) item
      let bs ← decodeBlocks old.tail rest
      return b :: bs

structure Message where
  contentScalar : Bool := false
  role : Text := []
  blocks : Option (List Block) := none
  boundary : Bool := false

def messageFields : List String := ["content_scalar", "role", "blocks", "_compaction_boundary"]

def Message.assign (m : Message) (field : String) (v : JsonValue) : Option Message :=
  match field with
  | "content_scalar" => (decodeBool m.contentScalar v).map ({ m with contentScalar := · })
  | "role" => (decodeString m.role v).map ({ m with role := · })
  | "blocks" =>
    match v with
    | .array items => (decodeBlocks (m.blocks.getD []) items).map ({ m with blocks := some · })
    | .null => some { m with blocks := none }
    | _ => none
  | "_compaction_boundary" => (decodeBool m.boundary v).map ({ m with boundary := · })
  | _ => none

def decodeMessage : JsonValue → Option Message
  | .object members => decodeMembers messageFields Message.assign {} members
  | .null => some {}
  | _ => none

/-! ## The contract -/

/-- The members `json.Marshal` writes of a block. -/
def Block.present (b : Block) : List String :=
  let ptr {α : Type} (name : String) (v : Option α) := if v.isSome then [name] else []
  let str (name : String) (v : Text) := if v = [] then [] else [name]
  ["type"] ++ ptr "text" b.text ++ ptr "signature" b.signature ++
    ptr "thinking_binding" b.thinkingBinding ++ ptr "redacted_content" b.redactedContent ++
    ptr "thinking_id" b.thinkingId ++ ptr "encrypted_content" b.encryptedContent ++
    ptr "cache_control" b.cacheControl ++ ptr "cache_ttl" b.cacheTtl ++
    ptr "message_group" b.messageGroup ++ str "tool_id" b.toolId ++ str "name" b.name ++
    str "namespace" b.nameSpace ++ ptr "input" b.input ++ ptr "content" b.content ++
    ptr "is_error" b.isError ++ str "media_type" b.mediaType ++ str "media_ref" b.mediaRef ++
    ptr "context" b.context

/-- The kinds of a block and the members each may have beside the common ones. -/
def blockKinds : List (String × List String) :=
  [("text", ["text"]),
    ("thinking", ["text", "signature", "thinking_binding", "redacted_content", "thinking_id",
      "encrypted_content"]),
    ("tool_use", ["tool_id", "name", "namespace", "input"]),
    ("tool_result", ["tool_id", "content", "is_error"]),
    ("image", ["media_type", "media_ref"]), ("document", ["media_type", "media_ref"])]

def commonMembers : List String := ["type", "cache_control", "cache_ttl", "message_group", "context"]

/-- `ap1:` and three groups of lower-case hexadecimal digits. -/
def validBinding (value : Text) : Bool :=
  value.length = 198 && value.take 4 = utf8 "ap1:" &&
    value.zipIdx.all fun (c, i) =>
      if i < 4 then true
      else if i = 68 ∨ i = 133 then c = 58
      else isDigit c || 97 ≤ c && c ≤ 102

/-- `validTypedBlock`: `ValidBlock` of the block as it is written. -/
def Block.valid (b : Block) : Bool :=
  match blockKinds.find? fun k => utf8 k.1 = b.type with
  | none => false
  | some (kind, specific) =>
    (b.messageGroup.all fun g => 1 ≤ g && g ≤ 4096) &&
      (b.present.all fun name => commonMembers.contains name || specific.contains name) &&
      b.thinkingBinding.all validBinding &&
      match kind with
      | "text" => b.text.isSome
      | "thinking" => b.text.isSome
      | "tool_use" => b.toolId ≠ [] && b.name ≠ []
      | "tool_result" => b.toolId ≠ []
      | _ => b.mediaRef ≠ []

def validRole (role : Text) : Bool :=
  ["system", "developer", "user", "assistant", "tool"].any fun r => utf8 r = role

def maxMessages : ℕ := 4096

/-- The checks of `DecodeMessages` on one message. -/
def Message.valid (m : Message) : Bool :=
  match m.blocks with
  | none => false
  | some blocks =>
    validRole m.role && blocks.length ≤ maxMessages &&
      (!m.contentScalar || blocks.length = 1 && blocks.all (·.type = utf8 "text")) &&
      blocks.all fun b => b.valid && (b.type ≠ utf8 "tool_use" || m.role = utf8 "assistant") &&
        (b.type ≠ utf8 "tool_result" || m.role = utf8 "user" || m.role = utf8 "tool")

/-- `DecodeMessages` of the bytes an array prints to. -/
def decodeMessages (v : JsonValue) : Option (List Message) :=
  match v with
  | .array items => do
      if !validJson 0 v then none
      let messages ← items.mapM decodeMessage
      if messages.length ≤ maxMessages ∧ messages.all (·.valid) then some messages else none
  | _ => none

end Ir
