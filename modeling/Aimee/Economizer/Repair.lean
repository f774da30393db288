-- SUMMARY: The repair of tool cycles in a canonical history, and what it is for.
import Aimee.Ir.Messages
import Aimee.Lib.Cycles

/-!
# Tool-history repair

`repair.go`. One pass pairs the results of a history with the calls of the current cycle: a result
that answers no open call is dropped, and a call that is still open when its cycle ends gets a
diagnostic result. Blocks are read through their `type` and `tool_id` members, as the pass does.
-/

namespace Economizer

open JsonValue Cycles

/-! ## The pass -/

def canonicalHistory (messages : List JsonValue) : Bool :=
  (Ir.decodeMessages (array messages)).isSome

def messageContent (m : JsonValue) : Option (List JsonValue) := (m.get "blocks").bind items?

def isType (type : String) (block : JsonValue) : Bool := block.getString "type" = utf8 type

def missingResultMsg : String :=
  "[No tool result is available in this history. Execution outcome is unknown; reconcile before retrying.]"

/-- The provenance of a diagnostic: it describes an absent result, not an outcome. -/
def missingDiagnostic : JsonValue :=
  object [(utf8 "origin", number (utf8 "1")),         -- platform
    (utf8 "authority", number (utf8 "0")),            -- diagnostic
    (utf8 "trust", number (utf8 "4")),                -- verified absence in this view
    (utf8 "sensitivity", number (utf8 "1")),          -- internal
    (utf8 "model_visible", bool true),
    (utf8 "revision_domain", string (utf8 "history-repair")),
    (utf8 "revision_scope", string (utf8 "unresolved-tool-result")),
    (utf8 "revision_epoch", string (utf8 "0"))]

def missingBlock (id : Text) : JsonValue :=
  object [(utf8 "type", string (utf8 "tool_result")),
    (utf8 "tool_id", string id),
    (utf8 "content", string (utf8 missingResultMsg)),
    (utf8 "is_error", bool true),
    (utf8 "context", missingDiagnostic)]

/-- The message `flush` puts in for a call that has no result. -/
def missingResult (id : Text) : JsonValue :=
  object [(utf8 "role", string (utf8 "tool")), (utf8 "blocks", array [missingBlock id])]

def isResult (block : JsonValue) : Bool := isType "tool_result" block

structure RepairState where
  rebuilt : List JsonValue := []
  pending : List Text := []
  repairs : ℕ := 0

/-- `flush`: the calls still pending are answered. An answered call left a blank. -/
def RepairState.flush (s : RepairState) : RepairState :=
  let missing := s.pending.filter (· ≠ [])
  { rebuilt := s.rebuilt ++ missing.map missingResult, pending := [], repairs := s.repairs + missing.length }

/-- The pending calls with the first one of that id blanked. -/
def answerCall (id : Text) : List Text → Option (List Text)
  | [] => none
  | call :: rest =>
    if id ≠ [] ∧ call = id then some ([] :: rest) else (answerCall id rest).map (call :: ·)

/-- The blocks that are kept, the pending calls after them, and how many results were dropped. -/
def keepBlocks : List Text → List JsonValue → List JsonValue × List Text × ℕ
  | pending, [] => ([], pending, 0)
  | pending, block :: rest =>
    if isResult block then
      match answerCall (block.getString "tool_id") pending with
      | none =>
        let (kept, pending, dropped) := keepBlocks pending rest
        (kept, pending, dropped + 1)
      | some pending =>
        let (kept, pending, dropped) := keepBlocks pending rest
        (block :: kept, pending, dropped)
    else
      let (kept, pending, dropped) := keepBlocks pending rest
      (block :: kept, pending, dropped)

/-- The pending calls with those of a message; none for a call without an id or one that is pending. -/
def addCalls : List Text → List JsonValue → Option (List Text)
  | pending, [] => some pending
  | pending, block :: rest =>
    if isType "tool_use" block then
      let id := block.getString "tool_id"
      if id = [] ∨ id ∈ pending then none else addCalls (pending ++ [id]) rest
    else addCalls pending rest

/-- One message of the pass. Whether the cycle ends is decided from the message as it came. -/
def repairMessage (s : RepairState) (m : JsonValue) : Option RepairState :=
  match messageContent m with
  | none => none
  | some blocks =>
    let s := if blocks.any isResult then s else s.flush
    let (kept, pending, dropped) := keepBlocks s.pending blocks
    match addCalls pending blocks with
    | none => none
    | some pending => some
        { rebuilt := if kept = [] ∧ blocks ≠ [] then s.rebuilt else s.rebuilt ++ [m.set "blocks" (array kept)]
          pending := pending
          repairs := s.repairs + dropped }

/-- `repairCanonicalHistory`: the count, -1 for a refusal, and the messages after. -/
def repairCanonicalHistory (messages : List JsonValue) : ℤ × List JsonValue :=
  match messages.foldlM repairMessage {} with
  | none => (-1, messages)
  | some s =>
    let s := s.flush
    (s.repairs, if 0 < s.repairs then s.rebuilt else messages)

def messageHistoryRepair (messages : JsonValue) : ℤ × JsonValue :=
  match messages with
  | array items =>
    if canonicalHistory items then
      let (repairs, items) := repairCanonicalHistory items
      (repairs, array items)
    else (-1, messages)
  | _ => (-1, messages)

/-! ## Open calls -/

/-- The blocks of a message. -/
def blocksOf (m : JsonValue) : List JsonValue := (messageContent m).getD []

/-- The ids of the blocks of a type. -/
def idsOf (type : String) (blocks : List JsonValue) : List Text :=
  (blocks.filter (isType type)).map (getString · "tool_id")

def toolCalls (m : JsonValue) : List Text := idsOf "tool_use" (blocksOf m)

def toolResults (m : JsonValue) : List Text := idsOf "tool_result" (blocksOf m)

/-- The blocks without the results that answer no open call. -/
def answering : List Text → List JsonValue → List JsonValue
  | _, [] => []
  | opened, block :: rest =>
    if isResult block then
      if block.getString "tool_id" ∈ opened then
        block :: answering (opened.erase (block.getString "tool_id")) rest
      else answering opened rest
    else block :: answering opened rest

/-- The results of a history that answer a call that is open where they stand. -/
def answeredResults : List Text → List JsonValue → List JsonValue
  | _, [] => []
  | opened, m :: ms =>
    (answering opened (blocksOf m)).filter isResult ++
      answeredResults (openAfter toolCalls toolResults opened m) ms

/-! ## What the repair is for -/

/-- The repaired history is settled, keeps every block but the results, keeps the results that
    answered an open call, and needs no repair. -/
structure Normalised (before after : List JsonValue) : Prop where
  settled : Settled toolCalls toolResults [] after
  others : after.flatMap (fun m => (blocksOf m).filter (!isResult ·)) =
    before.flatMap (fun m => (blocksOf m).filter (!isResult ·))
  answered : (answeredResults [] before).Sublist (after.flatMap fun m => (blocksOf m).filter isResult)
  again : messageHistoryRepair (array after) = (0, array after)

/-- What a call of the repair is held to. -/
structure RepairLaw (messages : JsonValue) : Prop where
  refused : (messageHistoryRepair messages).1 = -1 → (messageHistoryRepair messages).2 = messages
  repaired : (messageHistoryRepair messages).1 ≠ -1 →
    ∃ before after, messages = array before ∧ (messageHistoryRepair messages).2 = array after ∧
      Normalised before after

/-! ## When it does it -/

/-- The pass can pair the calls of a history: every message spells its blocks, every call has an id,
    and no id is opened while it is open. -/
def Pairable : List Text → List JsonValue → Prop
  | _, [] => True
  | opened, m :: ms =>
    (messageContent m).isSome ∧ [] ∉ toolCalls m ∧ (openAfter toolCalls toolResults opened m).Nodup ∧
      Pairable (openAfter toolCalls toolResults opened m) ms

/-- A message that stays in an open run with other blocks when all its results are dropped. -/
def Stranded (opened : List Text) (m : JsonValue) : Prop :=
  opened ≠ [] ∧ toolResults m ≠ [] ∧ (∀ id ∈ toolResults m, id ∉ opened) ∧ ∃ b ∈ blocksOf m, isResult b = false

def NoneStranded : List Text → List JsonValue → Prop
  | _, [] => True
  | opened, m :: ms => ¬Stranded opened m ∧ NoneStranded (openAfter toolCalls toolResults opened m) ms

/-- A message without the results that answer no open call; none when it held nothing else. -/
def pruneMessage (opened : List Text) (m : JsonValue) : Option JsonValue :=
  if answering opened (blocksOf m) = [] ∧ blocksOf m ≠ [] then none
  else some (m.set "blocks" (array (answering opened (blocksOf m))))

/-- A history without the results that answer no open call. -/
def pruned : List Text → List JsonValue → List JsonValue
  | _, [] => []
  | opened, m :: ms =>
    (pruneMessage opened m).toList ++ pruned (openAfter toolCalls toolResults opened m) ms

/-- How many calls of a history go without an answer. -/
def unanswered : List Text → List JsonValue → ℕ
  | opened, [] => opened.length
  | opened, m :: ms =>
    (if toolResults m = [] then opened.length else 0) +
      unanswered (openAfter toolCalls toolResults opened m) ms

/-- The histories one pass settles: no message is stranded, and without the stray results the
    history is canonical, with room for the answers that are missing. -/
structure Mendable (messages : List JsonValue) : Prop where
  stranded : NoneStranded [] messages
  canonical : canonicalHistory (pruned [] messages) = true
  room : (pruned [] messages).length + unanswered [] messages ≤ Ir.maxMessages

end Economizer
