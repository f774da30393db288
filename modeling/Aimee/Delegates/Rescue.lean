-- SUMMARY: Tool calls written into prose: what a rescue collects, the cutting of reasoning blocks, and the scans for tags, attributes and objects.
import Aimee.Economizer.JsonCompact
import Aimee.Lib.Slices

/-!
# Rescue

`rescue.go` and `rescue_json.go`. A model that does not use the tool-call channel writes its calls
into the text. The functions here cut the text at offsets they compute, so each of them is a program
that may fault.
-/

namespace Delegates

open Slices
open Economizer (Text utf8 JsonValue)

/-! ## What a rescue collects -/

/-- One call more than may be dispatched, so that an overflow shows. -/
def rescueMaxToolCalls : ℕ := 4097

structure RescueToolCall where
  id : Text
  name : Text
  arguments : Text
  deriving DecidableEq

structure RescueResult where
  isToolCall : Bool
  content : Text
  calls : List RescueToolCall
  deriving DecidableEq

def RescueResult.empty : RescueResult where
  isToolCall := false
  content := []
  calls := []

def RescueResult.full (r : RescueResult) : Bool := rescueMaxToolCalls ≤ r.calls.length

def RescueResult.appendCall (r : RescueResult) (name arguments : Text) : RescueResult :=
  { r with
    calls := r.calls ++
      [{ id := utf8 "xml_call_" ++ Wire.decimal (r.calls.length + 1), name := name, arguments := arguments }] }

def isCSpace (c : UInt8) : Bool := [32, 9, 10, 11, 12, 13].contains c

def isAlnum (c : UInt8) : Bool := 48 ≤ c && c ≤ 57 || 97 ≤ c && c ≤ 122 || 65 ≤ c && c ≤ 90

/-- A text without the white space of C at its ends. -/
def trimC (s : Text) : Text := ((s.dropWhile isCSpace).reverse.dropWhile isCSpace).reverse

/-- Leading prose, where there is any and none was recorded. -/
def RescueResult.setContentIfEmpty (r : RescueResult) (pre : Text) : RescueResult :=
  if r.content = [] ∧ trimC pre ≠ [] then { r with content := trimC pre } else r

/-- The caller's inventory: a name with a namespace is resolved later, `respond` is always there. -/
def known (names : List Text) (name : Text) : Bool :=
  name ≠ [] && (name = utf8 "respond" || name.contains 58 || names.contains name)

def lowerByte (c : UInt8) : UInt8 := if 65 ≤ c && c ≤ 90 then c + 32 else c

/-- `Bash` comes out of the general rule as well. -/
def normalizeToolName (name : Text) : Text := name.map fun c => if c = 45 then 95 else lowerByte c

/-! ## Reasoning blocks -/

def indexCI (haystack needle : Text) : Option ℕ :=
  if haystack = [] ∨ needle = [] then none else index (haystack.map lowerByte) (needle.map lowerByte)

/-- One block less; an opener without an end takes the rest of the text with it. -/
def removeReasoningStep (openTag closeTag s : Text) : Run (Text ⊕ Text) :=
  match indexCI s openTag with
  | none => .ok (.inr s)
  | some start => do
      let rest ← sliceFrom s (start + openTag.length)
      let before ← slice s 0 start
      match indexCI rest closeTag with
      | none => .ok (.inr before)
      | some stop => do
          let behind ← sliceFrom rest (stop + closeTag.length)
          .ok (.inl (before ++ behind))

def removeReasoningBlock (s openTag closeTag : Text) : Run Text :=
  loop (removeReasoningStep openTag closeTag) (s.length + 1) s

def stripReasoningBlocks (text : Text) : Run Text := do
  let s ← removeReasoningBlock text (utf8 "<think>") (utf8 "</think>")
  let s ← removeReasoningBlock s (utf8 "[THINK]") (utf8 "[/THINK]")
  .ok (trimC s)

/-! ## Tags -/

/-- The span between `<tag>` and `</tag>`. -/
def findXMLTag (s tag : Text) : Run (Option (ℕ × ℕ)) :=
  let openTag := utf8 "<" ++ tag ++ utf8 ">"
  let closeTag := utf8 "</" ++ tag ++ utf8 ">"
  match index s openTag with
  | none => .ok none
  | some i => do
      let rest ← sliceFrom s (i + openTag.length)
      .ok ((index rest closeTag).map fun j => (i + openTag.length, i + openTag.length + j))

def namespacedMark : Text := utf8 ":tool_call>"

/-- Back from the mark to the `<` of its tag; a byte that no namespace has ends the search. -/
def namespaceStart (s : Text) : ℕ → Run (Option ℕ)
  | 0 => .ok none
  | n + 1 => do
      let c ← item s n
      if c = 60 then .ok (some (n + 1))
      else if isAlnum c || c = 95 || c = 45 || c = 46 then namespaceStart s n
      else .ok none

/-- The span between `<ns:tool_call>` and its end. -/
def findNamespacedToolCall (s : Text) : Run (Option (ℕ × ℕ)) :=
  match index s namespacedMark with
  | none => .ok none
  | some marker => do
      match ← namespaceStart s marker with
      | none => .ok none
      | some start =>
        if marker - start = 0 ∨ 32 < marker - start then .ok none
        else do
          let ns ← slice s start marker
          let closeTag := utf8 "</" ++ ns ++ namespacedMark
          let body := marker + namespacedMark.length
          let rest ← sliceFrom s body
          .ok ((index rest closeTag).map fun j => (body, body + j))

/-- What is behind the last colon of a tag. -/
def localName (tag : Text) : Text := (tag.reverse.takeWhile (· ≠ 58)).reverse

/-- One `<` of `findLocalXMLTag`, from `p` on. -/
def localTagStep (s name : Text) (p : ℕ) : Run (ℕ ⊕ Option (ℕ × ℕ × ℕ)) :=
  if s.length ≤ p then .ok (.inr none)
  else do
    let rest ← sliceFrom s p
    match indexByte rest 60 with
    | none => .ok (.inr none)
    | some lt =>
      let p := p + lt
      if s.length ≤ p + 1 then .ok (.inr none)
      else do
        let c ← item s (p + 1)
        if c = 47 ∨ c = 33 ∨ c = 63 then .ok (.inl (p + 1))
        else
          let tagEnd := advance (fun c => c ≠ 62 && !isCSpace c) s (p + 1)
          if s.length ≤ tagEnd then .ok (.inr none)
          else do
            let tag ← slice s (p + 1) tagEnd
            if localName tag ≠ name then .ok (.inl (p + 1))
            else do
              let rest ← sliceFrom s tagEnd
              match indexByte rest 62 with
              | none => .ok (.inr none)
              | some gt => do
                  let body := tagEnd + gt + 1
                  let closeTag := utf8 "</" ++ tag ++ utf8 ">"
                  let rest ← sliceFrom s body
                  match index rest closeTag with
                  | none => .ok (.inl (p + 1))
                  | some j => .ok (.inr (some (body, body + j, closeTag.length)))

/-- A tag by its local name, whatever its namespace: the span inside, and the length of the end. -/
def findLocalXMLTag (s name : Text) : Run (Option (ℕ × ℕ × ℕ)) := loop (localTagStep s name) (s.length + 1) 0

/-- White space, or nothing, comes before the byte. -/
def startsWord (tag : Text) (i : ℕ) : Run Bool := if i = 0 then .ok true else (item tag (i - 1)).map isCSpace

/-- One occurrence of the attribute's name: where its `=` stands, if it is the attribute. -/
def attrStep (tag attr : Text) (p : ℕ) : Run (ℕ ⊕ Option ℕ) := do
  let rest ← sliceFrom tag p
  match index rest attr with
  | none => .ok (.inr none)
  | some i => do
      let start := p + i
      let fresh ← startsWord tag start
      let next := start + attr.length
      if fresh && next < tag.length then do
        let c ← item tag next
        if c = 61 then .ok (.inr (some next)) else .ok (.inl next)
      else .ok (.inl next)

/-- `attr="value"` in a tag. -/
def xmlAttrValue (tag attr : Text) : Run (Option Text) := do
  match ← loop (attrStep tag attr) (tag.length + 1) 0 with
  | none => .ok none
  | some eq => do
      let p := advance isCSpace tag (eq + 1)
      if tag.length ≤ p then .ok none
      else do
        let quote ← item tag p
        if quote ≠ 34 ∧ quote ≠ 39 then .ok none
        else do
          let stop := advance (· ≠ quote) tag (p + 1)
          if tag.length ≤ stop then .ok none
          else do
            let value ← slice tag (p + 1) stop
            .ok (some (trimC value))

/-! ## Objects -/

/-- How far an object goes on; a brace in a string does not close it. -/
def objectEndFrom : Text → (p depth : ℕ) → (inString escaped : Bool) → Option ℕ
  | [], _, _, _, _ => none
  | c :: rest, p, depth, true, escaped =>
    if escaped then objectEndFrom rest (p + 1) depth true false
    else if c = 92 then objectEndFrom rest (p + 1) depth true true
    else objectEndFrom rest (p + 1) depth (c ≠ 34) false
  | c :: rest, p, depth, false, escaped =>
    if c = 34 then objectEndFrom rest (p + 1) depth true escaped
    else if c = 123 then objectEndFrom rest (p + 1) (depth + 1) false escaped
    else if c = 125 then
      if depth = 1 then some p else objectEndFrom rest (p + 1) (depth - 1) false escaped
    else objectEndFrom rest (p + 1) depth false escaped

/-- The index of the `}` that closes the object at `start`. -/
def findJSONObjectEnd (s : Text) (start : ℕ) : Option ℕ :=
  if s[start]? = some 123 then objectEndFrom (s.drop start) start 0 false false else none

/-! ## JSON values -/

def validJSON (s : Text) : Bool := (JsonValue.parse s).isSome

/-- The JSON value at the front of a text; a number ends where its grammar does. -/
def parseJSONPrefix (source : Text) : Option JsonValue :=
  let s := JsonValue.skipSpace source
  if s.head?.any (fun c => c = 45 || Economizer.JsonParser.digit c) then
    match Economizer.JsonParser.parseNumber s with
    | .ok rest => some (.number (s.take (s.length - rest.length)))
    | .error _ => none
  else match JsonValue.parseValue (2 * s.length + 1) 0 s with
  | some (v, rest) => if JsonValue.validUtf8 (s.take (s.length - rest.length)) then some v else none
  | none => none

/-- `orderedObject.addParameterValue`: a value that is JSON keeps its type. -/
def addParameterValue (args : List (Text × JsonValue)) (key value : Text) : List (Text × JsonValue) :=
  if key = [] then args
  else match parseJSONPrefix value with
  | some parsed => args ++ [(key, if validJSON (trimC value) then parsed else .string value)]
  | none => args ++ [(key, .string value)]

/-- An object with one text. -/
def printText (key value : Text) : Text := (JsonValue.object [(key, .string value)]).print

end Delegates
