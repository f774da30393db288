-- SUMMARY: The five dialects of written tool calls, the parser that tries them in order, and the detector.
import Aimee.Delegates.Rescue

/-!
# The rescue parser

`rescue_parse.go`. A scanner goes over the text block by block; its state is the offset it has
reached, what it has collected and how many calls it has found. The first dialect that finds a call
ends the search.
-/

namespace Delegates

open Slices
open Economizer (Text utf8 JsonValue)

/-- Where a scanner stands. -/
structure Scanning where
  p : ℕ
  out : RescueResult
  found : ℕ

/-- A scanner's result: what it has collected, and how many calls. -/
abbrev Found := RescueResult × ℕ

def Scanning.leave (s : Scanning) : Run (Scanning ⊕ Found) := .ok (.inr (s.out, s.found))

def Scanning.goOn (s : Scanning) (p : ℕ) : Run (Scanning ⊕ Found) := .ok (.inl { s with p := p })

/-- One call more. -/
def Scanning.call (s : Scanning) (out : RescueResult) : Scanning := { s with out := out, found := s.found + 1 }

/-- Run a scanner's rounds over a text. -/
def scanAll (scan : Text) (step : Scanning → Run (Scanning ⊕ Found)) (out : RescueResult) : Run Found :=
  loop step (scan.length + 1) { p := 0, out := out, found := 0 }

/-! ## <tool_call> blocks -/

/-- A span that was found behind an offset, if it ends within the block. -/
def withinBlock (blockStart blockEnd : ℕ) (span : Option (ℕ × ℕ)) : Option (ℕ × ℕ) :=
  match span with
  | none => none
  | some (s, e) => if blockEnd < e + blockStart then none else some (s + blockStart, e + blockStart)

/-- Arguments that are JSON stay as they are, others become an object. -/
def xmlArguments (scan : Text) (span : Option (ℕ × ℕ)) : Run Text :=
  match span with
  | none => .ok (utf8 "\x7b\x7d")
  | some (s, e) => do
      let raw ← slice scan s e
      let args := trimC raw
      if args.head? = some 123 ∨ args.head? = some 91 then .ok args
      else if (parseJSONPrefix args).isSome then .ok args
      else .ok (printText (utf8 "value") args)

def closeToolCall : Text := utf8 "</tool_call>"

/-- Behind the end of a block; the end of a namespaced block is found by its `>`. -/
def advanceBlock (scan : Text) (blockEnd : ℕ) (namespaced : Bool) : Run ℕ :=
  if namespaced then do
    let rest ← sliceFrom scan blockEnd
    .ok (match indexByte rest 62 with
      | some gt => blockEnd + gt + 1
      | none => blockEnd + closeToolCall.length)
  else .ok (blockEnd + closeToolCall.length)

def parameterMark : Text := utf8 "<parameter="

def closeParameter : Text := utf8 "</parameter>"

/-- One `<parameter=key>value</parameter>` before `bodyEnd`. -/
def qwenParameter (block : Text) (bodyEnd : ℕ) :
    ℕ × List (Text × JsonValue) → Run ((ℕ × List (Text × JsonValue)) ⊕ List (Text × JsonValue))
  | (p, args) =>
    if bodyEnd ≤ p then .ok (.inr args)
    else do
      let window ← slice block p bodyEnd
      match index window parameterMark with
      | none => .ok (.inr args)
      | some i => do
          let keyStart := p + i + parameterMark.length
          let rest ← sliceFrom block keyStart
          match indexByte rest 62 with
          | none => .ok (.inr args)
          | some gt =>
            let keyEnd := keyStart + gt
            if bodyEnd < keyEnd then .ok (.inr args)
            else do
              let window ← slice block (keyEnd + 1) bodyEnd
              match index window closeParameter with
              | none => .ok (.inr args)
              | some j => do
                  let valueEnd := keyEnd + 1 + j
                  let key ← slice block keyStart keyEnd
                  let value ← slice block (keyEnd + 1) valueEnd
                  .ok (.inl (valueEnd + closeParameter.length, addParameterValue args (trimC key) (trimC value)))

/-- Where a body ends: at its closing tag, or with the block. -/
def bodyEndOf (block : Text) (bodyStart : ℕ) (closeTag : Text) : Run ℕ := do
  let rest ← sliceFrom block bodyStart
  .ok (match index rest closeTag with
    | some i => bodyStart + i
    | none => block.length)

def functionMark : Text := utf8 "<function="

/-- `<function=name><parameter=key>value</parameter>`. -/
def parseQwenFunctionCall (block : Text) (out : RescueResult) : Run (Option RescueResult) :=
  match index block functionMark with
  | none => .ok none
  | some fn => do
      let nameStart := fn + functionMark.length
      let rest ← sliceFrom block nameStart
      match indexByte rest 62 with
      | none => .ok none
      | some gt => do
          let name ← slice block nameStart (nameStart + gt)
          let bodyStart := nameStart + gt + 1
          let bodyEnd ← bodyEndOf block bodyStart (utf8 "</function>")
          let args ← loop (qwenParameter block bodyEnd) (block.length + 1) (bodyStart, [])
          .ok (some (out.appendCall (normalizeToolName (trimC name)) (JsonValue.object args).print))

def toolCallTag : Text := utf8 "tool_call"

/-- The next block, and whether it is a namespaced one. -/
def nextBlock (scan : Text) (p : ℕ) : Run (Option (ℕ × ℕ) × Bool) := do
  let rest ← sliceFrom scan p
  match ← findXMLTag rest toolCallTag with
  | some (s, e) => .ok (some (s + p, e + p), false)
  | none => do
      match ← findNamespacedToolCall rest with
      | some (s, e) => .ok (some (s + p, e + p), true)
      | none => .ok (none, false)

/-- The longest raw name that is used. -/
def maxRawName : ℕ := 65535

/-- One round of `parseXMLBlocks`. -/
def xmlBlockStep (scan : Text) (s : Scanning) : Run (Scanning ⊕ Found) :=
  if s.out.full then s.leave
  else do
    match ← nextBlock scan s.p with
    | (none, _) => s.leave
    | (some (blockStart, blockEnd), namespaced) => do
        let inner ← sliceFrom scan blockStart
        let name ← findXMLTag inner (utf8 "name")
        let args ← findXMLTag inner (utf8 "arguments")
        let name := (withinBlock blockStart blockEnd name).filter fun (i, j) => j - i ≤ maxRawName
        match name with
        | some (nameStart, nameEnd) => do
            let raw ← slice scan nameStart nameEnd
            let name := normalizeToolName (trimC raw)
            if name = [] then do
              -- a block without a name is passed over
              let next ← advanceBlock scan blockEnd namespaced
              s.goOn next
            else do
              let args ← xmlArguments scan (withinBlock blockStart blockEnd args)
              let s := s.call (s.out.appendCall name args)
              let next ← advanceBlock scan blockEnd namespaced
              if scan.length < next then s.leave else s.goOn next
        | none => do
            let block ← slice scan blockStart blockEnd
            let s := match ← parseQwenFunctionCall block s.out with
              | some out => s.call out
              | none => s
            let next ← advanceBlock scan blockEnd namespaced
            if scan.length < next then s.leave else s.goOn next

def parseXMLBlocks (scan : Text) (out : RescueResult) : Run Found := scanAll scan (xmlBlockStep scan) out

/-! ## <invoke> calls -/

def invokeMark : Text := utf8 "<invoke"

/-- One `<parameter name="key">value</parameter>` before `bodyEnd`. -/
def invokeParameter (block : Text) (bodyEnd : ℕ) :
    ℕ × List (Text × JsonValue) → Run ((ℕ × List (Text × JsonValue)) ⊕ List (Text × JsonValue))
  | (p, args) =>
    if bodyEnd ≤ p then .ok (.inr args)
    else do
      let window ← slice block p bodyEnd
      match index window (utf8 "<parameter") with
      | none => .ok (.inr args)
      | some i => do
          let tagStart := p + i
          let window ← slice block tagStart bodyEnd
          match index window (utf8 ">") with
          | none => .ok (.inr args)
          | some j => do
              let tag ← slice block tagStart (tagStart + j)
              let key ← xmlAttrValue tag (utf8 "name")
              let valueStart := tagStart + j + 1
              let window ← slice block valueStart bodyEnd
              match index window closeParameter with
              | none => .ok (.inr args)
              | some k => do
                  let value ← slice block valueStart (valueStart + k)
                  .ok (.inl (valueStart + k + closeParameter.length,
                    addParameterValue args (key.getD []) (trimC value)))

/-- `<invoke name="x"><parameter name="k">v</parameter>`, of a known tool. -/
def parseInvokeCall (names : List Text) (block : Text) (out : RescueResult) : Run (Option RescueResult) :=
  match index block invokeMark with
  | none => .ok none
  | some invoke => do
      let rest ← sliceFrom block invoke
      match index rest (utf8 ">") with
      | none => .ok none
      | some i => do
          let tagEnd := i + invoke
          let tag ← slice block invoke tagEnd
          match ← xmlAttrValue tag (utf8 "name") with
          | none => .ok none
          | some name =>
            if name = [] ∨ !known names (normalizeToolName name) then .ok none
            else do
              let bodyStart := tagEnd + 1
              let bodyEnd ← bodyEndOf block bodyStart (utf8 "</invoke>")
              let args ← loop (invokeParameter block bodyEnd) (block.length + 1) (bodyStart, [])
              .ok (some (out.appendCall (normalizeToolName name) (JsonValue.object args).print))

def closeInvoke : Text := utf8 "</invoke>"

/-- Behind the closing tag, or at the start of the body where there is none. -/
def invokeEnd (rest : Text) (bodyStart : ℕ) : ℕ :=
  match index rest closeInvoke with
  | some c => bodyStart + c + closeInvoke.length
  | none => bodyStart

/-- One round of `parseInvokeCalls`. -/
def invokeStep (names : List Text) (scan : Text) (s : Scanning) : Run (Scanning ⊕ Found) :=
  if s.out.full then s.leave
  else do
    let rest ← sliceFrom scan s.p
    match index rest invokeMark with
    | none => s.leave
    | some i => do
        let invoke := s.p + i
        let rest ← sliceFrom scan invoke
        match indexByte rest 62 with
        | none => s.leave
        | some gt => do
            let tagEnd := invoke + gt
            let rest ← sliceFrom scan (tagEnd + 1)
            let blockEnd := invokeEnd rest (tagEnd + 1)
            let block ← slice scan invoke blockEnd
            match ← parseInvokeCall names block s.out with
            | some out => do
                let pre ← slice scan 0 invoke
                (s.call (out.setContentIfEmpty pre)).goOn blockEnd
            | none => s.goOn (tagEnd + 1)

/-- What a dialect has found makes the text a tool call. -/
def markFound (r : Found) : Found := if 0 < r.2 then ({ r.1 with isToolCall := true }, r.2) else r

def parseInvokeCalls (names : List Text) (scan : Text) (out : RescueResult) : Run Found := do
  let r ← scanAll scan (invokeStep names scan) out
  .ok (markFound r)

/-- One `tool_call` block of any namespace that holds an `<invoke>`. -/
def localBlockStep (names : List Text) (scan : Text) (s : Scanning) : Run (Scanning ⊕ Found) :=
  if s.out.full then s.leave
  else do
    let rest ← sliceFrom scan s.p
    match ← findLocalXMLTag rest toolCallTag with
    | none => s.leave
    | some (start, stop, closeLen) => do
        let block ← slice scan (start + s.p) (stop + s.p)
        let s' := match ← parseInvokeCall names block s.out with
          | some out => s.call out
          | none => s
        s'.goOn (stop + s.p + closeLen)

/-! ## <|channel>call: -/

def quoteMarker : Text := utf8 "<|\"|>"

/-- The text with its quotes restored; bytes of a marker are skipped. -/
def restoreQuotes : (skip : ℕ) → Text → Text
  | _, [] => []
  | skip + 1, _ :: rest => restoreQuotes skip rest
  | 0, c :: rest =>
    if quoteMarker.isPrefixOf (c :: rest) then 34 :: restoreQuotes (quoteMarker.length - 1) rest
    else c :: restoreQuotes 0 rest

def decodeChannelArgText (s : Text) : Text := trimC (restoreQuotes 0 s)

/-- A value without the quotes around it. -/
def unquote (value : Text) : Run Text :=
  if 2 ≤ value.length ∧ value.head? = some 34 ∧ value.getLast? = some 34 then slice value 1 (value.length - 1)
  else .ok value

/-- The inside of the braces, as an object. -/
def channelArgsToJSON (inside : Text) : Run Text :=
  let decoded := decodeChannelArgText inside
  let wrapped := utf8 "\x7b" ++ decoded ++ utf8 "\x7d"
  match parseJSONPrefix wrapped with
  | some (.object _) => .ok wrapped
  | _ =>
    match indexByte decoded 58 with
    | some colon => do
        let key ← slice decoded 0 colon
        let value ← sliceFrom decoded (colon + 1)
        let value ← unquote (trimC value)
        .ok (printText (if trimC key = [] then utf8 "value" else trimC key) value)
    | none => .ok (printText (utf8 "value") decoded)

def channelMarker : Text := utf8 "<|channel>call:"

/-- One round of `parseChannelCalls`. -/
def channelStep (scan : Text) (s : Scanning) : Run (Scanning ⊕ Found) :=
  if s.out.full then s.leave
  else do
    let rest ← sliceFrom scan s.p
    match index rest channelMarker with
    | none => s.leave
    | some i => do
        let nameStart := advance isCSpace scan (s.p + i + channelMarker.length)
        let nameEnd := advance (fun c => c ≠ 123 && !isCSpace c && c ≠ 60) scan nameStart
        let rest ← sliceFrom scan nameEnd
        match indexByte rest 123 with
        | none => s.leave
        | some brace =>
          match findJSONObjectEnd scan (nameEnd + brace) with
          | none => s.leave
          | some argsClose => do
              let name ← slice scan nameStart nameEnd
              let inside ← slice scan (nameEnd + brace + 1) argsClose
              let args ← channelArgsToJSON inside
              (s.call (s.out.appendCall (normalizeToolName (trimC name)) args)).goOn (argsClose + 1)

/-- The prose before the first marker of a dialect that has found a call. -/
def prosePreceding (scan marker : Text) (r : Found) : Run Found :=
  if r.2 = 0 then .ok r
  else match index scan marker with
  | none => .ok (markFound r)
  | some first => do
      if first = 0 then .ok (markFound r)
      else do
        let pre ← slice scan 0 first
        .ok (markFound (r.1.setContentIfEmpty pre, r.2))

def parseChannelCalls (scan : Text) (out : RescueResult) : Run Found := do
  let r ← scanAll scan (channelStep scan) out
  prosePreceding scan channelMarker r

/-! ## [TOOL_CALLS] -/

def mistralMarker : Text := utf8 "[TOOL_CALLS]"

/-- The arguments without the space around them; nothing is an empty object. -/
def fillArguments (args : Text) : Text := if trimC args = [] then utf8 "\x7b\x7d" else trimC args

/-- One round of `parseMistralBracketCalls`. -/
def mistralStep (names : List Text) (scan : Text) (s : Scanning) : Run (Scanning ⊕ Found) :=
  if s.out.full then s.leave
  else do
    let rest ← sliceFrom scan s.p
    match index rest mistralMarker with
    | none => s.leave
    | some i => do
        let nameStart := advance (fun c => isCSpace c || c = 44) scan (s.p + i + mistralMarker.length)
        let nameEnd := advance (fun c => isAlnum c || c = 95 || c = 45 || c = 46 || c = 58) scan nameStart
        if nameEnd = nameStart then s.leave
        else
          let argsOpen := advance isCSpace scan nameEnd
          if scan[argsOpen]? ≠ some 123 then s.leave
          else match findJSONObjectEnd scan argsOpen with
          | none => s.leave
          | some argsClose => do
              let raw ← slice scan nameStart nameEnd
              let name := trimC raw
              if !known names name then s.goOn (argsClose + 1)
              else do
                let args ← slice scan argsOpen (argsClose + 1)
                (s.call (s.out.appendCall (normalizeToolName (trimC name)) (fillArguments args))).goOn (argsClose + 1)

def parseMistralBracketCalls (names : List Text) (scan : Text) (out : RescueResult) : Run Found := do
  let r ← scanAll scan (mistralStep names scan) out
  prosePreceding scan mistralMarker r

/-! ## Bare JSON -/

/-- An object is printed, a text that holds an object is unwrapped, another text stays. -/
def jsonArgumentsFromItem (item : Option JsonValue) : Text :=
  match item with
  | none => utf8 "\x7b\x7d"
  | some (.string value) =>
    match parseJSONPrefix value with
    | some (.object members) => if validJSON (trimC value) then (JsonValue.object members).print else value
    | _ => value
  | some v => v.print

/-- The name an object calls, by either of its spellings. -/
def calledName (root : JsonValue) : Option Text :=
  match root.get "tool", root.get "name" with
  | some (.string name), _ => some name
  | _, some (.string name) => some name
  | _, _ => none

/-- `{"name":…,"arguments":…}` and its spellings, of a known tool. -/
def parseJSONToolObject (names : List Text) (text : Text) (out : RescueResult) : Option RescueResult :=
  if out.full then none
  else match parseJSONPrefix (trimC text) with
  | some (.object members) =>
    let root := JsonValue.object members
    match calledName root with
    | some name =>
      if !known names name then none
      else
        let args := (root.get "args").orElse fun _ => (root.get "arguments").orElse fun _ => root.get "parameters"
        some (out.appendCall name (jsonArgumentsFromItem args))
    | none => none
  | _ => none

/-- The next object from an offset on: its first and its last byte. -/
def nextObject (scan : Text) (p : ℕ) : Run (Option (ℕ × ℕ)) := do
  let rest ← sliceFrom scan p
  .ok (match indexByte rest 123 with
    | none => none
    | some i => (findJSONObjectEnd scan (i + p)).map fun stop => (i + p, stop))

/-- One round of `parseBareJSONCalls`. -/
def bareStep (names : List Text) (scan : Text) (s : Scanning) : Run (Scanning ⊕ Found) :=
  if s.out.full then s.leave
  else do
    match ← nextObject scan s.p with
    | none => s.leave
    | some (start, stop) => do
        let object ← slice scan start (stop + 1)
        match parseJSONToolObject names object s.out with
        | some out => do
            let pre ← slice scan 0 start
            (s.call (out.setContentIfEmpty pre)).goOn (stop + 1)
        | none => s.goOn (start + 1)

def parseBareJSONCalls (names : List Text) (scan : Text) (out : RescueResult) : Run Found := do
  let r ← scanAll scan (bareStep names scan) out
  .ok (markFound r)

/-! ## The parser and the detector -/

def toolCallMark : Text := utf8 "<tool_call>"

/-- Back to the `<` of a namespaced tag, or to the start of the text. -/
def backToTag (scan : Text) : ℕ → Run ℕ
  | 0 => .ok 0
  | n + 1 => do
      let c ← item scan (n + 1)
      if c = 60 then .ok (n + 1) else backToTag scan n

/-- Where the first block starts, as far as it is looked for. -/
def firstBlock (scan : Text) : Run (Option ℕ) :=
  match index scan toolCallMark with
  | some first => .ok (some first)
  | none =>
    match index scan namespacedMark with
    | none => .ok none
    | some mark => do
        let start ← backToTag scan mark
        .ok (if scan[start]? = some 60 then some start else none)

/-- The prose before the first block. -/
def blockProse (scan : Text) (r : Found) : Run Found :=
  if r.2 = 0 then .ok r
  else do
    match ← firstBlock scan with
    | none => .ok (markFound r)
    | some first =>
      if first = 0 then .ok (markFound r)
      else do
        let pre ← slice scan 0 first
        .ok (markFound (r.1.setContentIfEmpty pre, r.2))

/-- Another dialect, where the ones before it have found nothing. -/
def orTry (r : Found) (dialect : RescueResult → Run Found) : Run Found := if r.2 = 0 then dialect r.1 else .ok r

/-- The tagged dialects, in their order. -/
def taggedCalls (names : List Text) (scan : Text) : Run Found := do
  let r ← parseXMLBlocks scan .empty
  let r ← orTry r fun out => scanAll scan (localBlockStep names scan) out
  let r ← blockProse scan r
  let r ← orTry r (parseChannelCalls scan)
  let r ← orTry r (parseInvokeCalls names scan)
  orTry r (parseMistralBracketCalls names scan)

/-- `RescueParseToolCalls`. The number of calls is -1 where there are too many. -/
def rescueParseToolCalls (text : Text) (names : List Text) (allowJSON : Bool) : Run (RescueResult × ℤ) :=
  if text = [] then .ok (.empty, 0)
  else do
    let scan ← stripReasoningBlocks text
    let r ← taggedCalls names scan
    let r ← orTry r fun out => if allowJSON then parseBareJSONCalls names scan out else .ok (out, 0)
    .ok (if 4096 < r.1.calls.length then (.empty, -1) else (r.1, (r.2 : ℤ)))

/-- One object the detector looks at. -/
def probeStep (names : List Text) (scan : Text) (p : ℕ) : Run (ℕ ⊕ Bool) := do
  match ← nextObject scan p with
  | none => .ok (.inr false)
  | some (start, stop) => do
      let object ← slice scan start (stop + 1)
      .ok (if (parseJSONToolObject names object .empty).isSome then .inr true else .inl (start + 1))

/-- A literal mark of one of the dialects. -/
def hasMark (text : Text) : Bool :=
  [toolCallMark, invokeMark, channelMarker, mistralMarker, namespacedMark].any (contains text)

/-- The probe for bare JSON. -/
def probeJSON (names : List Text) (scan : Text) : Run Bool := loop (probeStep names scan) (scan.length + 1) 0

def rescueHasToolCalls (text : Text) (names : List Text) (allowJSON : Bool) : Run Bool :=
  if text = [] then .ok false
  else if hasMark text then .ok true
  else if !allowJSON then .ok false
  else do
    let scan ← stripReasoningBlocks text
    probeJSON names scan

end Delegates
