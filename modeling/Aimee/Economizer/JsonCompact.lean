-- SUMMARY: The whitespace compaction of JSON texts: the strict validator and the pass that copies what is not white space.
import Aimee.Economizer.Json

/-!
# JSON compaction

`json_compact.go`. The parser's position is the rest of the text. The depth of a value is counted
down from `JSONMaxDepth`, and a loop has one more than the length of the text it starts on as its
fuel: every round but the last takes a byte.
-/

namespace Economizer

/-- The results that refuse a text. -/
inductive JsonFault where
  | invalidArgument
  | tooLarge
  | tooDeep
  | invalidUTF8
  | invalidSyntax
  | duplicateKey
  deriving DecidableEq

/-- The results of a compaction. -/
inductive JsonResult where
  | ok (out : Text)
  | notShorter
  | refused (fault : JsonFault)
  deriving DecidableEq

def jsonMaxInput : ℕ := 16 * 1024 * 1024

def jsonMaxDepth : ℕ := 64

def jsonMaxObjectMembers : ℕ := 65536

namespace JsonParser

def jsonWS (c : UInt8) : Bool := c = 32 || c = 9 || c = 10 || c = 13

def skipWS (s : Text) : Text := s.dropWhile jsonWS

/-! ## Strings -/

/-- None stands for -1. -/
def hexVal (c : UInt8) : Option ℕ :=
  if 48 ≤ c && c ≤ 57 then some (c.toNat - 48)
  else if 97 ≤ c && c ≤ 102 then some (c.toNat - 97 + 10)
  else if 65 ≤ c && c ≤ 70 then some (c.toNat - 65 + 10)
  else none

def hex4 : Text → Option (ℕ × Text)
  | a :: b :: c :: d :: rest => do
      let a ← hexVal a
      let b ← hexVal b
      let c ← hexVal c
      let d ← hexVal d
      return (((a * 16 + b) * 16 + c) * 16 + d, rest)
  | _ => none

/-- A continuation byte stands at an index. -/
def cont (s : Text) (i : ℕ) : Bool := s[i]?.any fun b => b &&& 0xC0 = 0x80

/-- A byte of a range stands at an index. -/
def inRange (s : Text) (i : ℕ) (lo hi : UInt8) : Bool := s[i]?.any fun b => lo ≤ b && b ≤ hi

/-- The length of the sequence at the front of a text. -/
def utf8Sequence (s : Text) : Option ℕ :=
  match s with
  | [] => none
  | a :: _ =>
    if a < 0x80 then some 1
    else if 0xC2 ≤ a ∧ a ≤ 0xDF ∧ cont s 1 then some 2
    else if a = 0xE0 ∧ inRange s 1 0xA0 0xBF ∧ cont s 2 then some 3
    else if 0xE1 ≤ a ∧ a ≤ 0xEC ∧ cont s 1 ∧ cont s 2 then some 3
    else if a = 0xED ∧ inRange s 1 0x80 0x9F ∧ cont s 2 then some 3
    else if 0xEE ≤ a ∧ a ≤ 0xEF ∧ cont s 1 ∧ cont s 2 then some 3
    else if a = 0xF0 ∧ inRange s 1 0x90 0xBF ∧ cont s 2 ∧ cont s 3 then some 4
    else if 0xF1 ≤ a ∧ a ≤ 0xF3 ∧ cont s 1 ∧ cont s 2 ∧ cont s 3 then some 4
    else if a = 0xF4 ∧ inRange s 1 0x80 0x8F ∧ cont s 2 ∧ cont s 3 then some 4
    else none

/-- `utf8.AppendRune` onto nothing. -/
def appendRune (cp : ℕ) : Text :=
  if h : cp.isValidChar then String.utf8EncodeChar (Char.ofNatAux cp h) else [0xEF, 0xBF, 0xBD]

/-- `utf16.DecodeRune` of a high and a low half. -/
def decodeRune (hi lo : ℕ) : ℕ := (hi - 0xD800) * 0x400 + (lo - 0xDC00) + 0x10000

/-- The letter behind a backslash, but for `u`. -/
def escapeLetter (e : UInt8) : Option UInt8 :=
  if e = 34 then some 34
  else if e = 92 then some 92
  else if e = 47 then some 47
  else if e = 98 then some 8
  else if e = 102 then some 12
  else if e = 110 then some 10
  else if e = 114 then some 13
  else if e = 116 then some 9
  else none

/-- What follows `\u`: the bytes it stands for. -/
def unicodeEscape (s : Text) : Except JsonFault (Text × Text) :=
  match hex4 s with
  | none => .error .invalidSyntax
  | some (cp, rest) =>
    if 0xD800 ≤ cp && cp ≤ 0xDBFF then
      -- A high half must be followed by its low half.
      match rest with
      | b :: e :: rest =>
        if b = 92 ∧ e = 117 then
          match hex4 rest with
          | none => .error .invalidSyntax
          | some (low, rest) =>
            if low < 0xDC00 || 0xDFFF < low then .error .invalidSyntax
            else .ok (appendRune (decodeRune cp low), rest)
        else .error .invalidSyntax
      | _ => .error .invalidSyntax
    else if 0xDC00 ≤ cp && cp ≤ 0xDFFF then .error .invalidSyntax
    else .ok (appendRune cp, rest)

/-- What follows a backslash. -/
def escapeSequence (s : Text) : Except JsonFault (Text × Text) :=
  match s with
  | [] => .error .invalidSyntax
  | e :: rest =>
    if e = 117 then unicodeEscape rest
    else match escapeLetter e with
    | none => .error .invalidSyntax
    | some v => .ok ([v], rest)

/-- One round of the loop of `parseString`, on a text that is not at its closing quote. -/
def stringChar (s : Text) : Except JsonFault (Text × Text) :=
  match s with
  | [] => .error .invalidSyntax
  | c :: rest =>
    if c < 0x20 then .error .invalidSyntax
    else if c = 92 then escapeSequence rest
    else match utf8Sequence s with
    | none => .error .invalidUTF8
    | some sz => .ok (s.take sz, s.drop sz)

/-- The loop of `parseString`; `out` is what is decoded so far. -/
def stringLoop (decode : Bool) : ℕ → (out : Text) → Text → Except JsonFault (Text × Text)
  | 0, _, _ => .error .invalidSyntax
  | _ + 1, _, [] => .error .invalidSyntax
  | fuel + 1, out, c :: rest =>
    if c = 34 then .ok (out, rest)
    else do
      let (v, rest) ← stringChar (c :: rest)
      stringLoop decode fuel (if decode then out ++ v else out) rest

def parseString (decode : Bool) (s : Text) : Except JsonFault (Text × Text) :=
  match s with
  | [] => .error .invalidSyntax
  | c :: rest => if c = 34 then stringLoop decode (rest.length + 1) [] rest else .error .invalidSyntax

/-! ## Numbers -/

def digit (c : UInt8) : Bool := 48 ≤ c && c ≤ 57

/-- One digit and those behind it. -/
def digits (s : Text) : Except JsonFault Text :=
  match s with
  | [] => .error .invalidSyntax
  | c :: rest => if digit c then .ok (rest.dropWhile digit) else .error .invalidSyntax

/-- A leading zero takes no more digits. -/
def intPart (s : Text) : Except JsonFault Text :=
  match s with
  | [] => .error .invalidSyntax
  | c :: rest =>
    if c = 48 then .ok rest
    else if 49 ≤ c && c ≤ 57 then .ok (s.dropWhile digit)
    else .error .invalidSyntax

def fracPart (s : Text) : Except JsonFault Text :=
  match s with
  | [] => .ok []
  | c :: rest => if c = 46 then digits rest else .ok s

/-- A text without the sign it may start with. -/
def dropSign (sign : UInt8 → Bool) (s : Text) : Text :=
  match s with
  | [] => []
  | c :: rest => if sign c then rest else s

def expPart (s : Text) : Except JsonFault Text :=
  match s with
  | [] => .ok []
  | c :: rest => if c = 101 ∨ c = 69 then digits (dropSign (fun c => c = 43 || c = 45) rest) else .ok s

def parseNumber (s : Text) : Except JsonFault Text := do
  let s ← intPart (dropSign (· = 45) s)
  let s ← fracPart s
  expPart s

/-! ## Values -/

def lit (word : String) (s : Text) : Except JsonFault Text :=
  if (utf8 word).isPrefixOf s then .ok (s.drop (utf8 word).length) else .error .invalidSyntax

/-- The decoded names are sorted, and neighbours compared. -/
def keysUnique (keys : List Text) : Bool :=
  let sorted := keys.mergeSort fun a b => decide (a ≤ b)
  (sorted.zip sorted.tail).all fun (a, b) => a ≠ b

/-- The loop of `parseArray`, `value` reading an element. -/
def parseElements (value : Text → Except JsonFault Text) : ℕ → Text → Except JsonFault Text
  | 0, _ => .error .invalidSyntax
  | fuel + 1, s => do
      let rest ← value s
      match skipWS rest with
      | [] => .error .invalidSyntax
      | c :: rest =>
        if c = 44 then parseElements value fuel (skipWS rest)
        else if c = 93 then .ok rest
        else .error .invalidSyntax

/-- What follows the opening bracket. -/
def parseArray (value : Text → Except JsonFault Text) (s : Text) : Except JsonFault Text :=
  let s := skipWS s
  if s.head? = some 93 then .ok s.tail else parseElements value (s.length + 1) s

/-- The loop of `parseObject`, `keys` being the names so far. -/
def parseMembers (value : Text → Except JsonFault Text) : ℕ → (keys : List Text) → Text → Except JsonFault Text
  | 0, _, _ => .error .invalidSyntax
  | fuel + 1, keys, s => do
      let (key, rest) ← parseString true (skipWS s)
      if jsonMaxObjectMembers ≤ keys.length then .error .tooDeep else
      match skipWS rest with
      | [] => .error .invalidSyntax
      | c :: rest =>
        if c = 58 then do
          let rest ← value (skipWS rest)
          match skipWS rest with
          | [] => .error .invalidSyntax
          | c :: rest =>
            if c = 44 then parseMembers value fuel (keys ++ [key]) rest
            else if c = 125 then
              if keysUnique (keys ++ [key]) then .ok rest else .error .duplicateKey
            else .error .invalidSyntax
        else .error .invalidSyntax

/-- What follows the opening brace. -/
def parseObject (value : Text → Except JsonFault Text) (s : Text) : Except JsonFault Text :=
  let s := skipWS s
  if s.head? = some 125 then .ok s.tail else parseMembers value (s.length + 1) [] s

/-- `parseValue` at a depth, given as how many levels are left of `JSONMaxDepth`. -/
def parseValue : (levels : ℕ) → Text → Except JsonFault Text
  | 0, _ => .error .tooDeep
  | levels + 1, s =>
    match skipWS s with
    | [] => .error .invalidSyntax
    | c :: rest =>
      if c = 123 then parseObject (parseValue levels) rest
      else if c = 91 then parseArray (parseValue levels) rest
      else if c = 34 then (parseString false (c :: rest)).map (·.2)
      else if c = 116 then lit "true" (c :: rest)
      else if c = 102 then lit "false" (c :: rest)
      else if c = 110 then lit "null" (c :: rest)
      else parseNumber (c :: rest)

end JsonParser

/-! ## Compaction -/

open JsonParser

/-- The copy pass, which keeps track of the strings on its own. -/
def copyTokens : (inString escaped : Bool) → Text → Text
  | _, _, [] => []
  | false, escaped, c :: rest =>
    if jsonWS c then copyTokens false escaped rest else c :: copyTokens (c = 34) escaped rest
  | true, true, c :: rest => c :: copyTokens true false rest
  | true, false, c :: rest =>
    c :: if c = 92 then copyTokens true true rest
      else if c = 34 then copyTokens false false rest
      else copyTokens true false rest

def jsonCompact (input : Text) : JsonResult :=
  if input = [] then .refused .invalidSyntax
  else if jsonMaxInput < input.length then .refused .tooLarge
  else match parseValue jsonMaxDepth input with
  | .error fault => .refused fault
  | .ok rest =>
    if skipWS rest ≠ [] then .refused .invalidSyntax else
    let out := copyTokens false false input
    if input.length ≤ out.length then .notShorter else .ok out

end Economizer
