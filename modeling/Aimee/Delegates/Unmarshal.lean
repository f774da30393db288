-- SUMMARY: What json.Unmarshal reads into an interface: replacement characters, the last of equal names, and numbers that fit a double.
import Aimee.Economizer.JsonCompact

/-!
# json.Unmarshal

The reader of `encoding/json` as a handoff meets it. It takes what the strict reader refuses: a name
that is given twice, an unpaired surrogate and bytes that are no UTF-8, each of which becomes U+FFFD.
-/

namespace Delegates

open Economizer (Text utf8 JsonValue)
open Economizer.JsonParser (hex4 appendRune decodeRune escapeLetter utf8Sequence skipWS digit parseNumber lit)

namespace Unmarshal

def replacement : Text := [0xEF, 0xBF, 0xBD]

/-- What follows `\u`: a pair of surrogates is one character, a half alone none. -/
def unicodeEscape (s : Text) : Option (Text × Text) :=
  match hex4 s with
  | none => none
  | some (cp, rest) =>
    if cp < 0xD800 ∨ 0xDFFF < cp then some (appendRune cp, rest)
    else match rest with
    | 92 :: 117 :: behind =>
      match hex4 behind with
      | some (low, after) =>
        if cp ≤ 0xDBFF ∧ 0xDC00 ≤ low ∧ low ≤ 0xDFFF then some (appendRune (decodeRune cp low), after)
        else some (replacement, rest)
      | none => some (replacement, rest)
    | _ => some (replacement, rest)

/-- One character of a string, decoded. -/
def stringChar : Text → Option (Text × Text)
  | [] => none
  | c :: rest =>
    if c < 0x20 then none
    else if c = 92 then
      match rest with
      | [] => none
      | e :: rest => if e = 117 then unicodeEscape rest else (escapeLetter e).map fun v => ([v], rest)
    else match utf8Sequence (c :: rest) with
    | none => some (replacement, rest)
    | some n => some ((c :: rest).take n, (c :: rest).drop n)

/-- A string up to its closing quote; each round takes a byte or more. -/
def stringBody : (rounds : ℕ) → Text → Option (Text × Text)
  | 0, _ => none
  | _ + 1, [] => none
  | rounds + 1, c :: rest =>
    if c = 34 then some ([], rest)
    else do
      let (v, rest) ← stringChar (c :: rest)
      let (tail, rest) ← stringBody rounds rest
      return (v ++ tail, rest)

def readString : Text → Option (Text × Text)
  | 34 :: rest => stringBody (rest.length + 1) rest
  | _ => none

/-! ## Numbers -/

def digitsValue (ds : Text) : ℕ := ds.foldl (fun n d => n * 10 + (d.toNat - 48)) 0

/-- Half a unit above the largest double: from here on a number is out of range. -/
def doubleLimit : ℕ := 2 ^ 1024 - 2 ^ 970

/-- `strconv.ParseFloat` has no range error on a number of the grammar. -/
def fitsDouble (lexeme : Text) : Bool :=
  let s := lexeme.dropWhile (· = 45)
  let int := s.takeWhile digit
  let s := s.drop int.length
  let frac := if s.head? = some 46 then s.tail.takeWhile digit else []
  let s := if s.head? = some 46 then s.tail.drop frac.length else s
  let sign := s.tail.head?.filter fun c => c = 43 || c = 45
  let power := digitsValue (if sign.isSome then s.tail.tail else s.tail)
  let mantissa := digitsValue (int ++ frac)
  -- the value is the mantissa by ten to the power `up - down`
  let up := if sign = some 45 then 0 else power
  let down := frac.length + if sign = some 45 then power else 0
  mantissa = 0 || mantissa * 10 ^ up < doubleLimit * 10 ^ down

/-! ## Values -/

/-- The deepest nesting the scanner takes. -/
def maxNestingDepth : ℕ := 10000

mutual

/-- A value inside `depth` arrays and objects, with the fuel of a recursion over the text. -/
def readValue : ℕ → ℕ → Text → Option (JsonValue × Text)
  | 0, _, _ => none
  | fuel + 1, depth, inp =>
    match inp with
    | [] => none
    | c :: rest =>
      if c = 34 then (readString inp).map fun (s, after) => (.string s, after)
      else if c = 91 then
        if maxNestingDepth ≤ depth then none else
        match skipWS rest with
        | 93 :: rest => some (.array [], rest)
        | rest => (readItems fuel (depth + 1) rest).map fun (items, after) => (.array items, after)
      else if c = 123 then
        if maxNestingDepth ≤ depth then none else
        match skipWS rest with
        | 125 :: rest => some (.object [], rest)
        | rest => (readMembers fuel (depth + 1) [] rest).map fun (members, after) => (.object members, after)
      else if c = 116 then (lit "true" inp).toOption.map fun rest => (.bool true, rest)
      else if c = 102 then (lit "false" inp).toOption.map fun rest => (.bool false, rest)
      else if c = 110 then (lit "null" inp).toOption.map fun rest => (.null, rest)
      else
        match parseNumber inp with
        | .error _ => none
        | .ok rest =>
          let lexeme := inp.take (inp.length - rest.length)
          if fitsDouble lexeme then some (.number lexeme, rest) else none

/-- The elements of an array, up to and including the closing bracket. -/
def readItems : ℕ → ℕ → Text → Option (List JsonValue × Text)
  | 0, _, _ => none
  | fuel + 1, depth, inp =>
    match readValue fuel depth (skipWS inp) with
    | none => none
    | some (item, after) =>
      match skipWS after with
      | 44 :: rest => (readItems fuel depth rest).map fun (items, after) => (item :: items, after)
      | 93 :: rest => some ([item], rest)
      | _ => none

/-- The members of an object, up to and including the closing brace, onto those before them. The last
    value of a name stands. -/
def readMembers : ℕ → ℕ → List (Text × JsonValue) → Text → Option (List (Text × JsonValue) × Text)
  | 0, _, _, _ => none
  | fuel + 1, depth, members, inp =>
    match readString (skipWS inp) with
    | none => none
    | some (name, after) =>
      match skipWS after with
      | 58 :: rest =>
        match readValue fuel depth (skipWS rest) with
        | none => none
        | some (value, after) =>
          let members := JsonValue.setMember name value members
          match skipWS after with
          | 44 :: rest => readMembers fuel depth members rest
          | 125 :: rest => some (members, rest)
          | _ => none
      | _ => none

end

/-- A whole text. -/
def unmarshal (text : Text) : Option JsonValue :=
  match readValue (2 * text.length + 1) 0 (skipWS text) with
  | some (v, rest) => if skipWS rest = [] then some v else none
  | none => none

end Unmarshal

end Delegates
