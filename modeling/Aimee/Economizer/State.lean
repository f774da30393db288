-- SUMMARY: The state of a conversation as it is stored: the bounded document, and what is restored from one.
import Aimee.Economizer.JsonCompact
import Aimee.Lib.Doubles
import Mathlib.Data.List.Sort

/-!
# Stored reducer state

`state.go`, with the numbers of `cjson.go` and the recall index of `recall.go`. A number travels as a double,
the digest of the prefix as hexadecimal digits. The doubles a state is written with are integers.
-/

namespace Economizer

open JsonValue
open Doubles (nearest roundDigits spellG readDecimal truncQuot)

def reduceStateSerialMax : ℕ := 6144

/-- The frozen boundary and the digest that guards it. -/
structure FoldFreeze where
  active : Bool
  frozenSplit : ℤ
  tailCapMsgs : ℤ
  epochs : ℤ
  prefixDigest : UInt64

/-- The coordinates that have left the prompt, each with the turn it was last surfaced in. -/
abbrev RecallIndex := List (Text × ℤ)

def RecallIndex.add (ix : RecallIndex) (key : Text) : RecallIndex :=
  if key = [] ∨ ix.any (·.1 = key) then ix else ix ++ [(key, -1)]

/-- What is kept of one conversation between its requests. -/
structure ReduceState where
  freeze : FoldFreeze
  reduced : Bool
  turn : ℤ
  recallIndex : RecallIndex

/-! ## Numbers -/

/-- `float64` of an `int`. -/
def float64 (n : ℤ) : ℤ := if n < 0 then -nearest n.natAbs else nearest n.natAbs

/-- `compareDouble`: equal up to the epsilon of the larger. -/
def compareDouble (a b : ℕ) : Bool := (max a b - min a b) * 2 ^ 52 ≤ max a b

def cjsonNumber (d : ℤ) : Text :=
  if -2 ^ 31 ≤ d ∧ d < 2 ^ 31 then Wire.decimalInt d
  else if compareDouble (nearest (roundDigits 15 d.natAbs)) d.natAbs then spellG (d < 0) 15 d.natAbs
  else spellG (d < 0) 17 d.natAbs

def newNumber (n : ℤ) : JsonValue := .number (cjsonNumber (float64 n))

/-- `int` of a number; out of range, the platform decides. -/
def intOf (platform : ℤ) (lexeme : Text) : ℤ :=
  let d := readDecimal lexeme
  let m : ℤ := truncQuot (d.mantissa * 10 ^ d.up) (10 ^ d.down)
  let n := if d.neg then -m else m
  if -2 ^ 63 ≤ n ∧ n < 2 ^ 63 then n else platform

/-- A number is not zero, nor so small that its double is. -/
def nonZero (lexeme : Text) : Bool :=
  let d := readDecimal lexeme
  10 ^ d.down < d.mantissa * 10 ^ d.up * 2 ^ 1075

/-- `strconv.FormatUint` in base 16. -/
def formatHex (n : ℕ) : Text := (Nat.toDigits 16 n).map fun c => UInt8.ofNat c.toNat

/-- `strconv.ParseUint` in base 16, behind digits worth `n`: zero on a syntax error, the largest number out of range. -/
def parseHex (n : ℕ) : Text → ℕ
  | [] => n
  | c :: rest =>
    match JsonParser.hexVal c with
    | none => 0
    | some d => if 2 ^ 60 ≤ n then 2 ^ 64 - 1 else parseHex (n * 16 + d) rest

/-! ## Writing -/

def recallEntry (e : Text × ℤ) : JsonValue := .object [(utf8 "k", .string e.1), (utf8 "t", newNumber e.2)]

def freezeDoc (f : FoldFreeze) : JsonValue :=
  .object [
    (utf8 "active", newNumber (if f.active then 1 else 0)),
    (utf8 "frozen_split", newNumber f.frozenSplit),
    (utf8 "tail_cap_msgs", newNumber f.tailCapMsgs),
    (utf8 "epochs", newNumber f.epochs),
    (utf8 "prefix_digest", .string (formatHex f.prefixDigest.toNat))]

/-- The document, with the keys that are in it so far. -/
def stateDoc (st : ReduceState) (keys : List (Text × ℤ)) (kept dropped : ℕ) : JsonValue :=
  .object [
    (utf8 "turn", newNumber st.turn),
    (utf8 "freeze", freezeDoc st.freeze),
    (utf8 "recall", .array (keys.map recallEntry)),
    (utf8 "recall_kept", newNumber kept),
    (utf8 "recall_dropped", newNumber dropped)]

/-- The latest first, keys of one turn in the order of the index. -/
def RecallIndex.ranked (ix : RecallIndex) : List (Text × ℤ) := ix.insertionSort fun a b => b.2 ≤ a.2

/-- The size so far leaves room for a key, its framing and the counters. -/
def hasRoom (st : ReduceState) (keys : List (Text × ℤ)) (key : Text) : Bool :=
  (stateDoc st keys 0 0).print.length + key.length + 48 ≤ reduceStateSerialMax

/-- The keys that are kept, behind those that are, and how many are dropped. -/
def keepKeys (st : ReduceState) (keys : List (Text × ℤ)) : List (Text × ℤ) → List (Text × ℤ) × ℕ
  | [] => (keys, 0)
  | e :: rest =>
    if e.1 = [] then keepKeys st keys rest
    else if !hasRoom st keys e.1 then (keys, rest.length + 1)
    else keepKeys st (keys ++ [e]) rest

def serializeState (st : ReduceState) : Option Text :=
  let (keys, dropped) := keepKeys st [] st.recallIndex.ranked
  let out := (stateDoc st keys keys.length dropped).print
  if reduceStateSerialMax < out.length then none else some out

/-! ## Reading -/

def RecallIndex.setLastTurn (ix : RecallIndex) (key : Text) (turn : ℤ) : RecallIndex :=
  ix.map fun e => if e.1 = key then (key, turn) else e

/-- The int of a field, zero where it has no number. -/
def intField (platform : ℤ) (v : Option JsonValue) (key : String) : ℤ :=
  match v.bind (·.get key) with
  | some (.number lexeme) => intOf platform lexeme
  | _ => 0

/-- One entry of the stored index. -/
def restoreEntry (platform : ℤ) (ix : RecallIndex) (e : JsonValue) : RecallIndex :=
  match e.get "k" with
  | some (.string key) =>
    if key = [] then ix
    else match e.get "t" with
    | some (.number lexeme) => (ix.add key).setLastTurn key (intOf platform lexeme)
    | _ => ix.add key
  | _ => ix

def restoreFreeze (platform : ℤ) (fz : Option JsonValue) : FoldFreeze where
  active := match fz.bind (·.get "active") with
    | some (.number lexeme) => nonZero lexeme
    | _ => false
  frozenSplit := intField platform fz "frozen_split"
  tailCapMsgs := intField platform fz "tail_cap_msgs"
  epochs := intField platform fz "epochs"
  prefixDigest := match fz.bind (·.get "prefix_digest") with
    | some (.string s) => UInt64.ofNat (parseHex 0 s)
    | _ => 0

inductive RestoreFault where
  | nothing
  | invalid
  deriving DecidableEq

/-- The state after a blob was loaded into it, and why it was not. -/
def restoreState (platform : ℤ) (st : ReduceState) (blob : Text) : ReduceState × Option RestoreFault :=
  if blob = [] then (st, some .nothing)
  else match JsonValue.parse blob with
  | some (.object members) =>
    let root := some (JsonValue.object members)
    let restored : ReduceState :=
      { freeze := restoreFreeze platform (root.bind (·.get "freeze"))
        reduced := false
        turn := intField platform root "turn"
        recallIndex := match root.bind (·.get "recall") with
          | some (.array items) => items.foldl (restoreEntry platform) []
          | _ => [] }
    (restored, none)
  | _ => (st, some .invalid)

end Economizer
