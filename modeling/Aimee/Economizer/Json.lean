-- SUMMARY: The order-preserving JSON values of the economizer: accessors, the cJSON-compatible printer and the strict reader.
import Aimee.Vendor.CJson

/-!
# JSON values

`jsonval.go` and `cjson.go`. A text is its bytes: the reducer cuts texts at byte offsets, so a
text need not be valid UTF-8. A number is kept as the token it was read from; the reducer
constructs no numbers. Values are immutable here, so a clone of a value is the value.
-/

namespace Economizer

abbrev Text := List UInt8

/-- The bytes of a literal of the source. -/
def utf8 (s : String) : Text := s.toList.flatMap String.utf8EncodeChar

inductive JsonValue where
  | null
  | bool (b : Bool)
  | number (lexeme : Text)
  | string (value : Text)
  | array (items : List JsonValue)
  | object (members : List (Text × JsonValue))

namespace JsonValue

/-! ## Accessors -/

/-- `Get`: the first member of that name. -/
def get (v : JsonValue) (key : String) : Option JsonValue :=
  match v with
  | object members => members.lookup (utf8 key)
  | _ => none

/-- `GetString`: empty when absent or not a string. -/
def getString (v : JsonValue) (key : String) : Text :=
  match v.get key with
  | some (string value) => value
  | _ => []

/-- The member list with a name replaced in place, or appended. -/
def setMember (name : Text) (value : JsonValue) : List (Text × JsonValue) → List (Text × JsonValue)
  | [] => [(name, value)]
  | (k, v) :: rest => if k = name then (k, value) :: rest else (k, v) :: setMember name value rest

def set (v : JsonValue) (key : String) (value : JsonValue) : JsonValue :=
  match v with
  | object members => object (setMember (utf8 key) value members)
  | v => v

theorem lookup_setMember_self {name : Text} {members : List (Text × JsonValue)} (value : JsonValue) :
    (setMember name value members).lookup name = some value := by
  induction members with
  | nil => rw [setMember, List.lookup_cons, beq_self_eq_true]
  | cons e members ih =>
    rw [setMember]
    split
    · next hk => rw [List.lookup_cons, hk, beq_self_eq_true]
    · next hk => rw [List.lookup_cons, beq_false_of_ne (Ne.symm hk), ih]

theorem get_set_self {v old : JsonValue} {key : String} (h : v.get key = some old) (value : JsonValue) :
    (v.set key value).get key = some value := by
  cases v with
  | object members => exact lookup_setMember_self value
  | _ => cases h

theorem setMember_of_lookup {name : Text} {value : JsonValue} {members : List (Text × JsonValue)}
    (h : members.lookup name = some value) : setMember name value members = members := by
  induction members with
  | nil => cases h
  | cons e members ih =>
    rw [List.lookup_cons] at h
    rw [setMember]
    split at h
    · next hk =>
      cases h
      rw [if_pos (eq_of_beq hk).symm]
    · next hk => rw [if_neg (Ne.symm (ne_of_beq_false hk)), ih h]

theorem set_of_get {v value : JsonValue} {key : String} (h : v.get key = some value) : v.set key value = v := by
  cases v with
  | object members => exact congrArg object (setMember_of_lookup h)
  | _ => rfl

/-- The elements of an array, none for anything else: `Items` behind an `IsArray`. -/
def items? : JsonValue → Option (List JsonValue)
  | array items => some items
  | _ => none

/-! ## Printing -/

/-- The lower-case hexadecimal digit of a nibble. -/
def hexNibble (n : ℕ) : UInt8 := if n < 10 then UInt8.ofNat (48 + n) else UInt8.ofNat (87 + n)

/-- One byte of `cjsonEscape`. -/
def escapeByte (c : UInt8) : Text :=
  if c = 34 then [92, 34]
  else if c = 92 then [92, 92]
  else if c = 8 then [92, 98]
  else if c = 12 then [92, 102]
  else if c = 10 then [92, 110]
  else if c = 13 then [92, 114]
  else if c = 9 then [92, 116]
  else if c < 32 then [92, 117, 48, 48, hexNibble (c.toNat / 16), hexNibble (c.toNat % 16)]
  else [c]

def cjsonEscape (s : Text) : Text := 34 :: s.flatMap escapeByte ++ [34]

mutual

/-- `PrintJSONUnformatted`. -/
def print : JsonValue → Text
  | null => utf8 "null"
  | bool false => utf8 "false"
  | bool true => utf8 "true"
  | number lexeme => lexeme
  | string value => cjsonEscape value
  | array items => 91 :: printItems items ++ [93]
  | object members => 123 :: printMembers members ++ [125]

def printItems : List JsonValue → Text
  | [] => []
  | [item] => item.print
  | item :: next :: rest => item.print ++ 44 :: printItems (next :: rest)

def printMembers : List (Text × JsonValue) → Text
  | [] => []
  | [(key, value)] => cjsonEscape key ++ 58 :: value.print
  | (key, value) :: next :: rest => cjsonEscape key ++ 58 :: value.print ++ 44 :: printMembers (next :: rest)

end

/-! ## Reading -/

/-- `utf8.Valid`: no overlong forms, no surrogates, nothing past U+10FFFF. -/
def validUtf8 : Text → Bool
  | [] => true
  | a :: rest =>
    if a < 0x80 then validUtf8 rest
    else if a < 0xC2 then false
    else match rest with
    | b :: rest =>
      if a < 0xE0 then tail b && validUtf8 rest
      else match rest with
      | c :: rest =>
        if a < 0xF0 then
          (if a = 0xE0 then 0xA0 ≤ b && b ≤ 0xBF
            else if a = 0xED then 0x80 ≤ b && b ≤ 0x9F else tail b) &&
            tail c && validUtf8 rest
        else match rest with
        | d :: rest =>
          a ≤ 0xF4 &&
            (if a = 0xF0 then 0x90 ≤ b && b ≤ 0xBF
              else if a = 0xF4 then 0x80 ≤ b && b ≤ 0x8F else tail b) &&
            tail c && tail d && validUtf8 rest
        | [] => false
      | [] => false
    | [] => false
where
  /-- A continuation byte. -/
  tail (b : UInt8) : Bool := 0x80 ≤ b && b ≤ 0xBF

/-- The white space between tokens. -/
def isSpace (c : UInt8) : Bool := c = 32 || c = 9 || c = 10 || c = 13

def skipSpace (inp : Text) : Text := inp.dropWhile isSpace

/-- A string token: no control characters, no NUL, no unpaired surrogate. -/
def parseString : Text → Option (Text × Text)
  | 34 :: rest => do
      let (raw, after) ← CJson.scanLiteral rest
      let value ← CJson.unescape raw
      return (value, after)
  | _ => none

/-- The deepest level a value may stand at. -/
def maxDepth : ℕ := 512

mutual

/-- `parseJSONValue`, with the fuel of a recursion over the text. -/
def parseValue : ℕ → ℕ → Text → Option (JsonValue × Text)
  | 0, _, _ => none
  | fuel + 1, depth, inp =>
    if maxDepth < depth then none else
    match CJson.keyword "null" inp, CJson.keyword "false" inp, CJson.keyword "true" inp with
    | some rest, _, _ => some (null, rest)
    | _, some rest, _ => some (bool false, rest)
    | _, _, some rest => some (bool true, rest)
    | none, none, none =>
      match inp with
      | [] => none
      | c :: rest =>
        if c = 34 then (parseString inp).map fun (s, after) => (string s, after)
        else if c = 91 then
          match skipSpace rest with
          | 93 :: rest => some (array [], rest)
          | rest => (parseItems fuel depth rest).map fun (items, after) => (array items, after)
        else if c = 123 then
          match skipSpace rest with
          | 125 :: rest => some (object [], rest)
          | rest => (parseMembers fuel depth [] rest).map fun (members, after) => (object members, after)
        else
          let token := inp.takeWhile CJson.isNumberChar
          if CJson.validNumberToken token then some (number token, inp.dropWhile CJson.isNumberChar)
          else none

/-- The elements of an array, up to and including the closing bracket. -/
def parseItems : ℕ → ℕ → Text → Option (List JsonValue × Text)
  | 0, _, _ => none
  | fuel + 1, depth, inp =>
    match parseValue fuel (depth + 1) (skipSpace inp) with
    | none => none
    | some (item, after) =>
      match skipSpace after with
      | 44 :: rest => (parseItems fuel depth rest).map fun (items, after) => (item :: items, after)
      | 93 :: rest => some ([item], rest)
      | _ => none

/-- The members of an object, up to and including the closing brace. A name may occur once. -/
def parseMembers : ℕ → ℕ → List Text → Text → Option (List (Text × JsonValue) × Text)
  | 0, _, _, _ => none
  | fuel + 1, depth, names, inp =>
    match parseString (skipSpace inp) with
    | none => none
    | some (name, after) =>
      if name ∈ names then none else
      match skipSpace after with
      | 58 :: rest =>
        match parseValue fuel (depth + 1) (skipSpace rest) with
        | none => none
        | some (value, after) =>
          match skipSpace after with
          | 44 :: rest => (parseMembers fuel depth (name :: names) rest).map
              fun (members, after) => ((name, value) :: members, after)
          | 125 :: rest => some ([(name, value)], rest)
          | _ => none
      | _ => none

end

/-- `ParseJSON`. -/
def parse (raw : Text) : Option JsonValue :=
  if !validUtf8 raw then none else
  match parseValue (2 * raw.length + 1) 0 (skipSpace raw) with
  | some (v, rest) => if skipSpace rest = [] then some v else none
  | none => none

end JsonValue

end Economizer
