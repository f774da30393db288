-- SUMMARY: The vendored cJSON reader: values, the recursive-descent parser, and case-sensitive member lookup.
import Aimee.Lib.Bytes

/-!
# cJSON

The reading half of `vendor/cJSON.c`. A parser takes the bytes that are left in
the buffer and gives back what it read and the bytes after it, so the offset of the
source is the length of what was consumed. The buffer of `cJSON_Parse` ends with the
terminating NUL of its C string.

The numeric views of a number (`valuedouble`, `valueint`) are left out: the reader
keeps the exact token in `number_lexeme`, and no modelled function reads a number.
-/

inductive CJson where
  | null
  | bool (b : Bool)
  | number (lexeme : List UInt8)
  | string (value : CString)
  | array (items : List CJson)
  | object (members : List (CString × CJson))

namespace CJson

/-- `CJSON_NESTING_LIMIT`. -/
def nestingLimit : Nat := 1000

/-- `buffer_skip_whitespace`. A buffer that is all white space keeps its last byte. -/
def skipWhitespace : List UInt8 → List UInt8
  | [] => []
  | [c] => [c]
  | c :: d :: rest => if c ≤ 32 then skipWhitespace (d :: rest) else c :: d :: rest

/-! ## Strings -/

/-- One digit of `parse_hex4`. -/
def hexDigit (c : UInt8) : Option Nat :=
  if 48 ≤ c ∧ c ≤ 57 then some (c.toNat - 48)
  else if 65 ≤ c ∧ c ≤ 70 then some (10 + c.toNat - 65)
  else if 97 ≤ c ∧ c ≤ 102 then some (10 + c.toNat - 97)
  else none

/-- `parse_hex4`: zero stands for an invalid digit. -/
def parseHex4 (a b c d : UInt8) : Nat :=
  match hexDigit a, hexDigit b, hexDigit c, hexDigit d with
  | some a, some b, some c, some d => ((a * 16 + b) * 16 + c) * 16 + d
  | _, _, _, _ => 0

/-- The UTF-8 bytes `utf16_literal_to_utf8` writes for a code point. -/
def utf8Bytes (codepoint : Nat) : List UInt8 :=
  let tail (shift : Nat) := UInt8.ofNat (((codepoint >>> shift) ||| 0x80) &&& 0xBF)
  let first (shift mark : Nat) := UInt8.ofNat (((codepoint >>> shift) ||| mark) &&& 0xFF)
  if codepoint < 0x80 then [UInt8.ofNat (codepoint &&& 0x7F)]
  else if codepoint < 0x800 then [first 6 0xC0, tail 0]
  else if codepoint < 0x10000 then [first 12 0xE0, tail 6, tail 0]
  else [first 18 0xF0, tail 12, tail 6, tail 0]

/-- The two-character escapes of `parse_string`. -/
def simpleEscape (c : UInt8) : Option UInt8 :=
  if c = 98 then some 8          -- \b
  else if c = 102 then some 12   -- \f
  else if c = 110 then some 10   -- \n
  else if c = 114 then some 13   -- \r
  else if c = 116 then some 9    -- \t
  else if c = 34 ∨ c = 92 ∨ c = 47 then some c
  else none

/-- First pass of `parse_string`: the raw literal up to the closing quote, and the
    bytes behind it. -/
def scanLiteral : List UInt8 → Option (List UInt8 × List UInt8)
  | [] => none
  | c :: rest =>
    if c = 34 then some ([], rest)
    else if c < 0x20 then none
    else if c = 92 then
      match rest with
      | [] => none
      | e :: rest => (scanLiteral rest).map fun (raw, after) => (c :: e :: raw, after)
    else (scanLiteral rest).map fun (raw, after) => (c :: raw, after)

/-- Second pass of `parse_string`: resolve the escapes of a raw literal. -/
def unescape : List UInt8 → Option (List UInt8)
  | [] => some []
  | c :: rest =>
    if c ≠ 92 then (unescape rest).map (c :: ·)
    else
      match rest with
      | [] => none
      | e :: rest =>
        if e = 117 then
          match rest with
          | a :: b :: c :: d :: rest =>
            let first := parseHex4 a b c d
            if first = 0 ∨ (0xDC00 ≤ first ∧ first ≤ 0xDFFF) then none
            else if 0xD800 ≤ first ∧ first ≤ 0xDBFF then
              match rest with
              | s :: u :: a :: b :: c :: d :: rest =>
                let second := parseHex4 a b c d
                if s ≠ 92 ∨ u ≠ 117 ∨ second < 0xDC00 ∨ 0xDFFF < second then none
                else (unescape rest).map
                  (utf8Bytes (0x10000 + ((first &&& 0x3FF) <<< 10 ||| (second &&& 0x3FF))) ++ ·)
              | _ => none
            else (unescape rest).map (utf8Bytes first ++ ·)
          | _ => none
        else
          match simpleEscape e with
          | some b => (unescape rest).map (b :: ·)
          | none => none

def parseString : List UInt8 → Option (CString × List UInt8)
  | [] => none
  | c :: rest =>
    if c ≠ 34 then none
    else do
      let (raw, after) ← scanLiteral rest
      let value ← unescape raw
      return (CString.ofBytes value, after)

/-! ## Numbers -/

def isDigit (c : UInt8) : Bool := 48 ≤ c ∧ c ≤ 57

/-- The digits a number token needs at this point: at least one. -/
def digits1 (s : List UInt8) : Option (List UInt8) :=
  match s with
  | c :: rest => if isDigit c then some (rest.dropWhile isDigit) else none
  | [] => none

def exponentOk (s : List UInt8) : Bool :=
  match s with
  | [] => true
  | c :: rest =>
    if c = 101 ∨ c = 69 then
      let rest := match rest with
        | sign :: tail => if sign = 43 ∨ sign = 45 then tail else rest
        | [] => rest
      digits1 rest == some []
    else false

def fractionOk (s : List UInt8) : Bool :=
  match s with
  | c :: rest =>
    if c = 46 then
      match digits1 rest with
      | some rest => exponentOk rest
      | none => false
    else exponentOk s
  | [] => true

def validNumberToken (s : List UInt8) : Bool :=
  let s := match s with
    | c :: rest => if c = 45 then rest else s
    | [] => s
  match s with
  | [] => false
  | c :: rest =>
    if c = 48 then fractionOk rest
    else if 49 ≤ c ∧ c ≤ 57 then fractionOk (rest.dropWhile isDigit)
    else false

/-- The characters `parse_number` collects before it validates the token. -/
def isNumberChar (c : UInt8) : Bool :=
  isDigit c || c = 43 || c = 45 || c = 101 || c = 69 || c = 46

/-- `parse_number`. A token that passes `valid_number_token` is read by `strtod`
    to its end. -/
def parseNumber (inp : List UInt8) : Option (CJson × List UInt8) :=
  let token := inp.takeWhile isNumberChar
  if validNumberToken token then some (.number token, inp.dropWhile isNumberChar) else none

/-! ## Values -/

/-- Strip a keyword off the front of the buffer. -/
def keyword (word : String) (inp : List UInt8) : Option (List UInt8) :=
  if (ascii word).isPrefixOf inp then some (inp.drop (ascii word).length) else none

mutual

/-- `parse_value`. The fuel bounds the recursion: an opening bracket takes three calls
    and every later item at least one byte, so three times the buffer and one is enough. -/
def parseValue : Nat → Nat → List UInt8 → Option (CJson × List UInt8)
  | 0, _, _ => none
  | fuel + 1, depth, inp =>
    match keyword "null" inp, keyword "false" inp, keyword "true" inp with
    | some rest, _, _ => some (.null, rest)
    | _, some rest, _ => some (.bool false, rest)
    | _, _, some rest => some (.bool true, rest)
    | none, none, none =>
      match inp with
      | [] => none
      | c :: rest =>
        if c = 34 then (parseString inp).map fun (s, after) => (.string s, after)
        else if c = 45 ∨ (48 ≤ c ∧ c ≤ 57) then parseNumber inp
        else if c = 91 then parseArray fuel depth rest
        else if c = 123 then parseObject fuel depth rest
        else none

/-- `parse_array`, behind its opening bracket. -/
def parseArray : Nat → Nat → List UInt8 → Option (CJson × List UInt8)
  | 0, _, _ => none
  | fuel + 1, depth, inp =>
    if nestingLimit ≤ depth then none
    else
      match skipWhitespace inp with
      | [] => none
      | c :: rest =>
        if c = 93 then some (.array [], rest)
        else (parseElements fuel (depth + 1) (c :: rest)).map
          fun (items, after) => (.array items, after)

/-- The element loop of `parse_array`, up to and including the closing bracket. -/
def parseElements : Nat → Nat → List UInt8 → Option (List CJson × List UInt8)
  | 0, _, _ => none
  | fuel + 1, depth, inp =>
    match parseValue fuel depth (skipWhitespace inp) with
    | none => none
    | some (item, after) =>
      match skipWhitespace after with
      | [] => none
      | c :: rest =>
        if c = 44 then (parseElements fuel depth rest).map
          fun (items, after) => (item :: items, after)
        else if c = 93 then some ([item], rest)
        else none

/-- `parse_object`, behind its opening brace. -/
def parseObject : Nat → Nat → List UInt8 → Option (CJson × List UInt8)
  | 0, _, _ => none
  | fuel + 1, depth, inp =>
    if nestingLimit ≤ depth then none
    else
      match skipWhitespace inp with
      | [] => none
      | c :: rest =>
        if c = 125 then some (.object [], rest)
        else (parseMembers fuel (depth + 1) (c :: rest)).map
          fun (members, after) => (.object members, after)

/-- The member loop of `parse_object`, up to and including the closing brace. -/
def parseMembers : Nat → Nat → List UInt8 → Option (List (CString × CJson) × List UInt8)
  | 0, _, _ => none
  | fuel + 1, depth, inp =>
    match parseString (skipWhitespace inp) with
    | none => none
    | some (name, after) =>
      match skipWhitespace after with
      | [] => none
      | c :: rest =>
        if c ≠ 58 then none
        else
          match parseValue fuel depth (skipWhitespace rest) with
          | none => none
          | some (value, after) =>
            match skipWhitespace after with
            | [] => none
            | c :: rest =>
              if c = 44 then (parseMembers fuel depth rest).map
                fun (members, after) => ((name, value) :: members, after)
              else if c = 125 then some ([(name, value)], rest)
              else none

end

def skipUtf8Bom (inp : List UInt8) : List UInt8 :=
  if 4 < inp.length ∧ inp.take 3 = [0xEF, 0xBB, 0xBF] then inp.drop 3 else inp

/-- `cJSON_Parse`: bytes after the first value are ignored. -/
def parse (value : CString) : Option CJson :=
  let buffer := value.val ++ [0]
  (parseValue (3 * buffer.length + 1) 0 (skipWhitespace (skipUtf8Bom buffer))).map (·.1)

/-- `cJSON_GetObjectItemCaseSensitive`: the first member of that name. -/
def getObjectItemCaseSensitive (item : CJson) (name : CString) : Option CJson :=
  match item with
  | .object members => (members.find? fun m => m.1 = name).map (·.2)
  | _ => none

/-- The value of an item `cJSON_IsString` holds of. -/
def stringValue? : CJson → Option CString
  | .string s => some s
  | _ => none

/-! ## Reading plain text back -/

/-- A byte that stands for itself inside a string literal. -/
def Plain (c : UInt8) : Prop := 0x20 ≤ c ∧ c ≠ 34 ∧ c ≠ 92

instance : DecidablePred Plain := fun c => inferInstanceAs (Decidable (0x20 ≤ c ∧ c ≠ 34 ∧ c ≠ 92))

variable {s rest : List UInt8}

theorem plain_of_all (h : s.all (fun c => decide (Plain c)) = true) : ∀ c ∈ s, Plain c :=
  fun c hc => of_decide_eq_true (List.all_eq_true.mp h c hc)

theorem scanLiteral_plain (h : ∀ c ∈ s, Plain c) :
    scanLiteral (s ++ 34 :: rest) = some (s, rest) := by
  induction s with
  | nil =>
    rw [scanLiteral.eq_def]
    rfl
  | cons c s ih =>
    obtain ⟨hc, hquote, hslash⟩ := h c (by simp)
    have hnlt : ¬ c < 0x20 := UInt8.not_lt.mpr hc
    have hrest := ih (fun d hd => h d (by simp [hd]))
    rw [scanLiteral.eq_def]
    simp [hquote, hnlt, hslash, hrest]

theorem unescape_plain (h : ∀ c ∈ s, Plain c) : unescape s = some s := by
  induction s with
  | nil => rfl
  | cons c s ih =>
    obtain ⟨-, -, hslash⟩ := h c (by simp)
    have hrest := ih (fun d hd => h d (by simp [hd]))
    rw [unescape.eq_def]
    simp [hslash, hrest]

/-- A literal without escapes is read back as it stands. -/
theorem parseString_plain {s : CString} (rest : List UInt8) (h : ∀ c ∈ s.val, Plain c) :
    parseString (34 :: s.val ++ 34 :: rest) = some (s, rest) := by
  simp [parseString, scanLiteral_plain h, unescape_plain h, CString.ofBytes_of_not_mem s.property]

theorem skipWhitespace_of_lt {c : UInt8} (h : ¬ c ≤ 32) :
    skipWhitespace (c :: rest) = c :: rest := by
  cases rest with
  | nil => rfl
  | cons d rest => rw [skipWhitespace, if_neg h]

theorem parseValue_plain (fuel depth : Nat) {s : CString} (rest : List UInt8)
    (h : ∀ c ∈ s.val, Plain c) :
    parseValue (fuel + 1) depth (34 :: s.val ++ 34 :: rest) = some (.string s, rest) := by
  have hk : ∀ (word : String) (c : UInt8) (w : List UInt8), ascii word = c :: w → c ≠ 34 →
      keyword word (34 :: s.val ++ 34 :: rest) = none := by
    intro word c w hw hc
    simp [keyword, hw, hc]
  have hs := parseString_plain rest h
  have hnull := hk "null" _ _ rfl (by decide)
  have hfalse := hk "false" _ _ rfl (by decide)
  have htrue := hk "true" _ _ rfl (by decide)
  simp only [List.cons_append] at hs hnull hfalse htrue ⊢
  rw [parseValue.eq_def]
  simp [hs, hnull, hfalse, htrue]

theorem parseMembers_plain_cons (fuel depth : Nat) {name value : CString} (rest : List UInt8)
    (hname : ∀ c ∈ name.val, Plain c) (hvalue : ∀ c ∈ value.val, Plain c) :
    parseMembers (fuel + 2) depth
        (34 :: name.val ++ 34 :: 58 :: 34 :: value.val ++ 34 :: 44 :: rest)
      = (parseMembers (fuel + 1) depth rest).map
          fun (members, after) => ((name, .string value) :: members, after) := by
  have hs := parseString_plain (58 :: 34 :: value.val ++ 34 :: 44 :: rest) hname
  have hv := parseValue_plain fuel depth (44 :: rest) hvalue
  simp only [List.cons_append, List.append_assoc] at hs hv ⊢
  rw [parseMembers, skipWhitespace_of_lt (by decide), hs]
  simp [skipWhitespace_of_lt (c := 58) (by decide), skipWhitespace_of_lt (c := 34) (by decide), hv,
    skipWhitespace_of_lt (c := 44) (by decide)]

theorem parseMembers_plain_last (fuel depth : Nat) {name value : CString} (rest : List UInt8)
    (hname : ∀ c ∈ name.val, Plain c) (hvalue : ∀ c ∈ value.val, Plain c) :
    parseMembers (fuel + 2) depth
        (34 :: name.val ++ 34 :: 58 :: 34 :: value.val ++ 34 :: 125 :: rest)
      = some ([(name, .string value)], rest) := by
  have hs := parseString_plain (58 :: 34 :: value.val ++ 34 :: 125 :: rest) hname
  have hv := parseValue_plain fuel depth (125 :: rest) hvalue
  have hcomma : (125 : UInt8) ≠ 44 := by decide
  simp only [List.cons_append, List.append_assoc] at hs hv ⊢
  rw [parseMembers, skipWhitespace_of_lt (by decide), hs]
  simp [skipWhitespace_of_lt (c := 58) (by decide), skipWhitespace_of_lt (c := 34) (by decide), hv,
    skipWhitespace_of_lt (c := 125) (by decide), hcomma]

theorem parse_two_plain_members {text n₁ v₁ n₂ v₂ : CString}
    (hn₁ : ∀ c ∈ n₁.val, Plain c) (hv₁ : ∀ c ∈ v₁.val, Plain c)
    (hn₂ : ∀ c ∈ n₂.val, Plain c) (hv₂ : ∀ c ∈ v₂.val, Plain c)
    (htext : text.val = 123 :: (34 :: n₁.val ++ 34 :: 58 :: 34 :: v₁.val ++ 34 :: 44 ::
      (34 :: n₂.val ++ 34 :: 58 :: 34 :: v₂.val ++ [34, 125]))) :
    parse text = some (.object [(n₁, .string v₁), (n₂, .string v₂)]) := by
  have hbom : skipUtf8Bom (text.val ++ [0]) = text.val ++ [0] := by
    rw [skipUtf8Bom, if_neg]
    rintro ⟨-, h⟩
    rw [htext] at h
    simp at h
  have hfuel : ∃ fuel, 3 * (text.val ++ [0]).length + 1 = fuel + 5 := by
    refine ⟨3 * (text.val ++ [0]).length - 4, ?_⟩
    rw [htext]
    simp only [List.cons_append, List.length_cons]
    omega
  obtain ⟨fuel, hfuel⟩ := hfuel
  have hlast := parseMembers_plain_last fuel 1 [0] hn₂ hv₂
  have hfirst := parseMembers_plain_cons (fuel + 1) 1
    (34 :: n₂.val ++ 34 :: 58 :: 34 :: v₂.val ++ [34, 125, 0]) hn₁ hv₁
  have hk : ∀ (word : String) (c : UInt8) (w rest : List UInt8), ascii word = c :: w → c ≠ 123 →
      keyword word (123 :: rest) = none := by
    intro word c w rest hw hc
    simp [keyword, hw, hc]
  have hquote : (34 : UInt8) ≠ 125 := by decide
  simp only [List.cons_append, List.append_assoc] at hlast hfirst htext
  rw [parse, hbom, hfuel, htext]
  simp only [List.cons_append, List.append_assoc, List.nil_append]
  rw [skipWhitespace_of_lt (by decide), parseValue, hk "null" _ _ _ rfl (by decide),
    hk "false" _ _ _ rfl (by decide), hk "true" _ _ _ rfl (by decide)]
  rw [parseObject, skipWhitespace_of_lt (by decide)]
  simp only [hquote, if_false]
  rw [hfirst, hlast]
  rfl

end CJson
