-- SUMMARY: JSON frames of the C runtime: byte admission, exact-name uniqueness, the frame reader and the compact printer.
import Aimee.Economizer.Json
import Aimee.Vendor.CJsonPrint

/-!
# JSON frames

`aimee_ir_json_parse_frame` and `aimee_ir_json_unique` of `modules/ir/aimee_ir.c`, and
`cJSON_PrintUnformatted` of `vendor/cJSON.c`. A frame is the bytes of a C string, so it holds no
NUL; allocation does not fail, and a number prints as the token it was read from.
-/

namespace CJson

/-! ## Printing -/

mutual

/-- `print_value` without formatting: a container below the nesting limit is refused. -/
def print (depth : ℕ) : CJson → Option (List UInt8)
  | null => some (ascii "null")
  | bool false => some (ascii "false")
  | bool true => some (ascii "true")
  | number lexeme => some lexeme
  | string value => some (Economizer.JsonValue.cjsonEscape value.val)
  | array items =>
    if nestingLimit ≤ depth then none
    else (printItems (depth + 1) items).map fun body => 91 :: body ++ [93]
  | object members =>
    if nestingLimit ≤ depth then none
    else (printMembers (depth + 1) members).map fun body => 123 :: body ++ [125]

def printItems (depth : ℕ) : List CJson → Option (List UInt8)
  | [] => some []
  | [item] => print depth item
  | item :: next :: rest => do
      let head ← print depth item
      let tail ← printItems depth (next :: rest)
      some (head ++ 44 :: tail)

def printMembers (depth : ℕ) : List (CString × CJson) → Option (List UInt8)
  | [] => some []
  | [(name, value)] =>
    (print depth value).map fun body => Economizer.JsonValue.cjsonEscape name.val ++ 58 :: body
  | (name, value) :: next :: rest => do
      let head ← print depth value
      let tail ← printMembers depth (next :: rest)
      some (Economizer.JsonValue.cjsonEscape name.val ++ 58 :: head ++ 44 :: tail)

end

/-- `cJSON_PrintUnformatted`. -/
def printUnformatted (json : CJson) : Option (List UInt8) := print 0 json

theorem escapeByte_eq (c : UInt8) : Economizer.JsonValue.escapeByte c = escapeByte c := by
  unfold Economizer.JsonValue.escapeByte escapeByte
  by_cases hquote : c = 34
  · subst hquote
    rfl
  by_cases hbackslash : c = 92
  · subst hbackslash
    rfl
  by_cases hcontrol : c < 32
  · have hlow : ¬31 < c := by
      exact not_lt.mpr (Nat.le_of_lt_succ hcontrol)
    simp only [hquote, hbackslash, hcontrol, hlow, false_and, if_true, if_false]
    rfl
  · have hhigh : 31 < c := by
      exact Nat.lt_of_succ_le (not_lt.mp hcontrol)
    have hne : ∀ d : UInt8, d < 32 → c ≠ d := fun d hd h => hcontrol (h ▸ hd)
    simp [hquote, hbackslash, hcontrol, hhigh, hne 8 (by decide), hne 12 (by decide), hne 10 (by decide),
      hne 13 (by decide), hne 9 (by decide)]

theorem cjsonEscape_eq (s : CString) : Economizer.JsonValue.cjsonEscape s.val = printString s := by
  rw [Economizer.JsonValue.cjsonEscape, funext escapeByte_eq]
  rfl

mutual

theorem print_eq {depth : ℕ} (hdepth : depth ≤ nestingLimit) : ∀ json : CJson,
    print depth json = if depth + height json ≤ nestingLimit then some (printed json) else none
  | null => (if_pos hdepth).symm
  | bool false => (if_pos hdepth).symm
  | bool true => (if_pos hdepth).symm
  | number lexeme => (if_pos hdepth).symm
  | string value => by
      rw [print, cjsonEscape_eq]
      exact (if_pos hdepth).symm
  | array items => by
      rw [print, printed, height]
      by_cases hlimit : nestingLimit ≤ depth
      · rw [if_pos hlimit, if_neg (by omega)]
      · rw [if_neg hlimit, printItems_eq (not_le.mp hlimit) items]
        by_cases hitems : depth + 1 + heightElements items ≤ nestingLimit
        · rw [if_pos hitems, if_pos (by omega)]
          rfl
        · rw [if_neg hitems, if_neg (by omega)]
          rfl
  | object members => by
      rw [print, printed, height]
      by_cases hlimit : nestingLimit ≤ depth
      · rw [if_pos hlimit, if_neg (by omega)]
      · rw [if_neg hlimit, printMembers_eq (not_le.mp hlimit) members]
        by_cases hmembers : depth + 1 + heightMembers members ≤ nestingLimit
        · rw [if_pos hmembers, if_pos (by omega)]
          rfl
        · rw [if_neg hmembers, if_neg (by omega)]
          rfl

theorem printItems_eq {depth : ℕ} (hdepth : depth ≤ nestingLimit) : ∀ items : List CJson,
    printItems depth items = if depth + heightElements items ≤ nestingLimit then some (printedElements items) else none
  | [] => by rw [printItems, printedElements, heightElements, Nat.add_zero, if_pos hdepth]
  | [item] => by
      rw [printItems, print_eq hdepth item, printedElements, heightElements, heightElements, Nat.max_zero]
      simp
  | item :: next :: rest => by
      have hheight : heightElements (item :: next :: rest) = max (height item) (heightElements (next :: rest)) := rfl
      have htext : printedElements (item :: next :: rest) = printed item ++ 44 :: printedElements (next :: rest) := rfl
      rw [hheight, htext, printItems, print_eq hdepth item, printItems_eq hdepth (next :: rest)]
      by_cases hitem : depth + height item ≤ nestingLimit
      · by_cases hrest : depth + heightElements (next :: rest) ≤ nestingLimit
        · rw [if_pos hitem, if_pos hrest, if_pos (by omega)]
          rfl
        · rw [if_pos hitem, if_neg hrest,
            if_neg (show ¬depth + max (height item) (heightElements (next :: rest)) ≤ nestingLimit by omega)]
          rfl
      · rw [if_neg hitem, if_neg (show ¬depth + max (height item) (heightElements (next :: rest)) ≤
          nestingLimit by omega)]
        rfl

theorem printMembers_eq {depth : ℕ} (hdepth : depth ≤ nestingLimit) : ∀ members : List (CString × CJson),
    printMembers depth members = if depth + heightMembers members ≤ nestingLimit then
      some (printedMembers members) else none
  | [] => by rw [printMembers, printedMembers, heightMembers, Nat.add_zero, if_pos hdepth]
  | [(name, value)] => by
      rw [printMembers, print_eq hdepth value, printedMembers, heightMembers, heightMembers, Nat.max_zero,
        cjsonEscape_eq]
      by_cases hvalue : depth + height value ≤ nestingLimit
      · simp [hvalue]
      · simp [hvalue]
  | (name, value) :: next :: rest => by
      have hheight : heightMembers ((name, value) :: next :: rest) =
        max (height value) (heightMembers (next :: rest)) := rfl
      have htext : printedMembers ((name, value) :: next :: rest) =
          printString name ++ 58 :: (printed value ++ 44 :: printedMembers (next :: rest)) := rfl
      rw [hheight, htext, printMembers, print_eq hdepth value, printMembers_eq hdepth (next :: rest), cjsonEscape_eq]
      by_cases hvalue : depth + height value ≤ nestingLimit
      · by_cases hrest : depth + heightMembers (next :: rest) ≤ nestingLimit
        · rw [if_pos hvalue, if_pos hrest, if_pos (by omega)]
          simp
        · rw [if_pos hvalue, if_neg hrest,
            if_neg (show ¬depth + max (height value) (heightMembers (next :: rest)) ≤ nestingLimit by omega)]
          rfl
      · rw [if_neg hvalue, if_neg (show ¬depth + max (height value) (heightMembers (next :: rest)) ≤
          nestingLimit by omega)]
        rfl

end

theorem printUnformatted_eq (json : CJson) :
    printUnformatted json = if height json ≤ nestingLimit then some (printed json) else none := by
  have h := print_eq (Nat.zero_le nestingLimit) json
  rw [Nat.zero_add] at h
  exact h

/-- `cJSON_IsObject`. -/
def isObject : CJson → Bool
  | object _ => true
  | _ => false

/-- `cJSON_GetArraySize`: the number of children. -/
def arraySize : CJson → ℕ
  | array items => items.length
  | object members => members.length
  | _ => 0

/-! ## Unique names -/

mutual

/-- `json_compare_view` without normalization: no object names a member twice, and nothing lies
    deeper than 512 levels. -/
def uniqueFrom (depth : ℕ) : CJson → Bool
  | array items => depth ≤ 512 && uniqueItems (depth + 1) items
  | object members => depth ≤ 512 && uniqueMembers (depth + 1) [] members
  | _ => depth ≤ 512

def uniqueItems (depth : ℕ) : List CJson → Bool
  | [] => true
  | item :: rest => uniqueFrom depth item && uniqueItems depth rest

def uniqueMembers (depth : ℕ) (names : List CString) : List (CString × CJson) → Bool
  | [] => true
  | (name, value) :: rest =>
    !names.contains name && uniqueFrom depth value && uniqueMembers depth (name :: names) rest

end

end CJson

namespace AimeeIr

/-- `aimee_ir_json_unique`. -/
def jsonUnique (json : CJson) : Bool := json.uniqueFrom 0

/-! ## Frame bytes -/

/-- The continuation bytes of a character: the code point they complete and what follows them. -/
def continuation : ℕ → ℕ → List UInt8 → Option (ℕ × List UInt8)
  | 0, cp, rest => some (cp, rest)
  | extra + 1, cp, next :: rest =>
    if next &&& 0xC0 = 0x80 then continuation extra (cp * 64 + (next &&& 0x3F).toNat) rest else none
  | _ + 1, _, [] => none

/-- What follows a multi-byte character in a text: overlong forms, surrogates and code points past
    U+10FFFF are refused. -/
def afterMultibyte (lead : UInt8) (rest : List UInt8) : Option (List UInt8) :=
  let read (minimum extra : ℕ) (mask : UInt8) :=
    match continuation extra (lead &&& mask).toNat rest with
    | none => none
    | some (cp, rest) =>
      if cp < minimum ∨ 0x10FFFF < cp ∨ (0xD800 ≤ cp ∧ cp ≤ 0xDFFF) then none else some rest
  if 0xC2 ≤ lead ∧ lead ≤ 0xDF then read 0x80 1 0x1F
  else if 0xE0 ≤ lead ∧ lead ≤ 0xEF then read 0x800 2 0x0F
  else if 0xF0 ≤ lead ∧ lead ≤ 0xF4 then read 0x10000 3 7
  else none

/-- The loop of `json_frame_text_valid`; the fuel is the number of bytes left. -/
def frameTextFrom : ℕ → Bool → List UInt8 → Bool
  | _, _, [] => true
  | 0, _, _ :: _ => false
  | fuel + 1, inString, cp :: rest =>
    if cp = 0 ∨ (cp < 0x20 ∧ (inString = true ∨ (cp ≠ 9 ∧ cp ≠ 13 ∧ cp ≠ 10))) then false
    else
      let inString := if cp = 34 then !inString else inString
      if cp = 0x5C then
        -- The byte after an escape introducer is not looked at.
        if rest.take 5 = ascii "u0000" then false else frameTextFrom fuel inString (rest.drop 1)
      else if cp < 0x80 then frameTextFrom fuel inString rest
      else
        match afterMultibyte cp rest with
        | none => false
        | some rest => frameTextFrom fuel inString rest

def jsonFrameTextValid (text : List UInt8) : Bool := frameTextFrom text.length false text

/-- `aimee_ir_json_parse_frame`: one value, followed by white space only. -/
def jsonParseFrame (frame : List UInt8) : Option CJson :=
  if frame = [] ∨ jsonFrameTextValid frame = false then none
  else
    match CJson.parseValue (3 * frame.length + 1) 0 (CJson.skipWhitespace (CJson.skipUtf8Bom frame)) with
    | none => none
    | some (json, after) =>
      if after.dropWhile (fun c => c = 32 ∨ c = 9 ∨ c = 13 ∨ c = 10) = [] ∧ jsonUnique json = true then some json
      else none

end AimeeIr
