-- SUMMARY: Go's text functions on characters (TrimSpace, ToLower, EqualFold) and the spelling of a string by encoding/json, which never holds a NUL.
import Mathlib.Data.Int.Notation
import Mathlib.Tactic.Common

/-!
# Go texts

`strings.TrimSpace`, `strings.ToLower` and `strings.EqualFold` as far as a comparison with an
ASCII constant can see them, and what `json.Marshal` writes. A text is valid UTF-8 here.
-/

namespace GoText

/-! ## package strings -/

def isSpace (c : Char) : Bool :=
  c = ' ' || (9 ≤ c.toNat && c.toNat ≤ 13) || c.toNat = 0x85 || c.toNat = 0xA0 || c.toNat = 0x1680 ||
    (0x2000 ≤ c.toNat && c.toNat ≤ 0x200a) || c.toNat = 0x2028 || c.toNat = 0x2029 ||
    c.toNat = 0x202f || c.toNat = 0x205f || c.toNat = 0x3000

def trimSpace (text : String) : String :=
  String.ofList ((text.toList.dropWhile isSpace).reverse.dropWhile isSpace).reverse

/-- `unicode.ToLower`, for the runes whose lower case is ASCII: the letters, `İ` and the Kelvin sign. -/
def lowerRune (c : Char) : Char :=
  if c.toNat = 0x130 then 'i' else if c.toNat = 0x212a then 'k' else c.toLower

def toLower (text : String) : String := String.ofList (text.toList.map lowerRune)

/-- The ASCII member of a rune's `unicode.SimpleFold` orbit, where it has one. -/
def foldRune (c : Char) : Char :=
  if c.toNat = 0x17f then 's' else if c.toNat = 0x212a then 'k' else c.toLower

/-- `strings.EqualFold` with an ASCII text. -/
def equalFold (text ascii : String) : Bool := text.toList.map foldRune = ascii.toList.map foldRune

/-- `strings.ToLower(strings.TrimSpace(text))`. -/
def normal (text : String) : String := toLower (trimSpace text)

/-! ## encoding/json -/

/-- A value handed to `json.Marshal`, with the members of an object in the order of the output.
    `raw` is text that is encoded already. -/
inductive Json where
  | null
  | bool (b : Bool)
  | num (n : ℤ)
  | str (s : String)
  | raw (text : String)
  | arr (items : List Json)
  | obj (members : List (String × Json))

def hexDigit (n : ℕ) : Char := Nat.digitChar (n % 16)

/-- What `json.Marshal` writes for a character of a string. -/
def escapeChar (c : Char) : List Char :=
  if c = '"' ∨ c = '\\' then ['\\', c]
  else if c = '\x08' then ['\\', 'b']
  else if c = '\x0c' then ['\\', 'f']
  else if c = '\n' then ['\\', 'n']
  else if c = '\r' then ['\\', 'r']
  else if c = '\t' then ['\\', 't']
  else if c.toNat < 0x20 ∨ c = '<' ∨ c = '>' ∨ c = '&' then
    ['\\', 'u', '0', '0', hexDigit (c.toNat / 16), hexDigit c.toNat]
  else if c.toNat = 0x2028 ∨ c.toNat = 0x2029 then ['\\', 'u', '2', '0', '2', hexDigit c.toNat]
  else [c]

def quote (s : String) : String := String.ofList ('"' :: s.toList.flatMap escapeChar ++ ['"'])

mutual

def marshal : Json → String
  | .null => "null"
  | .bool true => "true"
  | .bool false => "false"
  | .num n => toString n
  | .str s => quote s
  | .raw text => text
  | .arr items => "[" ++ marshalItems items ++ "]"
  | .obj members => "\x7b" ++ marshalMembers members ++ "\x7d"

def marshalItems : List Json → String
  | [] => ""
  | [v] => marshal v
  | v :: w :: rest => marshal v ++ "," ++ marshalItems (w :: rest)

def marshalMembers : List (String × Json) → String
  | [] => ""
  | [(k, v)] => quote k ++ ":" ++ marshal v
  | (k, v) :: m :: rest => quote k ++ ":" ++ marshal v ++ "," ++ marshalMembers (m :: rest)

end

/-- A member that is left out when its string is empty. -/
def omitempty (name value : String) : List (String × Json) := if value = "" then [] else [(name, .str value)]

/-! ## Encoded texts hold no NUL -/

def nul : Char := '\x00'

/-- No character of the text is NUL. -/
def Plain (text : String) : Prop := nul ∉ text.toList

instance (text : String) : Decidable (Plain text) := inferInstanceAs (Decidable (nul ∉ text.toList))

theorem Plain.append {a b : String} (ha : Plain a) (hb : Plain b) : Plain (a ++ b) := by
  intro h
  rw [String.toList_append, List.mem_append] at h
  exact h.elim ha hb

theorem plain_append_iff {a b : String} : Plain (a ++ b) ↔ Plain a ∧ Plain b := by
  simp [Plain]

/-- A text given by its characters. A literal is one up to reducible unfolding, and not read back. -/
theorem plain_ofList {cs : List Char} (h : cs.all (· ≠ nul)) : Plain (String.ofList cs) := by
  intro hnul
  rw [String.toList_ofList] at hnul
  exact absurd (List.all_eq_true.mp h nul hnul) (by decide)

theorem nul_ne_hexDigit (n : ℕ) : nul ≠ hexDigit n := by
  have h : ∀ k < 16, nul ≠ Nat.digitChar k := by decide
  exact h _ (Nat.mod_lt n (by decide))

theorem nul_notMem_escapeChar (c : Char) : nul ∉ escapeChar c := by
  unfold escapeChar
  split_ifs with h1 h2 h3 h4 h5 h6 h7 h8
  · rcases h1 with rfl | rfl <;> decide
  iterate 5 decide
  · simp [nul_ne_hexDigit, show nul ≠ '\\' by decide, show nul ≠ 'u' by decide, show nul ≠ '0' by decide]
  · simp [nul_ne_hexDigit, show nul ≠ '\\' by decide, show nul ≠ 'u' by decide, show nul ≠ '0' by decide,
      show nul ≠ '2' by decide]
  · -- the character stands for itself, and NUL is below the space
    intro hm
    rw [List.mem_singleton] at hm
    exact h7 (Or.inl (by rw [← hm]; decide))

theorem quote_plain (s : String) : Plain (quote s) := by
  intro h
  rw [quote, String.toList_ofList, List.cons_append, List.mem_cons, List.mem_append] at h
  rcases h with h | h | h
  · exact absurd h (by decide)
  · obtain ⟨c, -, hc⟩ := List.mem_flatMap.mp h
    exact nul_notMem_escapeChar c hc
  · exact absurd h (by decide)

theorem toString_plain (n : ℕ) : Plain (toString n) := by
  intro h
  have hdigit := Nat.isDigit_of_mem_toDigits (b := 10) (by decide) (by decide) (c := nul) (n := n)
    (by simpa [toString, Nat.repr] using h)
  exact absurd hdigit (by decide)

theorem marshal_str_plain (s : String) : Plain (marshal (.str s)) := quote_plain s

theorem marshal_bool_plain (b : Bool) : Plain (marshal (.bool b)) := by
  cases b <;> decide

theorem marshal_nat_plain (n : ℕ) : Plain (marshal (.num n)) := toString_plain n

theorem marshal_arr_plain {items : List Json} (h : ∀ v ∈ items, Plain (marshal v)) : Plain (marshal (.arr items)) := by
  refine Plain.append (Plain.append (by decide) ?_) (by decide)
  induction items with
  | nil => decide
  | cons v rest ih =>
    cases rest with
    | nil => exact h v List.mem_cons_self
    | cons w rest =>
      exact Plain.append (Plain.append (h v List.mem_cons_self) (by decide))
        (ih fun x hx => h x (List.mem_cons_of_mem _ hx))

theorem marshal_obj_plain {members : List (String × Json)} (h : ∀ m ∈ members, Plain (marshal m.2)) :
    Plain (marshal (.obj members)) := by
  refine Plain.append (Plain.append (by decide) ?_) (by decide)
  induction members with
  | nil => decide
  | cons m rest ih =>
    have hm : Plain (quote m.1 ++ ":" ++ marshal m.2) :=
      Plain.append (Plain.append (quote_plain _) (by decide)) (h m List.mem_cons_self)
    cases rest with
    | nil => exact hm
    | cons w rest =>
      exact Plain.append (Plain.append hm (by decide)) (ih fun x hx => h x (List.mem_cons_of_mem _ hx))

theorem omitempty_plain {name value : String} {m : String × Json} (h : m ∈ omitempty name value) :
    Plain (marshal m.2) := by
  unfold omitempty at h
  split at h
  · cases h
  · rw [List.mem_singleton] at h
    rw [h]
    exact marshal_str_plain value

end GoText
