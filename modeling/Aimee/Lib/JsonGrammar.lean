-- SUMMARY: The grammar of JSON texts: characters, numbers and values with the tokens they are spelled in, and the layouts of tokens.
import Mathlib.Data.List.Nodup
import Mathlib.Data.Char

/-!
# JSON texts

A value is its syntax: how each character and each number is spelled is part of it, the white
space around the tokens is not. `Tree.tokens` spells a value, and a text is any layout of the
tokens: white space may stand before each of them and at the end.
-/

namespace JsonGrammar

/-! ## White space -/

def isWs (b : UInt8) : Bool := b = 32 || b = 9 || b = 10 || b = 13

def isDigit (b : UInt8) : Bool := 48 ≤ b && b ≤ 57

def isHex (b : UInt8) : Bool := isDigit b || 97 ≤ b && b ≤ 102 || 65 ≤ b && b ≤ 70

/-- The value of a hexadecimal digit. -/
def hexValue (b : UInt8) : ℕ :=
  if isDigit b then b.toNat - 48 else if 97 ≤ b then b.toNat - 87 else b.toNat - 55

/-! ## Characters -/

/-- The four digits of a `\u` escape. -/
structure Hex4 where
  a : UInt8
  b : UInt8
  c : UInt8
  d : UInt8
  digits : isHex a ∧ isHex b ∧ isHex c ∧ isHex d

namespace Hex4

def text (u : Hex4) : List UInt8 := [u.a, u.b, u.c, u.d]

/-- The code unit the digits name. -/
def value (u : Hex4) : ℕ :=
  ((hexValue u.a * 16 + hexValue u.b) * 16 + hexValue u.c) * 16 + hexValue u.d

end Hex4

/-- What a letter behind a backslash stands for. -/
def shortEscape (e : UInt8) : Option Char :=
  if e = 34 then some '"'
  else if e = 92 then some '\\'
  else if e = 47 then some '/'
  else if e = 98 then some '\x08'
  else if e = 102 then some '\x0c'
  else if e = 110 then some '\n'
  else if e = 114 then some '\r'
  else if e = 116 then some '\t'
  else none

/-- The character a pair of surrogates stands for. -/
def pairValue (hi lo : ℕ) : ℕ := (hi - 0xD800) * 0x400 + (lo - 0xDC00) + 0x10000

/-- A character of a string, as it is spelled. -/
inductive StringChar where
  | plain (c : Char) (h : 32 ≤ c.toNat ∧ c ≠ '"' ∧ c ≠ '\\')
  | short (e : UInt8) (c : Char) (h : shortEscape e = some c)
  | unicode (u : Hex4) (c : Char) (h : c.toNat = u.value)
  | pair (hi lo : Hex4) (c : Char)
      (h : (0xD800 ≤ hi.value ∧ hi.value ≤ 0xDBFF) ∧ (0xDC00 ≤ lo.value ∧ lo.value ≤ 0xDFFF) ∧
        c.toNat = pairValue hi.value lo.value)

namespace StringChar

def text : StringChar → List UInt8
  | plain c _ => String.utf8EncodeChar c
  | short e _ _ => [92, e]
  | unicode u _ _ => 92 :: 117 :: u.text
  | pair hi lo _ _ => 92 :: 117 :: hi.text ++ 92 :: 117 :: lo.text

def char : StringChar → Char
  | plain c _ => c
  | short _ c _ => c
  | unicode _ c _ => c
  | pair _ _ c _ => c

end StringChar

/-- The characters of a string up to its closing quote. -/
def bodyText (cs : List StringChar) : List UInt8 := cs.flatMap StringChar.text

def stringText (cs : List StringChar) : List UInt8 := 34 :: bodyText cs ++ [34]

/-! ## Numbers -/

/-- No leading zero, but zero itself. -/
def IsInt (t : List UInt8) : Prop :=
  t = [48] ∨ ∃ d ds, t = d :: ds ∧ isDigit d ∧ d ≠ 48 ∧ ds.all isDigit

def IsFraction (t : List UInt8) : Prop :=
  t = [] ∨ ∃ ds, t = 46 :: ds ∧ ds ≠ [] ∧ ds.all isDigit

def IsExponent (t : List UInt8) : Prop :=
  t = [] ∨ ∃ e sign ds, t = e :: sign ++ ds ∧ (e = 101 ∨ e = 69) ∧
    (sign = [] ∨ sign = [43] ∨ sign = [45]) ∧ ds ≠ [] ∧ ds.all isDigit

structure Number where
  minus : List UInt8
  int : List UInt8
  fraction : List UInt8
  exponent : List UInt8
  isMinus : minus = [] ∨ minus = [45]
  isInt : IsInt int
  isFraction : IsFraction fraction
  isExponent : IsExponent exponent

def Number.text (n : Number) : List UInt8 := n.minus ++ n.int ++ n.fraction ++ n.exponent

/-- A byte of a number. -/
def isNumberByte (b : UInt8) : Bool := isDigit b || b = 43 || b = 45 || b = 46 || b = 69 || b = 101

theorem isNumberByte_of_digits {ds : List UInt8} (h : ds.all isDigit) : ∀ b ∈ ds, isNumberByte b := fun b hb => by
  rw [isNumberByte, List.all_eq_true.mp h b hb]
  rfl

theorem Number.isNumberByte_of_mem (n : Number) : ∀ b ∈ n.text, isNumberByte b := by
  have hint : ∀ b ∈ n.int, isNumberByte b := by
    rcases n.isInt with h | ⟨d, ds, h, hd, -, hds⟩
    · rw [h]
      exact List.all_eq_true.mp rfl
    · rw [h]
      exact isNumberByte_of_digits (by rw [List.all_cons, hd, hds]; rfl)
  have hfraction : ∀ b ∈ n.fraction, isNumberByte b := by
    rcases n.isFraction with h | ⟨ds, h, -, hds⟩
    · rw [h]
      exact fun _ hb => nomatch hb
    · rw [h]
      exact List.forall_mem_cons.mpr ⟨rfl, isNumberByte_of_digits hds⟩
  have hexponent : ∀ b ∈ n.exponent, isNumberByte b := by
    rcases n.isExponent with h | ⟨e, sign, ds, h, he, hsign, -, hds⟩
    · rw [h]
      exact fun _ hb => nomatch hb
    · rw [h]
      refine List.forall_mem_cons.mpr ⟨?_, List.forall_mem_append.mpr ⟨?_, isNumberByte_of_digits hds⟩⟩
      · rcases he with rfl | rfl <;> rfl
      · rcases hsign with rfl | rfl | rfl <;> exact List.all_eq_true.mp rfl
  have hminus : ∀ b ∈ n.minus, isNumberByte b := by
    rcases n.isMinus with h | h <;> rw [h] <;> exact List.all_eq_true.mp rfl
  intro b hb
  simp only [Number.text, List.mem_append] at hb
  rcases hb with ((hb | hb) | hb) | hb
  · exact hminus b hb
  · exact hint b hb
  · exact hfraction b hb
  · exact hexponent b hb

/-! ## Values -/

inductive Word where
  | true
  | false
  | null

def Word.text : Word → List UInt8
  | .true => [116, 114, 117, 101]
  | .false => [102, 97, 108, 115, 101]
  | .null => [110, 117, 108, 108]

inductive Tree where
  | word (w : Word)
  | number (n : Number)
  | string (cs : List StringChar)
  | array (items : List Tree)
  | object (members : List (List StringChar × Tree))

abbrev Member := List StringChar × Tree

/-- The name of a member, decoded. -/
def Member.name (m : Member) : List Char := m.1.map StringChar.char

namespace Tree

mutual

/-- The tokens a value is spelled in. -/
def tokens : Tree → List (List UInt8)
  | word w => [w.text]
  | number n => [n.text]
  | string cs => [stringText cs]
  | array items => [91] :: itemTokens items ++ [[93]]
  | object members => [123] :: memberTokens members ++ [[125]]

def itemTokens : List Tree → List (List UInt8)
  | [] => []
  | [t] => t.tokens
  | t :: next :: rest => t.tokens ++ [44] :: itemTokens (next :: rest)

def memberTokens : List (List StringChar × Tree) → List (List UInt8)
  | [] => []
  | [(name, t)] => stringText name :: [58] :: t.tokens
  | (name, t) :: next :: rest => stringText name :: [58] :: t.tokens ++ [44] :: memberTokens (next :: rest)

end

mutual

/-- How many arrays and objects are around the value that lies deepest. -/
def nesting : Tree → ℕ
  | word _ => 0
  | number _ => 0
  | string _ => 0
  | array items => itemNesting items
  | object members => memberNesting members

def itemNesting : List Tree → ℕ
  | [] => 0
  | t :: rest => max (t.nesting + 1) (itemNesting rest)

def memberNesting : List (List StringChar × Tree) → ℕ
  | [] => 0
  | (_, t) :: rest => max (t.nesting + 1) (memberNesting rest)

end

mutual

/-- The objects in a value, each as its members. -/
def objects : Tree → List (List (List StringChar × Tree))
  | word _ => []
  | number _ => []
  | string _ => []
  | array items => itemObjects items
  | object members => members :: memberObjects members

def itemObjects : List Tree → List (List (List StringChar × Tree))
  | [] => []
  | t :: rest => t.objects ++ itemObjects rest

def memberObjects : List (List StringChar × Tree) → List (List (List StringChar × Tree))
  | [] => []
  | (_, t) :: rest => t.objects ++ memberObjects rest

end

theorem itemNesting_lt {n : ℕ} {items : List Tree} :
    itemNesting items < n + 1 ↔ ∀ t ∈ items, t.nesting < n := by
  induction items with
  | nil => simp [itemNesting]
  | cons t rest ih => rw [itemNesting, Nat.max_lt, Nat.add_lt_add_iff_right, ih, List.forall_mem_cons]

theorem memberNesting_lt {n : ℕ} {members : List Member} :
    memberNesting members < n + 1 ↔ ∀ m ∈ members, m.2.nesting < n := by
  induction members with
  | nil => simp [memberNesting]
  | cons m rest ih => rw [memberNesting, Nat.max_lt, Nat.add_lt_add_iff_right, ih, List.forall_mem_cons]

theorem mem_itemObjects {items : List Tree} {o : List Member} :
    o ∈ itemObjects items ↔ ∃ t ∈ items, o ∈ t.objects := by
  induction items with
  | nil => simp [itemObjects]
  | cons t rest ih => rw [itemObjects, List.mem_append, ih, List.exists_mem_cons_iff]

theorem mem_memberObjects {members : List Member} {o : List Member} :
    o ∈ memberObjects members ↔ ∃ m ∈ members, o ∈ m.2.objects := by
  induction members with
  | nil => simp [memberObjects]
  | cons m rest ih => rw [memberObjects, List.mem_append, ih, List.exists_mem_cons_iff]

/-! ## Tokens -/

/-- What may stand between white space. -/
inductive IsToken : List UInt8 → Prop where
  | word (w : Word) : IsToken w.text
  | number (n : Number) : IsToken n.text
  | string (cs : List StringChar) : IsToken (stringText cs)
  | mark {c : UInt8} (h : c ∈ [44, 58, 91, 93, 123, 125]) : IsToken [c]

mutual

theorem isToken_of_mem {token : List UInt8} : ∀ {t : Tree}, token ∈ t.tokens → IsToken token
  | word w, h => List.mem_singleton.mp h ▸ .word w
  | number n, h => List.mem_singleton.mp h ▸ .number n
  | string cs, h => List.mem_singleton.mp h ▸ .string cs
  | array items, h => by
      rw [tokens, List.cons_append, List.mem_cons, List.mem_append, List.mem_singleton] at h
      rcases h with rfl | h | rfl
      · exact .mark (by decide)
      · exact isToken_of_mem_items h
      · exact .mark (by decide)
  | object members, h => by
      rw [tokens, List.cons_append, List.mem_cons, List.mem_append, List.mem_singleton] at h
      rcases h with rfl | h | rfl
      · exact .mark (by decide)
      · exact isToken_of_mem_members h
      · exact .mark (by decide)

theorem isToken_of_mem_items {token : List UInt8} : ∀ {items : List Tree}, token ∈ itemTokens items → IsToken token
  | [], h => nomatch h
  | [t], h => isToken_of_mem (t := t) h
  | t :: next :: rest, h => by
      rw [itemTokens, List.mem_append, List.mem_cons] at h
      rcases h with h | rfl | h
      · exact isToken_of_mem h
      · exact .mark (by decide)
      · exact isToken_of_mem_items h

theorem isToken_of_mem_members {token : List UInt8} :
    ∀ {members : List (List StringChar × Tree)}, token ∈ memberTokens members → IsToken token
  | [], h => nomatch h
  | [(name, t)], h => by
      rw [memberTokens, List.mem_cons, List.mem_cons] at h
      rcases h with rfl | rfl | h
      · exact .string name
      · exact .mark (by decide)
      · exact isToken_of_mem h
  | (name, t) :: next :: rest, h => by
      rw [memberTokens, List.cons_append, List.cons_append, List.mem_cons, List.mem_cons, List.mem_append,
        List.mem_cons] at h
      rcases h with rfl | rfl | h | rfl | h
      · exact .string name
      · exact .mark (by decide)
      · exact isToken_of_mem h
      · exact .mark (by decide)
      · exact isToken_of_mem_members h

end

/-! ## Limits -/

/-- A value within limits on its nesting and on the members of an object, no object of which
    gives a name twice. -/
structure Within (depth members : ℕ) (t : Tree) : Prop where
  nesting : t.nesting < depth
  members : ∀ o ∈ t.objects, o.length ≤ members
  names : ∀ o ∈ t.objects, (o.map Member.name).Nodup

variable {depth members : ℕ}

theorem within_array {items : List Tree} :
    (array items).Within (depth + 1) members ↔ ∀ t ∈ items, t.Within depth members := by
  constructor
  · intro ⟨hdepth, hmembers, hnames⟩ t ht
    rw [nesting, itemNesting_lt] at hdepth
    exact ⟨hdepth t ht, fun o ho => hmembers o (mem_itemObjects.mpr ⟨t, ht, ho⟩),
      fun o ho => hnames o (mem_itemObjects.mpr ⟨t, ht, ho⟩)⟩
  · intro h
    refine ⟨itemNesting_lt.mpr fun t ht => (h t ht).nesting, fun o ho => ?_, fun o ho => ?_⟩
    · obtain ⟨t, ht, ho⟩ := mem_itemObjects.mp ho
      exact (h t ht).members o ho
    · obtain ⟨t, ht, ho⟩ := mem_itemObjects.mp ho
      exact (h t ht).names o ho

theorem within_object {ms : List Member} :
    (object ms).Within (depth + 1) members ↔
      ms.length ≤ members ∧ (ms.map Member.name).Nodup ∧ ∀ m ∈ ms, m.2.Within depth members := by
  constructor
  · intro ⟨hdepth, hmembers, hnames⟩
    rw [nesting, memberNesting_lt] at hdepth
    have hin : ∀ m ∈ ms, ∀ o ∈ m.2.objects, o ∈ (object ms).objects := fun m hm o ho =>
      List.mem_cons_of_mem _ (mem_memberObjects.mpr ⟨m, hm, ho⟩)
    refine ⟨hmembers ms List.mem_cons_self, hnames ms List.mem_cons_self, fun m hm => ?_⟩
    exact ⟨hdepth m hm, fun o ho => hmembers o (hin m hm o ho), fun o ho => hnames o (hin m hm o ho)⟩
  · intro ⟨hlength, hnodup, h⟩
    refine ⟨memberNesting_lt.mpr fun m hm => (h m hm).nesting, fun o ho => ?_, fun o ho => ?_⟩
    · rcases List.mem_cons.mp ho with rfl | ho
      · exact hlength
      · obtain ⟨m, hm, ho⟩ := mem_memberObjects.mp ho
        exact (h m hm).members o ho
    · rcases List.mem_cons.mp ho with rfl | ho
      · exact hnodup
      · obtain ⟨m, hm, ho⟩ := mem_memberObjects.mp ho
        exact (h m hm).names o ho

end Tree

/-! ## Layouts -/

/-- A text is some tokens with white space before each, and then a rest. -/
def Spaced : List (List UInt8) → List UInt8 → List UInt8 → Prop
  | [], s, rest => s = rest
  | token :: tokens, s, rest => ∃ ws after, ws.all isWs ∧ s = ws ++ (token ++ after) ∧ Spaced tokens after rest

/-- A text spells a value: RFC 8259's `JSON-text`. -/
def Spells (t : Tree) (s : List UInt8) : Prop := ∃ ws, ws.all isWs ∧ Spaced t.tokens s ws

theorem spaced_append {xs ys : List (List UInt8)} {s rest : List UInt8} :
    Spaced (xs ++ ys) s rest ↔ ∃ mid, Spaced xs s mid ∧ Spaced ys mid rest := by
  induction xs generalizing s with
  | nil => exact ⟨fun h => ⟨s, rfl, h⟩, fun ⟨_, h, h'⟩ => h ▸ h'⟩
  | cons x xs ih =>
    constructor
    · rintro ⟨ws, after, hws, rfl, h⟩
      obtain ⟨mid, hx, hy⟩ := ih.mp h
      exact ⟨mid, ⟨ws, after, hws, rfl, hx⟩, hy⟩
    · rintro ⟨mid, ⟨ws, after, hws, rfl, hx⟩, hy⟩
      exact ⟨ws, after, hws, rfl, ih.mpr ⟨mid, hx, hy⟩⟩

theorem spaced_flatten (tokens : List (List UInt8)) (rest : List UInt8) :
    Spaced tokens (tokens.flatten ++ rest) rest := by
  induction tokens with
  | nil => rfl
  | cons token tokens ih => exact ⟨[], tokens.flatten ++ rest, rfl, by simp, ih⟩

theorem spells_flatten (t : Tree) : Spells t t.tokens.flatten :=
  ⟨[], rfl, by simpa using spaced_flatten t.tokens []⟩

theorem Spaced.length_le {tokens : List (List UInt8)} {s rest : List UInt8} (h : Spaced tokens s rest) :
    tokens.flatten.length + rest.length ≤ s.length := by
  induction tokens generalizing s with
  | nil => cases h; simp
  | cons token tokens ih =>
    obtain ⟨ws, after, _, rfl, h⟩ := h
    have := ih h
    simp only [List.flatten_cons, List.length_append]
    omega

theorem Spells.length_le {t : Tree} {s : List UInt8} (h : Spells t s) : t.tokens.flatten.length ≤ s.length := by
  obtain ⟨ws, _, h⟩ := h
  exact le_trans (Nat.le_add_right _ _) h.length_le

end JsonGrammar
