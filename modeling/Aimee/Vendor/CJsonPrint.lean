-- SUMMARY: The vendored cJSON printer, and the round trip with the reader.
import Aimee.Vendor.CJson

/-!
# Printing

The text `cJSON_PrintUnformatted` makes of a value that does not nest deeper than the reader takes. A
number prints the token it was read from, or was made with. What the reader accepts it can print, and
what is printed is read back as it was.
-/

namespace CJson

/-! ## The printer -/

/-- A digit of `%04x`. -/
def hexChar (n : ℕ) : UInt8 := if n < 10 then UInt8.ofNat (48 + n) else UInt8.ofNat (87 + n)

/-- One turn of the loop of `print_string_ptr`. -/
def escapeByte (c : UInt8) : List UInt8 :=
  if 31 < c ∧ c ≠ 34 ∧ c ≠ 92 then [c]
  else if c = 92 then [92, 92]
  else if c = 34 then [92, 34]
  else if c = 8 then [92, 98]      -- \b
  else if c = 12 then [92, 102]    -- \f
  else if c = 10 then [92, 110]    -- \n
  else if c = 13 then [92, 114]    -- \r
  else if c = 9 then [92, 116]     -- \t
  else [92, 117, 48, 48, hexChar (c.toNat / 16), hexChar (c.toNat % 16)]

/-- `print_string_ptr`. -/
def printString (s : CString) : List UInt8 := 34 :: (s.val.flatMap escapeByte ++ [34])

mutual

/-- `print_value`, of a value that does not nest too deep. -/
def printed : CJson → List UInt8
  | .null => ascii "null"
  | .bool b => ascii (if b then "true" else "false")
  | .number lexeme => lexeme
  | .string s => printString s
  | .array items => 91 :: (printedElements items ++ [93])
  | .object members => 123 :: (printedMembers members ++ [125])

/-- The loop of `print_array`. -/
def printedElements : List CJson → List UInt8
  | [] => []
  | item :: rest => printed item ++ (if rest.isEmpty then [] else 44 :: printedElements rest)

/-- The loop of `print_object`. -/
def printedMembers : List (CString × CJson) → List UInt8
  | [] => []
  | (name, value) :: rest =>
    printString name ++ 58 :: (printed value ++ (if rest.isEmpty then [] else 44 :: printedMembers rest))

end

mutual

/-- How deep arrays and objects nest. -/
def height : CJson → ℕ
  | .array items => heightElements items + 1
  | .object members => heightMembers members + 1
  | _ => 0

def heightElements : List CJson → ℕ
  | [] => 0
  | item :: rest => max (height item) (heightElements rest)

def heightMembers : List (CString × CJson) → ℕ
  | [] => 0
  | (_, value) :: rest => max (height value) (heightMembers rest)

end

/-! ## Numbers -/

mutual

/-- Every number in the value carries a token that the reader accepts. -/
def Lexed : CJson → Prop
  | .number lexeme => validNumberToken lexeme = true ∧ ∀ c ∈ lexeme, isNumberChar c = true
  | .array items => LexedElements items
  | .object members => LexedMembers members
  | _ => True

def LexedElements : List CJson → Prop
  | [] => True
  | item :: rest => Lexed item ∧ LexedElements rest

def LexedMembers : List (CString × CJson) → Prop
  | [] => True
  | (_, value) :: rest => Lexed value ∧ LexedMembers rest

end

/-- A value that the printer and the reader agree on. -/
structure Sound (j : CJson) : Prop where
  lexed : Lexed j
  height : height j ≤ nestingLimit

variable {items : List CJson} {members : List (CString × CJson)} {c : UInt8} {j : CJson} {fuel : ℕ}
     {depth : ℕ} {inp rest : List UInt8}

theorem lexedElements_iff : LexedElements items ↔ ∀ j ∈ items, Lexed j := by
  induction items with
  | nil => simp [LexedElements]
  | cons j rest ih => simp [LexedElements, ih]

theorem lexedMembers_iff : LexedMembers members ↔ ∀ m ∈ members, Lexed m.2 := by
  induction members with
  | nil => simp [LexedMembers]
  | cons m rest ih => simp [LexedMembers, ih]

theorem heightElements_le_iff {n : ℕ} : heightElements items ≤ n ↔ ∀ j ∈ items, height j ≤ n := by
  induction items with
  | nil => simp [heightElements]
  | cons j rest ih => simp [heightElements, ih]

theorem heightMembers_le_iff {n : ℕ} :
    heightMembers members ≤ n ↔ ∀ m ∈ members, height m.2 ≤ n := by
  induction members with
  | nil => simp [heightMembers]
  | cons m rest ih => simp [heightMembers, ih]

/-- A number token starts with a sign or a digit. -/
theorem head_of_validNumberToken {token : List UInt8} (h : validNumberToken token = true) :
    ∃ c rest, token = c :: rest ∧ (c = 45 ∨ (48 ≤ c ∧ c ≤ 57)) := by
  unfold validNumberToken at h
  cases token with
  | nil => cases h
  | cons c rest =>
    refine ⟨c, rest, rfl, ?_⟩
    rcases eq_or_ne c 45 with hminus | hminus
    · exact .inl hminus
    simp only [hminus, if_false] at h
    rcases eq_or_ne c 48 with hzero | hzero
    · exact .inr (by subst hzero; decide)
    simp only [hzero, if_false] at h
    split at h
    · next hdigit => exact .inr ⟨UInt8.le_trans (b := 49) (by decide) hdigit.1, hdigit.2⟩
    · cases h

/-! ## Strings -/

theorem hexChar_plain {n : ℕ} (h : n < 16) : Plain (hexChar n) := by
  have htable : ∀ n < 16, Plain (hexChar n) := by decide
  exact htable n h

theorem scanLiteral_plain_cons (h : Plain c) (rest : List UInt8) :
    scanLiteral (c :: rest) = (scanLiteral rest).map fun (raw, after) => (c :: raw, after) := by
  obtain ⟨hc, hquote, hslash⟩ := h
  rw [scanLiteral.eq_def]
  simp [hquote, UInt8.not_lt.mpr hc, hslash]

theorem scanLiteral_escape (e : UInt8) (rest : List UInt8) :
    scanLiteral (92 :: e :: rest) = (scanLiteral rest).map fun (raw, after) => (92 :: e :: raw, after) := by
  rw [scanLiteral.eq_def]
  simp

theorem plain_of_lt (h : 31 < c ∧ c ≠ 34 ∧ c ≠ 92) : Plain c :=
  ⟨UInt8.le_iff_toNat_le.mpr (UInt8.lt_iff_toNat_lt.mp h.1), h.2⟩

theorem hex_lt (c : UInt8) : c.toNat / 16 < 16 ∧ c.toNat % 16 < 16 := by
  have h := c.toNat_lt
  omega

theorem scanLiteral_escapeByte (c : UInt8) (rest : List UInt8) :
    scanLiteral (escapeByte c ++ rest) = (scanLiteral rest).map fun (raw, after) => (escapeByte c ++ raw, after) := by
  unfold escapeByte
  split_ifs with h h1 h2 h3 h4 h5 h6 h7
  · exact scanLiteral_plain_cons (plain_of_lt h) rest
  · exact scanLiteral_escape 92 rest
  · exact scanLiteral_escape 34 rest
  · exact scanLiteral_escape 98 rest
  · exact scanLiteral_escape 102 rest
  · exact scanLiteral_escape 110 rest
  · exact scanLiteral_escape 114 rest
  · exact scanLiteral_escape 116 rest
  · have hzero : Plain 48 := by decide
    simp only [List.cons_append, List.nil_append]
    rw [scanLiteral_escape, scanLiteral_plain_cons hzero, scanLiteral_plain_cons hzero,
      scanLiteral_plain_cons (hexChar_plain (hex_lt c).1), scanLiteral_plain_cons (hexChar_plain (hex_lt c).2)]
    simp only [Option.map_map]
    rfl

theorem parseHex4_control (h : c < 32) :
    parseHex4 48 48 (hexChar (c.toNat / 16)) (hexChar (c.toNat % 16)) = c.toNat ∧ utf8Bytes c.toNat = [c] := by
  have htable : ∀ n < 32, parseHex4 48 48 (hexChar (n / 16)) (hexChar (n % 16)) = n ∧
    utf8Bytes n = [UInt8.ofNat n] := by
    decide
  have hc := htable c.toNat (UInt8.lt_iff_toNat_lt.mp h)
  rwa [UInt8.ofNat_toNat] at hc

theorem unescape_escapeByte (hc : c ≠ 0) (rest : List UInt8) :
    unescape (escapeByte c ++ rest) = (unescape rest).map (c :: ·) := by
  have hsimple : ∀ e b : UInt8, e ≠ 117 → simpleEscape e = some b →
      unescape (92 :: e :: rest) = (unescape rest).map (b :: ·) := by
    intro e b he hb
    rw [unescape.eq_def]
    simp [he, hb]
  unfold escapeByte
  split_ifs with h h1 h2 h3 h4 h5 h6 h7
  · rw [unescape.eq_def]
    simp [h.2.2]
  · exact h1 ▸ hsimple 92 92 (by decide) (by decide)
  · exact h2 ▸ hsimple 34 34 (by decide) (by decide)
  · exact h3 ▸ hsimple 98 8 (by decide) (by decide)
  · exact h4 ▸ hsimple 102 12 (by decide) (by decide)
  · exact h5 ▸ hsimple 110 10 (by decide) (by decide)
  · exact h6 ▸ hsimple 114 13 (by decide) (by decide)
  · exact h7 ▸ hsimple 116 9 (by decide) (by decide)
  · have hcontrol : c < 32 := by
      by_contra hge
      have hge : 31 < c := UInt8.lt_iff_toNat_lt.mpr (UInt8.le_iff_toNat_le.mp (UInt8.not_lt.mp hge))
      exact h ⟨hge, h2, h1⟩
    obtain ⟨hhex, hbytes⟩ := parseHex4_control hcontrol
    have hnat : c.toNat < 32 := UInt8.lt_iff_toNat_lt.mp hcontrol
    have hne : c.toNat ≠ 0 := fun h0 => hc (UInt8.toNat_inj.mp h0)
    have hlow : ¬0xDC00 ≤ c.toNat := by omega
    have hhigh : ¬0xD800 ≤ c.toNat := by omega
    rw [unescape.eq_def]
    simp [hhex, hne, hlow, hhigh, hbytes]

theorem scanLiteral_escapes (s rest : List UInt8) :
    scanLiteral (s.flatMap escapeByte ++ 34 :: rest) = some (s.flatMap escapeByte, rest) := by
  induction s with
  | nil =>
    rw [scanLiteral.eq_def]
    simp
  | cons c s ih => rw [List.flatMap_cons, List.append_assoc, scanLiteral_escapeByte, ih, Option.map_some]

theorem unescape_escapes {s : List UInt8} (h : (0 : UInt8) ∉ s) : unescape (s.flatMap escapeByte) = some s := by
  induction s with
  | nil => rfl
  | cons c s ih =>
    rw [List.mem_cons, not_or] at h
    rw [List.flatMap_cons, unescape_escapeByte (Ne.symm h.1), ih h.2, Option.map_some]

theorem parseString_printed (s : CString) (rest : List UInt8) :
    parseString (printString s ++ rest) = some (s, rest) := by
  rw [printString, List.cons_append, parseString]
  simp [scanLiteral_escapes, unescape_escapes s.property, CString.ofBytes_of_not_mem s.property]

/-! ## Values -/

/-- What may follow a value: a byte that does not go on with a number. -/
def Delimited (rest : List UInt8) : Prop := ∃ c tail, rest = c :: tail ∧ isNumberChar c = false

theorem delimited_cons {tail : List UInt8} (h : isNumberChar c = false) : Delimited (c :: tail) := ⟨c, tail, rfl, h⟩

theorem keyword_of_head {word : String} {c d : UInt8} {w : List UInt8} (rest : List UInt8) (hw : ascii word = d :: w)
    (h : c ≠ d) : keyword word (c :: rest) = none := by
  simp [keyword, hw, Ne.symm h]

theorem keyword_append (word : String) (rest : List UInt8) : keyword word (ascii word ++ rest) = some rest := by
  simp [keyword]

theorem parseValue_succ (fuel depth : ℕ) (inp : List UInt8) :
    parseValue (fuel + 1) depth inp =
      match keyword "null" inp, keyword "false" inp, keyword "true" inp with
      | some rest, _, _ => some (.null, rest)
      | _, some rest, _ => some (.bool false, rest)
      | _, _, some rest => some (.bool true, rest)
      | none, none, none =>
        match inp with
        | [] => none
        | c :: rest =>
          if c = 34 then (parseString (c :: rest)).map fun (s, after) => (.string s, after)
          else if c = 45 ∨ (48 ≤ c ∧ c ≤ 57) then parseNumber (c :: rest)
          else if c = 91 then parseArray fuel depth rest
          else if c = 123 then parseObject fuel depth rest
          else none := by
  rw [parseValue.eq_def]
  cases inp with
  | nil => rfl
  | cons c rest => rfl

/-- A value that starts like none of the keywords is read by its first byte. -/
theorem parseValue_of_head (fuel depth : ℕ) (rest : List UInt8) (hn : c ≠ 110) (hf : c ≠ 102) (ht : c ≠ 116) :
    parseValue (fuel + 1) depth (c :: rest) =
      if c = 34 then (parseString (c :: rest)).map fun (s, after) => (.string s, after)
      else if c = 45 ∨ (48 ≤ c ∧ c ≤ 57) then parseNumber (c :: rest)
      else if c = 91 then parseArray fuel depth rest
      else if c = 123 then parseObject fuel depth rest
      else none := by
  rw [parseValue, keyword_of_head rest (show ascii "null" = 110 :: _ from rfl) hn,
    keyword_of_head rest (show ascii "false" = 102 :: _ from rfl) hf,
      keyword_of_head rest (show ascii "true" = 116 :: _ from rfl) ht]

theorem parseNumber_token {lexeme rest : List UInt8} (hvalid : validNumberToken lexeme = true)
    (hchars : ∀ c ∈ lexeme, isNumberChar c = true) (hrest : Delimited rest) :
    parseNumber (lexeme ++ rest) = some (.number lexeme, rest) := by
  obtain ⟨c, tail, rfl, hc⟩ := hrest
  have htake : (lexeme ++ c :: tail).takeWhile isNumberChar = lexeme := by
    rw [List.takeWhile_append_of_pos hchars, List.takeWhile_cons_of_neg (by simp [hc]), List.append_nil]
  have hdrop : (lexeme ++ c :: tail).dropWhile isNumberChar = c :: tail := by
    rw [List.dropWhile_append_of_pos hchars, List.dropWhile_cons_of_neg (by simp [hc])]
  rw [parseNumber, htake, hdrop, if_pos hvalid]

theorem printed_head (h : Lexed j) : ∃ c tail, printed j = c :: tail ∧ ¬c ≤ 32 ∧ c ≠ 93 := by
  cases j with
  | null => exact ⟨110, _, rfl, by decide, by decide⟩
  | bool b => cases b with
    | false => exact ⟨102, _, rfl, by decide, by decide⟩
    | true => exact ⟨116, _, rfl, by decide, by decide⟩
  | number lexeme =>
    obtain ⟨c, tail, rfl, hc⟩ := head_of_validNumberToken h.1
    refine ⟨c, tail, rfl, ?_⟩
    rcases hc with rfl | ⟨hlow, hhigh⟩
    · exact ⟨by decide, by decide⟩
    · constructor
      · intro hle
        exact absurd (UInt8.le_trans hlow hle) (by decide)
      · rintro rfl
        exact absurd hhigh (by decide)
  | string s => exact ⟨34, _, rfl, by decide, by decide⟩
  | array items => exact ⟨91, _, rfl, by decide, by decide⟩
  | object members => exact ⟨123, _, rfl, by decide, by decide⟩

theorem skipWhitespace_printed (h : Lexed j) (rest : List UInt8) :
    skipWhitespace (printed j ++ rest) = printed j ++ rest := by
  obtain ⟨c, tail, hprint, hc, -⟩ := printed_head h
  rw [hprint, List.cons_append, skipWhitespace_of_lt hc]

/-- What is printed is read back, with enough fuel and room to nest. -/
def ReadsBack (j : CJson) : Prop :=
  ∀ fuel depth rest, Lexed j → depth + height j ≤ nestingLimit → 3 * (printed j).length ≤ fuel → Delimited rest →
    parseValue fuel depth (printed j ++ rest) = some (j, rest)

theorem exists_fuel (hlexed : Lexed j) (hfuel : 3 * (printed j).length ≤ fuel) : ∃ n, fuel = n + 3 := by
  obtain ⟨c, tail, hhead, -⟩ := printed_head hlexed
  rw [hhead, List.length_cons] at hfuel
  exact ⟨fuel - 3, by omega⟩

theorem readsBack_null : ReadsBack .null := by
  intro fuel depth rest hlexed hdepth hfuel hrest
  obtain ⟨fuel, rfl⟩ := exists_fuel hlexed hfuel
  rw [printed, parseValue_succ]
  simp only [keyword_append]

theorem readsBack_bool (b : Bool) : ReadsBack (.bool b) := by
  intro fuel depth rest hlexed hdepth hfuel hrest
  obtain ⟨fuel, rfl⟩ := exists_fuel hlexed hfuel
  cases b with
  | false =>
    have hnull : keyword "null" (ascii "false" ++ rest) = none := keyword_of_head _ rfl (by decide)
    rw [printed, if_neg (by decide), parseValue_succ]
    simp only [hnull, keyword_append]
  | true =>
    have hnull : keyword "null" (ascii "true" ++ rest) = none := keyword_of_head _ rfl (by decide)
    have hfalse : keyword "false" (ascii "true" ++ rest) = none := keyword_of_head _ rfl (by decide)
    rw [printed, if_pos rfl, parseValue_succ]
    simp only [hnull, hfalse, keyword_append]

theorem readsBack_number (lexeme : List UInt8) : ReadsBack (.number lexeme) := by
  intro fuel depth rest hlexed hdepth hfuel hrest
  obtain ⟨fuel, rfl⟩ := exists_fuel hlexed hfuel
  have hnumber := parseNumber_token hlexed.1 hlexed.2 hrest
  obtain ⟨c, tail, rfl, hc⟩ := head_of_validNumberToken hlexed.1
  have hne : c ≠ 110 ∧ c ≠ 102 ∧ c ≠ 116 ∧ c ≠ 34 := by
    rcases hc with rfl | ⟨hlow, hhigh⟩
    · decide
    · refine ⟨?_, ?_, ?_, ?_⟩
      · exact fun h => absurd (h ▸ hhigh) (by decide)
      · exact fun h => absurd (h ▸ hhigh) (by decide)
      · exact fun h => absurd (h ▸ hhigh) (by decide)
      · exact fun h => absurd (h ▸ hlow) (by decide)
  rw [printed, List.cons_append, parseValue_of_head _ _ _ hne.1 hne.2.1 hne.2.2.1, if_neg hne.2.2.2, if_pos hc]
  exact hnumber

theorem readsBack_string (s : CString) : ReadsBack (.string s) := by
  intro fuel depth rest hlexed hdepth hfuel hrest
  obtain ⟨fuel, rfl⟩ := exists_fuel hlexed hfuel
  have hstring := parseString_printed s rest
  rw [printString, List.cons_append] at hstring
  rw [printed, printString, List.cons_append, parseValue_of_head _ _ _ (by decide) (by decide) (by decide), if_pos rfl,
    hstring, Option.map_some]

theorem parseElements_printed {item : CJson} (ih : ∀ j ∈ item :: items, ReadsBack j) (fuel depth : ℕ)
    (rest : List UInt8) (hlexed : LexedElements (item :: items))
    (hdepth : depth + heightElements (item :: items) ≤ nestingLimit)
    (hfuel : 3 * (printedElements (item :: items)).length < fuel) :
    parseElements fuel depth (printedElements (item :: items) ++ 93 :: rest) = some (item :: items, rest) := by
  obtain ⟨fuel, rfl⟩ : ∃ n, fuel = n + 1 := ⟨fuel - 1, by omega⟩
  induction items generalizing item fuel with
  | nil =>
    have hitem : depth + height item ≤ nestingLimit := (Nat.add_le_add_left (le_max_left _ _) depth).trans hdepth
    rw [printedElements, List.length_append] at hfuel
    have hvalue := ih item List.mem_cons_self fuel depth (93 :: rest) hlexed.1 hitem (by omega)
      (delimited_cons (by decide))
    rw [printedElements, List.isEmpty_nil, if_pos rfl, List.append_nil, parseElements,
      skipWhitespace_printed hlexed.1, hvalue]
    simp [skipWhitespace_of_lt (c := 93) (by decide), show (93 : UInt8) ≠ 44 by decide]
  | cons next items ihs =>
    have hitem : depth + height item ≤ nestingLimit := (Nat.add_le_add_left (le_max_left _ _) depth).trans hdepth
    have hitems : depth + heightElements (next :: items) ≤ nestingLimit :=
      (Nat.add_le_add_left (le_max_right _ _) depth).trans hdepth
    rw [printedElements, List.length_append, List.isEmpty_cons, if_neg (by decide), List.length_cons] at hfuel
    have hvalue := ih item List.mem_cons_self fuel depth
      (44 :: (printedElements (next :: items) ++ 93 :: rest)) hlexed.1 hitem
      (by omega) (delimited_cons (by decide))
    have hpos : ∃ n, fuel = n + 1 := ⟨fuel - 1, by omega⟩
    obtain ⟨fuel, rfl⟩ := hpos
    have htail := ihs (fun j hj => ih j (List.mem_cons_of_mem _ hj)) hlexed.2 hitems fuel (by omega)
    rw [printedElements, List.isEmpty_cons, if_neg (by decide), List.append_assoc, List.cons_append, parseElements,
      skipWhitespace_printed hlexed.1, hvalue]
    simp [skipWhitespace_of_lt (c := 44) (by decide), htail]

theorem parseMembers_printed {m : CString × CJson}
    (ih : ∀ x ∈ m :: members, ReadsBack x.2) (fuel depth : ℕ) (rest : List UInt8) (hlexed : LexedMembers (m :: members))
    (hdepth : depth + heightMembers (m :: members) ≤ nestingLimit)
    (hfuel : 3 * (printedMembers (m :: members)).length < fuel) :
    parseMembers fuel depth (printedMembers (m :: members) ++ 125 :: rest) = some (m :: members, rest) := by
  obtain ⟨fuel, rfl⟩ : ∃ n, fuel = n + 1 := ⟨fuel - 1, by omega⟩
  induction members generalizing m fuel with
  | nil =>
    obtain ⟨name, value⟩ := m
    have hheight : depth + height value ≤ nestingLimit := (Nat.add_le_add_left (le_max_left _ _) depth).trans hdepth
    rw [printedMembers, List.length_append, List.length_cons, List.length_append] at hfuel
    have hvalue := ih (name, value) List.mem_cons_self fuel depth (125 :: rest) hlexed.1 hheight (by dsimp only; omega)
      (delimited_cons (by decide))
    have hname : ∀ tail, skipWhitespace (printString name ++ tail) = printString name ++ tail :=
      fun tail => skipWhitespace_of_lt (by decide)
    rw [printedMembers, List.isEmpty_nil, if_pos rfl, List.append_nil, List.append_assoc, List.cons_append,
      parseMembers, hname, parseString_printed]
    simp [skipWhitespace_of_lt (c := 58) (by decide), skipWhitespace_printed hlexed.1, hvalue,
      skipWhitespace_of_lt (c := 125) (by decide), show (125 : UInt8) ≠ 44 by decide]
  | cons next members ihs =>
    obtain ⟨name, value⟩ := m
    have hheight : depth + height value ≤ nestingLimit := (Nat.add_le_add_left (le_max_left _ _) depth).trans hdepth
    have hmembers : depth + heightMembers (next :: members) ≤ nestingLimit :=
      (Nat.add_le_add_left (le_max_right _ _) depth).trans hdepth
    rw [printedMembers, List.isEmpty_cons, if_neg (by decide), List.length_append, List.length_cons, List.length_append,
      List.length_cons] at hfuel
    have hvalue := ih (name, value) List.mem_cons_self fuel depth
      (44 :: (printedMembers (next :: members) ++ 125 :: rest))
      hlexed.1 hheight (by dsimp only; omega) (delimited_cons (by decide))
    have hname : ∀ tail, skipWhitespace (printString name ++ tail) = printString name ++ tail :=
      fun tail => skipWhitespace_of_lt (by decide)
    have hpos : ∃ n, fuel = n + 1 := ⟨fuel - 1, by omega⟩
    obtain ⟨fuel, rfl⟩ := hpos
    have htail := ihs (fun x hx => ih x (List.mem_cons_of_mem _ hx)) hlexed.2 hmembers fuel (by omega)
    rw [printedMembers, List.isEmpty_cons, if_neg (by decide), List.append_assoc, List.cons_append, List.append_assoc,
      List.cons_append, parseMembers, hname, parseString_printed]
    simp [skipWhitespace_of_lt (c := 58) (by decide), skipWhitespace_printed hlexed.1, hvalue,
      skipWhitespace_of_lt (c := 44) (by decide), htail]

theorem readsBack_array (ih : ∀ j ∈ items, ReadsBack j) : ReadsBack (.array items) := by
  intro fuel depth rest hlexed hdepth hfuel hrest
  obtain ⟨fuel, rfl⟩ := exists_fuel hlexed hfuel
  rw [height] at hdepth
  have hlimit : ¬nestingLimit ≤ depth := by omega
  rw [printed, List.length_cons, List.length_append] at hfuel
  rw [printed, List.cons_append, parseValue_of_head _ _ _ (by decide) (by decide) (by decide), if_neg (by decide),
    if_neg (by decide), if_pos rfl, List.append_assoc, List.singleton_append, parseArray, if_neg hlimit]
  cases items with
  | nil =>
    rw [printedElements, List.nil_append, skipWhitespace_of_lt (by decide)]
    rfl
  | cons item items =>
    have helements := parseElements_printed ih (fuel + 1) (depth + 1) rest hlexed (by omega) (by omega)
    obtain ⟨c, tail, hitem, hc, hclose⟩ := printed_head hlexed.1
    have hall : printedElements (item :: items) ++ 93 :: rest =
        c :: (tail ++ ((if items.isEmpty then [] else 44 :: printedElements items) ++ 93 :: rest)) := by
      rw [printedElements, hitem, List.append_assoc, List.cons_append]
    rw [hall] at helements ⊢
    rw [skipWhitespace_of_lt hc]
    simp only [hclose, if_false, helements, Option.map_some]

theorem readsBack_object (ih : ∀ m ∈ members, ReadsBack m.2) :
    ReadsBack (.object members) := by
  intro fuel depth rest hlexed hdepth hfuel hrest
  obtain ⟨fuel, rfl⟩ := exists_fuel hlexed hfuel
  rw [height] at hdepth
  have hlimit : ¬nestingLimit ≤ depth := by omega
  rw [printed, List.length_cons, List.length_append] at hfuel
  rw [printed, List.cons_append, parseValue_of_head _ _ _ (by decide) (by decide) (by decide), if_neg (by decide),
    if_neg (by decide), if_neg (by decide), if_pos rfl, List.append_assoc, List.singleton_append,
      parseObject, if_neg hlimit]
  cases members with
  | nil =>
    rw [printedMembers, List.nil_append, skipWhitespace_of_lt (by decide)]
    rfl
  | cons m members =>
    have hmembers := parseMembers_printed ih (fuel + 1) (depth + 1) rest hlexed (by omega) (by omega)
    obtain ⟨tail, hall⟩ : ∃ tail, printedMembers (m :: members) ++ 125 :: rest = 34 :: tail := ⟨_, rfl⟩
    have hclose : (34 : UInt8) ≠ 125 := by decide
    rw [hall] at hmembers ⊢
    rw [skipWhitespace_of_lt (by decide)]
    simp [hclose, hmembers]

theorem readsBack : ∀ j : CJson, ReadsBack j
  | .null => readsBack_null
  | .bool b => readsBack_bool b
  | .number lexeme => readsBack_number lexeme
  | .string s => readsBack_string s
  | .array items => readsBack_array fun j _ => readsBack j
  | .object members => readsBack_object fun m _ => readsBack m.2
termination_by j => sizeOf j
decreasing_by
  · have hlt := List.sizeOf_lt_of_mem ‹j ∈ items›
    simp only [array.sizeOf_spec]
    omega
  · have hlt := List.sizeOf_lt_of_mem ‹m ∈ members›
    have hsnd : sizeOf m.2 < sizeOf m := by
      obtain ⟨name, value⟩ := m
      simp only [Prod.mk.sizeOf_spec]
      omega
    simp only [object.sizeOf_spec]
    omega

theorem printed_ne_bom (h : Lexed j) (rest : List UInt8) : (printed j ++ rest).take 3 ≠ [0xEF, 0xBB, 0xBF] := by
  obtain ⟨c, tail, hhead, -⟩ := printed_head h
  intro hbom
  rw [hhead] at hbom
  simp only [List.cons_append, List.take_succ_cons, List.cons.injEq] at hbom
  obtain ⟨rfl, -⟩ := hbom
  -- no value starts with the first byte of the mark
  cases j with
  | null => cases hhead
  | bool b => cases b <;> cases hhead
  | number lexeme =>
    obtain ⟨d, rest, rfl, hd⟩ := head_of_validNumberToken h.1
    cases hhead
    exact absurd hd (by decide)
  | string s => cases hhead
  | array items => cases hhead
  | object members => cases hhead

theorem parse_printed (h : Sound j) {text : CString} (htext : text.val = printed j) : parse text = some j := by
  have hbom : skipUtf8Bom (printed j ++ [0]) = printed j ++ [0] := by
    rw [skipUtf8Bom, if_neg]
    exact fun hb => printed_ne_bom h.lexed [0] hb.2
  rw [parse, htext]
  simp only [hbom, skipWhitespace_printed h.lexed]
  rw [readsBack j _ 0 [0] h.lexed (by rw [Nat.zero_add]; exact h.height) (by rw [List.length_append]; omega)
    (delimited_cons (by decide)), Option.map_some]

/-! ## What the reader accepts -/

/-- The values the reader gives back under some fuel, by the function that reads them. -/
structure ReadsSound (fuel : ℕ) : Prop where
  value : ∀ {depth inp j rest}, parseValue fuel depth inp = some (j, rest) → Lexed j ∧ height j ≤ nestingLimit - depth
  array : ∀ {depth inp j rest}, parseArray fuel depth inp = some (j, rest) → Lexed j ∧ height j ≤ nestingLimit - depth
  elements : ∀ {depth inp items rest}, parseElements fuel depth inp = some (items, rest) →
    LexedElements items ∧ heightElements items ≤ nestingLimit - depth
  object : ∀ {depth inp j rest}, parseObject fuel depth inp = some (j, rest) → Lexed j ∧ height j ≤ nestingLimit - depth
  members : ∀ {depth inp members rest}, parseMembers fuel depth inp = some (members, rest) →
    LexedMembers members ∧ heightMembers members ≤ nestingLimit - depth

theorem mem_takeWhile_number {inp : List UInt8} : ∀ c ∈ inp.takeWhile isNumberChar, isNumberChar c = true :=
  fun _ hc => List.mem_takeWhile_imp hc

section

variable (ih : ReadsSound fuel)
include ih

theorem readsSound_value
    (h : parseValue (fuel + 1) depth inp = some (j, rest)) : Lexed j ∧ height j ≤ nestingLimit - depth := by
  rw [parseValue_succ] at h
  split at h
  · cases h
    exact ⟨trivial, Nat.zero_le _⟩
  · cases h
    exact ⟨trivial, Nat.zero_le _⟩
  · cases h
    exact ⟨trivial, Nat.zero_le _⟩
  · split at h
    · cases h
    · split_ifs at h
      · obtain ⟨⟨s, after⟩, -, hs⟩ := Option.map_eq_some_iff.mp h
        cases hs
        exact ⟨trivial, Nat.zero_le _⟩
      · rw [parseNumber] at h
        split_ifs at h with hvalid
        cases h
        exact ⟨⟨hvalid, mem_takeWhile_number⟩, Nat.zero_le _⟩
      · exact ih.array h
      · exact ih.object h

theorem readsSound_array
    (h : parseArray (fuel + 1) depth inp = some (j, rest)) : Lexed j ∧ height j ≤ nestingLimit - depth := by
  rw [parseArray.eq_def] at h
  dsimp only at h
  split_ifs at h with hdepth
  split at h
  · cases h
  · split_ifs at h
    · cases h
      refine ⟨trivial, ?_⟩
      rw [height, heightElements]
      omega
    · obtain ⟨⟨items, after⟩, hitems, hj⟩ := Option.map_eq_some_iff.mp h
      cases hj
      obtain ⟨hlexed, hheight⟩ := ih.elements hitems
      refine ⟨hlexed, ?_⟩
      show heightElements items + 1 ≤ nestingLimit - depth
      omega

theorem readsSound_elements (h : parseElements (fuel + 1) depth inp = some (items, rest)) :
    LexedElements items ∧ heightElements items ≤ nestingLimit - depth := by
  rw [parseElements.eq_def] at h
  dsimp only at h
  split at h
  · cases h
  · next item after hitem =>
    obtain ⟨hlexed, hheight⟩ := ih.value hitem
    split at h
    · cases h
    · split_ifs at h
      · obtain ⟨⟨tail, _⟩, htail, hj⟩ := Option.map_eq_some_iff.mp h
        cases hj
        obtain ⟨hlexed', hheight'⟩ := ih.elements htail
        exact ⟨⟨hlexed, hlexed'⟩, max_le hheight hheight'⟩
      · cases h
        exact ⟨⟨hlexed, trivial⟩, max_le hheight (Nat.zero_le _)⟩

theorem readsSound_object
    (h : parseObject (fuel + 1) depth inp = some (j, rest)) : Lexed j ∧ height j ≤ nestingLimit - depth := by
  rw [parseObject.eq_def] at h
  dsimp only at h
  split_ifs at h with hdepth
  split at h
  · cases h
  · split_ifs at h
    · cases h
      refine ⟨trivial, ?_⟩
      rw [height, heightMembers]
      omega
    · obtain ⟨⟨members, after⟩, hmembers, hj⟩ := Option.map_eq_some_iff.mp h
      cases hj
      obtain ⟨hlexed, hheight⟩ := ih.members hmembers
      refine ⟨hlexed, ?_⟩
      show heightMembers members + 1 ≤ nestingLimit - depth
      omega

theorem readsSound_members (h : parseMembers (fuel + 1) depth inp = some (members, rest)) :
    LexedMembers members ∧ heightMembers members ≤ nestingLimit - depth := by
  rw [parseMembers.eq_def] at h
  dsimp only at h
  split at h
  · cases h
  split at h
  · cases h
  split_ifs at h
  split at h
  · cases h
  · next value after hvalue =>
    obtain ⟨hlexed, hheight⟩ := ih.value hvalue
    split at h
    · cases h
    · split_ifs at h
      · obtain ⟨⟨tail, _⟩, htail, hj⟩ := Option.map_eq_some_iff.mp h
        cases hj
        obtain ⟨hlexed', hheight'⟩ := ih.members htail
        exact ⟨⟨hlexed, hlexed'⟩, max_le hheight hheight'⟩
      · cases h
        exact ⟨⟨hlexed, trivial⟩, max_le hheight (Nat.zero_le _)⟩

end

theorem readsSound (fuel : ℕ) : ReadsSound fuel := by
  induction fuel with
  | zero =>
    constructor
    · intro depth inp j rest h
      rw [parseValue] at h
      cases h
    · intro depth inp j rest h
      rw [parseArray] at h
      cases h
    · intro depth inp items rest h
      rw [parseElements] at h
      cases h
    · intro depth inp j rest h
      rw [parseObject] at h
      cases h
    · intro depth inp members rest h
      rw [parseMembers] at h
      cases h
  | succ fuel ih =>
    exact ⟨readsSound_value ih, readsSound_array ih, readsSound_elements ih, readsSound_object ih,
      readsSound_members ih⟩

/-- What is parsed can be printed, and read back. -/
theorem sound_of_parse {text : CString} (h : parse text = some j) : Sound j := by
  obtain ⟨⟨j', rest⟩, hvalue, rfl⟩ := Option.map_eq_some_iff.mp h
  obtain ⟨hlexed, hheight⟩ := (readsSound _).value hvalue
  exact ⟨hlexed, hheight⟩

/-- Of two values that were parsed, each is read back from what is printed of it, and they print alike only
    if they are equal. -/
theorem printed_of_parse {text text' : CString} {k : CJson} (hj : parse text = some j) (hk : parse text' = some k) :
    (∀ t : CString, t.val = printed j → parse t = some j) ∧ (printed j = printed k ↔ j = k) := by
  refine ⟨fun t ht => parse_printed (sound_of_parse hj) ht, fun h => ?_, congrArg printed⟩
  have hread : ∀ v, Sound v → printed v = printed j →
    parseValue (3 * (printed j).length + 3) 0 (printed j ++ [0]) = some (v, [0]) := by
    intro v hv heq
    rw [← heq]
    exact readsBack v _ 0 [0] hv.lexed (by rw [Nat.zero_add]; exact hv.height) (by omega) (delimited_cons (by decide))
  have heq := (hread j (sound_of_parse hj) rfl).symm.trans (hread k (sound_of_parse hk) h.symm)
  exact congrArg Prod.fst (Option.some.inj heq)

/-- White space and an escaped letter are not kept. -/
theorem printed_of_parse_sample :
    parse (.ofAscii "\x7b\"a\\n\":[-1.5e2,\"A\"],\"b\":null\x7d") =
        parse (.ofAscii "\x7b \"a\\n\" : [-1.5e2, \"\\u0041\"], \"b\" : null\x7d") ∧
      parse (.ofAscii "\x7b \"a\\n\" : [-1.5e2, \"\\u0041\"], \"b\" : null\x7d") ≠ parse (.ofAscii "[null]") := by
  have hspaced : (parse (.ofAscii "\x7b \"a\\n\" : [-1.5e2, \"\\u0041\"], \"b\" : null\x7d")).map printed =
      some (CString.ofAscii "\x7b\"a\\n\":[-1.5e2,\"A\"],\"b\":null\x7d").val := by decide +kernel
  have hnull : (parse (.ofAscii "[null]")).map printed = some (ascii "[null]") := by decide +kernel
  obtain ⟨j, hj, hprinted⟩ := Option.map_eq_some_iff.mp hspaced
  obtain ⟨k, hk, hprinted'⟩ := Option.map_eq_some_iff.mp hnull
  obtain ⟨hback, hiff⟩ := printed_of_parse hj hk
  refine ⟨(hback _ hprinted.symm).trans hj.symm, fun h => ?_⟩
  rw [hj, hk, Option.some_inj, ← hiff, hprinted, hprinted'] at h
  exact absurd h (by decide +kernel)

/-! ## How long a printed value is -/

theorem length_escapeByte_pos (c : UInt8) : 1 ≤ (escapeByte c).length := by
  unfold escapeByte
  split_ifs <;> simp

theorem length_printString (s : CString) :
    (printString s).length = (s.val.map fun c => (escapeByte c).length).sum + 2 := by
  rw [printString, List.length_cons, List.length_append, List.length_flatMap, List.length_singleton]

theorem length_le_printString (s : CString) : s.val.length + 2 ≤ (printString s).length := by
  rw [length_printString]
  refine Nat.add_le_add_right ?_ 2
  induction s.val with
  | nil => exact Nat.zero_le _
  | cons c rest ih =>
    have hc := length_escapeByte_pos c
    rw [List.length_cons, List.map_cons, List.sum_cons]
    omega

/-- A text without anything to escape is only quoted. -/
theorem length_printString_of_plain {s : CString} (h : ∀ c ∈ s.val, Plain c) :
    (printString s).length = s.val.length + 2 := by
  rw [length_printString]
  obtain ⟨bs, hnul⟩ := s
  dsimp only at h ⊢
  clear hnul
  congr 1
  induction bs with
  | nil => rfl
  | cons c rest ih =>
    obtain ⟨hc, hrest⟩ := List.forall_mem_cons.mp h
    have hlt : 31 < c := UInt8.lt_of_lt_of_le (show (31 : UInt8) < 0x20 by decide) hc.1
    rw [List.map_cons, List.sum_cons, ih hrest, escapeByte, if_pos ⟨hlt, hc.2⟩, List.length_singleton,
      List.length_cons, add_comm]

theorem length_printedElements (items : List CJson) :
    (printedElements items).length = (items.map fun j => (printed j).length + 1).sum - 1 := by
  induction items with
  | nil => rfl
  | cons item items ih =>
    rw [printedElements, List.length_append, List.map_cons, List.sum_cons]
    cases items with
    | nil => simp
    | cons next rest =>
      rw [List.isEmpty_cons, if_neg (by decide), List.length_cons, ih, List.map_cons, List.sum_cons]
      omega

theorem length_printedMembers (members : List (CString × CJson)) :
    (printedMembers members).length =
      (members.map fun m => (printString m.1).length + (printed m.2).length + 2).sum - 1 := by
  induction members with
  | nil => rfl
  | cons m members ih =>
    obtain ⟨name, value⟩ := m
    rw [printedMembers, List.length_append, List.length_cons, List.length_append, List.map_cons, List.sum_cons]
    cases members with
    | nil =>
      simp
      omega
    | cons next rest =>
      rw [List.isEmpty_cons, if_neg (by decide), List.length_cons, ih, List.map_cons, List.sum_cons]
      dsimp only
      omega

end CJson
