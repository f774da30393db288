-- SUMMARY: What is printed without escapes is parsed back: numbers, plain strings, and the arrays and objects made of them.
import Aimee.Economizer.Json

/-!
# Reading printed values back

`ParseJSON` of what `PrintJSONUnformatted` writes, one lemma for each kind of value. A string is plain
when `cjsonEscape` leaves it as it is and it is UTF-8.
-/

namespace Economizer

namespace JsonValue

open CJson (Plain isNumberChar)

/-! ## UTF-8 -/

/-- The text may stand before any other. -/
def Joins (s : Text) : Prop := ∀ rest, validUtf8 (s ++ rest) = validUtf8 rest

variable {s : Text} {c : UInt8} {depth : ℕ} {v : JsonValue} {items : List JsonValue}
    {members : List (Text × JsonValue)}

theorem joins_ascii (h : ∀ c ∈ s, c < 0x80) : Joins s := by
  intro rest
  induction s with
  | nil => rfl
  | cons c s ih =>
    rw [List.cons_append, validUtf8.eq_def]
    dsimp only
    rw [if_pos (h c List.mem_cons_self)]
    exact ih fun d hd => h d (List.mem_cons_of_mem c hd)

theorem joins_singleton (h : c < 0x80) : Joins [c] := joins_ascii fun _ hd => List.mem_singleton.mp hd ▸ h

theorem Joins.append {s t : Text} (hs : Joins s) (ht : Joins t) : Joins (s ++ t) := fun rest => by
  rw [List.append_assoc, hs, ht]

theorem joins_of_validUtf8 (h : validUtf8 s) : Joins s := by
  intro rest
  fun_induction validUtf8 s with
  | case1 => rfl
  | case2 a s ha ih =>
    conv_lhs => rw [List.cons_append, validUtf8.eq_def]
    simp [ha, ih h]
  | case4 a ha hlow b s hb ih =>
    simp only [Bool.and_eq_true] at h
    conv_lhs => rw [List.cons_append, validUtf8.eq_def]
    simp [ha, hlow, hb, h.1, ih h.2]
  | case5 a ha hlow b hb c s hc ih =>
    simp only [Bool.and_eq_true] at h
    conv_lhs => rw [List.cons_append, validUtf8.eq_def]
    simp [ha, hlow, hb, hc, h.1.1, h.1.2, ih h.2]
  | case6 a ha hlow b hb c hc d s ih =>
    simp only [Bool.and_eq_true] at h
    conv_lhs => rw [List.cons_append, validUtf8.eq_def]
    simp [ha, hlow, hb, hc, h.1.1.1.1, h.1.1.1.2, h.1.1.2, h.1.2, ih h.2]
  | _ => cases h

/-! ## Values -/

/-- What may follow a value. -/
def Ends (rest : Text) : Prop := ∀ c ∈ rest.head?, isNumberChar c = false

/-- The value is read back at that depth, with fuel for its text. -/
structure Reads (depth : ℕ) (v : JsonValue) : Prop where
  read : ∀ fuel rest, 2 * v.print.length ≤ fuel → Ends rest → parseValue fuel depth (v.print ++ rest) = some (v, rest)
  head : ∃ c tail, v.print = c :: tail ∧ isSpace c = false ∧ c ≠ 93
  joins : Joins v.print

/-- A string that `cjsonEscape` leaves as it is, and that is UTF-8. -/
structure PlainText (s : Text) : Prop where
  plain : ∀ c ∈ s, Plain c
  utf8 : validUtf8 s

theorem cjsonEscape_plain (h : ∀ c ∈ s, Plain c) : cjsonEscape s = 34 :: s ++ [34] := by
  have hbody : s.flatMap escapeByte = s := by
    induction s with
    | nil => rfl
    | cons c s ih =>
      obtain ⟨hc, hquote, hslash⟩ := h c List.mem_cons_self
      have hne : ∀ d : UInt8, d < 32 → c ≠ d := fun d hd heq => absurd (heq ▸ hc) (UInt8.not_le.mpr hd)
      rw [List.flatMap_cons, ih fun d hd => h d (List.mem_cons_of_mem c hd), escapeByte, if_neg hquote, if_neg hslash,
        if_neg (hne 8 (by decide)), if_neg (hne 12 (by decide)), if_neg (hne 10 (by decide)),
          if_neg (hne 13 (by decide)),
        if_neg (hne 9 (by decide)), if_neg (UInt8.not_lt.mpr hc), List.singleton_append]
  rw [cjsonEscape, hbody]

theorem parseString_plain (h : ∀ c ∈ s, Plain c) (rest : Text) :
    parseString (cjsonEscape s ++ rest) = some (s, rest) := by
  simp [cjsonEscape_plain h, parseString, CJson.scanLiteral_plain h, CJson.unescape_plain h]

theorem skipSpace_of_head {tail : Text} (h : isSpace c = false) : skipSpace (c :: tail) = c :: tail := by
  rw [skipSpace, List.dropWhile_cons_of_neg (by simp [h])]

theorem skipSpace_print (h : Reads depth v) (rest : Text) :
    skipSpace (v.print ++ rest) = v.print ++ rest := by
  obtain ⟨c, tail, hprint, hc, -⟩ := h.head
  rw [hprint, List.cons_append, skipSpace_of_head hc]

theorem skipSpace_escape (s rest : Text) : skipSpace (cjsonEscape s ++ rest) = cjsonEscape s ++ rest :=
  skipSpace_of_head (by decide)

theorem joins_escape (h : PlainText s) : Joins (cjsonEscape s) := by
  rw [cjsonEscape_plain h.plain]
  exact ((joins_singleton (by decide)).append (joins_of_validUtf8 h.utf8)).append (joins_singleton (by decide))

/-- A value that starts like none of the keywords is read by its first byte. -/
theorem parseValue_of_head (hdepth : depth ≤ maxDepth) (hc : c ≠ 110 ∧ c ≠ 102 ∧ c ≠ 116) (fuel : ℕ)
    (tail : Text) : parseValue (fuel + 1) depth (c :: tail) =
      if c = 34 then (parseString (c :: tail)).map fun (s, after) => (string s, after)
      else if c = 91 then
        match skipSpace tail with
        | 93 :: rest => some (array [], rest)
        | rest => (parseItems fuel depth rest).map fun (items, after) => (array items, after)
      else if c = 123 then
        match skipSpace tail with
        | 125 :: rest => some (object [], rest)
        | rest => (parseMembers fuel depth [] rest).map fun (members, after) => (object members, after)
      else
        let token := (c :: tail).takeWhile isNumberChar
        if CJson.validNumberToken token then some (number token, (c :: tail).dropWhile isNumberChar) else none := by
  have hword : ∀ (word : String) (d : UInt8) (w : Text), ascii word = d :: w → c ≠ d →
    CJson.keyword word (c :: tail) = none := by
    intro word d w hw hne
    simp [CJson.keyword, hw, Ne.symm hne]
  rewrite [parseValue, if_neg (Nat.not_lt.mpr hdepth), hword "null" 110 _ rfl hc.1, hword "false" 102 _ rfl hc.2.1,
    hword "true" 116 _ rfl hc.2.2]
  rfl

theorem exists_fuel {fuel n : ℕ} (hfuel : 2 * v.print.length ≤ fuel) (hn : n ≤ v.print.length) (hpos : 0 < n) :
    ∃ k, fuel = k + 1 ∧ 2 * v.print.length - 1 ≤ k := ⟨fuel - 1, by omega, by omega⟩

theorem reads_string (hdepth : depth ≤ maxDepth) (h : PlainText s) : Reads depth (.string s) where
  read fuel rest hfuel _ := by
    obtain ⟨k, rfl, -⟩ := exists_fuel hfuel (n := 1) (by simp [print, cjsonEscape]) Nat.one_pos
    have hstring := parseString_plain h.plain rest
    rw [print, cjsonEscape, List.append_assoc, List.cons_append] at *
    rw [parseValue_of_head hdepth (by decide), if_pos rfl, hstring, Option.map_some]
  head := ⟨34, _, rfl, by decide, by decide⟩
  joins := joins_escape h

theorem reads_number (hdepth : depth ≤ maxDepth) {lexeme : Text} (hvalid : CJson.validNumberToken lexeme)
    (hchars : ∀ c ∈ lexeme, isNumberChar c) : Reads depth (.number lexeme) := by
  have hchar : ∀ c, isNumberChar c → c < 0x80 ∧ isSpace c = false ∧ c ≠ 93 ∧ (c ≠ 110 ∧ c ≠ 102 ∧ c ≠ 116) ∧
    c ≠ 34 ∧ c ≠ 91 ∧ c ≠ 123 := by
    have htable : (List.range 256).all fun n => !isNumberChar (UInt8.ofNat n) ||
        decide (UInt8.ofNat n < 0x80 ∧ isSpace (UInt8.ofNat n) = false ∧ UInt8.ofNat n ≠ 93 ∧ (UInt8.ofNat n ≠ 110 ∧
          UInt8.ofNat n ≠ 102 ∧ UInt8.ofNat n ≠ 116) ∧ UInt8.ofNat n ≠ 34 ∧ UInt8.ofNat n ≠ 91 ∧
            UInt8.ofNat n ≠ 123) := by
      decide +kernel
    intro c hc
    have hrow := List.all_eq_true.mp htable c.toNat (List.mem_range.mpr c.toNat_lt)
    simpa [hc] using hrow
  obtain ⟨c, tail, rfl⟩ : ∃ c tail, lexeme = c :: tail := by
    cases lexeme with
    | nil => cases hvalid
    | cons c tail => exact ⟨c, tail, rfl⟩
  obtain ⟨-, hspace, hclose, hword, hquote, hopen, hbrace⟩ := hchar c (hchars c List.mem_cons_self)
  refine ⟨fun fuel rest hfuel hrest => ?_, ⟨c, tail, rfl, hspace, hclose⟩, joins_ascii fun d hd =>
    (hchar d (hchars d hd)).1⟩
  obtain ⟨k, rfl, -⟩ := exists_fuel hfuel (n := 1) (by simp [print]) Nat.one_pos
  have htake : (c :: tail ++ rest).takeWhile isNumberChar = c :: tail ∧
    (c :: tail ++ rest).dropWhile isNumberChar = rest := by
    rw [List.takeWhile_append_of_pos hchars, List.dropWhile_append_of_pos hchars]
    cases rest with
    | nil => simp
    | cons d rest => simp [hrest d rfl]
  rw [print, List.cons_append, parseValue_of_head hdepth hword, if_neg hquote, if_neg hopen, if_neg hbrace,
    ← List.cons_append, htake.1, htake.2]
  exact if_pos hvalid

theorem ends_cons {tail : Text} (h : isNumberChar c = false) : Ends (c :: tail) := by
  rintro d ⟨⟩
  exact h

theorem parseItems_print (hitems : ∀ v ∈ items, Reads (depth + 1) v) (hne : items ≠ [])
    (fuel : ℕ) (rest : Text) (hfuel : 2 * (printItems items).length < fuel) :
    parseItems fuel depth (printItems items ++ 93 :: rest) = some (items, rest) := by
  obtain ⟨fuel, rfl⟩ : ∃ k, fuel = k + 1 := ⟨fuel - 1, by omega⟩
  induction items generalizing fuel with
  | nil => exact absurd rfl hne
  | cons v items ih =>
    have hv := hitems v List.mem_cons_self
    cases items with
    | nil =>
      rw [printItems] at hfuel ⊢
      rw [parseItems, skipSpace_print hv, hv.read fuel _ (by omega) (ends_cons (by decide))]
      rfl
    | cons w items =>
      rw [printItems, List.length_append, List.length_cons] at hfuel
      obtain ⟨fuel, rfl⟩ : ∃ k, fuel = k + 1 := ⟨fuel - 1, by omega⟩
      have htail := ih (fun x hx => hitems x (List.mem_cons_of_mem v hx)) (by simp) fuel (by omega)
      rw [printItems, List.append_assoc, List.cons_append, parseItems, skipSpace_print hv,
        hv.read _ _ (by omega) (ends_cons (by decide))]
      dsimp only
      rw [skipSpace_of_head (by decide)]
      simp [htail]

theorem parseMembers_print (hnames : ∀ m ∈ members, PlainText m.1)
    (hvalues : ∀ m ∈ members, Reads (depth + 1) m.2) (hnodup : (members.map (·.1)).Nodup)
    (hne : members ≠ []) (names : List Text)
    (hfresh : ∀ m ∈ members, m.1 ∉ names) (fuel : ℕ) (rest : Text) (hfuel : 2 * (printMembers members).length < fuel) :
    parseMembers fuel depth names (printMembers members ++ 125 :: rest) = some (members, rest) := by
  obtain ⟨fuel, rfl⟩ : ∃ k, fuel = k + 1 := ⟨fuel - 1, by omega⟩
  induction members generalizing fuel names with
  | nil => exact absurd rfl hne
  | cons m members ih =>
    obtain ⟨name, v⟩ := m
    have hv : Reads (depth + 1) v := hvalues (name, v) List.mem_cons_self
    have hname : PlainText name := hnames (name, v) List.mem_cons_self
    have hnew : name ∉ names := hfresh (name, v) List.mem_cons_self
    cases members with
    | nil =>
      rw [printMembers, List.length_append, List.length_cons] at hfuel
      rw [printMembers, List.append_assoc, List.cons_append, parseMembers, skipSpace_escape,
        parseString_plain hname.plain]
      dsimp only
      rw [if_neg hnew, skipSpace_of_head (by decide)]
      simp only [skipSpace_print hv]
      rw [hv.read fuel _ (by omega) (ends_cons (by decide))]
      rfl
    | cons w members =>
      rw [printMembers, List.length_append, List.length_cons, List.length_append, List.length_cons] at hfuel
      obtain ⟨fuel, rfl⟩ : ∃ k, fuel = k + 1 := ⟨fuel - 1, by omega⟩
      obtain ⟨hout, hnodup⟩ := List.nodup_cons.mp hnodup
      have htail := ih (fun x hx => hnames x (List.mem_cons_of_mem _ hx)) (fun x hx =>
        hvalues x (List.mem_cons_of_mem _ hx)) hnodup
        (by simp) (name :: names) (fun x hx hmem => by
          rcases List.mem_cons.mp hmem with heq | hmem
          · exact hout (List.mem_map.mpr ⟨x, hx, heq⟩)
          · exact hfresh x (List.mem_cons_of_mem _ hx) hmem) fuel (by omega)
      rw [printMembers, List.append_assoc, List.append_assoc, List.cons_append, List.cons_append,
        parseMembers, skipSpace_escape, parseString_plain hname.plain]
      dsimp only
      rw [if_neg hnew, skipSpace_of_head (by decide)]
      simp only [skipSpace_print hv]
      rw [hv.read _ _ (by omega) (ends_cons (by decide))]
      dsimp only
      rw [skipSpace_of_head (by decide)]
      simp [htail]

theorem joins_items (h : ∀ v ∈ items, Reads depth v) : Joins (printItems items) := by
  induction items with
  | nil => exact fun _ => rfl
  | cons v items ih =>
    have hv := (h v List.mem_cons_self).joins
    cases items with
    | nil => exact hv
    | cons w items =>
      exact hv.append ((joins_singleton (by decide)).append (ih fun x hx => h x (List.mem_cons_of_mem v hx)))

theorem joins_members (hnames : ∀ m ∈ members, PlainText m.1)
    (hvalues : ∀ m ∈ members, Reads depth m.2) : Joins (printMembers members) := by
  induction members with
  | nil => exact fun _ => rfl
  | cons m members ih =>
    have hm := (joins_escape (hnames m List.mem_cons_self)).append
      ((joins_singleton (c := 58) (by decide)).append (hvalues m List.mem_cons_self).joins)
    cases members with
    | nil => exact hm
    | cons w members =>
      have htail := ih (fun x hx => hnames x (List.mem_cons_of_mem m hx)) (fun x hx =>
        hvalues x (List.mem_cons_of_mem m hx))
      exact hm.append ((joins_singleton (by decide)).append htail)

theorem reads_array (hdepth : depth ≤ maxDepth) (h : ∀ v ∈ items, Reads (depth + 1) v) :
    Reads depth (.array items) where
  read fuel rest hfuel _ := by
    rw [print, List.length_append, List.length_cons] at hfuel
    obtain ⟨k, rfl⟩ : ∃ k, fuel = k + 1 := ⟨fuel - 1, by omega⟩
    rw [print, List.append_assoc, List.cons_append, parseValue_of_head hdepth (by decide),
      if_neg (by decide), if_pos rfl]
    cases items with
    | nil => rfl
    | cons v items =>
      have hitems := parseItems_print h (by simp) k rest (by omega)
      obtain ⟨c, tail, hprint, hc, hclose⟩ := (h v List.mem_cons_self).head
      obtain ⟨more, hmore⟩ : ∃ more, printItems (v :: items) ++ 93 :: rest = c :: more := by
        cases items with
        | nil => exact ⟨tail ++ 93 :: rest, by rw [printItems, hprint, List.cons_append]⟩
        | cons w items => exact ⟨tail ++ 44 :: printItems (w :: items) ++ 93 :: rest, by simp [printItems, hprint]⟩
      rw [List.singleton_append]
      rw [hmore] at hitems ⊢
      rw [skipSpace_of_head hc]
      split
      · rename_i heq
        exact absurd (List.cons.inj heq).1 hclose
      · rw [hitems, Option.map_some]
  head := ⟨91, _, rfl, by decide, by decide⟩
  joins := ((joins_singleton (by decide)).append (joins_items h)).append (joins_singleton (by decide))

theorem reads_object (hdepth : depth ≤ maxDepth) (hnames : ∀ m ∈ members, PlainText m.1)
    (hvalues : ∀ m ∈ members, Reads (depth + 1) m.2) (hnodup : (members.map (·.1)).Nodup) :
    Reads depth (.object members) where
  read fuel rest hfuel _ := by
    rw [print, List.length_append, List.length_cons] at hfuel
    obtain ⟨k, rfl⟩ : ∃ k, fuel = k + 1 := ⟨fuel - 1, by omega⟩
    rw [print, List.append_assoc, List.cons_append, parseValue_of_head hdepth (by decide),
      if_neg (by decide), if_neg (by decide), if_pos rfl]
    cases members with
    | nil => rfl
    | cons m members =>
      have hmembers := parseMembers_print hnames hvalues hnodup (by simp) []
        (fun _ _ => List.not_mem_nil) k rest (by omega)
      obtain ⟨more, hmore⟩ : ∃ more, printMembers (m :: members) ++ 125 :: rest = 34 :: more := by
        cases members with
        | nil => exact ⟨_, rfl⟩
        | cons w members => exact ⟨_, rfl⟩
      rw [List.singleton_append]
      rw [hmore] at hmembers ⊢
      rw [skipSpace_of_head (by decide)]
      split
      · rename_i heq
        exact absurd (List.cons.inj heq).1 (by decide)
      · rw [hmembers, Option.map_some]
  head := ⟨123, _, rfl, by decide, by decide⟩
  joins := ((joins_singleton (by decide)).append (joins_members hnames hvalues)).append (joins_singleton (by decide))

theorem parse_print (h : Reads 0 v) : parse v.print = some v := by
  have hutf8 : validUtf8 v.print = true := by
    have hjoins := h.joins []
    rwa [List.append_nil] at hjoins
  have hread := h.read (2 * v.print.length + 1) [] (Nat.le_succ _) (fun c hc => by cases hc)
  have hspace := skipSpace_print h []
  rw [List.append_nil] at hread hspace
  rw [parse, hutf8, hspace, hread]
  rfl

end JsonValue

end Economizer
