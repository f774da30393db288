-- SUMMARY: Parsing the front of a text: a value that closes before the text is cut is the value of the whole text.
import Aimee.Vendor.CJsonPrint

/-!
# Cut texts

`cJSON_Parse` ignores what follows the first value. So when the front of a text parses, the whole
text parses to the same value, except that a bare number may go on behind the cut.
-/

namespace CJson

variable {p q rest t : List UInt8}

variable {c : UInt8} {after : List UInt8} {s : CString} {fuel depth : ℕ} {inp : List UInt8}
     {x : CJson × List UInt8} {v : CJson} {j : CJson} {content : List UInt8} {n : ℕ}

/-- White space in front of something is skipped whatever follows it. -/
theorem skipWhitespace_cut (hc : c ≠ 0) (h : skipWhitespace (p ++ [0]) = c :: rest) :
    ∃ q, rest = q ++ [0] ∧ (∀ b ∈ c :: q, b ∈ p) ∧ ∀ t, t ≠ [] → skipWhitespace (p ++ t) = c :: (q ++ t) := by
  induction p with
  | nil => exact absurd (List.cons.inj h).1.symm hc
  | cons d p ih =>
    have hstep : ∀ t, t ≠ [] →
      skipWhitespace (d :: p ++ t) = if d ≤ 32 then skipWhitespace (p ++ t) else d :: (p ++ t) := by
      intro t ht
      obtain ⟨e, tail, he⟩ := List.exists_cons_of_ne_nil (List.append_ne_nil_of_right_ne_nil p ht)
      rw [List.cons_append, he, skipWhitespace]
    rw [hstep [0] (by simp)] at h
    by_cases hd : d ≤ 32
    · rw [if_pos hd] at h
      obtain ⟨q, hrest, hmem, hall⟩ := ih h
      refine ⟨q, hrest, fun b hb => List.mem_cons_of_mem _ (hmem b hb), fun t ht => ?_⟩
      rw [hstep t ht, if_pos hd, hall t ht]
    · rw [if_neg hd] at h
      obtain ⟨rfl, rfl⟩ := List.cons.inj h
      exact ⟨p, rfl, fun b hb => hb, fun t ht => by rw [hstep t ht, if_neg hd]⟩

theorem scanLiteral_cut {raw after : List UInt8} (hp : (0 : UInt8) ∉ p)
    (h : scanLiteral (p ++ [0]) = some (raw, after)) :
    ∃ r, after = r ++ [0] ∧ (∀ b ∈ r, b ∈ p) ∧ ∀ t, scanLiteral (p ++ t) = some (raw, r ++ t) := by
  induction hn : p.length using Nat.strong_induction_on generalizing p raw after with
  | _ n ih =>
    subst hn
    cases p with
    | nil =>
      rw [scanLiteral.eq_def] at h
      simp at h
    | cons c p =>
      rw [List.mem_cons, not_or] at hp
      rw [List.cons_append, scanLiteral.eq_def] at h
      dsimp only at h
      split_ifs at h with hquote hlow hslash
      · cases h
        refine ⟨p, rfl, fun b hb => List.mem_cons_of_mem _ hb, fun t => ?_⟩
        rw [scanLiteral.eq_def]
        simp [hquote]
      · cases p with
        | nil =>
          rw [List.nil_append] at h
          cases h
        | cons e p =>
          rw [List.mem_cons, not_or] at hp
          obtain ⟨⟨raw', after'⟩, htail, heq⟩ := Option.map_eq_some_iff.mp h
          cases heq
          obtain ⟨r, hr, hmem, hall⟩ := ih p.length (by rw [List.length_cons, List.length_cons]; omega) hp.2.2 htail rfl
          refine ⟨r, hr, fun b hb => List.mem_cons_of_mem _ (List.mem_cons_of_mem _ (hmem b hb)), fun t => ?_⟩
          rw [hslash, List.cons_append, List.cons_append, scanLiteral_escape, hall t, Option.map_some]
      · obtain ⟨⟨raw', after'⟩, htail, heq⟩ := Option.map_eq_some_iff.mp h
        cases heq
        obtain ⟨r, hr, hmem, hall⟩ := ih p.length (by rw [List.length_cons]; omega) hp.2 htail rfl
        refine ⟨r, hr, fun b hb => List.mem_cons_of_mem _ (hmem b hb), fun t => ?_⟩
        rw [List.cons_append, scanLiteral_plain_cons ⟨UInt8.not_lt.mp hlow, hquote, hslash⟩, hall t, Option.map_some]

theorem parseString_cut (hp : (0 : UInt8) ∉ p) (h : parseString (p ++ [0]) = some (s, after)) :
    ∃ r, after = r ++ [0] ∧ (∀ b ∈ r, b ∈ p) ∧ ∀ t, parseString (p ++ t) = some (s, r ++ t) := by
  cases p with
  | nil =>
    rw [List.nil_append, parseString] at h
    simp at h
  | cons c p =>
    rw [List.mem_cons, not_or] at hp
    rw [List.cons_append, parseString] at h
    split_ifs at h with hquote
    obtain ⟨⟨raw, after'⟩, hscan, h⟩ := Option.bind_eq_some_iff.mp h
    obtain ⟨value, hvalue, h⟩ := Option.bind_eq_some_iff.mp h
    cases h
    obtain ⟨r, hr, hmem, hall⟩ := scanLiteral_cut hp.2 hscan
    refine ⟨r, hr, fun b hb => List.mem_cons_of_mem _ (hmem b hb), fun t => ?_⟩
    rw [List.cons_append, parseString]
    simp [hquote, hall t, hvalue]

/-! ## Values -/

/-- A value that may go on where its text was cut. -/
def IsNumber (j : CJson) : Prop := ∃ lexeme, j = .number lexeme

/-- What `f` reads off the front of a cut text `f'` reads off the whole one, unless the value ends where the
    cut is and may go on. -/
def Cut {α : Type} (f f' : List UInt8 → Option (α × List UInt8)) (open' : α → Prop) : Prop :=
  ∀ p v after, (0 : UInt8) ∉ p → f (p ++ [0]) = some (v, after) →
    ∃ r, after = r ++ [0] ∧ (∀ b ∈ r, b ∈ p) ∧ ∀ t, t ≠ [] → (r = [] → ¬open' v) → f' (p ++ t) = some (v, r ++ t)

structure Cuts (fuel : ℕ) : Prop where
  value : ∀ fuel' depth, fuel ≤ fuel' → Cut (parseValue fuel depth) (parseValue fuel' depth) IsNumber
  array : ∀ fuel' depth, fuel ≤ fuel' → Cut (parseArray fuel depth) (parseArray fuel' depth) fun _ => False
  elements : ∀ fuel' depth, fuel ≤ fuel' → Cut (parseElements fuel depth) (parseElements fuel' depth) fun _ => False
  object : ∀ fuel' depth, fuel ≤ fuel' → Cut (parseObject fuel depth) (parseObject fuel' depth) fun _ => False
  members : ∀ fuel' depth, fuel ≤ fuel' → Cut (parseMembers fuel depth) (parseMembers fuel' depth) fun _ => False

theorem keyword_cut {word : String} (hword : (0 : UInt8) ∉ ascii word) (h : keyword word (p ++ [0]) = some after) :
    ∃ r, p = ascii word ++ r ∧ after = r ++ [0] := by
  unfold keyword at h
  split at h
  · next hprefix =>
    obtain ⟨tail, htail⟩ := List.isPrefixOf_iff_prefix.mp hprefix
    rw [← htail, List.drop_left] at h
    cases h
    rcases List.append_eq_append_iff.mp htail with ⟨r, hp, htail⟩ | ⟨q, hq, hzero⟩
    · exact ⟨r, hp, htail⟩
    · cases q with
      | nil => exact ⟨[], by rw [hq]; simp, hzero.symm⟩
      | cons d q =>
        obtain ⟨rfl, -⟩ := List.cons.inj hzero
        rw [hq] at hword
        exact absurd (List.mem_append_right p List.mem_cons_self) hword
  · cases h

theorem parseNumber_cut : Cut parseNumber parseNumber IsNumber := by
  intro p v after _ h
  have hzero : isNumberChar 0 = false := by decide
  have htake : (p ++ [0]).takeWhile isNumberChar = p.takeWhile isNumberChar := by
    rw [List.takeWhile_append]
    split
    · next hall =>
      rw [List.takeWhile_cons_of_neg (by simp [hzero]), List.append_nil]
      exact ((List.takeWhile_prefix _).eq_of_length hall).symm
    · rfl
  have hdrop : (p ++ [0]).dropWhile isNumberChar = p.dropWhile isNumberChar ++ [0] := by
    rw [List.dropWhile_append]
    split
    · next hempty => rw [List.isEmpty_iff.mp hempty, List.dropWhile_cons_of_neg (by simp [hzero]), List.nil_append]
    · rfl
  unfold parseNumber at h
  rw [htake, hdrop] at h
  dsimp only at h
  split at h
  · next hvalid =>
    cases h
    refine ⟨p.dropWhile isNumberChar, rfl, fun b hb => (List.dropWhile_suffix _).subset hb, fun t _ hopen => ?_⟩
    have hrest : p.dropWhile isNumberChar ≠ [] := fun hnil => hopen hnil ⟨_, rfl⟩
    have htoken : ¬(p.takeWhile isNumberChar).length = p.length := by
      intro hall
      have hsplit := congrArg List.length (List.takeWhile_append_dropWhile (p := isNumberChar) (l := p))
      rw [List.length_append] at hsplit
      exact hrest (List.eq_nil_of_length_eq_zero (by omega))
    unfold parseNumber
    have hempty : ¬(p.dropWhile isNumberChar).isEmpty = true := by rwa [List.isEmpty_iff]
    rw [List.takeWhile_append, if_neg htoken, List.dropWhile_append, if_neg hempty]
    exact if_pos hvalid
  · cases h

theorem head_of_parseValue (h : parseValue fuel depth inp = some x) :
    ∃ c rest, inp = c :: rest ∧ c ≠ 0 := by
  cases fuel with
  | zero =>
    rw [parseValue] at h
    cases h
  | succ fuel =>
    cases inp with
    | nil =>
      rw [parseValue_succ] at h
      cases h
    | cons c rest =>
      refine ⟨c, rest, rfl, ?_⟩
      rintro rfl
      rw [parseValue_of_head fuel depth rest (by decide) (by decide) (by decide)] at h
      cases h

theorem value_cut {fuel fuel' depth : ℕ} (ih : Cut (parseValue fuel depth) (parseValue fuel' depth) IsNumber)
    (hp : (0 : UInt8) ∉ p) (h : parseValue fuel depth (skipWhitespace (p ++ [0])) = some (v, after)) :
    ∃ r, after = r ++ [0] ∧ (∀ b ∈ r, b ∈ p) ∧
      ∀ t, t ≠ [] → (r = [] → ¬IsNumber v) → parseValue fuel' depth (skipWhitespace (p ++ t)) = some (v, r ++ t) := by
  obtain ⟨c, rest, hskip, hc⟩ := head_of_parseValue h
  obtain ⟨q, rfl, hmem, hall⟩ := skipWhitespace_cut hc hskip
  rw [hskip] at h
  obtain ⟨r, hr, hsub, hparse⟩ := ih (c :: q) v after (fun h0 => hp (hmem 0 h0)) h
  refine ⟨r, hr, fun b hb => hmem b (hsub b hb), fun t ht hopen => ?_⟩
  rw [hall t ht]
  exact hparse t ht hopen

theorem parseValue_keyword (fuel depth : ℕ) (tail : List UInt8) :
    parseValue (fuel + 1) depth (ascii "null" ++ tail) = some (.null, tail) ∧
      parseValue (fuel + 1) depth (ascii "false" ++ tail) = some (.bool false, tail) ∧
      parseValue (fuel + 1) depth (ascii "true" ++ tail) = some (.bool true, tail) := by
  have hnf : keyword "null" (ascii "false" ++ tail) = none :=
    keyword_of_head _ (show ascii "null" = 110 :: _ from rfl) (by decide)
  have hnt : keyword "null" (ascii "true" ++ tail) = none :=
    keyword_of_head _ (show ascii "null" = 110 :: _ from rfl) (by decide)
  have hft : keyword "false" (ascii "true" ++ tail) = none :=
    keyword_of_head _ (show ascii "false" = 102 :: _ from rfl) (by decide)
  refine ⟨?_, ?_, ?_⟩
  · rw [parseValue_succ, keyword_append]
  · rw [parseValue_succ, hnf, keyword_append]
  · rw [parseValue_succ, hnt, hft, keyword_append]

/-- A value that its first byte tells. -/
theorem cuts_head {fuel k depth : ℕ} (ih : Cuts fuel) (hp : (0 : UInt8) ∉ c :: p) (hk : fuel ≤ k)
    (h : (if c = 34 then (parseString (c :: p ++ [0])).map fun (s, after) => (.string s, after)
      else if c = 45 ∨ (48 ≤ c ∧ c ≤ 57) then parseNumber (c :: p ++ [0])
      else if c = 91 then parseArray fuel depth (p ++ [0])
      else if c = 123 then parseObject fuel depth (p ++ [0])
      else none) = some (v, after)) :
    ∃ r, after = r ++ [0] ∧ (∀ b ∈ r, b ∈ c :: p) ∧
      ∀ t, t ≠ [] → (r = [] → ¬IsNumber v) → parseValue (k + 1) depth (c :: p ++ t) = some (v, r ++ t) := by
  have hp' : (0 : UInt8) ∉ p := fun h0 => hp (List.mem_cons_of_mem c h0)
  split_ifs at h with hquote hnumber harray hobject
  · obtain ⟨⟨s, after'⟩, hstring, heq⟩ := Option.map_eq_some_iff.mp h
    cases heq
    obtain ⟨r, hr, hsub, hall⟩ := parseString_cut hp hstring
    refine ⟨r, hr, hsub, fun t _ _ => ?_⟩
    subst hquote
    rw [List.cons_append, parseValue_of_head k depth _ (by decide) (by decide) (by decide), ← List.cons_append, hall t]
    rfl
  · obtain ⟨r, hr, hsub, hall⟩ := parseNumber_cut (c :: p) v after hp h
    have hne : ∀ d : UInt8, 57 < d → c ≠ d := by
      rintro d hd rfl
      rcases hnumber with rfl | ⟨-, hle⟩
      · exact absurd hd (by decide)
      · exact absurd hd (UInt8.not_lt.mpr hle)
    refine ⟨r, hr, hsub, fun t ht hopen => ?_⟩
    rw [List.cons_append, parseValue_of_head k depth _ (hne _ (by decide)) (hne _ (by decide))
      (hne _ (by decide)), if_neg hquote, if_pos hnumber, ← List.cons_append]
    exact hall t ht hopen
  · obtain ⟨r, hr, hsub, hall⟩ := ih.array k depth hk p v after hp' h
    refine ⟨r, hr, fun b hb => List.mem_cons_of_mem c (hsub b hb), fun t ht _ => ?_⟩
    subst harray
    rw [List.cons_append, parseValue_of_head k depth _ (by decide) (by decide) (by decide), if_pos rfl]
    exact hall t ht fun _ h => h
  · obtain ⟨r, hr, hsub, hall⟩ := ih.object k depth hk p v after hp' h
    refine ⟨r, hr, fun b hb => List.mem_cons_of_mem c (hsub b hb), fun t ht _ => ?_⟩
    subst hobject
    rw [List.cons_append, parseValue_of_head k depth _ (by decide) (by decide) (by decide), if_neg hquote,
      if_neg hnumber, if_neg harray, if_pos rfl]
    exact hall t ht fun _ h => h

theorem cuts_value {fuel : ℕ} (ih : Cuts fuel) (fuel' depth : ℕ) (hfuel : fuel + 1 ≤ fuel') :
    Cut (parseValue (fuel + 1) depth) (parseValue fuel' depth) IsNumber := by
  intro p v after hp h
  obtain ⟨k, rfl⟩ : ∃ k, fuel' = k + 1 := ⟨fuel' - 1, by omega⟩
  have hk : fuel ≤ k := by omega
  have hhead := head_of_parseValue h
  rw [parseValue_succ] at h
  cases hnull : keyword "null" (p ++ [0]) with
  | some after' =>
    obtain ⟨r, rfl, rfl⟩ := keyword_cut (by decide) hnull
    cases h
    exact ⟨r, rfl, fun b hb => List.mem_append_right _ hb, fun t _ _ => by
      exact (parseValue_keyword k depth (r ++ t)).1⟩
  | none =>
    cases hfalse : keyword "false" (p ++ [0]) with
    | some after' =>
      obtain ⟨r, rfl, rfl⟩ := keyword_cut (by decide) hfalse
      cases h
      exact ⟨r, rfl, fun b hb => List.mem_append_right _ hb, fun t _ _ => by
        exact (parseValue_keyword k depth (r ++ t)).2.1⟩
    | none =>
      cases htrue : keyword "true" (p ++ [0]) with
      | some after' =>
        obtain ⟨r, rfl, rfl⟩ := keyword_cut (by decide) htrue
        cases h
        exact ⟨r, rfl, fun b hb => List.mem_append_right _ hb, fun t _ _ => by
          exact (parseValue_keyword k depth (r ++ t)).2.2⟩
      | none =>
        rw [hnull, hfalse, htrue] at h
        cases p with
        | nil =>
          obtain ⟨c, rest, hinp, hc⟩ := hhead
          exact absurd (List.cons.inj hinp).1.symm hc
        | cons c p =>
          exact cuts_head ih hp hk h

/-- The byte that decides behind white space. -/
theorem next_cut {r : List UInt8} {rest : List UInt8} (hc : c ≠ 0) (h : skipWhitespace (r ++ [0]) = c :: rest) :
    r ≠ [] ∧ ∃ q, rest = q ++ [0] ∧ (∀ b ∈ q, b ∈ r) ∧ ∀ t, t ≠ [] → skipWhitespace (r ++ t) = c :: (q ++ t) := by
  obtain ⟨q, hrest, hmem, hall⟩ := skipWhitespace_cut hc h
  refine ⟨?_, q, hrest, fun b hb => hmem b (List.mem_cons_of_mem c hb), hall⟩
  rintro rfl
  exact absurd (hmem c List.mem_cons_self) List.not_mem_nil

/-- Only the last byte is left when it is white space. -/
theorem rest_of_skipWhitespace (h : skipWhitespace inp = c :: rest) (hc : c ≤ 32) : rest = [] := by
  induction inp using skipWhitespace.induct with
  | case1 =>
    cases h
  | case2 d =>
    exact (List.cons.inj h).2.symm
  | case3 d e tail hd ih =>
    rw [skipWhitespace, if_pos hd] at h
    exact ih h
  | case4 d e tail hd =>
    rw [skipWhitespace, if_neg hd] at h
    exact absurd ((List.cons.inj h).1 ▸ hc) hd

theorem exists_skipWhitespace (p : List UInt8) : ∃ c rest, skipWhitespace (p ++ [0]) = c :: rest := by
  induction p with
  | nil => exact ⟨0, [], rfl⟩
  | cons d p ih =>
    obtain ⟨e, tail, he⟩ :=
      List.exists_cons_of_ne_nil (List.append_ne_nil_of_right_ne_nil p (show [(0 : UInt8)] ≠ [] by simp))
    rw [he] at ih
    rw [List.cons_append, he, skipWhitespace]
    split
    · exact ih
    · exact ⟨d, _, rfl⟩

/-! ## Lists -/

section Lists

variable {α : Type} {close : UInt8} {read read' : List UInt8 → Option (List α × List UInt8)} {wrap : List α → CJson}

/-- What follows the opening of a list. -/
def bracketed (close : UInt8) (read : List UInt8 → Option (List α × List UInt8)) (wrap : List α → CJson)
    (inp : List UInt8) :
    Option (CJson × List UInt8) :=
  match skipWhitespace inp with
  | [] => none
  | c :: rest => if c = close then some (wrap [], rest) else (read (c :: rest)).map fun (items, after) =>
      (wrap items, after)

/-- What follows an item of a list. -/
def listed (close : UInt8) (read : List UInt8 → Option (List α × List UInt8)) (item : α) (inp : List UInt8) :
    Option (List α × List UInt8) :=
  match skipWhitespace inp with
  | [] => none
  | c :: rest =>
    if c = 44 then (read rest).map fun (items, after) => (item :: items, after)
    else if c = close then some ([item], rest)
    else none

theorem bracketed_cut (hclose : close ≠ 0) (hread : Cut read read' fun _ => False) (hzero : read [0] = none) :
    Cut (bracketed close read wrap) (bracketed close read' wrap) fun _ => False := by
  intro p v after hp h
  obtain ⟨c, rest, hskip⟩ := exists_skipWhitespace p
  rw [bracketed, hskip] at h
  dsimp only at h
  split at h
  · next hc =>
    obtain ⟨-, q, rfl, hq, hnext⟩ := next_cut (hc ▸ hclose) hskip
    cases h
    refine ⟨q, rfl, hq, fun t ht _ => ?_⟩
    rw [bracketed, hnext t ht]
    exact if_pos hc
  · next hc =>
    obtain ⟨⟨items, afterItems⟩, hitems, heq⟩ := Option.map_eq_some_iff.mp h
    cases heq
    have hne : c ≠ 0 := by
      rintro rfl
      rw [rest_of_skipWhitespace hskip (by decide), hzero] at hitems
      cases hitems
    obtain ⟨q, rfl, hmem, hnext⟩ := skipWhitespace_cut hne hskip
    obtain ⟨r, hr, hsub, hall⟩ := hread (c :: q) items _ (fun h0 => hp (hmem 0 h0)) hitems
    refine ⟨r, hr, fun b hb => hmem b (hsub b hb), fun t ht _ => ?_⟩
    rw [bracketed, hnext t ht]
    dsimp only
    rw [if_neg hc, ← List.cons_append, hall t ht fun _ h => h]
    rfl

theorem listed_cut {r : List UInt8} {item : α} {items : List α} (hclose : close ≠ 0)
    (hread : Cut read read' fun _ => False)
    (hr : (0 : UInt8) ∉ r) (h : listed close read item (r ++ [0]) = some (items, after)) :
    r ≠ [] ∧ ∃ q, after = q ++ [0] ∧ (∀ b ∈ q, b ∈ r) ∧
      ∀ t, t ≠ [] → listed close read' item (r ++ t) = some (items, q ++ t) := by
  obtain ⟨c, rest, hskip⟩ := exists_skipWhitespace r
  rw [listed, hskip] at h
  dsimp only at h
  split_ifs at h with hcomma hc
  · obtain ⟨hne, q, rfl, hq, hnext⟩ := next_cut (by rw [hcomma]; decide) hskip
    obtain ⟨⟨rest, afterItems⟩, hitems, heq⟩ := Option.map_eq_some_iff.mp h
    cases heq
    obtain ⟨r', hr', hsub, hall⟩ := hread q rest _ (fun h0 => hr (hq 0 h0)) hitems
    refine ⟨hne, r', hr', fun b hb => hq b (hsub b hb), fun t ht => ?_⟩
    rw [listed, hnext t ht]
    dsimp only
    rw [if_pos hcomma, hall t ht fun _ h => h]
    rfl
  · obtain ⟨hne, q, rfl, hq, hnext⟩ := next_cut (hc ▸ hclose) hskip
    cases h
    refine ⟨hne, q, rfl, hq, fun t ht => ?_⟩
    rw [listed, hnext t ht]
    dsimp only
    rw [if_neg hcomma, if_pos hc]

theorem not_isNumber_of_bracketed {inp after : List UInt8} (hwrap : ∀ items, ¬IsNumber (wrap items))
    (h : bracketed close read wrap inp = some (j, after)) : ¬IsNumber j := by
  rw [bracketed] at h
  split at h
  · cases h
  · split at h
    · cases h
      exact hwrap []
    · obtain ⟨x, -, heq⟩ := Option.map_eq_some_iff.mp h
      cases heq
      exact hwrap x.1

end Lists

theorem parseArray_succ (fuel depth : ℕ) (inp : List UInt8) : parseArray (fuel + 1) depth inp =
    if nestingLimit ≤ depth then none else bracketed 93 (parseElements fuel (depth + 1)) .array inp := by
  rw [parseArray]
  rfl

theorem parseObject_succ (fuel depth : ℕ) (inp : List UInt8) : parseObject (fuel + 1) depth inp =
    if nestingLimit ≤ depth then none else bracketed 125 (parseMembers fuel (depth + 1)) .object inp := by
  rw [parseObject]
  rfl

theorem parseElements_zero (fuel depth : ℕ) : parseElements fuel depth [0] = none := by
  cases fuel with
  | zero => rw [parseElements]
  | succ fuel =>
    rw [parseElements, skipWhitespace]
    cases hitem : parseValue fuel depth [0] with
    | none => rfl
    | some x =>
      obtain ⟨c, rest, hinp, hc⟩ := head_of_parseValue hitem
      exact absurd (List.cons.inj hinp).1.symm hc

theorem parseMembers_zero (fuel depth : ℕ) : parseMembers fuel depth [0] = none := by
  cases fuel with
  | zero => rw [parseMembers]
  | succ fuel =>
    rw [parseMembers]
    rfl

theorem cuts_array {fuel : ℕ} (ih : Cuts fuel) (fuel' depth : ℕ) (hfuel : fuel + 1 ≤ fuel') :
    Cut (parseArray (fuel + 1) depth) (parseArray fuel' depth) fun _ => False := by
  intro p v after hp h
  obtain ⟨k, rfl⟩ : ∃ k, fuel' = k + 1 := ⟨fuel' - 1, by omega⟩
  have hk : fuel ≤ k := by omega
  simp only [parseArray_succ] at h ⊢
  split at h
  · cases h
  · next hdepth =>
    simp only [if_neg hdepth]
    exact bracketed_cut (by decide) (ih.elements k (depth + 1) hk) (parseElements_zero _ _) p v after hp h

theorem cuts_object {fuel : ℕ} (ih : Cuts fuel) (fuel' depth : ℕ) (hfuel : fuel + 1 ≤ fuel') :
    Cut (parseObject (fuel + 1) depth) (parseObject fuel' depth) fun _ => False := by
  intro p v after hp h
  obtain ⟨k, rfl⟩ : ∃ k, fuel' = k + 1 := ⟨fuel' - 1, by omega⟩
  have hk : fuel ≤ k := by omega
  simp only [parseObject_succ] at h ⊢
  split at h
  · cases h
  · next hdepth =>
    simp only [if_neg hdepth]
    exact bracketed_cut (by decide) (ih.members k (depth + 1) hk) (parseMembers_zero _ _) p v after hp h

theorem cuts_elements {fuel : ℕ} (ih : Cuts fuel) (fuel' depth : ℕ) (hfuel : fuel + 1 ≤ fuel') :
    Cut (parseElements (fuel + 1) depth) (parseElements fuel' depth) fun _ => False := by
  intro p v after hp h
  obtain ⟨k, rfl⟩ : ∃ k, fuel' = k + 1 := ⟨fuel' - 1, by omega⟩
  have hk : fuel ≤ k := by omega
  rw [parseElements] at h
  cases hitem : parseValue fuel depth (skipWhitespace (p ++ [0])) with
  | none =>
    rw [hitem] at h
    cases h
  | some x =>
    obtain ⟨item, afterItem⟩ := x
    obtain ⟨r, rfl, hsub, hvalue⟩ := value_cut (ih.value k depth hk) hp hitem
    rw [hitem] at h
    obtain ⟨hr, q, hq, hmem, hall⟩ := listed_cut (by decide) (ih.elements k depth hk) (fun h0 => hp (hsub 0 h0)) h
    refine ⟨q, hq, fun b hb => hsub b (hmem b hb), fun t ht _ => ?_⟩
    rw [parseElements, hvalue t ht fun hnil => absurd hnil hr]
    exact hall t ht

theorem string_cut (hp : (0 : UInt8) ∉ p) (h : parseString (skipWhitespace (p ++ [0])) = some (s, after)) :
    ∃ r, after = r ++ [0] ∧ (∀ b ∈ r, b ∈ p) ∧ ∀ t, t ≠ [] →
      parseString (skipWhitespace (p ++ t)) = some (s, r ++ t) := by
  cases hskip : skipWhitespace (p ++ [0]) with
  | nil =>
    rw [hskip] at h
    cases h
  | cons c rest =>
    have hc : c ≠ 0 := by
      rintro rfl
      rw [hskip] at h
      cases h
    obtain ⟨q, rfl, hmem, hall⟩ := skipWhitespace_cut hc hskip
    rw [hskip] at h
    obtain ⟨r, hr, hsub, hparse⟩ := parseString_cut (p := c :: q) (fun h0 => hp (hmem 0 h0)) h
    refine ⟨r, hr, fun b hb => hmem b (hsub b hb), fun t ht => ?_⟩
    rw [hall t ht]
    exact hparse t

theorem cuts_members {fuel : ℕ} (ih : Cuts fuel) (fuel' depth : ℕ) (hfuel : fuel + 1 ≤ fuel') :
    Cut (parseMembers (fuel + 1) depth) (parseMembers fuel' depth) fun _ => False := by
  intro p v after hp h
  obtain ⟨k, rfl⟩ : ∃ k, fuel' = k + 1 := ⟨fuel' - 1, by omega⟩
  have hk : fuel ≤ k := by omega
  rw [parseMembers] at h
  cases hname : parseString (skipWhitespace (p ++ [0])) with
  | none =>
    rw [hname] at h
    cases h
  | some x =>
    obtain ⟨name, afterName⟩ := x
    obtain ⟨r, rfl, hsub, hstring⟩ := string_cut hp hname
    obtain ⟨c, rest, hskip⟩ := exists_skipWhitespace r
    rw [hname] at h
    dsimp only at h
    rw [hskip] at h
    dsimp only at h
    split at h
    · cases h
    · next hcolon =>
      obtain ⟨-, q, rfl, hq, hnext⟩ := next_cut (by rw [not_not.mp hcolon]; decide) hskip
      have hq0 : (0 : UInt8) ∉ q := fun h0 => hp (hsub 0 (hq 0 h0))
      cases hvalue : parseValue fuel depth (skipWhitespace (q ++ [0])) with
      | none =>
        rw [hvalue] at h
        cases h
      | some y =>
        obtain ⟨value, afterValue⟩ := y
        obtain ⟨u, rfl, husub, hparse⟩ := value_cut (ih.value k depth hk) hq0 hvalue
        rw [hvalue] at h
        obtain ⟨hu, w, hw, hmem, hall⟩ := listed_cut (by decide) (ih.members k depth hk) (fun h0 => hq0 (husub 0 h0)) h
        refine ⟨w, hw, fun b hb => hsub b (hq b (husub b (hmem b hb))), fun t ht _ => ?_⟩
        rw [parseMembers, hstring t ht]
        dsimp only
        rw [hnext t ht]
        dsimp only
        rw [if_neg hcolon, hparse t ht fun hnil => absurd hnil hu]
        exact hall t ht

theorem cuts (fuel : ℕ) : Cuts fuel := by
  induction fuel with
  | zero =>
    constructor
    · intro fuel' depth _ p v after _ h
      rw [parseValue] at h
      cases h
    · intro fuel' depth _ p v after _ h
      rw [parseArray] at h
      cases h
    · intro fuel' depth _ p v after _ h
      rw [parseElements] at h
      cases h
    · intro fuel' depth _ p v after _ h
      rw [parseObject] at h
      cases h
    · intro fuel' depth _ p v after _ h
      rw [parseMembers] at h
      cases h
  | succ fuel ih => exact ⟨cuts_value ih, cuts_array ih, cuts_elements ih, cuts_object ih, cuts_members ih⟩

/-- A byte order mark is skipped in the front of a text if it is in the whole one. -/
theorem skipUtf8Bom_cut (hp : (0 : UInt8) ∉ p)
    (h : parseValue fuel depth (skipWhitespace (skipUtf8Bom (p ++ [0]))) = some x) :
    ∃ q, (0 : UInt8) ∉ q ∧ skipUtf8Bom (p ++ [0]) = q ++ [0] ∧ ∀ t, t ≠ [] → skipUtf8Bom (p ++ t) = q ++ t := by
  by_cases hbom : 4 < (p ++ [0]).length ∧ (p ++ [0]).take 3 = [0xEF, 0xBB, 0xBF]
  · have hlength : 4 ≤ p.length := by
      have hlt := hbom.1
      rw [List.length_append, List.length_singleton] at hlt
      omega
    have hdrop : ∀ t, (p ++ t).drop 3 = p.drop 3 ++ t := fun t => List.drop_append_of_le_length (by omega)
    have htake : ∀ t, (p ++ t).take 3 = p.take 3 := fun t => List.take_append_of_le_length (by omega)
    rw [htake] at hbom
    refine ⟨p.drop 3, fun h0 => hp (List.mem_of_mem_drop h0), ?_, fun t ht => ?_⟩
    · rw [skipUtf8Bom, htake, if_pos hbom, hdrop]
    · have hlong : 4 < (p ++ t).length := by
        have hpos := List.length_pos_iff.mpr ht
        rw [List.length_append]
        omega
      rw [skipUtf8Bom, htake, if_pos ⟨hlong, hbom.2⟩, hdrop]
  · refine ⟨p, hp, if_neg hbom, fun t _ => if_neg ?_⟩
    rintro ⟨-, hmark⟩
    rw [skipUtf8Bom, if_neg hbom] at h
    cases p with
    | nil =>
      obtain ⟨c, rest, hinp, hc⟩ := head_of_parseValue h
      exact absurd (List.cons.inj hinp).1.symm hc
    | cons c p =>
      have hc : c = 0xEF := by
        exact (List.cons.inj hmark).1
      subst hc
      have hskip : skipWhitespace ((0xEF : UInt8) :: p ++ [0]) = 0xEF :: (p ++ [0]) := by
        obtain ⟨d, tail, hd⟩ :=
          List.exists_cons_of_ne_nil (List.append_ne_nil_of_right_ne_nil p (show [(0 : UInt8)] ≠ [] by simp))
        rw [List.cons_append, hd, skipWhitespace, if_neg (by decide)]
      rw [hskip] at h
      cases fuel with
      | zero =>
        rw [parseValue] at h
        cases h
      | succ fuel =>
        rw [parseValue_of_head fuel depth _ (by decide) (by decide) (by decide)] at h
        cases h

theorem ofBytes_take (content : List UInt8) (n : ℕ) :
    ∃ s, (CString.ofBytes content).val = (CString.ofBytes (content.take n)).val ++ s := by
  change ∃ s, content.takeWhile _ = (content.take n).takeWhile _ ++ s
  conv => enter [1, s, 1]; rw [← List.take_append_drop n content]
  rw [List.takeWhile_append]
  split
  · next hall =>
    rw [(List.takeWhile_prefix _).eq_of_length hall]
    exact ⟨_, rfl⟩
  · exact ⟨[], (List.append_nil _).symm⟩

/-- When the front of a text parses the whole text parses to the same value, unless that is a number. -/
theorem parse_take (h : parse (CString.ofBytes (content.take n)) = some j)
    (hj : ¬IsNumber j) : parse (CString.ofBytes content) = some j := by
  obtain ⟨s, hs⟩ := ofBytes_take content n
  generalize CString.ofBytes (content.take n) = front at h hs
  generalize CString.ofBytes content = whole at hs ⊢
  obtain ⟨⟨j', after⟩, hparse, rfl⟩ := Option.map_eq_some_iff.mp h
  obtain ⟨q, hq, hbom, hall⟩ := skipUtf8Bom_cut front.property hparse
  rw [hbom] at hparse
  have htail : s ++ [0] ≠ [] := by simp
  have hfuel : 3 * (front.val ++ [0]).length + 1 ≤ 3 * (whole.val ++ [0]).length + 1 := by
    rw [hs, List.length_append, List.length_append, List.length_append]
    omega
  obtain ⟨r, -, -, hread⟩ := value_cut ((cuts _).value _ 0 hfuel) hq hparse
  rw [parse]
  rw [hs, List.append_assoc, hall _ htail]
  rw [hs, List.append_assoc] at hread
  rw [hread (s ++ [0]) htail fun _ => hj]
  rfl

theorem not_isNumber_of_keyword {inp after : List UInt8} (hc : c = 110 ∨ c = 102 ∨ c = 116)
    (h : parseValue (fuel + 1) depth (c :: inp) = some (j, after)) : ¬IsNumber j := by
  have hchain : (if c = 34 then (parseString (c :: inp)).map fun (s, after) => (CJson.string s, after)
      else if c = 45 ∨ (48 ≤ c ∧ c ≤ 57) then parseNumber (c :: inp)
      else if c = 91 then parseArray fuel depth inp
      else if c = 123 then parseObject fuel depth inp
      else none) = none := by
    rcases hc with rfl | rfl | rfl <;> rfl
  rw [parseValue_succ] at h
  rintro ⟨lexeme, rfl⟩
  split at h
  · cases h
  · cases h
  · cases h
  · dsimp only at h
    rw [hchain] at h
    cases h

theorem not_isNumber_of_parseArray {inp after : List UInt8} (h : parseArray fuel depth inp = some (j, after)) :
    ¬IsNumber j := by
  cases fuel with
  | zero =>
    rw [parseArray] at h
    cases h
  | succ fuel =>
    rw [parseArray_succ] at h
    split at h
    · cases h
    · exact not_isNumber_of_bracketed (by rintro _ ⟨_, h⟩; cases h) h

theorem not_isNumber_of_parseObject {inp after : List UInt8} (h : parseObject fuel depth inp = some (j, after)) :
    ¬IsNumber j := by
  cases fuel with
  | zero =>
    rw [parseObject] at h
    cases h
  | succ fuel =>
    rw [parseObject_succ] at h
    split at h
    · cases h
    · exact not_isNumber_of_bracketed (by rintro _ ⟨_, h⟩; cases h) h

/-- The first byte tells a number from everything else. -/
theorem isNumber_iff_of_parseValue {inp after : List UInt8}
    (h : parseValue fuel depth (c :: inp) = some (j, after)) : IsNumber j ↔ c = 45 ∨ (48 ≤ c ∧ c ≤ 57) := by
  cases fuel with
  | zero =>
    rw [parseValue] at h
    cases h
  | succ fuel =>
    by_cases hword : c = 110 ∨ c = 102 ∨ c = 116
    · refine iff_of_false (not_isNumber_of_keyword hword h) ?_
      rcases hword with rfl | rfl | rfl <;> decide
    · rw [not_or, not_or] at hword
      rw [parseValue_of_head fuel depth inp hword.1 hword.2.1 hword.2.2] at h
      split_ifs at h with hquote hnumber harray hobject
      · obtain ⟨⟨s, rest⟩, -, heq⟩ := Option.map_eq_some_iff.mp h
        cases heq
        refine iff_of_false (by rintro ⟨lexeme, hlexeme⟩; cases hlexeme) ?_
        rw [hquote]
        decide
      · unfold parseNumber at h
        extract_lets token at h
        split at h
        · cases h
          exact iff_of_true ⟨_, rfl⟩ hnumber
        · cases h
      · exact iff_of_false (not_isNumber_of_parseArray h) hnumber
      · exact iff_of_false (not_isNumber_of_parseObject h) hnumber

theorem isNumber_of_take {j j' : CJson} (h : parse (CString.ofBytes (content.take n)) = some j)
    (hj : IsNumber j) (h' : parse (CString.ofBytes content) = some j') : IsNumber j' := by
  obtain ⟨s, hs⟩ := ofBytes_take content n
  generalize CString.ofBytes (content.take n) = front at h hs
  obtain ⟨⟨i, after⟩, hparse, rfl⟩ := Option.map_eq_some_iff.mp h
  obtain ⟨⟨i', after'⟩, hparse', rfl⟩ := Option.map_eq_some_iff.mp h'
  obtain ⟨q, hq, hbom, hall⟩ := skipUtf8Bom_cut front.property hparse
  rw [hbom] at hparse
  rw [hs, List.append_assoc, hall _ (by simp)] at hparse'
  obtain ⟨c, rest, hskip, hc⟩ := head_of_parseValue hparse
  obtain ⟨r, -, -, hnext⟩ := skipWhitespace_cut hc hskip
  rw [hskip] at hparse
  rw [hnext _ (by simp)] at hparse'
  exact (isNumber_iff_of_parseValue hparse').mpr ((isNumber_iff_of_parseValue hparse).mp hj)

end CJson
