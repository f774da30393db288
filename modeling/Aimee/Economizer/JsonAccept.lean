-- SUMMARY: The JSON compaction against the grammar: which texts it accepts and what it makes of them.
import Aimee.Economizer.JsonTokens

/-!
# What is compacted

The validator accepts the texts that spell a value within the limits. The copy pass knows nothing
of the validator's reading; that both see the same strings is what the tokens of the grammar say.
-/

namespace Economizer

open JsonGrammar JsonGrammar.Tree JsonParser Utf8Table

/-! ## The copy pass -/

/-- The pass comes out of a token as it went in, and keeps every byte of it. -/
def Copied (token : Text) : Prop :=
  ∀ rest, copyTokens false false (token ++ rest) = token ++ copyTokens false false rest

variable {token : Text} {ws : Text} {s rest : Text} {tokens : List Text} {t : Tree} {fuel : ℕ}
     {ms : List Member} {levels : ℕ}

theorem copied_bare (h : ∀ b ∈ token, isWs b = false ∧ b ≠ 34) : Copied token := by
  intro rest
  induction token with
  | nil => rfl
  | cons b token ih =>
    obtain ⟨hws, hquote⟩ := h b List.mem_cons_self
    have hstep : copyTokens false false (b :: (token ++ rest)) =
        b :: copyTokens (decide (b = 34)) false (token ++ rest) := if_neg (Bool.eq_false_iff.mp hws)
    rw [List.cons_append, hstep, decide_eq_false hquote, ih fun c hc => h c (List.mem_cons_of_mem _ hc)]
    rfl

/-- Inside a string, bytes that neither close it nor escape. -/
theorem copy_plain {t : Text} (h : ∀ b ∈ t, b ≠ 34 ∧ b ≠ 92) (rest : Text) :
    copyTokens true false (t ++ rest) = t ++ copyTokens true false rest := by
  induction t with
  | nil => rfl
  | cons b t ih =>
    obtain ⟨hquote, hslash⟩ := h b List.mem_cons_self
    rw [List.cons_append, copyTokens, if_neg hslash, if_neg hquote, ih fun c hc => h c (List.mem_cons_of_mem _ hc)]
    rfl

theorem copy_escape (e : UInt8) (rest : Text) :
    copyTokens true false (92 :: e :: rest) = 92 :: e :: copyTokens true false rest := by
  rw [copyTokens, if_pos rfl, copyTokens]

theorem copy_unicode (u : Hex4) (rest : Text) :
    copyTokens true false (92 :: 117 :: (u.text ++ rest)) = 92 :: 117 :: (u.text ++ copyTokens true false rest) := by
  have hhex : ∀ c, isHex c → c ≠ 34 ∧ c ≠ 92 := by
    intro c hc
    constructor
    · rintro rfl
      exact absurd hc (by decide)
    · rintro rfl
      exact absurd hc (by decide)
  obtain ⟨ha, hb, hc, hd⟩ := u.digits
  rw [copy_escape, copy_plain]
  intro b hb'
  simp only [Hex4.text, List.mem_cons, List.not_mem_nil, or_false] at hb'
  rcases hb' with rfl | rfl | rfl | rfl
  · exact hhex _ ha
  · exact hhex _ hb
  · exact hhex _ hc
  · exact hhex _ hd

theorem copy_char (x : StringChar) (rest : Text) :
    copyTokens true false (x.text ++ rest) = x.text ++ copyTokens true false rest := by
  cases x with
  | plain c h =>
    refine copy_plain (fun b hb => ?_) rest
    rcases mem_encode hb with hb | ⟨-, hb⟩
    · constructor
      · rintro rfl
        exact absurd hb (by decide)
      · rintro rfl
        exact absurd hb (by decide)
    · constructor
      · rintro rfl
        exact h.2.1 (Char.toNat_inj.mp hb.symm)
      · rintro rfl
        exact h.2.2 (Char.toNat_inj.mp hb.symm)
  | short e c h => exact copy_escape e rest
  | unicode u c h => exact copy_unicode u rest
  | pair hi lo c h =>
    exact (copy_unicode hi _).trans (congrArg (fun t => 92 :: 117 :: (hi.text ++ t)) (copy_unicode lo rest))

theorem copied_string (cs : List StringChar) : Copied (stringText cs) := by
  intro rest
  have hbody : ∀ rest, copyTokens true false (bodyText cs ++ rest) = bodyText cs ++ copyTokens true false rest := by
    induction cs with
    | nil => exact fun _ => rfl
    | cons x cs ih =>
      intro rest
      rw [bodyText, List.flatMap_cons, List.append_assoc, copy_char]
      exact (congrArg (x.text ++ ·) (ih rest)).trans (List.append_assoc _ _ _).symm
  have hopen : copyTokens false false (34 :: (bodyText cs ++ ([34] ++ rest))) =
      34 :: copyTokens true false (bodyText cs ++ ([34] ++ rest)) := rfl
  rw [stringText, List.append_assoc, List.cons_append, hopen, hbody, List.append_assoc]
  rfl

theorem number_bytes (n : Number) : ∀ b ∈ n.text, isWs b = false ∧ b ≠ 34 := by
  intro b hb
  have h := n.isNumberByte_of_mem b hb
  simp only [isNumberByte, isDigit, isWs, Bool.or_eq_true, Bool.and_eq_true, Bool.or_eq_false_iff, decide_eq_true_eq,
    decide_eq_false_iff_not, UInt8.le_iff_toNat_le, ne_eq, eq_iff_toNat, UInt8.reduceToNat] at h ⊢
  omega

theorem bare_of_all (h : token.all fun b => isWs b = false && b ≠ 34) : ∀ b ∈ token, isWs b = false ∧ b ≠ 34 :=
  fun b hb => by simpa using List.all_eq_true.mp h b hb

theorem copied_of_isToken (h : IsToken token) : Copied token := by
  cases h with
  | word w => cases w <;> exact copied_bare (bare_of_all rfl)
  | number n => exact copied_bare (number_bytes n)
  | string cs => exact copied_string cs
  | mark h =>
    refine copied_bare fun b hb => ?_
    obtain rfl := List.mem_singleton.mp hb
    exact bare_of_all rfl b h

theorem copy_ws (h : ws.all isWs) (rest : Text) :
    copyTokens false false (ws ++ rest) = copyTokens false false rest := by
  induction ws with
  | nil => rfl
  | cons b ws ih =>
    rw [List.all_cons, Bool.and_eq_true] at h
    exact (if_pos h.1).trans (ih h.2)

theorem copy_spaced (htokens : ∀ token ∈ tokens, IsToken token)
    (h : Spaced tokens s rest) : copyTokens false false s = tokens.flatten ++ copyTokens false false rest := by
  induction tokens generalizing s with
  | nil => cases h; rfl
  | cons token tokens ih =>
    obtain ⟨ws, after, hws, rfl, h⟩ := h
    rw [copy_ws hws, copied_of_isToken (htokens token List.mem_cons_self),
      ih (fun t ht => htokens t (List.mem_cons_of_mem _ ht)) h, List.flatten_cons, List.append_assoc]

theorem copy_spells {s : Text} (h : Spells t s) : copyTokens false false s = t.tokens.flatten := by
  obtain ⟨ws, hws, h⟩ := h
  have hrest := copy_ws hws []
  rw [List.append_nil] at hrest
  rw [copy_spaced (fun _ => isToken_of_mem) h, hrest]
  exact List.append_nil _

/-! ## White space -/

theorem jsonWS_eq : jsonWS = isWs := rfl

theorem skipWS_append (h : ws.all isWs) (s : Text) : skipWS (ws ++ s) = skipWS s := by
  rw [skipWS, jsonWS_eq, List.dropWhile_append_of_pos (List.all_eq_true.mp h)]
  rfl

/-- A token that does not start with white space. -/
def Visible (token : Text) : Prop := ∃ c t, token = c :: t ∧ isWs c = false

theorem skipWS_visible (h : Visible token) (after : Text) : skipWS (token ++ after) = token ++ after := by
  obtain ⟨c, t, rfl, hc⟩ := h
  exact List.dropWhile_cons_of_neg (Bool.eq_false_iff.mp hc)

theorem exists_ws (s : Text) : ∃ ws, s = ws ++ skipWS s ∧ ws.all isWs :=
  ⟨s.takeWhile isWs, List.takeWhile_append_dropWhile.symm, List.all_eq_true.mpr fun _ => List.mem_takeWhile_imp⟩

theorem spaced_skipWS_eq (h : Spaced (token :: tokens) s rest)
    (hvisible : Visible token) : ∃ after, skipWS s = token ++ after ∧ Spaced tokens after rest := by
  obtain ⟨ws, after, hws, rfl, h⟩ := h
  exact ⟨after, by rw [skipWS_append hws, skipWS_visible hvisible], h⟩

theorem spaced_skipWS (h : Spaced (token :: tokens) s rest)
    (hvisible : Visible token) : Spaced (token :: tokens) (skipWS s) rest := by
  obtain ⟨after, heq, h⟩ := spaced_skipWS_eq h hvisible
  exact ⟨[], after, rfl, heq, h⟩

theorem spaced_of_skipWS (h : Spaced (token :: tokens) (skipWS s) rest) : Spaced (token :: tokens) s rest := by
  obtain ⟨ws', hs, hws'⟩ := exists_ws s
  obtain ⟨ws, after, hws, heq, h⟩ := h
  refine ⟨ws' ++ ws, after, by rw [List.all_append, hws', hws]; rfl, ?_, h⟩
  rw [hs, heq, List.append_assoc]

theorem spaced_token {s after rest : Text} (heq : skipWS s = token ++ after)
    (h : Spaced tokens after rest) : Spaced (token :: tokens) s rest :=
  spaced_of_skipWS ⟨[], after, rfl, heq, h⟩

theorem spaced_singleton {token s rest : Text} (h : skipWS s = token ++ rest) : Spaced [token] s rest :=
  spaced_token h rfl

/-- What does not continue a number may follow a value. -/
theorem stops_of_spaced {c : UInt8} (h : Spaced ([c] :: tokens) s rest)
    (hc : isNumberByte c = false) : Stops s := by
  have hbyte : ∀ b, isWs b ∨ isNumberByte b = false → isDigit b = false ∧ b ≠ 46 ∧ b ≠ 101 ∧ b ≠ 69 := fun b hb => by
    simp only [isNumberByte, isDigit, isWs, Bool.or_eq_true, Bool.or_eq_false_iff, Bool.and_eq_false_iff,
      decide_eq_true_eq, decide_eq_false_iff_not, UInt8.le_iff_toNat_le, ne_eq, eq_iff_toNat, UInt8.reduceToNat] at hb ⊢
    omega
  obtain ⟨ws, after, hws, rfl, -⟩ := h
  intro b hb
  cases ws with
  | nil =>
    obtain rfl : c = b := Option.some.inj hb
    exact hbyte c (.inr hc)
  | cons w ws =>
    obtain rfl : w = b := Option.some.inj hb
    rw [List.all_cons, Bool.and_eq_true] at hws
    exact hbyte w (.inl hws.1)

/-! ## What is read -/

/-- The first byte of a value. -/
def startsValue (c : UInt8) : Bool :=
  c = 123 || c = 91 || c = 34 || c = 116 || c = 102 || c = 110 || c = 45 || isDigit c

theorem Number.text_eq_cons (n : Number) : ∃ c t, n.text = c :: t ∧ (c = 45 ∨ isDigit c) := by
  obtain ⟨d, ds, hint, hd⟩ := IsInt.head n.isInt
  rw [Number.text]
  rcases n.isMinus with h | h
  · rw [h, hint]
    exact ⟨d, _, rfl, .inr hd⟩
  · rw [h]
    exact ⟨45, _, rfl, .inl rfl⟩

theorem tokens_eq_cons (t : Tree) : ∃ c text more, t.tokens = (c :: text) :: more ∧ startsValue c := by
  cases t with
  | word w =>
    cases w
    · exact ⟨116, _, [], rfl, rfl⟩
    · exact ⟨102, _, [], rfl, rfl⟩
    · exact ⟨110, _, [], rfl, rfl⟩
  | number n =>
    obtain ⟨c, text, h, hc⟩ := Number.text_eq_cons n
    refine ⟨c, text, [], by rw [tokens, h], ?_⟩
    rcases hc with rfl | hc
    · rfl
    · rw [startsValue, hc, Bool.or_true]
  | string cs => exact ⟨34, _, [], rfl, rfl⟩
  | array items => exact ⟨91, [], _, rfl, rfl⟩
  | object members => exact ⟨123, [], _, rfl, rfl⟩

theorem startsValue_visible {c : UInt8} (h : startsValue c) (t : Text) : Visible (c :: t) := by
  refine ⟨c, t, rfl, ?_⟩
  simp only [startsValue, isDigit, isWs, Bool.or_eq_true, Bool.and_eq_true, Bool.or_eq_false_iff, decide_eq_true_eq,
    decide_eq_false_iff_not, UInt8.le_iff_toNat_le, eq_iff_toNat, UInt8.reduceToNat] at h ⊢
  omega

/-- What a reader of values does, of the values of a kind. -/
structure Reads (P : Tree → Prop) (value : Text → Except JsonFault Text) : Prop where
  complete : ∀ {t s rest}, P t → Spaced t.tokens s rest → Stops rest → value s = .ok rest
  sound : ∀ {s rest}, value s = .ok rest → ∃ t, P t ∧ Spaced t.tokens s rest

variable {P : Tree → Prop} {value : Text → Except JsonFault Text}

theorem visible_mark {c : UInt8} (h : isWs c = false) : Visible [c] := ⟨c, [], rfl, h⟩

variable {items : List Tree} {keys : List Text}

theorem itemTokens_eq_cons (h : items ≠ []) :
    ∃ c text more, itemTokens items = (c :: text) :: more ∧ startsValue c := by
  obtain ⟨t, rest, rfl⟩ := List.exists_cons_of_ne_nil h
  obtain ⟨c, text, more, ht, hc⟩ := tokens_eq_cons t
  cases rest with
  | nil => exact ⟨c, text, more, ht, hc⟩
  | cons next rest => exact ⟨c, text, _, by rw [itemTokens, ht]; rfl, hc⟩

theorem parseElements_complete (hvalue : Reads P value) (hne : items ≠ [])
    (hitems : ∀ t ∈ items, P t) (hfuel : items.length ≤ fuel)
    (h : Spaced (itemTokens items ++ [[93]]) s rest) : parseElements value fuel s = .ok rest := by
  induction items generalizing fuel s with
  | nil => exact absurd rfl hne
  | cons t items ih =>
    obtain ⟨fuel, rfl⟩ := Nat.exists_eq_succ_of_ne_zero (Nat.ne_zero_of_lt hfuel)
    cases items with
    | nil =>
      obtain ⟨mid, ht, hclose⟩ := spaced_append.mp h
      obtain ⟨after, hskip, hafter⟩ := spaced_skipWS_eq hclose (visible_mark rfl)
      cases hafter
      rw [parseElements, hvalue.complete (hitems t List.mem_cons_self) ht (stops_of_spaced hclose rfl)]
      dsimp only [bind, Except.bind]
      rw [hskip]
      rfl
    | cons next items =>
      rw [itemTokens, List.append_assoc] at h
      obtain ⟨mid, ht, hsep⟩ := spaced_append.mp h
      obtain ⟨after, hskip, hafter⟩ := spaced_skipWS_eq hsep (visible_mark rfl)
      obtain ⟨c, text, more, hhead, hc⟩ := itemTokens_eq_cons (List.cons_ne_nil next items)
      have hnext : Spaced (itemTokens (next :: items) ++ [[93]]) (skipWS after) rest := by
        rw [hhead] at hafter ⊢
        exact spaced_skipWS hafter (startsValue_visible hc text)
      rw [parseElements, hvalue.complete (hitems t List.mem_cons_self) ht (stops_of_spaced hsep rfl)]
      dsimp only [bind, Except.bind]
      rw [hskip]
      exact ih (List.cons_ne_nil _ _) (fun t ht => hitems t (List.mem_cons_of_mem _ ht))
        (Nat.le_of_succ_le_succ hfuel) hnext

theorem parseElements_step (hvalue : Reads P value)
    (h : parseElements value (fuel + 1) s = .ok rest) :
    ∃ t mid, P t ∧ Spaced t.tokens s mid ∧
      ((∃ after, skipWS mid = 44 :: after ∧ parseElements value fuel (skipWS after) = .ok rest) ∨
        skipWS mid = 93 :: rest) := by
  rw [parseElements] at h
  cases hmid : value s with
  | error e => rw [hmid] at h; cases h
  | ok mid =>
    rw [hmid] at h
    dsimp only [bind, Except.bind] at h
    obtain ⟨t, ht, hspaced⟩ := hvalue.sound hmid
    refine ⟨t, mid, ht, hspaced, ?_⟩
    split at h
    · cases h
    next c after hskip =>
    split at h
    · next hc => exact .inl ⟨after, by rw [hskip, hc], h⟩
    split at h
    · next hc =>
      cases h
      exact .inr (by rw [hskip, hc])
    · cases h

theorem parseElements_sound (hvalue : Reads P value)
    (h : parseElements value fuel s = .ok rest) :
    ∃ items, items ≠ [] ∧ (∀ t ∈ items, P t) ∧ Spaced (itemTokens items ++ [[93]]) s rest := by
  induction fuel generalizing s with
  | zero => cases h
  | succ fuel ih =>
    obtain ⟨t, mid, ht, hspaced, ⟨after, hskip, h⟩ | hskip⟩ := parseElements_step hvalue h
    · obtain ⟨items, hne, hitems, hafter⟩ := ih h
      obtain ⟨next, items, rfl⟩ := List.exists_cons_of_ne_nil hne
      obtain ⟨b, text, more, hhead, -⟩ := itemTokens_eq_cons hne
      have hnext : Spaced (itemTokens (next :: items) ++ [[93]]) after rest := by
        rw [hhead] at hafter ⊢
        exact spaced_of_skipWS hafter
      refine ⟨t :: next :: items, List.cons_ne_nil _ _, List.forall_mem_cons.mpr ⟨ht, hitems⟩, ?_⟩
      rw [itemTokens, List.append_assoc]
      exact spaced_append.mpr ⟨mid, hspaced, spaced_token hskip hnext⟩
    · exact ⟨[t], List.cons_ne_nil _ _, List.forall_mem_singleton.mpr ht,
        spaced_append.mpr ⟨mid, hspaced, spaced_token hskip rfl⟩⟩

theorem visible_stringText (cs : List StringChar) : Visible (stringText cs) :=
  ⟨34, bodyText cs ++ [34], rfl, rfl⟩

theorem spaced_skipWS_tokens :
    Spaced t.tokens (skipWS s) rest ↔ Spaced t.tokens s rest := by
  obtain ⟨c, text, more, ht, hc⟩ := tokens_eq_cons t
  rw [ht]
  exact ⟨spaced_of_skipWS, fun h => spaced_skipWS h (startsValue_visible hc text)⟩

theorem member_complete (hvalue : Reads P value) {name : List StringChar} (ht : P t)
    (hstops : ∀ mid, Spaced tokens mid rest → Stops mid)
    (h : Spaced (stringText name :: [58] :: t.tokens ++ tokens) s rest) :
    ∃ afterName afterColon mid, parseString true (skipWS s) = .ok (nameBytes (name.map StringChar.char), afterName) ∧
      skipWS afterName = 58 :: afterColon ∧ value (skipWS afterColon) = .ok mid ∧ Spaced tokens mid rest := by
  obtain ⟨afterName, hname, h⟩ := spaced_skipWS_eq h (visible_stringText name)
  obtain ⟨afterColon, hcolon, h⟩ := spaced_skipWS_eq h (visible_mark rfl)
  obtain ⟨mid, hspaced, htokens⟩ := spaced_append.mp h
  refine ⟨afterName, afterColon, mid, ?_, hcolon, ?_, htokens⟩
  · rw [hname, parseString_text]
    rfl
  · exact hvalue.complete ht (spaced_skipWS_tokens.mpr hspaced) (hstops mid htokens)

theorem member_sound (hvalue : Reads P value) {s key afterName afterColon mid : Text}
    (hname : parseString true (skipWS s) = .ok (key, afterName)) (hcolon : skipWS afterName = 58 :: afterColon)
    (hmid : value (skipWS afterColon) = .ok mid) :
    ∃ m : Member, P m.2 ∧ key = nameBytes m.name ∧
      ∀ {tokens rest}, Spaced tokens mid rest → Spaced (stringText m.1 :: [58] :: m.2.tokens ++ tokens) s rest := by
  obtain ⟨name, hskip, hkey⟩ := parseString_sound hname
  obtain ⟨t, ht, hspaced⟩ := hvalue.sound hmid
  refine ⟨(name, t), ht, hkey, fun htokens => ?_⟩
  have hvalueTokens := spaced_append.mpr ⟨mid, spaced_skipWS_tokens.mp hspaced, htokens⟩
  exact spaced_token hskip (spaced_token hcolon hvalueTokens)

/-- The names of members as the parser compares them. -/
def memberKeys (ms : List Member) : List Text := ms.map fun m => nameBytes m.name

theorem nodup_memberKeys : (memberKeys ms).Nodup ↔ (ms.map Member.name).Nodup := by
  have hmap : memberKeys ms = (ms.map Member.name).map nameBytes := (List.map_map).symm
  rw [hmap]
  exact List.nodup_map_iff nameBytes_injective

theorem parseMembers_complete (hvalue : Reads P value) (hne : ms ≠ []) (hms : ∀ m ∈ ms, P m.2)
    (hfuel : ms.length ≤ fuel) (hcount : keys.length + ms.length ≤ jsonMaxObjectMembers)
    (hnodup : (keys ++ memberKeys ms).Nodup) (h : Spaced (memberTokens ms ++ [[125]]) s rest) :
    parseMembers value fuel keys s = .ok rest := by
  induction ms generalizing fuel keys s with
  | nil => exact absurd rfl hne
  | cons m ms ih =>
    obtain ⟨name, t⟩ := m
    obtain ⟨fuel, rfl⟩ := Nat.exists_eq_succ_of_ne_zero (Nat.ne_zero_of_lt hfuel)
    have hroom : ¬jsonMaxObjectMembers ≤ keys.length := by
      rw [List.length_cons] at hcount
      omega
    cases ms with
    | nil =>
      obtain ⟨afterName, afterColon, mid, hname, hcolon, hmid, hclose⟩ :=
        member_complete hvalue (hms _ List.mem_cons_self) (fun _ hmid => stops_of_spaced hmid rfl) h
      obtain ⟨after, hskip, hafter⟩ := spaced_skipWS_eq hclose (visible_mark rfl)
      cases hafter
      have hunique : keysUnique (keys ++ [nameBytes (name.map StringChar.char)]) = true := keysUnique_iff.mpr hnodup
      rw [parseMembers, hname]
      dsimp only [bind, Except.bind]
      rw [if_neg hroom, hcolon]
      dsimp only
      rw [hmid]
      dsimp only
      rw [hskip]
      exact if_pos hunique
    | cons next ms =>
      rw [memberTokens, List.append_assoc] at h
      obtain ⟨afterName, afterColon, mid, hname, hcolon, hmid, hsep⟩ :=
        member_complete hvalue (hms _ List.mem_cons_self) (fun _ hmid => stops_of_spaced hmid rfl) h
      obtain ⟨after, hskip, hafter⟩ := spaced_skipWS_eq hsep (visible_mark rfl)
      rw [parseMembers, hname]
      dsimp only [bind, Except.bind]
      rw [if_neg hroom, hcolon]
      dsimp only
      rw [hmid]
      dsimp only
      rw [hskip]
      refine ih (List.cons_ne_nil _ _) (fun m hm => hms m (List.mem_cons_of_mem _ hm))
        (Nat.le_of_succ_le_succ hfuel) ?_ ?_ hafter
      · rw [List.length_append, List.length_singleton]
        rw [List.length_cons] at hcount
        omega
      · rw [List.append_assoc]
        exact hnodup

theorem parseMembers_step (hvalue : Reads P value)
    (h : parseMembers value (fuel + 1) keys s = .ok rest) :
    ∃ (m : Member) (mid : Text), P m.2 ∧ keys.length < jsonMaxObjectMembers ∧
      (∀ {tokens rest}, Spaced tokens mid rest → Spaced (stringText m.1 :: [58] :: m.2.tokens ++ tokens) s rest) ∧
      ((∃ after, skipWS mid = 44 :: after ∧ parseMembers value fuel (keys ++ [nameBytes m.name]) after = .ok rest) ∨
        skipWS mid = 125 :: rest ∧ (keys ++ [nameBytes m.name]).Nodup) := by
  rw [parseMembers] at h
  cases hname : parseString true (skipWS s) with
  | error e => rw [hname] at h; cases h
  | ok p =>
    rw [hname] at h
    dsimp only [bind, Except.bind] at h
    split at h
    · cases h
    next hroom =>
    split at h
    · cases h
    next colon afterColon hcolon =>
    split at h
    swap
    · cases h
    next hc =>
    rw [hc] at hcolon
    split at h
    · cases h
    next mid hmid =>
    obtain ⟨m, hm, hkey, hspaced⟩ := member_sound hvalue hname hcolon hmid
    rw [hkey] at h
    refine ⟨m, mid, hm, Nat.lt_of_not_le hroom, hspaced, ?_⟩
    split at h
    · cases h
    next c after hskip =>
    split at h
    · next hc => exact .inl ⟨after, by rw [hskip, hc], h⟩
    split at h
    swap
    · cases h
    next hc =>
    split at h
    · next hunique =>
      cases h
      exact .inr ⟨by rw [hskip, hc], keysUnique_iff.mp hunique⟩
    · cases h

theorem parseMembers_sound (hvalue : Reads P value)
    (h : parseMembers value fuel keys s = .ok rest) :
    ∃ ms, ms ≠ [] ∧ (∀ m ∈ ms, P m.2) ∧ keys.length + ms.length ≤ jsonMaxObjectMembers ∧
      (keys ++ memberKeys ms).Nodup ∧ Spaced (memberTokens ms ++ [[125]]) s rest := by
  induction fuel generalizing keys s with
  | zero => cases h
  | succ fuel ih =>
    obtain ⟨m, mid, hm, hroom, hspaced, ⟨after, hskip, h⟩ | ⟨hskip, hunique⟩⟩ := parseMembers_step hvalue h
    · obtain ⟨ms, hne, hms, hcount, hnodup, hafter⟩ := ih h
      obtain ⟨next, ms, rfl⟩ := List.exists_cons_of_ne_nil hne
      refine ⟨m :: next :: ms, List.cons_ne_nil _ _, List.forall_mem_cons.mpr ⟨hm, hms⟩, ?_, ?_, ?_⟩
      · rw [List.length_append, List.length_singleton] at hcount
        rw [List.length_cons]
        omega
      · rw [List.append_assoc] at hnodup
        exact hnodup
      · rw [memberTokens, List.append_assoc]
        exact hspaced (spaced_token hskip hafter)
    · exact ⟨[m], List.cons_ne_nil _ _, List.forall_mem_singleton.mpr hm, hroom, hunique,
        hspaced (spaced_token hskip rfl)⟩

/-! ## Values -/

theorem length_tokens_pos (t : Tree) : 0 < t.tokens.flatten.length := by
  obtain ⟨c, text, more, ht, -⟩ := tokens_eq_cons t
  rw [ht]
  exact Nat.succ_pos _

/-- There are no more elements than bytes. -/
theorem length_le_itemTokens (items : List Tree) : items.length ≤ (itemTokens items).flatten.length := by
  induction items with
  | nil => exact Nat.zero_le _
  | cons t items ih =>
    have ht := length_tokens_pos t
    cases items with
    | nil => exact ht
    | cons next items =>
      rw [itemTokens, List.flatten_append, List.length_append, List.flatten_cons, List.length_append]
      rw [List.length_cons]
      omega

theorem length_le_memberTokens (ms : List Member) : ms.length ≤ (memberTokens ms).flatten.length := by
  induction ms with
  | nil => exact Nat.zero_le _
  | cons m ms ih =>
    cases ms with
    | nil => exact Nat.succ_le_of_lt (Nat.lt_of_lt_of_le (Nat.succ_pos _) (Nat.le_refl _))
    | cons next ms =>
      rw [memberTokens, List.cons_append, List.cons_append, List.flatten_cons, List.flatten_cons,
        List.flatten_append, List.flatten_cons]
      simp only [List.length_append, List.length_cons, List.length_nil] at ih ⊢
      omega

theorem length_le_spaced {mark s rest : Text} {n : ℕ} (hn : n ≤ tokens.flatten.length)
    (h : Spaced (tokens ++ [mark]) s rest) : n ≤ s.length := by
  have hlength := h.length_le
  rw [List.flatten_append, List.length_append] at hlength
  omega

theorem parseArray_complete (hvalue : Reads P value) (hitems : ∀ t ∈ items, P t)
    (h : Spaced (itemTokens items ++ [[93]]) s rest) : parseArray value s = .ok rest := by
  cases items with
  | nil =>
    obtain ⟨after, hskip, hafter⟩ := spaced_skipWS_eq h (visible_mark rfl)
    cases hafter
    rw [parseArray, hskip]
    rfl
  | cons t items =>
    have hne := List.cons_ne_nil t items
    obtain ⟨c, text, more, hhead, hc⟩ := itemTokens_eq_cons hne
    have hskip : Spaced (itemTokens (t :: items) ++ [[93]]) (skipWS s) rest := by
      rw [hhead] at h ⊢
      exact spaced_skipWS h (startsValue_visible hc text)
    have hopen : (skipWS s).head? ≠ some 93 := by
      rw [hhead] at h
      obtain ⟨after, hs, -⟩ := spaced_skipWS_eq h (startsValue_visible hc text)
      rw [hs]
      intro h93
      obtain rfl : c = 93 := Option.some.inj h93
      exact absurd hc (by decide)
    have hfuel := length_le_spaced (length_le_itemTokens _) hskip
    rw [parseArray, if_neg hopen]
    exact parseElements_complete hvalue hne hitems (Nat.le_succ_of_le hfuel) hskip

theorem parseArray_sound (hvalue : Reads P value) (h : parseArray value s = .ok rest) :
    ∃ items, (∀ t ∈ items, P t) ∧ Spaced (itemTokens items ++ [[93]]) s rest := by
  rw [parseArray] at h
  split at h
  · next hclose =>
    obtain ⟨after, hskip⟩ := List.head?_eq_some_iff.mp hclose
    rw [hskip] at h
    cases h
    have hspaced : Spaced [[93]] s after := spaced_singleton hskip
    exact ⟨[], List.forall_mem_nil _, hspaced⟩
  · obtain ⟨items, hne, hitems, hspaced⟩ := parseElements_sound hvalue h
    obtain ⟨c, text, more, hhead, -⟩ := itemTokens_eq_cons hne
    refine ⟨items, hitems, ?_⟩
    rw [hhead] at hspaced ⊢
    exact spaced_of_skipWS hspaced

theorem memberTokens_eq_cons (h : ms ≠ []) :
    ∃ name more, memberTokens ms = stringText name :: more := by
  obtain ⟨⟨name, t⟩, rest, rfl⟩ := List.exists_cons_of_ne_nil h
  cases rest with
  | nil => exact ⟨name, _, rfl⟩
  | cons next rest => exact ⟨name, _, rfl⟩

theorem parseObject_complete (hvalue : Reads P value) (hms : ∀ m ∈ ms, P m.2)
    (hcount : ms.length ≤ jsonMaxObjectMembers) (hnodup : (ms.map Member.name).Nodup)
    (h : Spaced (memberTokens ms ++ [[125]]) s rest) : parseObject value s = .ok rest := by
  cases ms with
  | nil =>
    obtain ⟨after, hskip, hafter⟩ := spaced_skipWS_eq h (visible_mark rfl)
    cases hafter
    rw [parseObject, hskip]
    rfl
  | cons m ms =>
    have hne := List.cons_ne_nil m ms
    obtain ⟨name, more, hhead⟩ := memberTokens_eq_cons hne
    have hskip : Spaced (memberTokens (m :: ms) ++ [[125]]) (skipWS s) rest := by
      rw [hhead] at h ⊢
      exact spaced_skipWS h (visible_stringText name)
    have hopen : (skipWS s).head? ≠ some 125 := by
      rw [hhead] at h
      obtain ⟨after, hs, -⟩ := spaced_skipWS_eq h (visible_stringText name)
      rw [hs]
      exact fun h125 => absurd (Option.some.inj h125) (by decide)
    have hfuel := length_le_spaced (length_le_memberTokens _) hskip
    rw [parseObject, if_neg hopen]
    refine parseMembers_complete hvalue hne hms (Nat.le_succ_of_le hfuel) ?_ (nodup_memberKeys.mpr hnodup) hskip
    rw [List.length_nil, Nat.zero_add]
    exact hcount

theorem parseObject_sound (hvalue : Reads P value) (h : parseObject value s = .ok rest) :
    ∃ ms : List Member, (∀ m ∈ ms, P m.2) ∧ ms.length ≤ jsonMaxObjectMembers ∧ (ms.map Member.name).Nodup ∧
      Spaced (memberTokens ms ++ [[125]]) s rest := by
  rw [parseObject] at h
  split at h
  · next hclose =>
    obtain ⟨after, hskip⟩ := List.head?_eq_some_iff.mp hclose
    rw [hskip] at h
    cases h
    have hspaced : Spaced [[125]] s after := spaced_singleton hskip
    exact ⟨[], List.forall_mem_nil _, Nat.zero_le _, List.nodup_nil, hspaced⟩
  · obtain ⟨ms, hne, hms, hcount, hnodup, hspaced⟩ := parseMembers_sound hvalue h
    obtain ⟨name, more, hhead⟩ := memberTokens_eq_cons hne
    rw [List.length_nil, Nat.zero_add] at hcount
    refine ⟨ms, hms, hcount, nodup_memberKeys.mp hnodup, ?_⟩
    rw [hhead] at hspaced ⊢
    exact spaced_of_skipWS hspaced

theorem skipWS_of_spaced {token s rest : Text} (h : Spaced [token] s rest) (hvisible : Visible token) :
    skipWS s = token ++ rest := by
  obtain ⟨after, hskip, hafter⟩ := spaced_skipWS_eq h hvisible
  cases hafter
  exact hskip

/-- A scalar is within the limits wherever a value may stand. -/
theorem within_scalar {levels members : ℕ} (hnesting : t.nesting = 0) (hobjects : t.objects = []) :
    t.Within (levels + 1) members where
  nesting := hnesting ▸ Nat.succ_pos _
  members := by
    rw [hobjects]
    exact fun o ho => nomatch ho
  names := by
    rw [hobjects]
    exact fun o ho => nomatch ho

theorem parseValue_number {s : Text} {n : Number} {rest : Text} (hskip : skipWS s = n.text ++ rest)
    (hrest : Stops rest) : parseValue (levels + 1) s = .ok rest := by
  have hnumber := parseNumber_text n hrest
  obtain ⟨c, text, htext, hc⟩ := Number.text_eq_cons n
  have hne : ∀ b, b ≠ 45 → isDigit b = false → c ≠ b := by
    rintro b hminus hdigit rfl
    rcases hc with rfl | hc
    · exact hminus rfl
    · exact absurd (hc.symm.trans hdigit) (by decide)
  rw [htext, List.cons_append] at hskip hnumber
  rw [parseValue, hskip]
  dsimp only
  rw [if_neg (hne 123 (by decide) rfl), if_neg (hne 91 (by decide) rfl), if_neg (hne 34 (by decide) rfl),
    if_neg (hne 116 (by decide) rfl), if_neg (hne 102 (by decide) rfl), if_neg (hne 110 (by decide) rfl), hnumber]

theorem parseValue_complete (hvalue : Reads (Within levels jsonMaxObjectMembers) (parseValue levels))
    (ht : t.Within (levels + 1) jsonMaxObjectMembers) (h : Spaced t.tokens s rest)
    (hrest : Stops rest) : parseValue (levels + 1) s = .ok rest := by
  cases t with
  | word w =>
    cases w
    · have hskip := skipWS_of_spaced h ⟨116, _, rfl, rfl⟩
      rw [parseValue, hskip]
      exact lit_append "true" rest
    · have hskip := skipWS_of_spaced h ⟨102, _, rfl, rfl⟩
      rw [parseValue, hskip]
      exact lit_append "false" rest
    · have hskip := skipWS_of_spaced h ⟨110, _, rfl, rfl⟩
      rw [parseValue, hskip]
      exact lit_append "null" rest
  | number n =>
    obtain ⟨c, text, more, htext, hc⟩ := tokens_eq_cons (.number n)
    have hvisible : Visible n.text := by
      rw [(List.cons.inj htext).1]
      exact startsValue_visible hc _
    exact parseValue_number (skipWS_of_spaced h hvisible) hrest
  | string cs =>
    have hskip := skipWS_of_spaced h (visible_stringText cs)
    rw [parseValue, hskip]
    exact congrArg (Except.map (·.2)) (parseString_text cs rest)
  | array items =>
    obtain ⟨after, hskip, hafter⟩ := spaced_skipWS_eq h (visible_mark rfl)
    rw [parseValue, hskip]
    exact parseArray_complete hvalue (within_array.mp ht) hafter
  | object ms =>
    obtain ⟨hcount, hnodup, hms⟩ := within_object.mp ht
    obtain ⟨after, hskip, hafter⟩ := spaced_skipWS_eq h (visible_mark rfl)
    rw [parseValue, hskip]
    exact parseObject_complete hvalue hms hcount hnodup hafter

theorem lit_spaced {word : String} {w : Word} (hword : utf8 word = w.text) {s t rest : Text}
    (hskip : skipWS s = t) (h : lit word t = .ok rest) :
    ∃ t : Tree, t.Within (levels + 1) jsonMaxObjectMembers ∧ Spaced t.tokens s rest := by
  refine ⟨.word w, within_scalar rfl rfl, spaced_singleton ?_⟩
  rw [hskip, lit_sound h, hword]

theorem parseValue_sound (hvalue : Reads (Within levels jsonMaxObjectMembers) (parseValue levels))
    (h : parseValue (levels + 1) s = .ok rest) :
    ∃ t : Tree, t.Within (levels + 1) jsonMaxObjectMembers ∧ Spaced t.tokens s rest := by
  rw [parseValue] at h
  split at h
  · cases h
  next c after hskip =>
  split at h
  · next hc =>
    obtain ⟨ms, hms, hcount, hnodup, hspaced⟩ := parseObject_sound hvalue h
    rw [hc] at hskip
    exact ⟨.object ms, within_object.mpr ⟨hcount, hnodup, hms⟩, spaced_token hskip hspaced⟩
  split at h
  · next hc =>
    obtain ⟨items, hitems, hspaced⟩ := parseArray_sound hvalue h
    rw [hc] at hskip
    exact ⟨.array items, within_array.mpr hitems, spaced_token hskip hspaced⟩
  split at h
  · next hc =>
    cases hstring : parseString false (c :: after) with
    | error e => rw [hstring] at h; cases h
    | ok p =>
      rw [hstring] at h
      cases h
      obtain ⟨cs, hcs, -⟩ := parseString_sound hstring
      exact ⟨.string cs, within_scalar rfl rfl, spaced_singleton (hskip.trans hcs)⟩
  split at h
  · exact lit_spaced (w := .true) (by decide) hskip h
  split at h
  · exact lit_spaced (w := .false) (by decide) hskip h
  split at h
  · exact lit_spaced (w := .null) (by decide) hskip h
  · obtain ⟨n, hn⟩ := parseNumber_sound h
    exact ⟨.number n, within_scalar rfl rfl, spaced_singleton (hskip.trans hn)⟩

theorem parseValue_reads (levels : ℕ) : Reads (Within levels jsonMaxObjectMembers) (parseValue levels) := by
  induction levels with
  | zero => exact ⟨fun ht => absurd ht.nesting (Nat.not_lt_zero _), fun h => nomatch h⟩
  | succ levels ih => exact ⟨fun ht h hrest => parseValue_complete ih ht h hrest, parseValue_sound ih⟩

/-! ## Compaction -/

/-- A text within the limits that spells a value within the limits. -/
structure Accepts (t : Tree) (s : Text) : Prop where
  length : s.length ≤ jsonMaxInput
  spells : Spells t s
  within : t.Within jsonMaxDepth jsonMaxObjectMembers

theorem skipWS_ws (h : ws.all isWs) : skipWS ws = [] := by
  have happend := skipWS_append h []
  rwa [List.append_nil] at happend

theorem stops_ws (h : ws.all isWs) : Stops ws := by
  have hspaced : Spaced [[44]] (ws ++ [44]) [] := ⟨ws, [], h, rfl, rfl⟩
  intro c hc
  exact stops_of_spaced hspaced rfl c
    (List.head?_append_of_ne_nil _ (List.ne_nil_of_mem (List.mem_of_mem_head? hc)) ▸ hc)

theorem Accepts.ne_nil {s : Text} (h : Accepts t s) : s ≠ [] := by
  rintro rfl
  exact absurd (h.spells.length_le) (Nat.not_le_of_lt (length_tokens_pos t))

/-- The copy of an accepted text is what is left to judge. -/
theorem jsonCompact_of_accepts {s : Text} (h : Accepts t s) :
    jsonCompact s = if t.tokens.flatten.length < s.length then .ok t.tokens.flatten else .notShorter := by
  obtain ⟨ws, hws, hspaced⟩ := h.spells
  have hread := (parseValue_reads jsonMaxDepth).complete h.within hspaced (stops_ws hws)
  rw [jsonCompact, if_neg h.ne_nil, if_neg (Nat.not_lt.mpr h.length), hread]
  dsimp only
  rw [if_neg (not_not.mpr (skipWS_ws hws)), copy_spells h.spells]
  by_cases hshorter : t.tokens.flatten.length < s.length
  · rw [if_pos hshorter, if_neg (Nat.not_le_of_lt hshorter)]
  · rw [if_neg hshorter, if_pos (Nat.le_of_not_lt hshorter)]

theorem accepts_of_jsonCompact {s : Text} (h : ∀ fault, jsonCompact s ≠ .refused fault) : ∃ t, Accepts t s := by
  rw [jsonCompact] at h
  split at h
  · exact absurd rfl (h _)
  split at h
  · exact absurd rfl (h _)
  next hlarge =>
  split at h
  · exact absurd rfl (h _)
  next rest hread =>
  split at h
  · exact absurd rfl (h _)
  next hend =>
  obtain ⟨t, hwithin, hspaced⟩ := (parseValue_reads jsonMaxDepth).sound hread
  obtain ⟨ws, hrest, hws⟩ := exists_ws rest
  rw [not_not.mp hend, List.append_nil] at hrest
  exact ⟨t, Nat.le_of_not_lt hlarge, ⟨rest, hrest ▸ hws, hspaced⟩, hwithin⟩

theorem Accepts.flatten {s : Text} (h : Accepts t s) : Accepts t t.tokens.flatten where
  length := le_trans h.spells.length_le h.length
  spells := spells_flatten t
  within := h.within

/-- `JSONCompact` refuses exactly what is no JSON text within the limits. From any other it takes the
    white space between the tokens, which leaves a text of the same value; where there is none to
    take, as in its own output, it says so. -/
theorem jsonCompact_tokens (input : Text) :
    ((∀ fault, jsonCompact input ≠ .refused fault) ↔ ∃ t, Accepts t input) ∧
      ∀ t, Accepts t input →
        jsonCompact input =
            (if t.tokens.flatten.length < input.length then .ok t.tokens.flatten else .notShorter) ∧
          Spells t t.tokens.flatten ∧ jsonCompact t.tokens.flatten = .notShorter := by
  refine ⟨⟨accepts_of_jsonCompact, ?_⟩, fun t h => ⟨jsonCompact_of_accepts h, spells_flatten t, ?_⟩⟩
  · rintro ⟨t, h⟩ fault hrefused
    rw [jsonCompact_of_accepts h] at hrefused
    split at hrefused <;> cases hrefused
  · rw [jsonCompact_of_accepts h.flatten, if_neg (Nat.lt_irrefl _)]

theorem jsonCompact_tokens_object :
    jsonCompact (utf8 "\x7b \"a\\\"\": [true, \"\\u0041\" ]\x7d") =
      .ok (utf8 "\x7b\"a\\\"\":[true,\"\\u0041\"]\x7d") := by
  have haccepts : Accepts (.object [([.plain 'a' (by decide), .short 34 '"' rfl],
      .array [.word .true, .string [.unicode ⟨48, 48, 52, 49, by decide⟩ 'A' (by decide)]])])
      (utf8 "\x7b \"a\\\"\": [true, \"\\u0041\" ]\x7d") := by
    refine ⟨by decide, ⟨[], rfl, ?_⟩, ?_⟩
    · exact ⟨[], utf8 " \"a\\\"\": [true, \"\\u0041\" ]\x7d", rfl, rfl, [32],
        utf8 ": [true, \"\\u0041\" ]\x7d", rfl, rfl,
        [], utf8 " [true, \"\\u0041\" ]\x7d", rfl, rfl, [32], utf8 "true, \"\\u0041\" ]\x7d", rfl, rfl,
        [], utf8 ", \"\\u0041\" ]\x7d", rfl, rfl, [], utf8 " \"\\u0041\" ]\x7d", rfl, rfl,
        [32], utf8 " ]\x7d", rfl, rfl, [32], utf8 "\x7d", rfl, rfl, [], [], rfl, rfl, rfl⟩
    · refine within_object.mpr ⟨by decide, List.nodup_singleton _, List.forall_mem_singleton.mpr ?_⟩
      exact within_array.mpr (List.forall_mem_cons.mpr
        ⟨within_scalar rfl rfl, List.forall_mem_singleton.mpr (within_scalar rfl rfl)⟩)
  exact ((jsonCompact_tokens _).2 _ haccepts).1

end Economizer
