-- SUMMARY: The lexical half of the strict validator: what it reads as a character, a string, a number and a word.
import Aimee.Economizer.JsonCompact
import Aimee.Lib.JsonGrammar
import Aimee.Lib.Utf8Table

/-!
# Tokens of the validator

For each reader of the parser, that it reads every spelling of the grammar and nothing else. A
number goes as far as it can, so what follows it must not continue it.
-/

namespace Economizer.JsonParser

open JsonGrammar Utf8Table

/-! ## UTF-8 -/

variable {b : UInt8} {a : UInt8} {lo hi : ℕ} {n : ℕ} {v : ℕ} {s rest : Text} {c : Char} {e : UInt8} {fuel : ℕ}

theorem and_eq_continuation : b &&& 0xC0 = 0x80 ↔ IsTail b := by
  have htable : ∀ n < 256, (UInt8.ofNat n &&& 0xC0 = 0x80 ↔ 0x80 ≤ n ∧ n ≤ 0xBF) := by decide +kernel
  have h := htable b.toNat b.toNat_lt
  rwa [UInt8.ofNat_toNat] at h

theorem cont_succ (a : UInt8) (s : Text) (i : ℕ) : cont (a :: s) (i + 1) = cont s i := rfl

theorem cont_zero {s : Text} : cont s 0 ↔ ∃ b rest, s = b :: rest ∧ IsTail b := by
  cases s <;> simp [cont, and_eq_continuation]

theorem inRange_zero {s : Text} {lo hi : UInt8} :
    inRange s 0 lo hi ↔ ∃ b rest, s = b :: rest ∧ lo.toNat ≤ b.toNat ∧ b.toNat ≤ hi.toNat := by
  cases s <;> simp [inRange, UInt8.le_iff_toNat_le]

theorem inRange_succ (a : UInt8) (s : Text) (i : ℕ) (lo hi : UInt8) :
    inRange (a :: s) (i + 1) lo hi = inRange s i lo hi := by
  rw [inRange, List.getElem?_cons_succ, inRange]

theorem eq_iff_toNat {a b : UInt8} : a = b ↔ a.toNat = b.toNat := UInt8.toNat_inj.symm

theorem cont_tail (s : Text) (h : IsTail b) : cont (b :: s) 0 = true := cont_zero.mpr ⟨b, s, rfl, h⟩

theorem inRange_head {b lo hi : UInt8} (s : Text) :
    inRange (b :: s) 0 lo hi = true ↔ lo.toNat ≤ b.toNat ∧ b.toNat ≤ hi.toNat := by
  rw [inRange_zero]
  exact ⟨fun ⟨_, _, h, hrange⟩ => by cases h; exact hrange, fun h => ⟨b, s, rfl, h⟩⟩

theorem utf8Sequence_cons (a : UInt8) (s : Text) :
    utf8Sequence (a :: s) =
      if a.toNat < 0x80 then some 1
      else if 0xC2 ≤ a.toNat ∧ a.toNat ≤ 0xDF ∧ cont s 0 then some 2
      else if a.toNat = 0xE0 ∧ inRange s 0 0xA0 0xBF ∧ cont s 1 then some 3
      else if 0xE1 ≤ a.toNat ∧ a.toNat ≤ 0xEC ∧ cont s 0 ∧ cont s 1 then some 3
      else if a.toNat = 0xED ∧ inRange s 0 0x80 0x9F ∧ cont s 1 then some 3
      else if 0xEE ≤ a.toNat ∧ a.toNat ≤ 0xEF ∧ cont s 0 ∧ cont s 1 then some 3
      else if a.toNat = 0xF0 ∧ inRange s 0 0x90 0xBF ∧ cont s 1 ∧ cont s 2 then some 4
      else if 0xF1 ≤ a.toNat ∧ a.toNat ≤ 0xF3 ∧ cont s 0 ∧ cont s 1 ∧ cont s 2 then some 4
      else if a.toNat = 0xF4 ∧ inRange s 0 0x80 0x8F ∧ cont s 1 ∧ cont s 2 then some 4
      else none := by
  simp only [utf8Sequence, UInt8.lt_iff_toNat_lt, UInt8.le_iff_toNat_le, eq_iff_toNat, cont_succ,
    inRange_succ, UInt8.reduceToNat]

theorem utf8Sequence_append {seq : Text} (h : Utf8Char seq) (rest : Text) :
    utf8Sequence (seq ++ rest) = some seq.length := by
  cases h with
  | @one a ha => rw [List.singleton_append, utf8Sequence_cons, if_pos ha]; rfl
  | @two a b ha hb =>
    rw [List.cons_append, List.singleton_append, utf8Sequence_cons, cont_tail rest hb]
    simp only [and_true]
    rw [if_neg (by omega), if_pos ha]
    rfl
  | @three a b c ha hb hc hlo hhi =>
    rw [List.cons_append, List.cons_append, List.singleton_append, utf8Sequence_cons, cont_succ, cont_tail _ hb,
      cont_tail rest hc]
    rw [IsTail] at hb
    simp only [inRange_head, UInt8.reduceToNat, and_true, List.length_cons, List.length_nil]
    rw [if_neg (by omega), if_neg (by omega)]
    rcases show a.toNat = 0xE0 ∨ a.toNat ≠ 0xE0 ∧ a.toNat ≤ 0xEC ∨ a.toNat = 0xED ∨ 0xEE ≤ a.toNat by omega
      with hE0 | hEC | hED | hEF
    · rw [if_pos (by omega)]
    · rw [if_neg (by omega), if_pos (by omega)]
    · rw [if_neg (by omega), if_neg (by omega), if_pos (by omega)]
    · rw [if_neg (by omega), if_neg (by omega), if_neg (by omega), if_pos (by omega)]
  | @four a b c d ha hb hc hd hlo hhi =>
    rw [List.cons_append, List.cons_append, List.cons_append, List.singleton_append, utf8Sequence_cons, cont_succ,
      cont_succ, cont_succ, cont_tail _ hb, cont_tail _ hc, cont_tail rest hd]
    rw [IsTail] at hb
    simp only [inRange_head, UInt8.reduceToNat, and_true, List.length_cons, List.length_nil]
    rw [if_neg (by omega), if_neg (by omega), if_neg (by omega), if_neg (by omega), if_neg (by omega),
      if_neg (by omega)]
    rcases show a.toNat = 0xF0 ∨ a.toNat ≠ 0xF0 ∧ a.toNat ≤ 0xF3 ∨ a.toNat = 0xF4 by omega with hF0 | hF3 | hF4
    · rw [if_pos (by omega)]
    · rw [if_neg (by omega), if_pos (by omega)]
    · rw [if_neg (by omega), if_neg (by omega), if_pos (by omega)]

theorem three_of_tails {s : Text} (ha : 0xE0 ≤ a.toNat ∧ a.toNat ≤ 0xEF)
    (hb : ∃ b rest, s = b :: rest ∧ lo ≤ b.toNat ∧ b.toNat ≤ hi) (hlo : 0x80 ≤ lo) (hhi : hi ≤ 0xBF)
    (hE0 : a.toNat = 0xE0 → 0xA0 ≤ lo) (hED : a.toNat = 0xED → hi ≤ 0x9F) (hc : cont s 1) :
    ∃ seq rest, a :: s = seq ++ rest ∧ Utf8Char seq ∧ seq.length = 3 := by
  obtain ⟨b, _, rfl, hb⟩ := hb
  rw [cont_succ, cont_zero] at hc
  obtain ⟨c, rest, rfl, hc⟩ := hc
  exact ⟨[a, b, c], rest, rfl, .three ha ⟨by omega, by omega⟩ hc (by omega) (by omega), rfl⟩

theorem four_of_tails {s : Text} (ha : 0xF0 ≤ a.toNat ∧ a.toNat ≤ 0xF4)
    (hb : ∃ b rest, s = b :: rest ∧ lo ≤ b.toNat ∧ b.toNat ≤ hi) (hlo : 0x80 ≤ lo) (hhi : hi ≤ 0xBF)
    (hF0 : a.toNat = 0xF0 → 0x90 ≤ lo) (hF4 : a.toNat = 0xF4 → hi ≤ 0x8F) (hc : cont s 1) (hd : cont s 2) :
    ∃ seq rest, a :: s = seq ++ rest ∧ Utf8Char seq ∧ seq.length = 4 := by
  obtain ⟨b, _, rfl, hb⟩ := hb
  rw [cont_succ, cont_zero] at hc
  obtain ⟨c, _, rfl, hc⟩ := hc
  rw [cont_succ, cont_succ, cont_zero] at hd
  obtain ⟨d, rest, rfl, hd⟩ := hd
  exact ⟨[a, b, c, d], rest, rfl, .four ha ⟨by omega, by omega⟩ hc hd (by omega) (by omega), rfl⟩

theorem utf8Sequence_sound {s : Text} (h : utf8Sequence s = some n) :
    ∃ seq rest, s = seq ++ rest ∧ Utf8Char seq ∧ seq.length = n := by
  cases s with
  | nil => cases h
  | cons a s =>
    rw [utf8Sequence_cons] at h
    repeat' split at h
    all_goals cases h
    · next h₁ =>
      exact ⟨[a], s, rfl, .one h₁, rfl⟩
    · next h₂ =>
      obtain ⟨b, rest, rfl, hb⟩ := cont_zero.mp h₂.2.2
      exact ⟨[a, b], rest, rfl, .two ⟨h₂.1, h₂.2.1⟩ hb, rfl⟩
    · next h₃ =>
      exact three_of_tails (by omega) (inRange_zero.mp h₃.2.1) (by decide) (by decide) (fun _ => by decide)
        (by omega) h₃.2.2
    · next h₄ =>
      exact three_of_tails (by omega) (cont_zero.mp h₄.2.2.1) le_rfl le_rfl (by omega) (by omega) h₄.2.2.2
    · next h₅ =>
      exact three_of_tails (by omega) (inRange_zero.mp h₅.2.1) (by decide) (by decide) (by omega)
        (fun _ => by decide) h₅.2.2
    · next h₆ =>
      exact three_of_tails (by omega) (cont_zero.mp h₆.2.2.1) le_rfl le_rfl (by omega) (by omega) h₆.2.2.2
    · next h₇ =>
      exact four_of_tails (by omega) (inRange_zero.mp h₇.2.1) (by decide) (by decide) (fun _ => by decide) (by omega)
          h₇.2.2.1 h₇.2.2.2
    · next h₈ =>
      exact four_of_tails (by omega) (cont_zero.mp h₈.2.2.1) le_rfl le_rfl (by omega) (by omega) h₈.2.2.2.1 h₈.2.2.2.2
    · next h₉ =>
      exact four_of_tails (by omega) (inRange_zero.mp h₉.2.1) (by decide) (by decide) (by omega) (fun _ => by decide)
          h₉.2.2.1 h₉.2.2.2

/-! ## Escapes -/

theorem hexVal_eq (c : UInt8) : hexVal c = if JsonGrammar.isHex c then some (hexValue c) else none := by
  simp only [hexVal, JsonGrammar.isHex, hexValue, isDigit, Bool.and_eq_true, Bool.or_eq_true, decide_eq_true_eq,
    UInt8.le_iff_toNat_le, UInt8.reduceToNat]
  split_ifs <;> grind

theorem hexVal_eq_some {c : UInt8} : hexVal c = some v ↔ JsonGrammar.isHex c ∧ hexValue c = v := by
  rw [hexVal_eq]
  split
  · next h => simp [h]
  · next h => simp [h]

theorem hex4_eq_some :
    hex4 s = some (v, rest) ↔ ∃ u : Hex4, s = u.text ++ rest ∧ u.value = v := by
  constructor
  · intro h
    obtain _ | ⟨a, _ | ⟨b, _ | ⟨c, _ | ⟨d, s⟩⟩⟩⟩ := s
    any_goals cases h
    simp only [hex4, Option.bind_eq_bind, Option.bind_eq_some_iff, hexVal_eq_some] at h
    obtain ⟨_, ⟨ha, rfl⟩, _, ⟨hb, rfl⟩, _, ⟨hc, rfl⟩, _, ⟨hd, rfl⟩, h⟩ := h
    cases h
    exact ⟨⟨a, b, c, d, ha, hb, hc, hd⟩, rfl, rfl⟩
  · rintro ⟨u, rfl, rfl⟩
    obtain ⟨ha, hb, hc, hd⟩ := u.digits
    simp only [Hex4.text, List.cons_append, List.nil_append, hex4, hexVal_eq, ha, hb, hc, hd]
    rfl

theorem hexValue_lt {c : UInt8} (h : JsonGrammar.isHex c) : hexValue c < 16 := by
  simp only [JsonGrammar.isHex, hexValue, isDigit, Bool.and_eq_true, Bool.or_eq_true, decide_eq_true_eq,
    UInt8.le_iff_toNat_le, UInt8.reduceToNat] at h ⊢
  split_ifs <;> omega

theorem Hex4.value_lt (u : Hex4) : u.value < 0x10000 := by
  obtain ⟨ha, hb, hc, hd⟩ := u.digits
  have := hexValue_lt ha
  have := hexValue_lt hb
  have := hexValue_lt hc
  have := hexValue_lt hd
  rw [Hex4.value]
  omega

theorem appendRune_toNat (c : Char) : appendRune c.toNat = String.utf8EncodeChar c := by
  have hvalid : c.toNat.isValidChar := c.valid
  rw [appendRune, dif_pos hvalid]
  congr 1

/-- A number that is no surrogate is a character. -/
theorem exists_char (h : n < 0xD800 ∨ 0xDFFF < n ∧ n < 0x110000) : ∃ c : Char, c.toNat = n :=
  ⟨Char.ofNatAux n h, rfl⟩

theorem toNat_not_surrogate (c : Char) : c.toNat < 0xD800 ∨ 0xDFFF < c.toNat := by
  rcases c.valid with h | h
  · exact .inl h
  · exact .inr h.1

theorem decodeRune_eq (hi lo : ℕ) : decodeRune hi lo = pairValue hi lo := rfl

theorem pairValue_bounds {hi lo : ℕ} (hhi : hi ≤ 0xDBFF) (hlo : lo ≤ 0xDFFF) :
    0xDFFF < pairValue hi lo ∧ pairValue hi lo < 0x110000 := by
  rw [pairValue]
  omega

theorem unicodeEscape_unit {u : Hex4} (h : c.toNat = u.value) (rest : Text) :
    unicodeEscape (u.text ++ rest) = .ok (String.utf8EncodeChar c, rest) := by
  have hc := toNat_not_surrogate c
  rw [unicodeEscape, hex4_eq_some.mpr ⟨u, rfl, rfl⟩]
  dsimp only
  rw [if_neg (by simp; omega), if_neg (by simp; omega), ← h, appendRune_toNat]

theorem unicodeEscape_pair {hi lo : Hex4} (hhi : 0xD800 ≤ hi.value ∧ hi.value ≤ 0xDBFF)
    (hlo : 0xDC00 ≤ lo.value ∧ lo.value ≤ 0xDFFF) (h : c.toNat = pairValue hi.value lo.value) (rest : Text) :
    unicodeEscape (hi.text ++ 92 :: 117 :: (lo.text ++ rest)) = .ok (String.utf8EncodeChar c, rest) := by
  rw [unicodeEscape, hex4_eq_some.mpr ⟨hi, rfl, rfl⟩]
  dsimp only
  rw [if_pos (by simpa using hhi), if_pos ⟨rfl, rfl⟩, hex4_eq_some.mpr ⟨lo, rfl, rfl⟩]
  dsimp only
  rw [if_neg (by simp; omega), decodeRune_eq, ← h, appendRune_toNat]

theorem unicodeEscape_sound {s v rest : Text} (h : unicodeEscape s = .ok (v, rest)) :
    ∃ x : StringChar, 92 :: 117 :: s = x.text ++ rest ∧ v = String.utf8EncodeChar x.char := by
  rw [unicodeEscape] at h
  split at h
  · cases h
  next cp after hcp =>
  obtain ⟨hi, rfl, rfl⟩ := hex4_eq_some.mp hcp
  split at h
  · next hsurrogate =>
    have hhi : 0xD800 ≤ hi.value ∧ hi.value ≤ 0xDBFF := by simpa using hsurrogate
    split at h
    · next b e after' =>
      split at h
      swap
      · cases h
      next hbe =>
      obtain ⟨rfl, rfl⟩ := hbe
      split at h
      · cases h
      next low after'' hlow =>
      obtain ⟨lo, rfl, rfl⟩ := hex4_eq_some.mp hlow
      split at h
      · cases h
      next hrange =>
      have hlo : 0xDC00 ≤ lo.value ∧ lo.value ≤ 0xDFFF := by simpa using hrange
      obtain ⟨c, hc⟩ := exists_char (.inr (pairValue_bounds hhi.2 hlo.2))
      rw [decodeRune_eq, ← hc, appendRune_toNat] at h
      cases h
      refine ⟨.pair hi lo c ⟨hhi, hlo, hc⟩, by simp [StringChar.text], rfl⟩
    · cases h
  · next hhi =>
    split at h
    · cases h
    next hlo =>
    have hu := Hex4.value_lt hi
    obtain ⟨c, hc⟩ := exists_char (n := hi.value) (by simp at hhi hlo; omega)
    cases h
    exact ⟨.unicode hi c hc, rfl, by rw [StringChar.char, ← appendRune_toNat, hc]⟩

theorem escapeLetter_eq (e : UInt8) : escapeLetter e = (shortEscape e).map fun c => UInt8.ofNat c.toNat := by
  unfold escapeLetter shortEscape
  split_ifs <;> rfl

theorem encode_shortEscape (h : shortEscape e = some c) :
    String.utf8EncodeChar c = [UInt8.ofNat c.toNat] := by
  unfold shortEscape at h
  split_ifs at h
  all_goals
    cases h
    decide

/-! ## Strings -/

theorem text_eq_cons (x : StringChar) : ∃ a t, x.text = a :: t ∧ a ≠ 34 := by
  cases x with
  | plain c h =>
    obtain ⟨a, t, hat⟩ := List.exists_cons_of_ne_nil (encode_ne_nil c)
    refine ⟨a, t, hat, ?_⟩
    rintro rfl
    rcases mem_encode (hat ▸ List.mem_cons_self) with ha | ⟨-, ha⟩
    · exact absurd ha (by decide)
    · exact h.2.1 (Char.toNat_inj.mp ha.symm)
  | short e c h => exact ⟨92, [e], rfl, by decide⟩
  | unicode u c h => exact ⟨92, 117 :: u.text, rfl, by decide⟩
  | pair hi lo c h => exact ⟨92, 117 :: hi.text ++ 92 :: 117 :: lo.text, rfl, by decide⟩

theorem escapeSequence_unicode (rest : Text) : escapeSequence (117 :: rest) = unicodeEscape rest := by
  rw [escapeSequence, if_pos rfl]

theorem escapeSequence_short (h : shortEscape e = some c) (rest : Text) :
    escapeSequence (e :: rest) = .ok (String.utf8EncodeChar c, rest) := by
  have he : e ≠ 117 := by
    rintro rfl
    cases h
  rw [escapeSequence, if_neg he, escapeLetter_eq, h, encode_shortEscape h]
  rfl

theorem escapeSequence_sound {s v rest : Text} (h : escapeSequence s = .ok (v, rest)) :
    ∃ x : StringChar, 92 :: s = x.text ++ rest ∧ v = String.utf8EncodeChar x.char := by
  cases s with
  | nil => cases h
  | cons e s =>
    rw [escapeSequence] at h
    split at h
    · next he =>
      subst he
      exact unicodeEscape_sound h
    · split at h
      · cases h
      next b hb =>
      rw [escapeLetter_eq, Option.map_eq_some_iff] at hb
      obtain ⟨c, hc, rfl⟩ := hb
      cases h
      exact ⟨.short e c hc, rfl, (encode_shortEscape hc).symm⟩

theorem stringChar_escape (rest : Text) : stringChar (92 :: rest) = escapeSequence rest := by
  rw [stringChar, if_neg (by decide), if_pos rfl]

theorem stringChar_text (x : StringChar) (rest : Text) :
    stringChar (x.text ++ rest) = .ok (String.utf8EncodeChar x.char, rest) := by
  cases x with
  | plain c h =>
    obtain ⟨a, t, hat⟩ := List.exists_cons_of_ne_nil (encode_ne_nil c)
    have hseq := utf8Sequence_append (utf8Char_encode c) rest
    have hrange : 32 ≤ a.toNat ∧ a ≠ 92 := by
      rcases mem_encode (hat ▸ List.mem_cons_self) with ha | ⟨-, ha⟩
      · refine ⟨by omega, ?_⟩
        rintro rfl
        exact absurd ha (by decide)
      · refine ⟨ha ▸ h.1, ?_⟩
        rintro rfl
        exact h.2.2 (Char.toNat_inj.mp ha.symm)
    have hctl : ¬ a < 0x20 := by
      exact Nat.not_lt.mpr hrange.1
    rw [StringChar.text, StringChar.char]
    rw [hat, List.cons_append] at hseq ⊢
    rw [stringChar, if_neg hctl, if_neg hrange.2, hseq]
    simp
  | short e c h => exact (stringChar_escape _).trans (escapeSequence_short h rest)
  | unicode u c h =>
    exact (stringChar_escape _).trans ((escapeSequence_unicode _).trans (unicodeEscape_unit h rest))
  | pair hi lo c h =>
    have hescape := unicodeEscape_pair h.1 h.2.1 h.2.2 rest
    exact (stringChar_escape _).trans ((escapeSequence_unicode _).trans hescape)

theorem stringChar_sound {s v rest : Text} (hquote : s.head? ≠ some 34) (h : stringChar s = .ok (v, rest)) :
    ∃ x : StringChar, s = x.text ++ rest ∧ v = String.utf8EncodeChar x.char := by
  cases s with
  | nil => cases h
  | cons a s =>
    rw [stringChar] at h
    split at h
    · cases h
    next hctl =>
    split at h
    · next hslash =>
      subst hslash
      exact escapeSequence_sound h
    next hslash =>
    split at h
    · cases h
    next sz hsz =>
    obtain ⟨seq, after, hs, hseq, rfl⟩ := utf8Sequence_sound hsz
    obtain ⟨c, rfl⟩ := exists_encode_of_utf8Char hseq
    rw [hs, List.take_left, List.drop_left] at h
    cases h
    have hhead : ∀ b, String.utf8EncodeChar c = [b] → a = b := fun b hb => by
      rw [hb] at hs
      exact List.head_eq_of_cons_eq hs
    refine ⟨.plain c ⟨?_, ?_, ?_⟩, hs, rfl⟩
    · by_contra hlt
      have ha := hhead _ (encode_of_lt (by omega))
      refine hctl ?_
      rw [UInt8.lt_iff_toNat_lt, ha, toNat_ofNat_of_lt (by omega)]
      exact Nat.lt_of_not_le hlt
    · rintro rfl
      exact hquote (congrArg some (hhead 34 rfl))
    · rintro rfl
      exact hslash (hhead 92 rfl)

variable {decode : Bool}

theorem stringLoop_body (cs : List StringChar) (hfuel : cs.length < fuel) (out rest : Text) :
    stringLoop decode fuel out (bodyText cs ++ 34 :: rest) =
      .ok (if decode then out ++ (cs.map StringChar.char).flatMap String.utf8EncodeChar else out, rest) := by
  induction cs generalizing fuel out with
  | nil =>
    obtain ⟨fuel, rfl⟩ := Nat.exists_eq_succ_of_ne_zero (Nat.ne_zero_of_lt hfuel)
    simp [bodyText, stringLoop]
  | cons x cs ih =>
    obtain ⟨fuel, rfl⟩ := Nat.exists_eq_succ_of_ne_zero (Nat.ne_zero_of_lt hfuel)
    have hchar := stringChar_text x (bodyText cs ++ 34 :: rest)
    obtain ⟨a, t, hat, ha⟩ := text_eq_cons x
    have hbody : bodyText (x :: cs) ++ 34 :: rest = x.text ++ (bodyText cs ++ 34 :: rest) := by
      rw [bodyText, List.flatMap_cons, List.append_assoc]
      rfl
    rw [hbody]
    rw [hat, List.cons_append] at hchar ⊢
    rw [stringLoop, if_neg ha, hchar]
    refine (ih (Nat.lt_of_succ_lt_succ hfuel) _).trans ?_
    cases decode <;> simp

theorem stringLoop_sound {out v s rest : Text} (h : stringLoop decode fuel out s = .ok (v, rest)) :
    ∃ cs, s = bodyText cs ++ 34 :: rest ∧
      v = if decode then out ++ (cs.map StringChar.char).flatMap String.utf8EncodeChar else out := by
  induction fuel generalizing out s with
  | zero => cases h
  | succ fuel ih =>
    cases s with
    | nil => cases h
    | cons c s =>
      rw [stringLoop] at h
      split at h
      · next hc =>
        cases h
        exact ⟨[], by rw [hc]; rfl, by simp⟩
      · next hc =>
        cases hchar : stringChar (c :: s) with
        | error e => rw [hchar] at h; cases h
        | ok p =>
          rw [hchar] at h
          have hquote : (c :: s).head? ≠ some 34 := fun h => hc (Option.some.inj h)
          obtain ⟨x, hx, hp⟩ := stringChar_sound hquote hchar
          obtain ⟨cs, hcs, hv⟩ := ih h
          refine ⟨x :: cs, ?_, ?_⟩
          · rw [hx, hcs, bodyText, bodyText, List.flatMap_cons, List.append_assoc]
          · rw [hv, hp]
            cases decode <;> simp

/-- The bytes of a decoded name. -/
def nameBytes (name : List Char) : Text := name.flatMap String.utf8EncodeChar

theorem length_le_bodyText (cs : List StringChar) : cs.length ≤ (bodyText cs).length := by
  induction cs with
  | nil => exact Nat.zero_le _
  | cons x cs ih =>
    obtain ⟨a, t, hat, -⟩ := text_eq_cons x
    rw [bodyText, List.flatMap_cons, List.length_append, hat, List.length_cons, List.length_cons]
    rw [bodyText] at ih
    omega

theorem parseString_text (cs : List StringChar) (rest : Text) :
    parseString decode (stringText cs ++ rest) =
      .ok (if decode then nameBytes (cs.map StringChar.char) else [], rest) := by
  have hlength := length_le_bodyText cs
  have hbody : stringText cs ++ rest = 34 :: (bodyText cs ++ 34 :: rest) := by simp [stringText]
  rw [hbody, parseString, stringLoop_body cs (by rw [List.length_append]; omega)]
  rfl

theorem parseString_sound {s v rest : Text} (h : parseString decode s = .ok (v, rest)) :
    ∃ cs, s = stringText cs ++ rest ∧ v = if decode then nameBytes (cs.map StringChar.char) else [] := by
  cases s with
  | nil => cases h
  | cons c s =>
    rw [parseString] at h
    split at h
    · next hc =>
      obtain ⟨cs, rfl, hv⟩ := stringLoop_sound h
      exact ⟨cs, by simp [hc, stringText], hv⟩
    · cases h

/-! ## Numbers -/

/-- The rest of a text does not go on with a number. -/
def Stops (rest : Text) : Prop := ∀ c ∈ rest.head?, isDigit c = false ∧ c ≠ 46 ∧ c ≠ 101 ∧ c ≠ 69

def NoDigit (rest : Text) : Prop := ∀ c ∈ rest.head?, isDigit c = false

theorem digit_eq : digit = isDigit := rfl

theorem Stops.noDigit {rest : Text} (h : Stops rest) : NoDigit rest := fun c hc => (h c hc).1

theorem dropWhile_digit {ds rest : Text} (hds : ds.all isDigit) (hrest : NoDigit rest) :
    (ds ++ rest).dropWhile digit = rest := by
  rw [digit_eq, List.dropWhile_append_of_pos fun d hd => List.all_eq_true.mp hds d hd]
  cases rest with
  | nil => rfl
  | cons c rest => exact List.dropWhile_cons_of_neg (Bool.eq_false_iff.mp (hrest c rfl))

theorem digits_append {ds rest : Text} (hne : ds ≠ []) (hds : ds.all isDigit) (hrest : NoDigit rest) :
    digits (ds ++ rest) = .ok rest := by
  obtain ⟨d, ds, rfl⟩ := List.exists_cons_of_ne_nil hne
  rw [List.all_cons, Bool.and_eq_true] at hds
  rw [List.cons_append, digits, digit_eq, if_pos hds.1, ← digit_eq, dropWhile_digit hds.2 hrest]

theorem exists_digits (s : Text) : ∃ ds, s = ds ++ s.dropWhile digit ∧ ds.all isDigit :=
  ⟨s.takeWhile digit, List.takeWhile_append_dropWhile.symm, List.all_eq_true.mpr fun _ => List.mem_takeWhile_imp⟩

theorem digits_sound (h : digits s = .ok rest) :
    ∃ ds, s = ds ++ rest ∧ ds ≠ [] ∧ ds.all isDigit := by
  cases s with
  | nil => cases h
  | cons d s =>
    rw [digits] at h
    split at h
    · next hd =>
      cases h
      obtain ⟨ds, hs, hds⟩ := exists_digits s
      refine ⟨d :: ds, by rw [List.cons_append, ← hs], List.cons_ne_nil _ _, ?_⟩
      rw [List.all_cons, hds, Bool.and_true]
      exact hd
    · cases h

theorem intPart_append {t rest : Text} (ht : IsInt t) (hrest : NoDigit rest) : intPart (t ++ rest) = .ok rest := by
  rcases ht with rfl | ⟨d, ds, rfl, hd, hne, hds⟩
  · rfl
  · have hrange : 49 ≤ d && d ≤ 57 := by
      simp only [isDigit, Bool.and_eq_true, decide_eq_true_eq, UInt8.le_iff_toNat_le, ne_eq, eq_iff_toNat,
        UInt8.reduceToNat] at hd hne ⊢
      omega
    rw [List.cons_append, intPart, if_neg hne, if_pos hrange, ← List.cons_append, dropWhile_digit _ hrest]
    rw [List.all_cons, hds, Bool.and_true]
    exact hd

theorem intPart_sound (h : intPart s = .ok rest) : ∃ t, s = t ++ rest ∧ IsInt t := by
  cases s with
  | nil => cases h
  | cons d s =>
    rw [intPart] at h
    split at h
    · next hd =>
      cases h
      exact ⟨[48], by rw [hd]; rfl, .inl rfl⟩
    · next hne =>
      split at h
      · next hrange =>
        have hd : isDigit d := by
          simp only [isDigit, Bool.and_eq_true, decide_eq_true_eq, UInt8.le_iff_toNat_le,
            UInt8.reduceToNat] at hrange ⊢
          omega
        cases h
        obtain ⟨ds, hs, hds⟩ := exists_digits s
        have hdrop : (d :: s).dropWhile digit = s.dropWhile digit := List.dropWhile_cons_of_pos hd
        exact ⟨d :: ds, by rw [hdrop, List.cons_append, ← hs], .inr ⟨d, ds, rfl, hd, hne, hds⟩⟩
      · cases h

theorem fracPart_append {t rest : Text} (ht : IsFraction t) (hrest : NoDigit rest) (hdot : rest.head? ≠ some 46) :
    fracPart (t ++ rest) = .ok rest := by
  rcases ht with rfl | ⟨ds, rfl, hne, hds⟩
  · cases rest with
    | nil => rfl
    | cons c rest => exact if_neg fun hc => hdot (congrArg some hc)
  · rw [List.cons_append, fracPart, if_pos rfl, digits_append hne hds hrest]

theorem fracPart_sound (h : fracPart s = .ok rest) : ∃ t, s = t ++ rest ∧ IsFraction t := by
  cases s with
  | nil =>
    cases h
    exact ⟨[], rfl, .inl rfl⟩
  | cons c s =>
    rw [fracPart] at h
    split at h
    · next hc =>
      obtain ⟨ds, rfl, hne, hds⟩ := digits_sound h
      exact ⟨46 :: ds, by rw [hc]; rfl, .inr ⟨ds, rfl, hne, hds⟩⟩
    · cases h
      exact ⟨[], rfl, .inl rfl⟩

theorem dropSign_append {isSign : UInt8 → Bool} {sign t : Text} (hsign : sign = [] ∨ ∃ c, sign = [c] ∧ isSign c)
    (ht : ∃ d ds, t = d :: ds ∧ isSign d = false) : dropSign isSign (sign ++ t) = t := by
  rcases hsign with rfl | ⟨c, rfl, hc⟩
  · obtain ⟨d, ds, rfl, hd⟩ := ht
    exact if_neg (Bool.eq_false_iff.mp hd)
  · exact if_pos hc

theorem dropSign_sound (isSign : UInt8 → Bool) (s : Text) :
    ∃ sign, s = sign ++ dropSign isSign s ∧ (sign = [] ∨ ∃ c, sign = [c] ∧ isSign c) := by
  cases s with
  | nil => exact ⟨[], rfl, .inl rfl⟩
  | cons c s =>
    rw [dropSign]
    split
    · next hc => exact ⟨[c], rfl, .inr ⟨c, rfl, hc⟩⟩
    · exact ⟨[], rfl, .inl rfl⟩

theorem expPart_append {t rest : Text} (ht : IsExponent t) (hrest : Stops rest) : expPart (t ++ rest) = .ok rest := by
  rcases ht with rfl | ⟨e, sign, ds, rfl, he, hsign, hne, hds⟩
  · cases rest with
    | nil => rfl
    | cons c rest =>
      obtain ⟨-, -, he, hE⟩ := hrest c rfl
      exact if_neg (not_or.mpr ⟨he, hE⟩)
  · have hdigits := digits_append hne hds hrest.noDigit
    have hfirst : ∃ d after, ds ++ rest = d :: after ∧ (decide (d = 43) || decide (d = 45)) = false := by
      obtain ⟨d, ds, rfl⟩ := List.exists_cons_of_ne_nil hne
      rw [List.all_cons, Bool.and_eq_true] at hds
      refine ⟨d, ds ++ rest, rfl, ?_⟩
      rw [Bool.or_eq_false_iff, decide_eq_false_iff_not, decide_eq_false_iff_not]
      constructor
      · rintro rfl
        exact absurd hds.1 (by decide)
      · rintro rfl
        exact absurd hds.1 (by decide)
    have hsign : sign = [] ∨ ∃ c, sign = [c] ∧ (decide (c = 43) || decide (c = 45)) = true := by
      rcases hsign with rfl | rfl | rfl
      · exact .inl rfl
      · exact .inr ⟨43, rfl, rfl⟩
      · exact .inr ⟨45, rfl, rfl⟩
    rw [List.cons_append, List.cons_append, expPart, if_pos he, List.append_assoc, dropSign_append hsign hfirst,
      hdigits]

theorem expPart_sound (h : expPart s = .ok rest) : ∃ t, s = t ++ rest ∧ IsExponent t := by
  cases s with
  | nil =>
    cases h
    exact ⟨[], rfl, .inl rfl⟩
  | cons e s =>
    rw [expPart] at h
    split at h
    · next he =>
      obtain ⟨sign, hs, hsign⟩ := dropSign_sound (fun c => c = 43 || c = 45) s
      obtain ⟨ds, hdrop, hne, hds⟩ := digits_sound h
      refine ⟨e :: sign ++ ds, by rw [hs, hdrop]; simp, .inr ⟨e, sign, ds, rfl, he, ?_, hne, hds⟩⟩
      refine hsign.imp_right ?_
      rintro ⟨c, rfl, hc⟩
      simpa using hc
    · cases h
      exact ⟨[], rfl, .inl rfl⟩

theorem IsInt.head {t : Text} (ht : IsInt t) : ∃ d ds, t = d :: ds ∧ isDigit d := by
  rcases ht with rfl | ⟨d, ds, rfl, hd, -, -⟩
  · exact ⟨48, [], rfl, rfl⟩
  · exact ⟨d, ds, rfl, hd⟩

theorem Stops.exponent {t rest : Text} (ht : IsExponent t) (hrest : Stops rest) :
    NoDigit (t ++ rest) ∧ (t ++ rest).head? ≠ some 46 := by
  rcases ht with rfl | ⟨e, sign, ds, rfl, he, -⟩
  · exact ⟨hrest.noDigit, fun h => (hrest 46 h).2.1 rfl⟩
  · rcases he with rfl | rfl
    · exact ⟨fun c hc => by cases hc; rfl, by simp⟩
    · exact ⟨fun c hc => by cases hc; rfl, by simp⟩

theorem NoDigit.fraction {t rest : Text} (ht : IsFraction t) (hrest : NoDigit rest) : NoDigit (t ++ rest) := by
  rcases ht with rfl | ⟨ds, rfl, -⟩
  · exact hrest
  · exact fun c hc => by cases hc; rfl

theorem parseNumber_text (n : Number) {rest : Text} (hrest : Stops rest) :
    parseNumber (n.text ++ rest) = .ok rest := by
  obtain ⟨hnoDigit, hdot⟩ := hrest.exponent n.isExponent
  obtain ⟨d, ds, hint, hd⟩ := IsInt.head n.isInt
  have hminus : n.minus = [] ∨ ∃ c, n.minus = [c] ∧ decide (c = 45) = true :=
    n.isMinus.imp_right fun h => ⟨45, h, rfl⟩
  have hd45 : decide (d = 45) = false := by
    rw [decide_eq_false_iff_not]
    rintro rfl
    exact absurd hd (by decide)
  have hdrop : dropSign (· = 45) (n.text ++ rest) = n.int ++ (n.fraction ++ (n.exponent ++ rest)) := by
    rw [Number.text, List.append_assoc, List.append_assoc, List.append_assoc]
    exact dropSign_append hminus ⟨d, ds ++ (n.fraction ++ (n.exponent ++ rest)), by rw [hint]; rfl, hd45⟩
  rw [parseNumber, hdrop, intPart_append n.isInt (hnoDigit.fraction n.isFraction)]
  refine (congrArg (· >>= expPart) (fracPart_append n.isFraction hnoDigit hdot)).trans ?_
  exact expPart_append n.isExponent hrest

theorem parseNumber_sound (h : parseNumber s = .ok rest) : ∃ n : Number, s = n.text ++ rest := by
  rw [parseNumber] at h
  obtain ⟨minus, hs, hminus⟩ := dropSign_sound (· = 45) s
  cases hint : intPart (dropSign (· = 45) s) with
  | error e => rw [hint] at h; cases h
  | ok afterInt =>
    rw [hint] at h
    cases hfrac : fracPart afterInt with
    | error e => simp only [bind, Except.bind, hfrac] at h; cases h
    | ok afterFrac =>
      simp only [bind, Except.bind, hfrac] at h
      obtain ⟨int, hint', isInt⟩ := intPart_sound hint
      obtain ⟨fraction, hfrac', isFraction⟩ := fracPart_sound hfrac
      obtain ⟨exponent, hexp, isExponent⟩ := expPart_sound h
      refine ⟨⟨minus, int, fraction, exponent, ?_, isInt, isFraction, isExponent⟩, ?_⟩
      · exact hminus.imp_right fun ⟨c, hsign, hc⟩ => by rw [hsign, of_decide_eq_true hc]
      · rw [hs, hint', hfrac', hexp, Number.text]
        simp

/-! ## Words and names -/

theorem lit_append (word : String) (rest : Text) : lit word (utf8 word ++ rest) = .ok rest := by
  rw [lit, if_pos (by simp), List.drop_left]

theorem lit_sound {word : String} (h : lit word s = .ok rest) : s = utf8 word ++ rest := by
  rw [lit] at h
  split at h
  · next hprefix =>
    obtain ⟨after, rfl⟩ := List.isPrefixOf_iff_prefix.mp hprefix
    rw [List.drop_left] at h
    cases h
    rfl
  · cases h

theorem nameBytes_injective : Function.Injective nameBytes := encode_injective

theorem all_zip_tail {α : Type} [DecidableEq α] (l : List α) :
    ((l.zip l.tail).all fun (a, b) => decide (a ≠ b)) = true ↔ l.IsChain (· ≠ ·) := by
  induction l with
  | nil => simp
  | cons a l ih =>
    cases l with
    | nil => simp
    | cons b l => simpa using fun _ => ih

theorem nodup_of_sorted {l : List Text} (hsorted : l.Pairwise (· ≤ ·)) (h : l.IsChain (· ≠ ·)) : l.Nodup := by
  induction l with
  | nil => exact List.nodup_nil
  | cons a l ih =>
    cases l with
    | nil => exact List.nodup_singleton a
    | cons b l =>
      rw [List.isChain_cons_cons] at h
      obtain ⟨ha, htail⟩ := List.pairwise_cons.mp hsorted
      refine List.nodup_cons.mpr ⟨fun hmem => ?_, ih htail h.2⟩
      rcases List.mem_cons.mp hmem with rfl | hmem
      · exact h.1 rfl
      · have hba : b ≤ a := (List.pairwise_cons.mp htail).1 a hmem
        exact h.1 (List.le_antisymm (ha b List.mem_cons_self) hba)

theorem keysUnique_iff {keys : List Text} : keysUnique keys ↔ keys.Nodup := by
  have hsorted : (keys.mergeSort fun a b => decide (a ≤ b)).Pairwise (· ≤ ·) := by
    refine (List.pairwise_mergeSort (fun a b c hab hbc => ?_) (fun a b => ?_) keys).imp of_decide_eq_true
    · exact decide_eq_true (List.le_trans (of_decide_eq_true hab) (of_decide_eq_true hbc))
    · rw [Bool.or_eq_true, decide_eq_true_eq, decide_eq_true_eq]
      exact List.le_total a b
  have hperm := List.mergeSort_perm keys fun a b => decide (a ≤ b)
  rw [keysUnique, all_zip_tail, ← hperm.nodup_iff]
  exact ⟨nodup_of_sorted hsorted, List.Pairwise.isChain⟩

end Economizer.JsonParser
