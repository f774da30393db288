-- SUMMARY: A stored state comes back: its numbers, its digest and the longest run of its keys that fits.
import Aimee.Economizer.JsonReads
import Aimee.Economizer.State
import Aimee.Lib.Utf8Table

/-!
# Restoring what was stored

Numbers below 2^52 are read back from their spelling, and a key costs at most 48 bytes more than its
length, the growth of the counters included.
-/

namespace Economizer

open JsonValue CJson
open Doubles (nearest roundDigits spellG spelled readDecimal truncQuot IsDigit)
open Wire (decimal decimalInt)

/-! ## Numbers -/

/-- A number that no spelling takes for another. -/
def Exact (n : ℤ) : Prop := n.natAbs < 2 ^ 52

variable {n : ℤ} {depth : ℕ} {e : Text × ℤ} {keys : List (Text × ℤ)} {ix : RecallIndex} {st : ReduceState}

theorem float64_of_exact (h : Exact n) : float64 n = n := by
  unfold Exact at h
  have hnearest : nearest n.natAbs = n.natAbs := if_pos (by omega)
  rw [float64]
  split <;> omega

theorem decimalInt_eq_spelled (n : ℤ) : decimalInt n = spelled (n < 0) (decimal n.natAbs) [] [] := by
  cases n with
  | ofNat m => simp [decimalInt, spelled]
  | negSucc m => simp [decimalInt, spelled]

/-- Fifteen digits that are equal up to the epsilon are all the digits. -/
theorem roundDigits_of_compareDouble {m : ℕ} (hm : m < 2 ^ 52) (h : compareDouble (nearest (roundDigits 15 m)) m) :
    roundDigits 15 m = m := by
  by_cases hlen : (decimal m).length ≤ 15
  · exact Doubles.roundDigits_of_length_le hlen
  · have hsixteen : (decimal m).length = 16 := by
      have hle := (@Doubles.length_decimal_le_iff m 16 (by decide)).mpr (by omega)
      omega
    have hround : roundDigits 15 m = Doubles.halfEven m 10 * 10 := by
      rw [roundDigits, hsixteen]
      rfl
    have hbounds : Doubles.halfEven m 10 * 10 ≤ m + 5 ∧ m ≤ Doubles.halfEven m 10 * 10 + 5 := by
      unfold Doubles.halfEven
      split <;> omega
    have hnearest : nearest (roundDigits 15 m) = roundDigits 15 m := if_pos (by omega)
    rw [compareDouble, decide_eq_true_eq] at h
    omega

theorem cjsonNumber_cases (d : ℤ) :
    cjsonNumber d = decimalInt d ∨ compareDouble (nearest (roundDigits 15 d.natAbs)) d.natAbs ∧
      cjsonNumber d = spellG (d < 0) 15 d.natAbs ∨
      cjsonNumber d = spellG (d < 0) 17 d.natAbs := by
  unfold cjsonNumber
  split_ifs with h1 h2
  · exact .inl rfl
  · exact .inr (.inl ⟨h2, rfl⟩)
  · exact .inr (.inr rfl)

theorem intOf_of_read {lexeme : Text} (hn : Exact n) (hneg : (readDecimal lexeme).neg = decide (n < 0))
    (hread : (readDecimal lexeme).mantissa * 10 ^ (readDecimal lexeme).up =
      n.natAbs * 10 ^ (readDecimal lexeme).down) (platform : ℤ) :
    intOf platform lexeme = n := by
  unfold Exact at hn
  simp only [intOf, hread, Doubles.truncQuot_mul (Nat.pow_pos (n := (readDecimal lexeme).down) (by decide : 0 < 10))
    (by omega : n.natAbs < 2 ^ 53), hneg, decide_eq_true_eq]
  split_ifs <;> omega

theorem intOf_cjsonNumber (h : Exact n) (platform : ℤ) : intOf platform (cjsonNumber n) = n := by
  rcases cjsonNumber_cases n with heq | ⟨hclose, heq⟩ | heq
  · have hread := @Doubles.readDecimal_spelled (n < 0) (decimal n.natAbs) [] [] (fun c =>
      Doubles.isDigit_of_mem_decimal)
      (Doubles.decimal_ne_nil _) (by simp)
    rw [← decimalInt_eq_spelled, List.append_nil, Doubles.digitsValue_decimal] at hread
    rw [heq]
    exact intOf_of_read h (by rw [hread]) (by rw [hread]; rfl) platform
  · obtain ⟨hneg, hread⟩ := @Doubles.readDecimal_spellG (n < 0) 15 n.natAbs (by decide)
    rw [roundDigits_of_compareDouble h hclose] at hread
    rw [heq]
    exact intOf_of_read h hneg hread platform
  · obtain ⟨hneg, hread⟩ := @Doubles.readDecimal_spellG (n < 0) 17 n.natAbs (by decide)
    have hlen : (decimal n.natAbs).length ≤ 17 := (Doubles.length_decimal_le_iff (by decide)).mpr (h.trans (by decide))
    rw [Doubles.roundDigits_of_length_le hlen] at hread
    rw [heq]
    exact intOf_of_read h hneg hread platform

/-- A number as the parser takes it. -/
structure Token (lexeme : Text) : Prop where
  valid : validNumberToken lexeme
  chars : ∀ c ∈ lexeme, isNumberChar c

theorem isDigit_eq {c : UInt8} (h : IsDigit c) : CJson.isDigit c = true := decide_eq_true h

theorem token_spelled (neg : Bool) {d : UInt8} {ds frac exp : Text} (hd : d ≠ 48 ∨ ds = [])
    (hint : ∀ c ∈ d :: ds, IsDigit c)
    (hfrac : ∀ c ∈ frac, IsDigit c) (hexp : ∀ c ∈ exp, IsDigit c) : Token (spelled neg (d :: ds) frac exp) := by
  obtain ⟨hd0, hds⟩ := List.forall_mem_cons.mp hint
  have hdrop : ∀ xs rest : Text, (∀ c ∈ xs, IsDigit c) → (∀ c ∈ rest.head?, CJson.isDigit c = false) →
      (xs ++ rest).dropWhile CJson.isDigit = rest := by
    intro xs rest hxs hrest
    rw [List.dropWhile_append_of_pos fun c hc => isDigit_eq (hxs c hc)]
    cases rest with
    | nil => rfl
    | cons c rest => rw [List.dropWhile_cons_of_neg (by simp [hrest c rfl])]
  have hexponent : exponentOk (if exp = [] then [] else 101 :: 43 :: exp) := by
    cases exp with
    | nil => rfl
    | cons e exp =>
      obtain ⟨he, hexp⟩ := List.forall_mem_cons.mp hexp
      have htail := hdrop exp [] hexp (by simp)
      rw [List.append_nil] at htail
      simp [exponentOk, digits1, isDigit_eq he, htail]
  have hhead : ∀ c ∈ (if exp = [] then [] else 101 :: 43 :: exp : Text).head?, CJson.isDigit c = false := by
    intro c hc
    split_ifs at hc <;> simp at hc
    subst hc
    decide
  have hfraction : fractionOk ((if frac = [] then [] else 46 :: frac) ++ if exp = [] then [] else
    101 :: 43 :: exp) := by
    cases frac with
    | nil =>
      cases exp with
      | nil => rfl
      | cons e exp => simpa [fractionOk] using hexponent
    | cons f frac =>
      obtain ⟨hf, hfrac⟩ := List.forall_mem_cons.mp hfrac
      simp [fractionOk, digits1, isDigit_eq hf, hdrop frac _ hfrac hhead, hexponent]
  have hend : ∀ c ∈ ((if frac = [] then [] else 46 :: frac) ++ if exp = [] then [] else 101 :: 43 :: exp : Text).head?,
      CJson.isDigit c = false := by
    intro c hc
    cases frac with
    | nil => exact hhead c (by simpa using hc)
    | cons f frac =>
      obtain rfl : 46 = c := by simpa using hc
      decide
  have hne : d ≠ 45 := by
    rintro rfl
    exact absurd hd0.1 (by decide)
  have hbody : validNumberToken (d :: ds ++ ((if frac = [] then [] else 46 :: frac) ++ if exp = [] then
    [] else 101 :: 43 :: exp)) := by
    by_cases hzero : d = 48
    · obtain rfl := hd.resolve_left (not_not.mpr hzero)
      simp [validNumberToken, hzero, hfraction]
    · have hlow : 49 ≤ d := by
        have hlt : d.toNat ≠ 48 := fun heq => hzero (UInt8.toNat_inj.mp heq)
        have hle : 48 ≤ d.toNat := UInt8.le_iff_toNat_le.mp hd0.1
        exact UInt8.le_iff_toNat_le.mpr (Nat.lt_of_le_of_ne hle (Ne.symm hlt))
      simp [validNumberToken, hne, hzero, hlow, hd0.2, hdrop ds _ hds hend, hfraction]
  constructor
  · cases neg with
    | false => simpa [spelled, List.append_assoc] using hbody
    | true =>
      simp only [validNumberToken, List.cons_append, if_neg hne] at hbody
      simpa [spelled, validNumberToken, List.append_assoc] using hbody
  · have hchar : ∀ c, IsDigit c → isNumberChar c := fun c hc => by simp [isNumberChar, isDigit_eq hc]
    intro c hc
    simp only [spelled, List.mem_append] at hc
    rcases hc with ((hc | hc) | hc) | hc
    · split_ifs at hc <;> simp at hc
      exact hc ▸ by decide
    · exact hchar c (hint c hc)
    · split_ifs at hc
      · cases hc
      · rcases List.mem_cons.mp hc with rfl | hc
        · decide
        · exact hchar c (hfrac c hc)
    · split_ifs at hc
      · cases hc
      · rcases List.mem_cons.mp hc with rfl | hc
        · decide
        · rcases List.mem_cons.mp hc with rfl | hc
          · decide
          · exact hchar c (hexp c hc)

theorem token_cjsonNumber (d : ℤ) : Token (cjsonNumber d) := by
  have hplain : ∀ neg m, Token (spelled neg (decimal m) [] []) := by
    intro neg m
    have hdigits : ∀ c ∈ decimal m, IsDigit c := fun c => Doubles.isDigit_of_mem_decimal
    rcases Nat.eq_zero_or_pos m with rfl | hpos
    · exact token_spelled neg (.inr rfl) hdigits (by simp) (by simp)
    · obtain ⟨d, ds, hds, hd⟩ := Doubles.decimal_eq_cons hpos
      rw [hds] at hdigits ⊢
      exact token_spelled neg (.inl hd) hdigits (by simp) (by simp)
  have hspell : ∀ neg prec m, 0 < prec → Token (spellG neg prec m) := by
    intro neg prec m hprec
    rcases Doubles.spellG_cases neg m hprec with h | ⟨d, t, k, hd, hds, h⟩
    · exact h ▸ hplain neg _
    · have hdigits := fun c => @Doubles.isDigit_of_mem_decimal (roundDigits prec m) c
      rw [hds] at hdigits
      rw [h]
      exact token_spelled neg (.inl hd) (fun c hc => hdigits c (by simp_all)) (fun c hc => hdigits c (by simp [hc]))
        (fun c => Doubles.isDigit_of_mem_decimal)
  rcases cjsonNumber_cases d with h | ⟨-, h⟩ | h
  · rw [h, decimalInt_eq_spelled]
    exact hplain _ _
  · exact h ▸ hspell _ 15 _ (by decide)
  · exact h ▸ hspell _ 17 _ (by decide)

theorem length_spelled_le (neg : Bool) (int frac exp : Text) :
    (spelled neg int frac exp).length ≤ 1 + int.length + (frac.length + 1) + (exp.length + 2) := by
  unfold spelled
  cases neg <;> split_ifs <;> simp_all <;> omega

theorem length_cjsonNumber (h : Exact n) : (cjsonNumber n).length ≤ 22 := by
  have hlen : (decimal n.natAbs).length ≤ 16 := (Doubles.length_decimal_le_iff (by decide)).mpr (h.trans (by decide))
  have hplain : (spelled (n < 0) (decimal n.natAbs) [] []).length ≤ 22 := by
    simp only [spelled, if_true, List.append_nil, List.length_append]
    split_ifs <;> simp <;> omega
  rcases cjsonNumber_cases n with heq | ⟨hclose, heq⟩ | heq
  · rwa [heq, decimalInt_eq_spelled]
  · have hround := roundDigits_of_compareDouble h hclose
    rcases Doubles.spellG_cases (n < 0) n.natAbs (by decide : 0 < 15) with hs | ⟨d, t, k, hd, hds, hs⟩
    · rw [heq, hs, hround]
      exact hplain
    · rw [hround] at hds
      have hcount := congrArg List.length hds
      simp only [List.length_append, List.length_cons, List.length_replicate] at hcount
      have hexp : (decimal (t.length + k)).length ≤ 2 := (Doubles.length_decimal_le_iff (by decide)).mpr (by omega)
      have hbound := length_spelled_le (n < 0) [d] t (decimal (t.length + k))
      rw [heq, hs]
      simp only [List.length_singleton] at hbound
      omega
  · rw [heq, Doubles.spellG_of_length_le _ (hlen.trans (by decide))]
    exact hplain

/-- A count has no more characters than digits. -/
theorem length_count {n k : ℕ} (hn : n < 10 ^ k) (hpos : 0 < k) (hk : k ≤ 15) :
    (cjsonNumber (float64 n)).length ≤ k := by
  have hbig : n < 10 ^ 15 := lt_of_lt_of_le hn (Nat.pow_le_pow_right (by decide) hk)
  have hlen : (decimal n).length ≤ 15 := (Doubles.length_decimal_le_iff (by decide)).mpr hbig
  have hround := Doubles.roundDigits_of_length_le hlen
  have hnearest : nearest n = n := if_pos (hbig.trans (by decide))
  refine le_trans (le_of_eq (congrArg List.length ?_)) ((Doubles.length_decimal_le_iff hpos).mpr hn)
  rw [float64_of_exact (show Exact n by unfold Exact; omega), cjsonNumber]
  split_ifs with h1 h2
  · rfl
  · rw [Int.natAbs_natCast, Doubles.spellG_of_length_le _ hlen]
    simp [spelled]
  · rw [Int.natAbs_natCast, hround, hnearest] at h2
    simp [compareDouble] at h2

/-! ## The digest -/

theorem formatHex_step {n : ℕ} (h : 16 ≤ n) : formatHex n = formatHex (n / 16) ++ formatHex (n % 16) := by
  rw [formatHex, Nat.toDigits_of_base_le (by decide) h, List.map_append, formatHex, formatHex,
    Nat.toDigits_of_lt_base (Nat.mod_lt n (by decide))]

theorem formatHex_digit : ∀ d < 16, ∃ c, formatHex d = [c] ∧ JsonParser.hexVal c = some d ∧ Plain c ∧ c < 0x80 := by
  have htable : ∀ d < 16, formatHex d = [(formatHex d).headD 0] ∧ JsonParser.hexVal ((formatHex d).headD 0) = some d ∧
      Plain ((formatHex d).headD 0) ∧ (formatHex d).headD 0 < 0x80 := by
    decide
  exact fun d hd => ⟨_, htable d hd⟩

/-- The digits of a number are read back, and what follows after them. -/
theorem parseHex_formatHex {n : ℕ} (h : n < 2 ^ 64) (rest : Text) :
    parseHex 0 (formatHex n ++ rest) = parseHex n rest := by
  induction n using Nat.strongRecOn generalizing rest with
  | ind n ih =>
    have hdigit : ∀ m, m < 2 ^ 60 → ∀ d < 16, parseHex m (formatHex d ++ rest) = parseHex (m * 16 + d) rest := by
      intro m hm d hd
      obtain ⟨c, hc, hval, -⟩ := formatHex_digit d hd
      rw [hc, List.singleton_append, parseHex, hval]
      exact if_neg (Nat.not_le.mpr hm)
    by_cases hn : n < 16
    · rw [hdigit 0 (by decide) n hn, Nat.zero_add]
    · rw [formatHex_step (by omega), List.append_assoc, ih (n / 16) (by omega) (by omega),
        hdigit (n / 16) (by omega) _ (Nat.mod_lt n (by decide))]
      congr 1
      omega

theorem plainText_formatHex (n : ℕ) : PlainText (formatHex n) := by
  have hchars : ∀ c ∈ formatHex n, Plain c ∧ c < 0x80 := by
    induction n using Nat.strongRecOn with
    | ind n ih =>
      intro c hc
      by_cases hn : n < 16
      · obtain ⟨d, hd, -, hplain⟩ := formatHex_digit n hn
        rw [hd, List.mem_singleton] at hc
        exact hc ▸ hplain
      · rw [formatHex_step (by omega)] at hc
        rcases List.mem_append.mp hc with hc | hc
        · exact ih (n / 16) (by omega) c hc
        · exact ih (n % 16) (by omega) c hc
  refine ⟨fun c hc => (hchars c hc).1, ?_⟩
  have hjoins := joins_ascii (fun c hc => (hchars c hc).2) []
  rwa [List.append_nil] at hjoins

/-! ## The document -/

theorem get_cons (name key : String) (v : JsonValue) (rest : List (Text × JsonValue)) :
    (object ((utf8 name, v) :: rest)).get key = if key = name then some v else (object rest).get key := by
  have hinj : utf8 key = utf8 name ↔ key = name :=
    ⟨fun h => String.toList_injective (Utf8Table.encode_injective h), congrArg utf8⟩
  rw [JsonValue.get, List.lookup_cons]
  by_cases h : key = name
  · rw [if_pos h, h, beq_self_eq_true]
  · rw [if_neg h, beq_false_of_ne (hinj.not.mpr h), JsonValue.get]

theorem reads_newNumber (hdepth : depth ≤ maxDepth) (n : ℤ) : JsonValue.Reads depth (newNumber n) :=
  reads_number hdepth (token_cjsonNumber _).valid (token_cjsonNumber _).chars

/-- The names of a document, without repetition. -/
def Named (names : List String) :
    Prop := names.all (fun s => (utf8 s).all fun c => decide (Plain c ∧ c < 0x80)) ∧ (names.map utf8).Nodup

theorem reads_named (hdepth : depth ≤ maxDepth) {members : List (Text × JsonValue)} (names : List String)
    (hnamed : Named names)
    (hnames : members.map (·.1) = names.map utf8)
    (hvalues : ∀ m ∈ members, JsonValue.Reads (depth + 1) m.2) : JsonValue.Reads depth (.object members) := by
  refine reads_object hdepth (fun m hm => ?_) hvalues (hnames ▸ hnamed.2)
  have hname : m.1 ∈ names.map utf8 := hnames ▸ List.mem_map.mpr ⟨m, hm, rfl⟩
  obtain ⟨s, hs, heq⟩ := List.mem_map.mp hname
  have hchars := fun c hc => of_decide_eq_true (List.all_eq_true.mp (List.all_eq_true.mp hnamed.1 s hs) c hc)
  have hjoins := joins_ascii (fun c hc => (hchars c hc).2) []
  rw [List.append_nil] at hjoins
  exact heq ▸ ⟨fun c hc => (hchars c hc).1, hjoins⟩

theorem reads_recallEntry (hdepth : depth < maxDepth) (h : PlainText e.1) : JsonValue.Reads depth (recallEntry e) := by
  refine reads_named hdepth.le ["k", "t"] ⟨by decide, by decide⟩ rfl ?_
  simp only [List.forall_mem_cons]
  exact ⟨reads_string hdepth h, reads_newNumber hdepth _, by simp⟩

theorem reads_stateDoc (st : ReduceState) (h : ∀ e ∈ keys, PlainText e.1) (kept dropped : ℕ) :
    JsonValue.Reads 0 (stateDoc st keys kept dropped) := by
  have hfreeze : JsonValue.Reads 1 (freezeDoc st.freeze) := by
    refine reads_named (by decide) ["active", "frozen_split", "tail_cap_msgs", "epochs", "prefix_digest"]
      ⟨by decide, by decide⟩ rfl ?_
    simp only [List.forall_mem_cons]
    exact ⟨reads_newNumber (by decide) _, reads_newNumber (by decide) _, reads_newNumber (by decide) _,
      reads_newNumber (by decide) _, reads_string (by decide) (plainText_formatHex _), by simp⟩
  have hrecall : JsonValue.Reads 1 (.array (keys.map recallEntry)) := by
    refine reads_array (by decide) fun v hv => ?_
    obtain ⟨e, he, rfl⟩ := List.mem_map.mp hv
    exact reads_recallEntry (by decide) (h e he)
  refine reads_named (by decide) ["turn", "freeze", "recall", "recall_kept", "recall_dropped"]
    ⟨by decide, by decide⟩ rfl ?_
  simp only [List.forall_mem_cons]
  exact ⟨reads_newNumber (by decide) _, hfreeze, hrecall, reads_newNumber (by decide) _,
    reads_newNumber (by decide) _, by simp⟩

/-! ## The index -/

/-- Every key is in the index once, and none is empty. -/
structure RecallIndex.WellFormed (ix : RecallIndex) : Prop where
  nodup : (ix.map (·.1)).Nodup
  nonempty : ∀ e ∈ ix, e.1 ≠ []

theorem RecallIndex.WellFormed.nil : RecallIndex.WellFormed [] := ⟨List.nodup_nil, by simp⟩

theorem RecallIndex.add_of_fresh {key : Text} (hne : key ≠ []) (hfresh : key ∉ ix.map (·.1)) :
    ix.add key = ix ++ [(key, -1)] := by
  refine if_neg (not_or.mpr ⟨hne, fun hany => hfresh ?_⟩)
  obtain ⟨e, he, heq⟩ := List.any_eq_true.mp hany
  exact List.mem_map.mpr ⟨e, he, of_decide_eq_true heq⟩

theorem RecallIndex.WellFormed.add (h : ix.WellFormed) (key : Text) : (ix.add key).WellFormed := by
  by_cases hne : key = []
  · rwa [RecallIndex.add, if_pos (.inl hne)]
  by_cases hfresh : key ∈ ix.map (·.1)
  · obtain ⟨e, he, rfl⟩ := List.mem_map.mp hfresh
    rwa [RecallIndex.add, if_pos (.inr (List.any_eq_true.mpr ⟨e, he, by simp⟩))]
  · rw [RecallIndex.add_of_fresh hne hfresh]
    refine ⟨?_, fun e he => ?_⟩
    · rw [List.map_append, List.nodup_append']
      exact ⟨h.nodup, List.nodup_singleton _, by simpa using hfresh⟩
    · rcases List.mem_append.mp he with he | he
      · exact h.nonempty e he
      · rwa [List.mem_singleton.mp he]

theorem RecallIndex.WellFormed.setLastTurn (h : ix.WellFormed) (key : Text) (turn : ℤ) :
    (ix.setLastTurn key turn).WellFormed := by
  have hkeys : (ix.setLastTurn key turn).map (·.1) = ix.map (·.1) := by
    rw [RecallIndex.setLastTurn, List.map_map]
    refine List.map_congr_left fun e _ => ?_
    by_cases heq : e.1 = key <;> simp [heq]
  refine ⟨hkeys ▸ h.nodup, fun e he hnil => ?_⟩
  have hkey : e.1 ∈ ix.map (·.1) := hkeys ▸ List.mem_map.mpr ⟨e, he, rfl⟩
  obtain ⟨e', he', heq⟩ := List.mem_map.mp hkey
  exact h.nonempty e' he' (heq.trans hnil)

/-- The entries of a stored index, one after the other. -/
theorem foldl_restoreEntry (platform : ℤ) (ix : RecallIndex) (hnodup : ((ix ++ keys).map (·.1)).Nodup)
    (hne : ∀ e ∈ keys, e.1 ≠ []) (hexact : ∀ e ∈ keys, Exact e.2) :
    (keys.map recallEntry).foldl (restoreEntry platform) ix = ix ++ keys := by
  induction keys generalizing ix with
  | nil => simp
  | cons e keys ih =>
    have he := List.forall_mem_cons.mp hne
    have hn := List.forall_mem_cons.mp hexact
    have hfresh : e.1 ∉ ix.map (·.1) := by
      rw [List.map_append, List.nodup_append'] at hnodup
      exact fun hmem => hnodup.2.2 hmem List.mem_cons_self
    have hset : ((ix ++ [(e.1, -1)] : RecallIndex).setLastTurn e.1 e.2) = ix ++ [e] := by
      rw [RecallIndex.setLastTurn, List.map_append, List.map_singleton, if_pos rfl]
      refine congrArg (· ++ [e]) ((List.map_congr_left fun x hx => if_neg fun heq => hfresh ?_).trans (List.map_id ix))
      exact List.mem_map.mpr ⟨x, hx, heq⟩
    have hstep : restoreEntry platform ix (recallEntry e) = ix ++ [e] := by
      simp [restoreEntry, recallEntry, get_cons, he.1, newNumber, float64_of_exact hn.1, intOf_cjsonNumber hn.1,
        RecallIndex.add_of_fresh he.1 hfresh, hset]
    rw [List.map_cons, List.foldl_cons, hstep, ih _ (by simpa using hnodup) he.2 hn.2, List.append_assoc,
      List.singleton_append]

theorem restore_wellFormed (platform : ℤ) (h : st.recallIndex.WellFormed) (blob : Text) :
    (restoreState platform st blob).1.recallIndex.WellFormed := by
  have hentry : ∀ (ix : RecallIndex) v, ix.WellFormed → (restoreEntry platform ix v).WellFormed := by
    intro ix v hix
    unfold restoreEntry
    split
    · split_ifs
      · exact hix
      · split
        · exact (hix.add _).setLastTurn _ _
        · exact hix.add _
    · exact hix
  have hfold : ∀ (items : List JsonValue) (ix : RecallIndex), ix.WellFormed →
    (items.foldl (restoreEntry platform) ix).WellFormed := by
    intro items
    induction items with
    | nil => exact fun _ hix => hix
    | cons v items ih => exact fun ix hix => ih _ (hentry ix v hix)
  unfold restoreState
  split_ifs
  · exact h
  · split
    · dsimp only
      split
      · exact hfold _ _ .nil
      · exact .nil
    · exact h

/-! ## The keys that are kept -/

/-- At each of the keys there was room for it behind those before it. -/
def Fits (st : ReduceState) (keys : List (Text × ℤ)) : Prop := ∀ pre e post, keys = pre ++ e :: post →
    hasRoom st pre e.1

def keptKeys (st : ReduceState) : List (Text × ℤ) := (keepKeys st [] st.recallIndex.ranked).1

/-- The longest prefix of the ranked keys that fits. -/
structure LongestKept (st : ReduceState) (keys : List (Text × ℤ)) : Prop where
  isPrefix : keys <+: st.recallIndex.ranked
  fits : Fits st keys
  longest : ∀ other, other <+: st.recallIndex.ranked → Fits st other → other.length ≤ keys.length

theorem keepKeys_spec (st : ReduceState) {rest : List (Text × ℤ)} (keys : List (Text × ℤ))
    (hne : ∀ e ∈ rest, e.1 ≠ []) :
    ∃ p q, rest = p ++ q ∧ keepKeys st keys rest = (keys ++ p, q.length) ∧
      (∀ pre e post, p = pre ++ e :: post → hasRoom st (keys ++ pre) e.1) ∧ ∀ e q', q = e :: q' →
        ¬ hasRoom st (keys ++ p) e.1 := by
  induction rest generalizing keys with
  | nil => exact ⟨[], [], rfl, by rw [List.append_nil]; rfl, by simp, by simp⟩
  | cons e rest ih =>
    obtain ⟨he, hrest⟩ := List.forall_mem_cons.mp hne
    rw [keepKeys, if_neg he]
    by_cases hroom : hasRoom st keys e.1
    · obtain ⟨p, q, rfl, hkeep, hfits, hstop⟩ := ih (keys ++ [e]) hrest
      refine ⟨e :: p, q, rfl, ?_, fun pre x post hp => ?_, ?_⟩
      · rw [hroom, if_neg (by decide), hkeep, List.append_assoc, List.singleton_append]
      · cases pre with
        | nil =>
          obtain ⟨rfl, -⟩ := List.cons.inj hp
          rwa [List.append_nil]
        | cons y pre =>
          obtain ⟨rfl, rfl⟩ := List.cons.inj hp
          simpa using hfits pre x post rfl
      · simpa using hstop
    · refine ⟨[], e :: rest, rfl, ?_, by simp, ?_⟩
      · simp [hroom]
      · rintro x q' hx
        obtain ⟨rfl, -⟩ := List.cons.inj hx
        rwa [List.append_nil]

theorem longestKept {p q : List (Text × ℤ)} (hsplit : st.recallIndex.ranked = p ++ q) (hfits : Fits st p)
    (hstop : ∀ e q', q = e :: q' → ¬ hasRoom st p e.1) : LongestKept st p where
  isPrefix := ⟨q, hsplit.symm⟩
  fits := hfits
  longest other hother hfits' := by
    by_contra hlong
    rw [hsplit] at hother
    obtain ⟨t, rfl⟩ := List.prefix_of_prefix_length_le ⟨q, rfl⟩ hother (Nat.le_of_not_le hlong)
    obtain ⟨more, rfl⟩ := (List.prefix_append_right_inj p).mp hother
    cases t with
    | nil => simp at hlong
    | cons e t => exact hstop e (t ++ more) rfl (hfits' p e t rfl)

/-! ## The size -/

theorem length_print_object (members : List (Text × JsonValue)) :
    (object members).print.length = (printMembers members).length + 2 := by
  rw [print, List.length_append]
  rfl
theorem length_print_array (items : List JsonValue) : (array items).print.length = (printItems items).length + 2 := by
  rw [print, List.length_append]
  rfl
theorem length_printMembers_cons (key : Text) (v : JsonValue) (m : Text × JsonValue) (rest : List (Text × JsonValue)) :
    (printMembers ((key, v) :: m :: rest)).length = (cjsonEscape key).length + v.print.length +
      (printMembers (m :: rest)).length + 2 := by
  rw [printMembers, List.length_append, List.length_append, List.length_cons, List.length_cons]
  omega
theorem length_printMembers_singleton (key : Text) (v : JsonValue) :
    (printMembers [(key, v)]).length = (cjsonEscape key).length + v.print.length + 1 := by
  rw [printMembers, List.length_append]
  rfl
theorem length_printItems_nil : (printItems []).length = 0 := by
  rw [printItems, List.length_nil]
theorem length_newNumber (n : ℤ) : (newNumber n).print.length = (cjsonNumber (float64 n)).length := by
  rw [newNumber, print]
theorem length_stateDoc (st : ReduceState) (keys : List (Text × ℤ)) (kept dropped : ℕ) :
    (stateDoc st keys kept dropped).print.length + 2 = (stateDoc st [] 0 0).print.length +
      (printItems (keys.map recallEntry)).length + (cjsonNumber (float64 kept)).length +
        (cjsonNumber (float64 dropped)).length := by
  have hzero : (cjsonNumber (float64 (0 : ℕ))).length = 1 := by decide
  simp only [stateDoc, length_print_object, length_printMembers_cons, length_printMembers_singleton, length_newNumber,
    length_print_array, hzero, List.map_nil, length_printItems_nil]
  omega

theorem length_recallEntry (h : PlainText e.1) :
    (recallEntry e).print.length = 13 + e.1.length + (cjsonNumber (float64 e.2)).length := by
  have hk : (cjsonEscape (utf8 "k")).length = 3 := by decide
  have ht : (cjsonEscape (utf8 "t")).length = 3 := by decide
  have hkey : (string e.1).print.length = e.1.length + 2 := by
    rw [print, cjsonEscape_plain h.plain, List.length_append]
    rfl
  simp only [recallEntry, length_print_object, length_printMembers_cons, length_printMembers_singleton,
    length_newNumber, hk, ht, hkey]
  omega

theorem length_printItems_snoc (items : List JsonValue) (v : JsonValue) :
    (printItems items).length + v.print.length ≤ (printItems (items ++ [v])).length ∧
      (printItems (items ++ [v])).length ≤ (printItems items).length + v.print.length + 1 := by
  induction items with
  | nil => simp [printItems]
  | cons w items ih =>
    cases items with
    | nil =>
      simp only [List.singleton_append, printItems, List.length_append, List.length_cons]
      omega
    | cons x items =>
      simp only [List.cons_append, printItems, List.length_append, List.length_cons] at ih ⊢
      omega

theorem length_items_ge (h : ∀ e ∈ keys, PlainText e.1) :
    13 * keys.length ≤ (printItems (keys.map recallEntry)).length := by
  induction keys using List.reverseRecOn with
  | nil => exact Nat.zero_le _
  | append_singleton keys e ih =>
    have hkeys := ih fun x hx => h x (List.mem_append_left _ hx)
    have hentry := length_recallEntry (h e (by simp))
    have hsnoc := (length_printItems_snoc (keys.map recallEntry) (recallEntry e)).1
    rw [List.map_append, List.map_singleton, List.length_append, List.length_singleton]
    omega

/-- The numbers of a state are exact. -/
structure ReduceState.Exact (st : ReduceState) : Prop where
  turn : Economizer.Exact st.turn
  frozenSplit : Economizer.Exact st.freeze.frozenSplit
  tailCapMsgs : Economizer.Exact st.freeze.tailCapMsgs
  epochs : Economizer.Exact st.freeze.epochs
  lastTurns : ∀ e ∈ st.recallIndex, Economizer.Exact e.2

theorem length_base (h : st.Exact) : (stateDoc st [] 0 0).print.length ≤ 500 := by
  have hnames : ∀ s ∈ ["turn", "freeze", "recall", "recall_kept", "recall_dropped", "active",
      "frozen_split", "tail_cap_msgs", "epochs",
      "prefix_digest"], (cjsonEscape (utf8 s)).length ≤ 16 := by decide
  simp only [List.forall_mem_cons] at hnames
  have hzero : (cjsonNumber (float64 (0 : ℕ))).length = 1 := by decide
  have hactive : (cjsonNumber (float64 (if st.freeze.active then 1 else 0))).length = 1 := by
    cases st.freeze.active <;> decide
  have hdigest : (string (formatHex st.freeze.prefixDigest.toNat)).print.length ≤ 18 := by
    have hlen : (formatHex st.freeze.prefixDigest.toNat).length ≤ 16 := by
      rw [formatHex, List.length_map, Nat.length_toDigits_le_iff (by decide) (by decide)]
      exact st.freeze.prefixDigest.toNat_lt
    rw [print, cjsonEscape_plain (plainText_formatHex _).plain, List.length_append, List.length_cons,
      List.length_singleton]
    omega
  have hturn := length_cjsonNumber h.turn
  have hsplit := length_cjsonNumber h.frozenSplit
  have htail := length_cjsonNumber h.tailCapMsgs
  have hepochs := length_cjsonNumber h.epochs
  simp only [stateDoc, freezeDoc, length_print_object, length_printMembers_cons,
    length_printMembers_singleton, length_newNumber,
    length_print_array, List.map_nil, length_printItems_nil, hzero, hactive, float64_of_exact h.turn,
      float64_of_exact h.frozenSplit,
    float64_of_exact h.tailCapMsgs, float64_of_exact h.epochs]
  omega

/-! ## The whole trip -/

theorem restore_stateDoc (hst : st.Exact) (hkeys : ∀ e ∈ keys, PlainText e.1 ∧ e.1 ≠ [] ∧ Exact e.2)
    (hnodup : (keys.map (·.1)).Nodup) (kept dropped : ℕ) (platform : ℤ) (old : ReduceState) :
    restoreState platform old (stateDoc st keys kept dropped).print =
      ({ st with reduced := false, recallIndex := keys }, none) := by
  have hparse := parse_print (reads_stateDoc st (fun e he => (hkeys e he).1) kept dropped)
  have hne : (stateDoc st keys kept dropped).print ≠ [] := by
    exact List.cons_ne_nil _ _
  have hindex := foldl_restoreEntry platform [] hnodup (fun e he => (hkeys e he).2.1) fun e he => (hkeys e he).2.2
  have hactive : nonZero (cjsonNumber (float64 (if st.freeze.active then 1 else 0))) = st.freeze.active := by
    cases st.freeze.active <;> decide +kernel
  have hdigest : parseHex 0 (formatHex st.freeze.prefixDigest.toNat) = st.freeze.prefixDigest.toNat := by
    have hread := parseHex_formatHex st.freeze.prefixDigest.toNat_lt []
    rwa [List.append_nil] at hread
  have hfreeze : restoreFreeze platform (some (freezeDoc st.freeze)) = st.freeze := by
    simp [restoreFreeze, freezeDoc, intField, get_cons, newNumber, hactive, hdigest, float64_of_exact,
      intOf_cjsonNumber, hst.frozenSplit, hst.tailCapMsgs, hst.epochs]
  rw [restoreState, if_neg hne, hparse, stateDoc]
  simp [get_cons, hfreeze, hindex, intField, newNumber, float64_of_exact hst.turn, intOf_cjsonNumber hst.turn]

/-- The counters take no more than what was left for them. -/
theorem length_kept (hst : st.Exact) (hkeys : ∀ e ∈ keys, PlainText e.1 ∧ Exact e.2)
    (hfits : Fits st keys) {dropped : ℕ} (hdropped : dropped < 10 ^ 11) :
    (stateDoc st keys keys.length dropped).print.length ≤ reduceStateSerialMax := by
  have hdoc := length_stateDoc st keys keys.length dropped
  have hcount := length_count hdropped (by decide) (by decide)
  rcases List.eq_nil_or_concat keys with rfl | ⟨before, e, rfl⟩
  · have hbase := length_base hst
    have hzero := @length_count 0 1 (by decide) (by decide) (by decide)
    rw [List.map_nil, length_printItems_nil] at hdoc
    simp only [List.length_nil, reduceStateSerialMax] at hdoc hzero ⊢
    omega
  · rw [List.concat_eq_append] at hkeys hfits hdoc ⊢
    have hroom := of_decide_eq_true (hfits before e [] rfl)
    obtain ⟨hkey, hturn⟩ := hkeys e (by simp)
    have hentry := length_recallEntry hkey
    have hnumber := length_cjsonNumber hturn
    have hbefore := length_stateDoc st before 0 0
    have hzero : (cjsonNumber (float64 (0 : ℕ))).length = 1 := by decide
    have hmany := length_items_ge fun x hx => (hkeys x (List.mem_append_left _ hx)).1
    have hsnoc := (length_printItems_snoc (before.map recallEntry) (recallEntry e)).2
    have hkept := @length_count (before ++ [e]).length 3 (by
      rw [List.length_append, List.length_singleton]
      unfold reduceStateSerialMax at hroom
      omega) (by decide) (by decide)
    rw [List.map_append, List.map_singleton] at hdoc
    rw [float64_of_exact hturn] at hentry
    omega

theorem ranked_perm (ix : RecallIndex) : ix.ranked.Perm ix := List.perm_insertionSort _ ix

theorem RecallIndex.ranked_sorted (ix : RecallIndex) : ix.ranked.Pairwise fun a b => b.2 ≤ a.2 := by
  exact List.pairwise_insertionSort _ ix

/-- A state with exact numbers and plain keys is stored within the bound and comes back with the keys that fit. -/
theorem serialize_restore {st : ReduceState} (hst : st.Exact) (hindex : st.recallIndex.WellFormed)
    (hplain : ∀ e ∈ st.recallIndex, PlainText e.1) :
    (st.recallIndex.ranked.Perm st.recallIndex ∧ (st.recallIndex.ranked.Pairwise fun a b => b.2 ≤ a.2) ∧
      LongestKept st (keptKeys st)) ∧
      (st.recallIndex.length < 10 ^ 11 → (serializeState st).isSome) ∧
      (∀ blob, serializeState st = some blob → blob.length ≤ 6144 ∧
        ∀ platform old, restoreState platform old blob =
          ({ st with reduced := false, recallIndex := keptKeys st }, none)) ∧
      ∀ platform old blob fault, (restoreState platform old blob).2 = some fault →
        (restoreState platform old blob).1 = old := by
  have hperm := ranked_perm st.recallIndex
  have hmem : ∀ e ∈ st.recallIndex.ranked, e ∈ st.recallIndex := fun e he => hperm.mem_iff.mp he
  obtain ⟨p, q, hsplit, hkeep, hfits, hstop⟩ := keepKeys_spec st [] fun e he => hindex.nonempty e (hmem e he)
  rw [List.nil_append] at hkeep hstop
  have hkept : keptKeys st = p := congrArg Prod.fst hkeep
  have hof : ∀ e ∈ p, e ∈ st.recallIndex := fun e he => hmem e (hsplit ▸ List.mem_append_left q he)
  have hout : serializeState st =
      if reduceStateSerialMax < (stateDoc st p p.length q.length).print.length then none else
        some (stateDoc st p p.length q.length).print := by
    rw [serializeState, hkeep]
  refine ⟨⟨hperm, st.recallIndex.ranked_sorted, hkept ▸ longestKept hsplit hfits hstop⟩, fun hlen =>
    ?_, fun blob hblob => ?_, ?_⟩
  · have hdropped : q.length < 10 ^ 11 := by
      have htotal := hperm.length_eq
      rw [hsplit, List.length_append] at htotal
      omega
    have hle := length_kept hst (fun e he => ⟨hplain e (hof e he), hst.lastTurns e (hof e he)⟩) hfits hdropped
    rw [hout, if_neg (Nat.not_lt.mpr hle)]
    rfl
  · rw [hout] at hblob
    split_ifs at hblob with hlong
    obtain rfl := Option.some.inj hblob
    refine ⟨Nat.not_lt.mp hlong, fun platform old => ?_⟩
    have hnodup : (p.map (·.1)).Nodup := by
      have hall := (hperm.map (·.1)).nodup_iff.mpr hindex.nodup
      rw [hsplit, List.map_append] at hall
      exact hall.of_append_left
    rw [hkept]
    exact restore_stateDoc hst (fun e he =>
      ⟨hplain e (hof e he), hindex.nonempty e (hof e he), hst.lastTurns e (hof e he)⟩) hnodup _ _
      platform old
  · intro platform old blob fault
    unfold restoreState
    split_ifs
    · exact fun _ => rfl
    · split
      · exact fun h => nomatch h
      · exact fun _ => rfl

/-- A state with a path and a handle in its index. -/
theorem serialize_restore_two :
    let st : ReduceState := ⟨⟨true, 4, 2, 1, 0xdeadbeef⟩, true, 9, [(utf8 "src/retry.c", 4), (utf8 "memory:8817", 7)]⟩
    ∃ blob, serializeState st = some blob ∧ blob.length ≤ 6144 ∧
      ∀ platform old, (restoreState platform old blob).1.freeze = st.freeze := by
  intro st
  have hexact : st.Exact := by constructor <;> simp [st, Exact]
  have hnames : ∀ e ∈ st.recallIndex, (e.1.all fun c => decide (Plain c ∧ c < 0x80)) ∧ e.1 ≠ [] := by decide
  have hplain : ∀ e ∈ st.recallIndex, PlainText e.1 := fun e he => by
    have hchars := fun c hc => of_decide_eq_true (List.all_eq_true.mp (hnames e he).1 c hc)
    have hjoins := joins_ascii (fun c hc => (hchars c hc).2) []
    rw [List.append_nil] at hjoins
    exact ⟨fun c hc => (hchars c hc).1, hjoins⟩
  have hall := serialize_restore hexact ⟨by decide, fun e he => (hnames e he).2⟩ hplain
  obtain ⟨blob, hblob⟩ := Option.isSome_iff_exists.mp (hall.2.1 (by decide))
  obtain ⟨hlen, hback⟩ := hall.2.2.1 blob hblob
  exact ⟨blob, hblob, hlen, fun platform old => by rw [hback]⟩

/-- A turn past the doubles that are spelled exactly, and a key that is no UTF-8. -/
theorem serialize_restore_lossy :
    let vast : ReduceState := ⟨⟨false, 0, 0, 0, 0⟩, false, 2 ^ 53 + 1, []⟩
    let raw : ReduceState := ⟨⟨false, 0, 0, 0, 0⟩, false, 0, [([0xFF], -1)]⟩
    (cjsonEscape [0xFF] = [34, 0xFF, 34]) ∧
      (serializeState vast).map (fun blob => (restoreState 0 raw blob).1.turn) = some (2 ^ 53 - 2) ∧
      (serializeState raw).map (fun blob => (restoreState 0 vast blob).2) = some (some .invalid) := by
  decide +kernel

end Economizer
