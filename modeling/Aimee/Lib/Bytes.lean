-- SUMMARY: Byte blocks, C strings, and the injectivity of decimal, big-endian and length-prefixed encodings.
import Mathlib.Data.List.TakeWhile
import Mathlib.Tactic.Linarith
import Mathlib.Tactic.Ring

/-!
# Byte-level encodings

The vocabulary shared by every wire format and hash preimage: fixed-size
buffers, NUL-terminated strings, and the three ways a value is written into a
byte string. A decimal length followed by a colon, a big-endian integer, and a
big-endian length each delimit what follows, so an encoded value can be split off
the front of a longer byte string in one way only. The `_append_inj` lemmas say
this for each encoding; injectivity of a whole record is a chain of them.
-/

instance lawfulBEqBytes : LawfulBEq (List UInt8) := inferInstance

/-- A buffer of exactly `n` bytes, the value of a `uint8_t[n]`. -/
abbrev Block (n : Nat) := { bs : List UInt8 // bs.length = n }

/-- A NUL-terminated string, without its terminator. -/
abbrev CString := { bs : List UInt8 // (0 : UInt8) ∉ bs }

/-- The bytes of an ASCII literal. -/
def ascii (s : String) : List UInt8 :=
  s.toList.map fun c => UInt8.ofNat c.toNat

/-- Two fixed-size buffers at the front of a byte string are told apart by their
    bytes alone. -/
theorem Block.append_inj {n : Nat} {a b : Block n} {s t : List UInt8}
    (h : a.val ++ s = b.val ++ t) : a = b ∧ s = t := by
  obtain ⟨hab, hst⟩ := List.append_inj h (by rw [a.property, b.property])
  exact ⟨Subtype.ext hab, hst⟩

namespace CString

/-- Read a C string from a buffer: everything before the first NUL. -/
def ofBytes (bs : List UInt8) : CString :=
  ⟨bs.takeWhile (· ≠ 0), fun h => by simpa using List.mem_takeWhile_imp h⟩

def ofAscii (s : String) : CString := ofBytes (ascii s)

/-- The empty string. -/
def empty : CString := ⟨[], by simp⟩

/-- `snprintf(dst, n + 1, "%s", s)`: at most `n` bytes are copied. -/
def truncate (n : Nat) (s : CString) : CString :=
  ⟨s.val.take n, fun h => s.property (List.mem_of_mem_take h)⟩

/-- The text `snprintf` writes for a format whose pieces are the given strings. -/
def concat (pieces : List CString) : CString :=
  ⟨pieces.flatMap (·.val), fun h => by
    obtain ⟨s, -, hs⟩ := List.mem_flatMap.mp h
    exact s.property hs⟩

/-- `strcmp`: byte-wise, as unsigned characters. -/
def strcmp (a b : CString) : Ordering := compare a.val b.val

instance : Std.TransCmp strcmp :=
  inferInstanceAs (Std.TransCmp (compareOn fun s : CString => s.val))

theorem strcmp_eq_iff {a b : CString} : strcmp a b = .eq ↔ a = b := by
  unfold strcmp
  rw [Std.LawfulEqOrd.compare_eq_iff_eq, Subtype.ext_iff]

@[simp] theorem empty_val : empty.val = [] := rfl

theorem truncate_of_length_le {n : Nat} {s : CString} (h : s.val.length ≤ n) :
    s.truncate n = s :=
  Subtype.ext (List.take_of_length_le h)

theorem ofBytes_of_not_mem {bs : List UInt8} (h : (0 : UInt8) ∉ bs) :
    ofBytes bs = ⟨bs, h⟩ := by
  apply Subtype.ext
  simp only [ofBytes, List.takeWhile_eq_self_iff]
  intro b hb
  simpa using fun h0 : b = 0 => h (h0 ▸ hb)

end CString

namespace Wire

/-! ## Decimal numbers -/

/-- `%zu`: the decimal digits of a number, most significant first. -/
def decimal (n : Nat) : List UInt8 :=
  (Nat.toDigits 10 n).map fun c => UInt8.ofNat c.toNat

/-- `%lld`: a sign where needed, then the digits. -/
def decimalInt : Int → List UInt8
  | .ofNat n => decimal n
  | .negSucc n => 45 :: decimal (n + 1)

private theorem digit_toNat_lt {c : Char} (h : c.isDigit = true) :
    48 ≤ c.toNat ∧ c.toNat ≤ 57 := by
  simp only [Char.isDigit, Bool.and_eq_true, decide_eq_true_eq] at h
  exact ⟨h.1, h.2⟩

private theorem digit_byte_inj {c d : Char} (hc : c.isDigit = true) (hd : d.isDigit = true)
    (h : UInt8.ofNat c.toNat = UInt8.ofNat d.toNat) : c = d := by
  have hc' := digit_toNat_lt hc
  have hd' := digit_toNat_lt hd
  have hn : c.toNat % 256 = d.toNat % 256 := by
    simpa using congrArg UInt8.toNat h
  have : c.toNat = d.toNat := by omega
  exact Char.toNat_inj.mp this

private theorem map_digit_inj {l m : List Char} (hl : ∀ c ∈ l, c.isDigit = true)
    (hm : ∀ c ∈ m, c.isDigit = true)
    (h : l.map (fun c => UInt8.ofNat c.toNat) = m.map (fun c => UInt8.ofNat c.toNat)) :
    l = m := by
  induction l generalizing m with
  | nil => simpa using h.symm
  | cons c l ih =>
    cases m with
    | nil => simp at h
    | cons d m =>
      simp only [List.map_cons, List.cons.injEq] at h
      have hcd := digit_byte_inj (hl c (by simp)) (hm d (by simp)) h.1
      have hlm := ih (fun c hc => hl c (by simp [hc])) (fun c hc => hm c (by simp [hc])) h.2
      rw [hcd, hlm]

private theorem toDigits_isDigit {n : Nat} {c : Char} (h : c ∈ Nat.toDigits 10 n) :
    c.isDigit = true :=
  Nat.isDigit_of_mem_toDigits (by omega) (by omega) h

theorem decimal_inj {m n : Nat} (h : decimal m = decimal n) : m = n := by
  have hd := map_digit_inj (fun _ => toDigits_isDigit) (fun _ => toDigits_isDigit) h
  rw [← Nat.ofDigitChars_ten_toDigits (n := m), hd, Nat.ofDigitChars_ten_toDigits]

/-- Decimal digits are the bytes `0x30` to `0x39`. -/
theorem mem_decimal {n : Nat} {b : UInt8} (h : b ∈ decimal n) : 48 ≤ b.toNat ∧ b.toNat ≤ 57 := by
  simp only [decimal, List.mem_map] at h
  obtain ⟨c, hc, rfl⟩ := h
  have hd := digit_toNat_lt (toDigits_isDigit hc)
  have : (UInt8.ofNat c.toNat).toNat = c.toNat := by simp; omega
  omega

theorem decimalInt_inj {a b : Int} (h : decimalInt a = decimalInt b) : a = b := by
  -- The sign byte `-` is no digit, so the two constructors cannot be confused.
  have hsign : ∀ {m : Nat} {t : List UInt8}, decimal m ≠ 45 :: t := by
    intro m t hm
    have := mem_decimal (n := m) (b := 45) (by rw [hm]; simp)
    exact absurd this.1 (by decide)
  cases a with
  | ofNat m =>
    cases b with
    | ofNat n => rw [decimal_inj h]
    | negSucc n => exact absurd h hsign
  | negSucc m =>
    cases b with
    | ofNat n => exact absurd h.symm hsign
    | negSucc n =>
      simp only [decimalInt, List.cons.injEq, true_and] at h
      rw [Nat.succ.inj (decimal_inj h)]

/-! ## Separated fields -/

/-- Between the fields of a line there is one separator less than there are fields. -/
theorem count_intercalate (sep : UInt8) {fields : List (List UInt8)} (h : fields ≠ []) :
    ([sep].intercalate fields).count sep + 1 = (fields.map (·.count sep)).sum + fields.length := by
  induction fields with
  | nil => contradiction
  | cons f fields ih =>
    cases fields with
    | nil => simp
    | cons g fields =>
      have ih := ih (by simp)
      rw [List.intercalate_cons_cons, List.count_append, List.count_append, List.map_cons, List.sum_cons,
        List.length_cons, List.count_singleton_self]
      omega

/-- Fields without the separator are read off a line, whatever the fields it was made from, once their number
    is known. -/
theorem intercalate_inj {sep : UInt8} {fs gs : List (List UInt8)} (hlen : gs.length = fs.length)
    (hfs : ∀ f ∈ fs, sep ∉ f) (h : [sep].intercalate gs = [sep].intercalate fs) : gs = fs := by
  by_cases hnil : fs = []
  · rw [hnil] at hlen ⊢
    exact List.length_eq_zero_iff.mp hlen
  have hnil' : gs ≠ [] := fun hgs => hnil (List.length_eq_zero_iff.mp (by rw [← hlen, hgs, List.length_nil]))
  have hzero : (fs.map (·.count sep)).sum = 0 := by
    rw [List.sum_eq_zero_iff_forall_eq_nat]
    rintro n hn
    obtain ⟨f, hf, rfl⟩ := List.mem_map.mp hn
    exact List.count_eq_zero.mpr (hfs f hf)
  have hgs : ∀ g ∈ gs, sep ∉ g := by
    have hcount := count_intercalate sep hnil'
    rw [h, hlen, count_intercalate sep hnil] at hcount
    intro g hg
    have hsum : (gs.map (·.count sep)).sum = 0 := by omega
    exact List.count_eq_zero.mp (List.sum_eq_zero_iff_forall_eq_nat.mp hsum _ (List.mem_map.mpr ⟨g, hg, rfl⟩))
  rw [← List.splitOn_intercalate sep hgs hnil', h, List.splitOn_intercalate sep hfs hnil]

/-! ## Length-prefixed fields -/

/-- A field preceded by its length in decimal and a colon. -/
def netstring (v : List UInt8) : List UInt8 :=
  decimal v.length ++ 58 :: v

/-- The first occurrence of a separator splits a byte string in one way. -/
theorem append_cons_inj {sep : UInt8} {a b s t : List UInt8} (ha : sep ∉ a)
    (hb : sep ∉ b) (h : a ++ sep :: s = b ++ sep :: t) : a = b ∧ s = t := by
  induction a generalizing b with
  | nil =>
    cases b with
    | nil => simpa using h
    | cons y b =>
      simp only [List.nil_append, List.cons_append, List.cons.injEq] at h
      exact absurd (h.1 ▸ List.mem_cons_self) hb
  | cons x a ih =>
    cases b with
    | nil =>
      simp only [List.nil_append, List.cons_append, List.cons.injEq] at h
      exact absurd (h.1 ▸ List.mem_cons_self) ha
    | cons y b =>
      simp only [List.cons_append, List.cons.injEq] at h
      obtain ⟨hab, hst⟩ := ih (fun hm => ha (by simp [hm])) (fun hm => hb (by simp [hm])) h.2
      exact ⟨by rw [h.1, hab], hst⟩

theorem netstring_append_inj {v w s t : List UInt8}
    (h : netstring v ++ s = netstring w ++ t) : v = w ∧ s = t := by
  have hcolon : ∀ n : Nat, (58 : UInt8) ∉ decimal n := fun n hm =>
    absurd (mem_decimal hm).2 (by decide)
  simp only [netstring, List.append_assoc, List.cons_append] at h
  obtain ⟨hlen, hrest⟩ := append_cons_inj (hcolon _) (hcolon _) h
  exact List.append_inj hrest (decimal_inj hlen)

/-- A list of netstrings determines the fields it was built from, once their
    number is known. -/
theorem flatMap_netstring_inj {vs ws : List (List UInt8)} (hlen : vs.length = ws.length)
    (h : vs.flatMap netstring = ws.flatMap netstring) : vs = ws := by
  induction vs generalizing ws with
  | nil => simpa using hlen.symm
  | cons v vs ih =>
    cases ws with
    | nil => simp at hlen
    | cons w ws =>
      obtain ⟨hv, hrest⟩ := netstring_append_inj h
      rw [hv, ih (by simpa using hlen) hrest]

/-! ## Big-endian integers -/

/-- The low `n` bytes of `v`, most significant first: byte `i` is
    `v >> (8 * (n - 1 - i))`, cut to eight bits. -/
def beBytes : Nat → Nat → List UInt8
  | 0, _ => []
  | n + 1, v => UInt8.ofNat (v >>> (8 * n)) :: beBytes n v

/-- The number a big-endian byte string spells. -/
def beNat (bs : List UInt8) : Nat :=
  bs.foldl (fun v b => v * 256 + b.toNat) 0

@[simp] theorem length_beBytes (n v : Nat) : (beBytes n v).length = n := by
  induction n with
  | zero => rfl
  | succ n ih => simp [beBytes, ih]

private theorem foldl_beNat (bs : List UInt8) (v : Nat) :
    bs.foldl (fun v b => v * 256 + b.toNat) v = v * 256 ^ bs.length + beNat bs := by
  induction bs generalizing v with
  | nil => simp [beNat]
  | cons b bs ih =>
    simp only [beNat, List.foldl_cons, List.length_cons, Nat.zero_mul, Nat.zero_add]
    rw [ih, ih b.toNat]
    ring

theorem beNat_cons (b : UInt8) (bs : List UInt8) :
    beNat (b :: bs) = b.toNat * 256 ^ bs.length + beNat bs := by
  rw [← foldl_beNat bs b.toNat]
  simp [beNat]

theorem beNat_lt (bs : List UInt8) : beNat bs < 256 ^ bs.length := by
  induction bs with
  | nil => simp [beNat]
  | cons b bs ih =>
    have hb := b.toNat_lt
    rw [beNat_cons, List.length_cons, Nat.pow_succ]
    nlinarith [Nat.pow_pos (n := bs.length) (show 0 < 256 by omega)]

theorem beNat_beBytes (n v : Nat) : beNat (beBytes n v) = v % 256 ^ n := by
  induction n with
  | zero => simp [beBytes, beNat, Nat.mod_one]
  | succ n ih =>
    rw [beBytes, beNat_cons, ih, length_beBytes, UInt8.toNat_ofNat', Nat.shiftRight_eq_div_pow,
      show 2 ^ (8 * n) = 256 ^ n from by rw [Nat.pow_mul], Nat.pow_succ 256 n, Nat.mod_mul]
    ring

theorem beBytes_inj {n v w : Nat} (hv : v < 256 ^ n) (hw : w < 256 ^ n)
    (h : beBytes n v = beBytes n w) : v = w := by
  have := congrArg beNat h
  rwa [beNat_beBytes, beNat_beBytes, Nat.mod_eq_of_lt hv, Nat.mod_eq_of_lt hw] at this

theorem beBytes_append_inj {n v w : Nat} {s t : List UInt8} (hv : v < 256 ^ n)
    (hw : w < 256 ^ n) (h : beBytes n v ++ s = beBytes n w ++ t) : v = w ∧ s = t := by
  obtain ⟨hvw, hst⟩ := List.append_inj h (by simp)
  exact ⟨beBytes_inj hv hw hvw, hst⟩

theorem beNat_inj {bs cs : List UInt8} (hlen : bs.length = cs.length)
    (h : beNat bs = beNat cs) : bs = cs := by
  induction bs generalizing cs with
  | nil => simpa using hlen.symm
  | cons b bs ih =>
    cases cs with
    | nil => simp at hlen
    | cons c cs =>
      have hlen' : bs.length = cs.length := by simpa using hlen
      rw [beNat_cons, beNat_cons, hlen'] at h
      have hb := beNat_lt bs
      have hc := beNat_lt cs
      rw [hlen'] at hb
      have hhead : b.toNat = c.toNat := by
        rcases Nat.lt_trichotomy b.toNat c.toNat with hlt | heq | hgt
        · nlinarith
        · exact heq
        · nlinarith
      have htail : beNat bs = beNat cs := by
        rw [hhead] at h
        omega
      rw [UInt8.toNat_inj.mp hhead, ih hlen' htail]

theorem beBytes_beNat (bs : List UInt8) : beBytes bs.length (beNat bs) = bs := by
  refine beNat_inj (length_beBytes _ _) ?_
  rw [beNat_beBytes, Nat.mod_eq_of_lt (beNat_lt bs)]

/-- `memcmp` on strings of one length is the order of the numbers they spell. -/
theorem beNat_lt_of_compare {bs cs : List UInt8} (hlen : bs.length = cs.length)
    (h : compare bs cs = .lt) : beNat bs < beNat cs := by
  induction bs generalizing cs with
  | nil =>
    rw [List.eq_nil_of_length_eq_zero hlen.symm] at h
    cases h
  | cons b bs ih =>
    cases cs with
    | nil => cases hlen
    | cons c cs =>
      have hlen' : bs.length = cs.length := by simpa using hlen
      have hb := beNat_lt bs
      rw [List.compare_cons_cons, Ordering.then_eq_lt] at h
      rw [beNat_cons, beNat_cons, hlen']
      rw [hlen'] at hb
      rcases h with hlt | ⟨heq, hrest⟩
      · have hbc : b.toNat + 1 ≤ c.toNat := Std.compare_eq_lt.mp hlt
        nlinarith
      · rw [Std.LawfulEqOrd.compare_eq_iff_eq.mp heq]
        have := ih hlen' hrest
        omega

/-- `put_u16`, `put_u32` and `put_u64`. -/
def putU16 (v : UInt16) : List UInt8 := beBytes 2 v.toNat
def putU32 (v : UInt32) : List UInt8 := beBytes 4 v.toNat
def putU64 (v : UInt64) : List UInt8 := beBytes 8 v.toNat

/-- `get_u16`, `get_u32` and `get_u64` on the bytes they read. -/
def getU16 (bs : List UInt8) : UInt16 := UInt16.ofNat (beNat bs)
def getU32 (bs : List UInt8) : UInt32 := UInt32.ofNat (beNat bs)
def getU64 (bs : List UInt8) : UInt64 := UInt64.ofNat (beNat bs)

@[simp] theorem length_putU16 (v : UInt16) : (putU16 v).length = 2 := length_beBytes _ _
@[simp] theorem length_putU32 (v : UInt32) : (putU32 v).length = 4 := length_beBytes _ _
@[simp] theorem length_putU64 (v : UInt64) : (putU64 v).length = 8 := length_beBytes _ _

theorem putU16_getU16 {bs : List UInt8} (h : bs.length = 2) : putU16 (getU16 bs) = bs := by
  have hlt : beNat bs < 2 ^ 16 := by simpa [h] using beNat_lt bs
  rw [putU16, getU16, UInt16.toNat_ofNat_of_lt' hlt, ← h, beBytes_beNat]

theorem putU32_getU32 {bs : List UInt8} (h : bs.length = 4) : putU32 (getU32 bs) = bs := by
  have hlt : beNat bs < 2 ^ 32 := by simpa [h] using beNat_lt bs
  rw [putU32, getU32, UInt32.toNat_ofNat_of_lt' hlt, ← h, beBytes_beNat]

theorem getU32_putU32 (v : UInt32) : getU32 (putU32 v) = v := by
  have hlt : v.toNat < 256 ^ 4 := v.toNat_lt
  rw [getU32, putU32, beNat_beBytes, Nat.mod_eq_of_lt hlt, UInt32.ofNat_toNat]

theorem putU64_append_inj {v w : UInt64} {s t : List UInt8}
    (h : putU64 v ++ s = putU64 w ++ t) : v = w ∧ s = t := by
  obtain ⟨hvw, hst⟩ := beBytes_append_inj v.toNat_lt w.toNat_lt h
  exact ⟨UInt64.toNat_inj.mp hvw, hst⟩

theorem putU16_append_inj {v w : UInt16} {s t : List UInt8}
    (h : putU16 v ++ s = putU16 w ++ t) : v = w ∧ s = t := by
  obtain ⟨hvw, hst⟩ := beBytes_append_inj v.toNat_lt w.toNat_lt h
  exact ⟨UInt16.toNat_inj.mp hvw, hst⟩

/-- A field preceded by its length as a 32-bit big-endian integer. -/
def packText (v : List UInt8) : List UInt8 :=
  putU32 (UInt32.ofNat v.length) ++ v

theorem packText_append_inj {v w s t : List UInt8} (hv : v.length < 2 ^ 32)
    (hw : w.length < 2 ^ 32) (h : packText v ++ s = packText w ++ t) : v = w ∧ s = t := by
  have hmod : ∀ n, n < 2 ^ 32 → (UInt32.ofNat n).toNat = n := fun n hn => by
    simpa using Nat.mod_eq_of_lt hn
  simp only [packText, putU32, List.append_assoc, hmod _ hv, hmod _ hw] at h
  obtain ⟨hlen, hrest⟩ := beBytes_append_inj hv hw h
  exact List.append_inj hrest hlen

end Wire

/-- A number as `%zu` prints it into a C string. -/
def CString.decimal (n : Nat) : CString :=
  ⟨Wire.decimal n, fun h => absurd (Wire.mem_decimal h).1 (by decide)⟩
