-- SUMMARY: The base64 codec: its variants and profiles, what a canonical profile accepts, and the profile of the vault records.
import Aimee.Lib.Bytes

/-!
# Base64

`core/codec/base64.c`. The encoder walks its input in groups of three bytes; the decoder shifts six
bits at a time into an accumulator and takes a byte out of it whenever there are eight. The vault
uses one variant and one profile: written with the URL alphabet and without padding, read back with
any trailing bits.
-/

namespace Base64

def sizeMax : ℕ := 2 ^ 64 - 1

/-- `aimee_base64_variant_t`. -/
inductive Variant where
  | standard
  | url
  deriving DecidableEq

/-- `aimee_base64_profile_t`. -/
inductive Profile where
  | standardCanonical
  | standardTextCompat
  | urlCanonical
  | urlCompat
  deriving DecidableEq

namespace Variant

/-- `STANDARD` and `URL`. -/
def alphabet : Variant → List UInt8
  | standard => ascii "ABCDEFGHIJKLMNOPQRSTUVWXYZabcdefghijklmnopqrstuvwxyz0123456789+/"
  | url => ascii "ABCDEFGHIJKLMNOPQRSTUVWXYZabcdefghijklmnopqrstuvwxyz0123456789-_"

/-- The character of a six-bit digit. -/
def symbol (v : Variant) (value : ℕ) : UInt8 := v.alphabet.getD (value % 64) 0

def digit (v : Variant) (c : UInt8) : Option ℕ :=
  if 65 ≤ c ∧ c ≤ 90 then some (c.toNat - 65)
  else if 97 ≤ c ∧ c ≤ 122 then some (c.toNat - 97 + 26)
  else if 48 ≤ c ∧ c ≤ 57 then some (c.toNat - 48 + 52)
  else if c = (if v = url then 45 else 43) then some 62
  else if c = (if v = url then 95 else 47) then some 63
  else none

/-- `aimee_codec_base64_capacity`: zero where the size does not fit. -/
def capacity (v : Variant) (length : ℕ) : ℕ :=
  let groups := length / 3
  let rem := length % 3
  let tail := if rem = 0 then 0 else if v = url then rem + 1 else 4
  if (sizeMax - 1 - tail) / 4 < groups then 0 else groups * 4 + tail + 1

/-- The loop of `aimee_codec_base64_encode`. -/
def encode (v : Variant) : List UInt8 → List UInt8
  | a :: b :: c :: rest =>
      let value := a.toNat * 65536 + b.toNat * 256 + c.toNat
      v.symbol (value / 262144) :: v.symbol (value / 4096) :: v.symbol (value / 64) :: v.symbol value :: v.encode rest
  | [a, b] =>
      let value := a.toNat * 65536 + b.toNat * 256
      v.symbol (value / 262144) :: v.symbol (value / 4096) :: v.symbol (value / 64) :: if v = standard then [61] else []
  | [a] =>
      let value := a.toNat * 65536
      v.symbol (value / 262144) :: v.symbol (value / 4096) :: if v = standard then [61, 61] else []
  | [] => []

/-- `aimee_codec_base64_encode`: what is written behind which a NUL stands, if there is room. -/
def encodeInto (v : Variant) (room : ℕ) (inp : List UInt8) : Option (List UInt8) :=
  let need := v.capacity inp.length
  if need = 0 ∨ room < need then none else some (v.encode inp)

def canonical : Variant → Profile
  | standard => .standardCanonical
  | url => .urlCanonical

def compat : Variant → Profile
  | standard => .standardTextCompat
  | url => .urlCompat

end Variant

namespace Profile

def variant (p : Profile) : Variant := if p = urlCanonical ∨ p = urlCompat then .url else .standard

def strict (p : Profile) : Bool := p = standardCanonical || p = urlCanonical

/-- The loop of `aimee_codec_base64_decode`: the bits of `acc` are below those shifted in, so the
    `|` of the source is a sum. With the bytes it returns the bits that are left over. -/
def decodeLoop (p : Profile) (capacity : ℕ) : (acc bits o : ℕ) → List UInt8 → Option (List UInt8 × ℕ)
  | acc, _, _, [] => some ([], acc)
  | acc, bits, o, c :: rest =>
      if p = standardTextCompat ∧ c = 61 then some ([], acc)
      else if p = standardTextCompat ∧ (c = 10 ∨ c = 13 ∨ c = 32 ∨ c = 9) then decodeLoop p capacity acc bits o rest
      else match p.variant.digit c with
      | none => none
      | some value =>
          let acc := acc * 64 + value
          let bits := bits + 6
          if 8 ≤ bits then
            if o = capacity then none
            else (decodeLoop p capacity (acc % 2 ^ (bits - 8)) (bits - 8) (o + 1) rest).map
              fun r => (UInt8.ofNat (acc / 2 ^ (bits - 8)) :: r.1, r.2)
          else decodeLoop p capacity acc bits o rest

/-- A text without the `=` at its end. -/
def stripPad (s : List UInt8) : List UInt8 := if s.getLast? = some 61 then s.dropLast else s

/-- `aimee_codec_base64_decode`. -/
def decode (p : Profile) (capacity : ℕ) (inp : List UInt8) : Option (List UInt8) :=
  if p = standardCanonical ∧ inp.length % 4 ≠ 0 ∨ p = urlCanonical ∧ inp.length % 4 = 1 then none
  else match p.decodeLoop capacity 0 0 0 (if p = standardCanonical then stripPad (stripPad inp) else inp) with
  | none => none
  | some (bytes, acc) => if p.strict && acc ≠ 0 then none else some bytes

end Profile

/-! ## The alphabet -/

variable {v : Variant} {p : Profile}

/-- The characters of a variant are spelled by one digit each, and none is padding, blank, quote or backslash. -/
theorem symbol_table :
    ∀ d < 64, v.digit (v.symbol d) = some d ∧ v.symbol d ∉ ([61, 10, 13, 32, 9, 34, 92] : List UInt8) ∧
    0x20 ≤ v.symbol d := by
  cases v <;> decide +kernel

theorem digit_symbol (v : Variant) (value : ℕ) : v.digit (v.symbol value) = some (value % 64) := by
  have hmod : v.symbol value = v.symbol (value % 64) := by rw [Variant.symbol, Variant.symbol, Nat.mod_mod]
  rw [hmod]
  exact (symbol_table _ (Nat.mod_lt _ (by decide))).1

variable {c : UInt8} {room : ℕ} {rest : List UInt8} {r : List UInt8 × ℕ} {s bs : List UInt8}

theorem symbol_ne {value : ℕ} (hc : c ∈ ([61, 10, 13, 32, 9, 34, 92] : List UInt8)) : v.symbol value ≠ c := by
  have hmod : v.symbol value = v.symbol (value % 64) := by rw [Variant.symbol, Variant.symbol, Nat.mod_mod]
  rintro rfl
  exact (symbol_table _ (Nat.mod_lt value (by decide))).2.1 (hmod ▸ hc)

theorem symbol_of_digit {d : ℕ} (h : v.digit c = some d) : d < 64 ∧ v.symbol d = c := by
  have htable : ∀ n < 256, ∀ d ∈ v.digit (UInt8.ofNat n), d < 64 ∧ v.symbol d = UInt8.ofNat n := by
    cases v <;> decide +kernel
  have hc := htable c.toNat c.toNat_lt d
  rw [UInt8.ofNat_toNat] at hc
  exact hc h

/-! ## Without padding -/

/-- What is written in front of the padding. -/
def Variant.raw (v : Variant) : List UInt8 → List UInt8
  | a :: b :: c :: rest =>
      let value := a.toNat * 65536 + b.toNat * 256 + c.toNat
      v.symbol (value / 262144) :: v.symbol (value / 4096) :: v.symbol (value / 64) :: v.symbol value :: v.raw rest
  | [a, b] =>
      let value := a.toNat * 65536 + b.toNat * 256
      [v.symbol (value / 262144), v.symbol (value / 4096), v.symbol (value / 64)]
  | [a] => [v.symbol (a.toNat * 65536 / 262144), v.symbol (a.toNat * 65536 / 4096)]
  | [] => []

def Variant.pads (v : Variant) (length : ℕ) :
    List UInt8 := if v = .standard then List.replicate ((3 - length % 3) % 3) 61 else []

theorem encode_eq (v : Variant) (bs : List UInt8) : v.encode bs = v.raw bs ++ v.pads bs.length := by
  induction bs using Variant.raw.induct with
  | case1 a b c rest ih =>
    have hlength : (a :: b :: c :: rest).length % 3 = rest.length % 3 := by
      simp only [List.length_cons]
      omega
    rw [Variant.encode, ih, Variant.pads, Variant.pads, hlength]
    rfl
  | case2 a b => cases v <;> rfl
  | case3 a => cases v <;> rfl
  | case4 => cases v <;> rfl

theorem length_raw (v : Variant) (bs : List UInt8) : (v.raw bs).length = (4 * bs.length + 2) / 3 := by
  induction bs using Variant.raw.induct with
  | case1 a b c rest ih =>
    simp only [Variant.raw, List.length_cons, ih]
    omega
  | case2 a b => simp [Variant.raw]
  | case3 a => simp [Variant.raw]
  | case4 => rfl

theorem mem_raw {bs : List UInt8} (h : c ∈ v.raw bs) : ∃ value, c = v.symbol value := by
  induction bs using Variant.raw.induct with
  | case1 a b c' rest ih =>
    simp only [Variant.raw, List.mem_cons] at h
    rcases h with rfl | rfl | rfl | rfl | h
    · exact ⟨_, rfl⟩
    · exact ⟨_, rfl⟩
    · exact ⟨_, rfl⟩
    · exact ⟨_, rfl⟩
    · exact ih h
  | case2 a b =>
    simp only [Variant.raw, List.mem_cons, List.not_mem_nil, or_false] at h
    rcases h with rfl | rfl | rfl <;> exact ⟨_, rfl⟩
  | case3 a =>
    simp only [Variant.raw, List.mem_cons, List.not_mem_nil, or_false] at h
    rcases h with rfl | rfl <;> exact ⟨_, rfl⟩
  | case4 => exact nomatch h

/-- Where the size fits, it is that of the text and a NUL. -/
theorem capacity_eq (v : Variant) (bs : List UInt8) :
    v.capacity bs.length = if (v.encode bs).length + 1 ≤ sizeMax then (v.encode bs).length + 1 else 0 := by
  have hlength : (v.encode bs).length = bs.length / 3 * 4 + if bs.length % 3 = 0 then 0 else if v =
    .url then bs.length % 3 + 1 else 4 := by
    rw [encode_eq, List.length_append, length_raw, Variant.pads]
    cases v <;> split_ifs <;> simp_all <;> omega
  rw [Variant.capacity, hlength]
  unfold sizeMax
  split_ifs <;> omega

/-! ## Reading back -/

theorem decodeLoop_symbol (p : Profile) (room acc bits o value : ℕ) (rest : List UInt8) :
    p.decodeLoop room acc bits o (p.variant.symbol value :: rest) =
      if 8 ≤ bits + 6 then
        if o = room then none
        else (p.decodeLoop room ((acc * 64 + value % 64) % 2 ^ (bits + 6 - 8)) (bits + 6 - 8) (o + 1) rest).map
          fun r => (UInt8.ofNat ((acc * 64 + value % 64) / 2 ^ (bits + 6 - 8)) :: r.1, r.2)
      else p.decodeLoop room (acc * 64 + value % 64) (bits + 6) o rest := by
  have hne : ∀ c ∈ ([61, 10, 13, 32, 9, 34, 92] : List UInt8), p.variant.symbol value ≠ c := fun c => symbol_ne
  simp [Profile.decodeLoop, hne, digit_symbol]

theorem ofNat_eq_of {n : ℕ} {a : UInt8} (h : n = a.toNat) : UInt8.ofNat n = a := by
  rw [h, UInt8.ofNat_toNat]

/-- What is written is read back up to where the loop stops. -/
theorem decodeLoop_raw {tail : List UInt8}
    (hstop : ∀ acc bits o, acc = 0 → p.decodeLoop room acc bits o tail = some ([], 0)) (bs : List UInt8) (o : ℕ)
    (h : o + bs.length ≤ room) : p.decodeLoop room 0 0 o (p.variant.raw bs ++ tail) = some (bs, 0) := by
  induction bs using Variant.raw.induct generalizing o with
  | case1 a b c rest ih =>
    have ha := a.toNat_lt
    have hb := b.toNat_lt
    have hc := c.toNat_lt
    simp only [List.length_cons] at h
    have h0 : o ≠ room := by omega
    have h1 : o + 1 ≠ room := by omega
    have h2 : o + 1 + 1 ≠ room := by omega
    simp only [Variant.raw, List.cons_append, decodeLoop_symbol, h0, h1, h2, Nat.reduceAdd,
      Nat.reduceLeDiff, Nat.reduceSub, Nat.reducePow, ↓reduceIte]
    have hlast : ∀ n, n % 1 = 0 := fun n => Nat.mod_one n
    rw [hlast, ih (o + 1 + 1 + 1) (by omega)]
    simp only [Option.map_some, Option.some.injEq, Prod.mk.injEq, List.cons.injEq, and_true]
    refine ⟨ofNat_eq_of ?_, ofNat_eq_of ?_, ofNat_eq_of ?_⟩ <;> omega
  | case2 a b =>
    have ha := a.toNat_lt
    have hb := b.toNat_lt
    simp only [List.length_cons, List.length_nil] at h
    have h0 : o ≠ room := by omega
    have h1 : o + 1 ≠ room := by omega
    simp only [Variant.raw, List.cons_append, List.nil_append, decodeLoop_symbol, h0, h1, Nat.reduceAdd,
      Nat.reduceLeDiff, Nat.reduceSub, Nat.reducePow, ↓reduceIte]
    rw [hstop _ _ _ (by omega)]
    simp only [Option.map_some, Option.some.injEq, Prod.mk.injEq, List.cons.injEq, and_true]
    refine ⟨ofNat_eq_of ?_, ofNat_eq_of ?_⟩ <;> omega
  | case3 a =>
    have ha := a.toNat_lt
    simp only [List.length_cons, List.length_nil] at h
    have h0 : o ≠ room := by omega
    simp only [Variant.raw, List.cons_append, List.nil_append, decodeLoop_symbol, h0, Nat.reduceAdd,
      Nat.reduceLeDiff, Nat.reduceSub, Nat.reducePow, ↓reduceIte]
    rw [hstop _ _ _ (by omega)]
    simp only [Option.map_some, Option.some.injEq, Prod.mk.injEq, List.cons.injEq, and_true]
    refine ofNat_eq_of ?_
    omega
  | case4 => exact hstop 0 0 o rfl

/-- Outside of the text profile every character is a digit. -/
theorem exists_symbol (hp : p ≠ .standardTextCompat) {room acc bits o : ℕ}
    (h : p.decodeLoop room acc bits o (c :: rest) = some r) : ∃ d < 64, c = p.variant.symbol d := by
  rw [Profile.decodeLoop, if_neg (fun h => hp h.1), if_neg (fun h => hp h.1)] at h
  cases hdigit : p.variant.digit c with
  | none => simp [hdigit] at h
  | some d => exact ⟨d, (symbol_of_digit hdigit).1, (symbol_of_digit hdigit).2.symm⟩

theorem fill_of_decodeLoop (hp : p ≠ .standardTextCompat) {room acc o : ℕ}
    (h : p.decodeLoop room acc 0 o (c :: rest) = some r) :
    ∃ d < 64, c = p.variant.symbol d ∧ p.decodeLoop room (acc * 64 + d) 6 o rest = some r := by
  obtain ⟨d, hd, rfl⟩ := exists_symbol hp h
  rw [decodeLoop_symbol, Nat.mod_eq_of_lt hd] at h
  exact ⟨d, hd, rfl, h⟩

theorem emit_of_decodeLoop (hp : p ≠ .standardTextCompat) {room acc bits o : ℕ}
    (h : p.decodeLoop room acc (bits + 2) o (c :: rest) = some r) :
    ∃ d < 64, c = p.variant.symbol d ∧ o ≠ room ∧
      ∃ tail, p.decodeLoop room ((acc * 64 + d) % 2 ^ bits) bits (o + 1) rest = some (tail, r.2) ∧
      r.1 = UInt8.ofNat ((acc * 64 + d) / 2 ^ bits) :: tail := by
  obtain ⟨d, hd, rfl⟩ := exists_symbol hp h
  rw [decodeLoop_symbol, if_pos (Nat.le_add_left 8 bits), Nat.mod_eq_of_lt hd] at h
  split_ifs at h with hroom
  obtain ⟨r', hr', rfl⟩ := Option.map_eq_some_iff.mp h
  exact ⟨d, hd, rfl, hroom, r'.1, hr', rfl⟩

theorem symbol_congr {m n : ℕ} (h : m % 64 = n % 64) : v.symbol m = v.symbol n := by
  rw [Variant.symbol, Variant.symbol, h]

/-- What a canonical profile reads is what is written, group by group. -/
theorem raw_of_decodeLoop (hp : p ≠ .standardTextCompat) :
    ∀ (data : List UInt8) (o : ℕ) (bytes : List UInt8), data.length % 4 ≠ 1 → o ≤ room →
    p.decodeLoop room 0 0 o data = some (bytes, 0) → p.variant.raw bytes = data ∧ o + bytes.length ≤ room
  | [], o, bytes, _, ho, h => by
    obtain rfl : [] = bytes := congrArg Prod.fst (Option.some.inj h)
    exact ⟨rfl, ho⟩
  | [_], _, _, hlen, _, _ => absurd rfl hlen
  | [c₁, c₂], o, bytes, _, ho, h => by
    obtain ⟨d₁, h₁, rfl, hfill⟩ := fill_of_decodeLoop hp h
    obtain ⟨d₂, h₂, rfl, hroom, tail, hread, hbytes⟩ := @emit_of_decodeLoop p _ _ _ hp room _ 4 _ hfill
    obtain ⟨rfl, hacc⟩ := Prod.mk.inj (Option.some.inj hread)
    subst hbytes
    refine ⟨?_, by simp only [List.length_singleton]; omega⟩
    simp only [Variant.raw, UInt8.toNat_ofNat', List.cons.injEq, and_true]
    exact ⟨symbol_congr (by omega), symbol_congr (by omega)⟩
  | [c₁, c₂, c₃], o, bytes, _, ho, h => by
    obtain ⟨d₁, h₁, rfl, hfill⟩ := fill_of_decodeLoop hp h
    obtain ⟨d₂, h₂, rfl, hroom₂, tail, hread, hbytes⟩ := @emit_of_decodeLoop p _ _ _ hp room _ 4 _ hfill
    obtain ⟨d₃, h₃, rfl, hroom₃, tail', hread', htail⟩ := @emit_of_decodeLoop p _ _ _ hp room _ 2 _ hread
    obtain ⟨rfl, hacc⟩ := Prod.mk.inj (Option.some.inj hread')
    subst htail hbytes
    refine ⟨?_, by simp only [List.length_cons, List.length_nil]; omega⟩
    simp only [Variant.raw, UInt8.toNat_ofNat', List.cons.injEq, and_true]
    exact ⟨symbol_congr (by omega), symbol_congr (by omega), symbol_congr (by omega)⟩
  | c₁ :: c₂ :: c₃ :: c₄ :: rest, o, bytes, hlen, ho, h => by
    obtain ⟨d₁, h₁, rfl, hfill⟩ := fill_of_decodeLoop hp h
    obtain ⟨d₂, h₂, rfl, hroom₂, tail, hread, hbytes⟩ := @emit_of_decodeLoop p _ _ _ hp room _ 4 _ hfill
    obtain ⟨d₃, h₃, rfl, hroom₃, tail', hread', htail⟩ := @emit_of_decodeLoop p _ _ _ hp room _ 2 _ hread
    obtain ⟨d₄, h₄, rfl, hroom₄, tail'', hread'', htail'⟩ := @emit_of_decodeLoop p _ _ _ hp room _ 0 _ hread'
    subst htail' htail hbytes
    rw [Nat.pow_zero, Nat.mod_one] at hread''
    obtain ⟨hraw, hle⟩ :=
      raw_of_decodeLoop hp rest _ _ (by simp only [List.length_cons] at hlen; omega) (by omega) hread''
    refine ⟨?_, by simp only [List.length_cons]; omega⟩
    simp only [Variant.raw, UInt8.toNat_ofNat', hraw, List.cons.injEq, and_true]
    exact ⟨symbol_congr (by omega), symbol_congr (by omega), symbol_congr (by omega), symbol_congr (by omega)⟩

/-! ## Padding -/

theorem stripPad_snoc (s : List UInt8) : Profile.stripPad (s ++ [61]) = s := by
  rw [Profile.stripPad, List.getLast?_concat, if_pos rfl, List.dropLast_concat]

theorem stripPad_raw (v : Variant) (bs : List UInt8) : Profile.stripPad (v.raw bs) = v.raw bs := by
  refine if_neg fun h => ?_
  obtain ⟨value, hvalue⟩ := mem_raw (List.mem_of_getLast? h)
  exact symbol_ne (by simp) hvalue.symm

/-- The padding is stripped, whatever is left of it. -/
theorem stripPad_encode (bs : List UInt8) :
    Profile.stripPad (Profile.stripPad (Variant.standard.encode bs)) = Variant.standard.raw bs := by
  rw [encode_eq, Variant.pads, if_pos rfl]
  obtain hmod | hmod | hmod : bs.length % 3 = 0 ∨ bs.length % 3 = 1 ∨ bs.length % 3 = 2 := by omega
  · rw [hmod, List.replicate_zero, List.append_nil, stripPad_raw, stripPad_raw]
  · have hpads : Variant.standard.raw bs ++ List.replicate 2 61 = Variant.standard.raw bs ++ [61] ++
      [61] := by simp [List.replicate_succ]
    rw [hmod, hpads, stripPad_snoc, stripPad_snoc]
  · rw [hmod, List.replicate_one, stripPad_snoc, stripPad_raw]

theorem exists_stripPad (s : List UInt8) : ∃ k ≤ 1, s = Profile.stripPad s ++ List.replicate k 61 := by
  by_cases h : s.getLast? = some 61
  · obtain ⟨t, rfl⟩ := List.getLast?_eq_some_iff.mp h
    exact ⟨1, Nat.le_refl 1, by rw [stripPad_snoc]; rfl⟩
  · exact ⟨0, Nat.zero_le 1, by rw [Profile.stripPad, if_neg h, List.replicate_zero, List.append_nil]⟩

theorem decode_strict_iff (hstrict : p.strict) :
    p.decode room s = some bs ↔ ¬(p = .standardCanonical ∧ s.length % 4 ≠ 0 ∨ p = .urlCanonical ∧ s.length % 4 = 1) ∧
      p.decodeLoop room 0 0 0
        (if p = .standardCanonical then Profile.stripPad (Profile.stripPad s) else s) = some (bs, 0) := by
  rw [Profile.decode, hstrict]
  split_ifs with hshape
  · exact iff_of_false nofun fun h => h.1 hshape
  all_goals
    rcases p.decodeLoop room 0 0 0 _ with _ | ⟨bytes, acc⟩
    · simp
    · by_cases hacc : acc = 0 <;> simp [hshape, hacc]

theorem decode_url_iff :
    Profile.urlCanonical.decode room s = some bs ↔ Variant.url.encode bs = s ∧ bs.length ≤ room := by
  have hencode : Variant.url.encode bs = Variant.url.raw bs := (encode_eq _ bs).trans (List.append_nil _)
  have hlength := length_raw .url bs
  rw [decode_strict_iff rfl, hencode]
  constructor
  · rintro ⟨hlen, h⟩
    obtain ⟨hraw, hroom⟩ := @raw_of_decodeLoop .urlCanonical room (by decide) s 0 bs
      (fun hmod => hlen (.inr ⟨rfl, hmod⟩)) (Nat.zero_le _) h
    exact ⟨hraw, by omega⟩
  · rintro ⟨rfl, hroom⟩
    have hread := @decodeLoop_raw .urlCanonical room [] (fun acc _ _ hacc => by rw [hacc]; rfl) bs 0 (by omega)
    rw [List.append_nil] at hread
    refine ⟨fun h => ?_, hread⟩
    rcases h with ⟨h, -⟩ | ⟨-, h⟩
    · cases h
    · omega

theorem decode_standard_iff :
    Profile.standardCanonical.decode room s = some bs ↔ Variant.standard.encode bs = s ∧ bs.length ≤ room := by
  have hlength := length_raw .standard bs
  rw [decode_strict_iff rfl]
  constructor
  · rintro ⟨hlen, h⟩
    have hfour : s.length % 4 = 0 := by_contra fun hmod => hlen (.inl ⟨rfl, hmod⟩)
    obtain ⟨k, hk, hs⟩ := exists_stripPad s
    obtain ⟨k', hk', hs'⟩ := exists_stripPad (Profile.stripPad s)
    generalize Profile.stripPad (Profile.stripPad s) = data at h hs'
    rw [hs', List.append_assoc, List.replicate_append_replicate] at hs
    have hcount := congrArg List.length hs
    rw [List.length_append, List.length_replicate] at hcount
    obtain ⟨hraw, hroom⟩ :=
      @raw_of_decodeLoop .standardCanonical room (by decide) data 0 bs (by omega) (Nat.zero_le _) h
    change Variant.standard.raw bs = data at hraw
    subst hraw
    have hpads : (3 - bs.length % 3) % 3 = k' + k := by
      obtain hmod | hmod | hmod : bs.length % 3 = 0 ∨ bs.length % 3 = 1 ∨ bs.length % 3 = 2 := by omega
      all_goals
        omega
    exact ⟨by rw [encode_eq, Variant.pads, if_pos rfl, hpads, ← hs], by omega⟩
  · rintro ⟨rfl, hroom⟩
    have hread := @decodeLoop_raw .standardCanonical room [] (fun acc _ _ hacc => by rw [hacc]; rfl) bs 0 (by omega)
    rw [List.append_nil] at hread
    refine ⟨fun h => ?_, stripPad_encode bs ▸ hread⟩
    rw [encode_eq, Variant.pads, if_pos rfl, List.length_append, List.length_replicate] at h
    rcases h with ⟨-, h⟩ | ⟨h, -⟩
    · obtain hmod | hmod | hmod : bs.length % 3 = 0 ∨ bs.length % 3 = 1 ∨ bs.length % 3 = 2 := by omega
      all_goals
        omega
    · cases h

/-- A text is what a canonical profile reads exactly if it is written from it, and there is room. -/
theorem decode_canonical_iff (v : Variant) :
    v.canonical.decode room s = some bs ↔ v.encode bs = s ∧ bs.length ≤ room := by
  cases v with
  | standard => exact decode_standard_iff
  | url => exact decode_url_iff

theorem decode_compat_encode (v : Variant) {bs : List UInt8} (hroom : bs.length ≤ room) :
    v.compat.decode room (v.encode bs) = some bs := by
  have hvariant : v.compat.variant = v := by cases v <;> rfl
  have hstop : ∀ acc bits o, acc = 0 → v.compat.decodeLoop room acc bits o (v.pads bs.length) = some ([], 0) := by
    rintro acc bits o rfl
    cases v with
    | url => rfl
    | standard =>
      rw [Variant.pads]
      cases (3 - bs.length % 3) % 3 <;> rfl
  have hread := decodeLoop_raw hstop bs 0 (by omega)
  rw [hvariant, ← encode_eq] at hread
  rw [Profile.decode]
  cases v <;> simp [Variant.compat, Profile.strict] at hread ⊢ <;> rw [hread]

/-- The codec is canonical: what is written fits the capacity and is read back, and a canonical profile
    reads nothing else. -/
theorem canonicity (v : Variant) :
    (∀ length < 2 ^ 63, v.capacity length ≠ 0) ∧
      (∀ bs : List UInt8, v.capacity bs.length ≠ 0 →
        v.capacity bs.length = (v.encode bs).length + 1 ∧ v.capacity bs.length ≤ sizeMax ∧
        v.encodeInto (v.capacity bs.length) bs = some (v.encode bs) ∧
        ∀ room, bs.length ≤ room →
          v.canonical.decode room (v.encode bs) = some bs ∧ v.compat.decode room (v.encode bs) = some bs) ∧
      ∀ (room : ℕ) (s bs : List UInt8), v.canonical.decode room s = some bs ↔ v.encode bs = s ∧ bs.length ≤ room := by
  refine ⟨fun length hlength => ?_, fun bs hbs => ?_, fun room s bs => decode_canonical_iff v⟩
  · unfold Variant.capacity sizeMax
    dsimp only
    have hmod := Nat.mod_lt length (by decide : 3 > 0)
    split_ifs <;> omega
  · have hcapacity := capacity_eq v bs
    split_ifs at hcapacity with hfits
    · refine ⟨hcapacity, hcapacity ▸ hfits, if_neg ?_, fun room hroom =>
        ⟨(decode_canonical_iff v).mpr ⟨rfl, hroom⟩, decode_compat_encode v hroom⟩⟩
      exact not_or.mpr ⟨hbs, Nat.lt_irrefl _⟩
    · exact absurd hcapacity hbs

theorem canonicity_two :
    Variant.standard.canonical.decode 2 (Variant.standard.encode [102, 111]) = some [102, 111] ∧
    Variant.url.capacity 2 ≠ 0 :=
  ⟨(((canonicity .standard).2.1 [102, 111] (by decide)).2.2.2 2 (Nat.le_refl 2)).1, (canonicity .url).1 2 (by decide)⟩

/-! ## The profile of the vault -/

/-- `aimee_codec_base64_encode` with `AIMEE_BASE64_URL`. -/
def encode (bs : List UInt8) : List UInt8 := Variant.url.encode bs

/-- `aimee_codec_base64_decode` with `AIMEE_BASE64_URL_COMPAT`. -/
def decode (capacity : ℕ) (inp : List UInt8) : Option (List UInt8) := Profile.urlCompat.decode capacity inp

theorem encode_printable (bs : List UInt8) : ∀ c ∈ encode bs, 0x20 ≤ c ∧ c ≠ 34 ∧ c ≠ 92 := by
  intro c hc
  rw [encode, encode_eq, Variant.pads, if_neg (by decide), List.append_nil] at hc
  obtain ⟨value, rfl⟩ := mem_raw hc
  have hmod : Variant.url.symbol value = Variant.url.symbol (value % 64) := by
    rw [Variant.symbol, Variant.symbol, Nat.mod_mod]
  exact ⟨hmod ▸ (symbol_table _ (Nat.mod_lt _ (by decide))).2.2, symbol_ne (by simp), symbol_ne (by simp)⟩

theorem length_encode (bs : List UInt8) : (encode bs).length = (4 * bs.length + 2) / 3 := by
  rw [encode, encode_eq, Variant.pads, if_neg (by decide), List.append_nil, length_raw]

/-- What was encoded is decoded, into any buffer it fits. -/
theorem decode_encode {capacity : ℕ} {bs : List UInt8} (h : bs.length ≤ capacity) :
    decode capacity (encode bs) = some bs :=
  decode_compat_encode .url h

end Base64
