-- SUMMARY: Codecs that read a value off the front of a byte string, the list of so many values, and the fields with a little-endian length in front.
import Aimee.Lib.Bytes

/-!
# Prefix codecs

A codec reads a value off the front of a byte string and leaves the rest. That what it reads is what
it writes is one law, so a codec built from others has it from theirs.
-/

/-- A codec and the values it can write. -/
structure PrefixCodec (α : Type) where
  Fits : α → Prop
  encode : α → List UInt8
  decode : List UInt8 → Option (α × List UInt8)
  decode_eq_some_iff : ∀ {inp a rest}, decode inp = some (a, rest) ↔ Fits a ∧ inp = encode a ++ rest

namespace PrefixCodec

variable {α : Type} (c : PrefixCodec α)

theorem decode_encode {a : α} (h : c.Fits a) (rest : List UInt8) : c.decode (c.encode a ++ rest) = some (a, rest) :=
  c.decode_eq_some_iff.mpr ⟨h, rfl⟩

/-! ## Lists -/

/-- So many values, one behind the other. -/
def times : ℕ → List UInt8 → Option (List α × List UInt8)
  | 0, inp => some ([], inp)
  | n + 1, inp => do
    let (a, rest) ← c.decode inp
    let (more, rest) ← times n rest
    return (a :: more, rest)

theorem times_eq_some_iff {n : ℕ} {inp rest : List UInt8} {values : List α} :
    c.times n inp = some (values, rest) ↔
      values.length = n ∧ (∀ a ∈ values, c.Fits a) ∧ inp = values.flatMap c.encode ++ rest := by
  induction n generalizing inp values with
  | zero =>
    constructor
    · intro h
      cases h
      exact ⟨rfl, fun _ h => absurd h List.not_mem_nil, rfl⟩
    · rintro ⟨hlen, -, rfl⟩
      obtain rfl := List.eq_nil_of_length_eq_zero hlen
      rfl
  | succ n ih =>
    constructor
    · intro h
      obtain ⟨⟨a, after⟩, hread, h⟩ := Option.bind_eq_some_iff.mp h
      obtain ⟨⟨more, last⟩, hmore, h⟩ := Option.bind_eq_some_iff.mp h
      cases h
      obtain ⟨hfits, rfl⟩ := c.decode_eq_some_iff.mp hread
      obtain ⟨rfl, hall, rfl⟩ := ih.mp hmore
      exact ⟨rfl, List.forall_mem_cons.mpr ⟨hfits, hall⟩, by rw [List.flatMap_cons, List.append_assoc]⟩
    · rintro ⟨hlen, hall, rfl⟩
      cases values with
      | nil => cases hlen
      | cons a more =>
        obtain ⟨hfits, hmore⟩ := List.forall_mem_cons.mp hall
        have hrest : c.times n (more.flatMap c.encode ++ rest) = some (more, rest) :=
          ih.mpr ⟨Nat.succ.inj hlen, hmore, rfl⟩
        rw [List.flatMap_cons, List.append_assoc, times, c.decode_encode hfits]
        exact congrArg (fun read => read.bind fun p => some (a :: p.1, p.2)) hrest

/-- The list of so many values, with nothing left behind it. -/
def exactly (n : ℕ) (inp : List UInt8) : Option (List α) := do
  let (values, rest) ← c.times n inp
  if rest = [] then some values else none

theorem exactly_eq_some_iff {n : ℕ} {inp : List UInt8} {values : List α} :
    c.exactly n inp = some values ↔ values.length = n ∧ (∀ a ∈ values, c.Fits a) ∧ inp = values.flatMap c.encode := by
  constructor
  · intro h
    obtain ⟨⟨vs, rest⟩, htimes, h⟩ := Option.bind_eq_some_iff.mp h
    dsimp only at h
    split at h
    · next hrest =>
      cases h
      obtain ⟨hlen, hall, hinp⟩ := c.times_eq_some_iff.mp htimes
      exact ⟨hlen, hall, by rw [hinp, hrest, List.append_nil]⟩
    · cases h
  · rintro ⟨hlen, hall, rfl⟩
    refine Option.bind_eq_some_iff.mpr
      ⟨(values, []), c.times_eq_some_iff.mpr ⟨hlen, hall, (List.append_nil _).symm⟩, ?_⟩
    exact if_pos rfl

end PrefixCodec

/-! ## Little-endian integers and the fields they count -/

namespace Wire

/-- `binary.LittleEndian.PutUint32`. -/
def putLe32 (v : UInt32) : List UInt8 := (putU32 v).reverse

/-- `binary.LittleEndian.Uint32` on the four bytes it reads. -/
def getLe32 (bs : List UInt8) : UInt32 := getU32 bs.reverse

@[simp] theorem length_putLe32 (v : UInt32) :
    (putLe32 v).length = 4 := by rw [putLe32, List.length_reverse, length_putU32]

theorem getLe32_putLe32 (v : UInt32) : getLe32 (putLe32 v) = v := by
  rw [getLe32, putLe32, List.reverse_reverse, getU32_putU32]

theorem putLe32_getLe32 {bs : List UInt8} (h : bs.length = 4) : putLe32 (getLe32 bs) = bs := by
  rw [putLe32, getLe32, putU32_getU32 (by rw [List.length_reverse, h]), List.reverse_reverse]

end Wire

namespace PrefixCodec

/-- A field of bytes with its length in front of it. -/
def field : PrefixCodec (List UInt8) where
  Fits f := f.length < 2 ^ 32
  encode f := Wire.putLe32 (UInt32.ofNat f.length) ++ f
  decode inp :=
    if inp.length < 4 then none
    else
      let n := (Wire.getLe32 (inp.take 4)).toNat
      let rest := inp.drop 4
      if rest.length < n then none else some (rest.take n, rest.drop n)
  decode_eq_some_iff {inp f rest} := by
    dsimp only
    constructor
    · intro h
      split at h
      · cases h
      next hlen =>
      split at h
      · cases h
      next hfield =>
      have hfour : (inp.take 4).length = 4 := by rw [List.length_take, Nat.min_eq_left (Nat.le_of_not_lt hlen)]
      have htake : ((inp.drop 4).take (Wire.getLe32 (inp.take 4)).toNat).length =
        (Wire.getLe32 (inp.take 4)).toNat := by
        rw [List.length_take, Nat.min_eq_left (Nat.le_of_not_lt hfield)]
      cases h
      refine ⟨?_, ?_⟩
      · rw [htake]
        exact UInt32.toNat_lt _
      rw [htake, UInt32.ofNat_toNat, Wire.putLe32_getLe32 hfour, List.append_assoc, List.take_append_drop,
        List.take_append_drop]
    · rintro ⟨hfits, rfl⟩
      have hlen : ∀ tail : List UInt8, ¬(Wire.putLe32 (UInt32.ofNat f.length) ++ tail).length < 4 := fun tail h => by
        rw [List.length_append, Wire.length_putLe32] at h
        omega
      have hprefix : ∀ tail : List UInt8, (Wire.putLe32 (UInt32.ofNat f.length) ++ tail).take 4 =
        Wire.putLe32 (UInt32.ofNat f.length) :=
        fun tail => List.take_left' (Wire.length_putLe32 _)
      have hsuffix : ∀ tail : List UInt8, (Wire.putLe32 (UInt32.ofNat f.length) ++ tail).drop 4 = tail :=
        fun tail => List.drop_left' (Wire.length_putLe32 _)
      have hnum : (Wire.getLe32 (Wire.putLe32 (UInt32.ofNat f.length))).toNat = f.length := by
        rw [Wire.getLe32_putLe32, UInt32.toNat_ofNat_of_lt' hfits]
      rw [List.append_assoc, if_neg (hlen _), hprefix, hsuffix, hnum, if_neg, List.take_left, List.drop_left]
      rw [List.length_append]
      omega

end PrefixCodec
