-- SUMMARY: The counted-field frames of the store wire, at the caller and at the module that serves it, and why the two agree.
import Mathlib.Algebra.Order.BigOperators.Group.List
import Aimee.Families.Cells
import Aimee.Lib.PrefixCodec

/-!
# Field frames

`server-go/aimee/fields.go` is the caller's side of the wire, `modules/aimee/wire.go` the serving
side. A frame is a number, a count and that many fields, each with its length in front of it. Numbers
are little-endian and have 32 bits.
-/

namespace Families

def fieldsMax : UInt32 := 65536

/-- The frame of a number and fields. -/
def frame (number : UInt32) (fields : List Cell) : List UInt8 :=
  Wire.putLe32 number ++ Wire.putLe32 (UInt32.ofNat fields.length) ++ fields.flatMap PrefixCodec.field.encode

/-- The number and the fields of a frame, unless its lengths do not account for exactly its bytes. -/
def readFrame (bytes : List UInt8) : Option (UInt32 × List Cell) :=
  if bytes.length < 8 then none
  else
    let number := Wire.getLe32 (bytes.take 4)
    let count := Wire.getLe32 ((bytes.drop 4).take 4)
    if fieldsMax < count then none
    else (PrefixCodec.field.exactly count.toNat (bytes.drop 8)).map fun fields => (number, fields)

/-! ## The caller -/

inductive FieldError where
  | nulInField
  | malformed
  deriving DecidableEq, Repr

def encodeFields (op : UInt32) (fields : List Cell) : Except FieldError (List UInt8) :=
  if fields.any fun f => f.contains 0 then .error .nulInField else .ok (frame op fields)

def decodeFields (response : List UInt8) : Except FieldError (UInt32 × List Cell) :=
  match readFrame response with
  | none => .error .malformed
  | some reply => .ok reply

/-! ## The module -/

def decodeRequest (request : List UInt8) : Option (UInt32 × List Cell) := readFrame request

def encodeReply (status : UInt32) (fields : List Cell) : List UInt8 := frame status fields

/-! ## Frames and what is read of them -/

/-- The fields that a frame can carry. -/
structure Framable (fields : List Cell) : Prop where
  count : fields.length ≤ 65536
  lengths : ∀ f ∈ fields, f.length < 2 ^ 32

theorem length_frame (number : UInt32) (fields : List Cell) :
    (frame number fields).length = 8 + (fields.map fun f => 4 + f.length).sum := by
  rw [frame, List.length_append, List.length_append, Wire.length_putLe32, List.length_flatMap]
  congr 2
  refine List.map_congr_left fun f _ => ?_
  exact List.length_append.trans (congrArg (· + f.length) (Wire.length_putLe32 _))

variable {fields : List Cell} {number : UInt32}

theorem framable_of_length (hcount : fields.length ≤ 65536)
    (hsize : (frame number fields).length < 2 ^ 32) : Framable fields := by
  refine ⟨hcount, fun f hf => ?_⟩
  have hsum : 4 + f.length ≤ (fields.map fun f => 4 + f.length).sum :=
    List.single_le_sum (fun _ _ => Nat.zero_le _) _ (List.mem_map_of_mem hf)
  rw [length_frame] at hsize
  omega

/-- A frame is read as the number and the fields it was built from, and nothing else is read. -/
theorem readFrame_eq_some_iff {bytes : List UInt8} :
    readFrame bytes = some (number, fields) ↔ Framable fields ∧ bytes = frame number fields := by
  have hmax : fieldsMax.toNat = 65536 := rfl
  unfold readFrame
  constructor
  · intro h
    split at h
    · cases h
    next hlen =>
    dsimp only at h
    split at h
    · cases h
    next hcount =>
    obtain ⟨fs, hfields, h⟩ := Option.map_eq_some_iff.mp h
    cases h
    obtain ⟨hlength, hfits, hrest⟩ := PrefixCodec.field.exactly_eq_some_iff.mp hfields
    rw [UInt32.lt_iff_toNat_lt, ← hlength] at hcount
    refine ⟨⟨Nat.le_of_not_lt hcount, hfits⟩, ?_⟩
    have hfour : (bytes.take 4).length = 4 := by
      rw [List.length_take]
      omega
    have hnext : ((bytes.drop 4).take 4).length = 4 := by
      rw [List.length_take, List.length_drop]
      omega
    rw [frame, hlength, UInt32.ofNat_toNat, Wire.putLe32_getLe32 hfour, Wire.putLe32_getLe32 hnext, ← hrest,
      List.append_assoc, ← List.drop_drop (i := 4) (j := 4), List.take_append_drop, List.take_append_drop]
  · rintro ⟨hframable, rfl⟩
    have hlen : ¬(frame number fields).length < 8 := by
      rw [length_frame]
      omega
    have hbytes : frame number fields = Wire.putLe32 number ++
        (Wire.putLe32 (UInt32.ofNat fields.length) ++ fields.flatMap PrefixCodec.field.encode) := by
      rw [frame, List.append_assoc]
    have hnumber : (frame number fields).take 4 = Wire.putLe32 number := by
      rw [hbytes, List.take_left' (Wire.length_putLe32 _)]
    have hafter : (frame number fields).drop 4 =
        Wire.putLe32 (UInt32.ofNat fields.length) ++ fields.flatMap PrefixCodec.field.encode := by
      rw [hbytes, List.drop_left' (Wire.length_putLe32 _)]
    have hrest : (frame number fields).drop 8 = fields.flatMap PrefixCodec.field.encode := by
      rw [← List.drop_drop (i := 4) (j := 4), hafter, List.drop_left' (Wire.length_putLe32 _)]
    have hcount : (UInt32.ofNat fields.length).toNat = fields.length :=
      UInt32.toNat_ofNat_of_lt' (Nat.lt_of_le_of_lt hframable.count (by decide))
    have hmany : ¬fieldsMax < UInt32.ofNat fields.length := by
      rw [UInt32.lt_iff_toNat_lt, hcount]
      exact Nat.not_lt.mpr hframable.count
    rw [if_neg hlen, hnumber, hafter, List.take_left' (Wire.length_putLe32 _), Wire.getLe32_putLe32,
      Wire.getLe32_putLe32, hrest]
    dsimp only
    rw [hcount, if_neg hmany, PrefixCodec.field.exactly_eq_some_iff.mpr ⟨rfl, hframable.lengths, rfl⟩]
    rfl

theorem encodeFields_eq_ok_iff {op : UInt32} {request : List UInt8} :
    encodeFields op fields = .ok request ↔ (∀ f ∈ fields, 0 ∉ f) ∧ request = frame op fields := by
  unfold encodeFields
  split
  · next hnul =>
    obtain ⟨f, hf, hzero⟩ := List.any_eq_true.mp hnul
    refine ⟨fun h => (nomatch h), fun h => absurd (List.contains_iff_mem.mp hzero) (h.1 f hf)⟩
  · next hnul =>
    have hfree : ∀ f ∈ fields, 0 ∉ f := fun f hf hzero =>
      hnul (List.any_eq_true.mpr ⟨f, hf, List.contains_iff_mem.mpr hzero⟩)
    exact ⟨fun h => ⟨hfree, (Except.ok.inj h).symm⟩, fun h => by rw [h.2]⟩

theorem decodeFields_eq_ok_iff {response : List UInt8} {status : UInt32} :
    decodeFields response = .ok (status, fields) ↔ readFrame response = some (status, fields) := by
  unfold decodeFields
  split
  · next h => exact ⟨fun h' => (nomatch h'), fun h' => (nomatch h.symm.trans h')⟩
  · next reply h =>
    rw [h, Option.some.injEq, Except.ok.injEq]

/-! ## The two sides -/

/-- Each side reads back exactly what the other wrote, and what a side accepts is what its peer would
    write. -/
theorem peers_agree :
    (∀ (op : UInt32) (fields : List Cell), fields.length ≤ 65536 → (∀ f ∈ fields, 0 ∉ f) →
      (frame op fields).length < 2 ^ 32 →
      ∃ request, encodeFields op fields = .ok request ∧ decodeRequest request = some (op, fields)) ∧
    (∀ (status : UInt32) (fields : List Cell), fields.length ≤ 65536 → (encodeReply status fields).length < 2 ^ 32 →
      decodeFields (encodeReply status fields) = .ok (status, fields)) ∧
    (∀ (request : List UInt8) (op : UInt32) (fields : List Cell), decodeRequest request = some (op, fields) →
      (∀ f ∈ fields, 0 ∉ f) → encodeFields op fields = .ok request) ∧
    ∀ (response : List UInt8) (status : UInt32) (fields : List Cell), decodeFields response = .ok (status, fields) →
      encodeReply status fields = response := by
  refine ⟨fun op fields hcount hnul hsize => ?_, fun status fields hcount hsize =>
    ?_, fun request op fields h hnul => ?_, fun response status fields h => ?_⟩
  · exact ⟨frame op fields, encodeFields_eq_ok_iff.mpr ⟨hnul, rfl⟩,
      readFrame_eq_some_iff.mpr ⟨framable_of_length hcount hsize, rfl⟩⟩
  · exact decodeFields_eq_ok_iff.mpr (readFrame_eq_some_iff.mpr ⟨framable_of_length hcount hsize, rfl⟩)
  · exact encodeFields_eq_ok_iff.mpr ⟨hnul, (readFrame_eq_some_iff.mp h).2⟩
  · exact (readFrame_eq_some_iff.mp (decodeFields_eq_ok_iff.mp h)).2.symm

/-- A request of two fields, one of them empty, and its reply. -/
theorem peers_agree_pair :
    (∃ request, encodeFields 7 [[107], []] = .ok request ∧ decodeRequest request = some (7, [[107], []])) ∧
      decodeFields (encodeReply 0 [[49]]) = .ok (0, [[49]]) ∧ encodeFields 7 [[107], []] = .ok (frame 7 [[107], []]) ∧
      encodeReply 0 [[49]] = frame 0 [[49]] :=
  ⟨peers_agree.1 7 [[107], []] (by decide)
      (List.forall_mem_cons.mpr ⟨by decide, List.forall_mem_cons.mpr ⟨nofun, nofun⟩⟩)
      (by decide),
    peers_agree.2.1 0 [[49]] (by decide) (by decide),
    peers_agree.2.2.1 _ 7 [[107], []] rfl
      (List.forall_mem_cons.mpr ⟨by decide, List.forall_mem_cons.mpr ⟨nofun, nofun⟩⟩),
    peers_agree.2.2.2 _ 0 [[49]] rfl⟩

end Families
