-- SUMMARY: Export frames: the header, framing and parsing, and cutting a stream into the frames it is made of.
import Aimee.Lib.Bytes
import Mathlib.Data.List.GetD

/-!
# Export frames

`vault_witness_export.c`. A frame is a header of 16 bytes and a payload. Its length stands in
the header, so a concatenation of frames can be cut into them again in one way.
-/

namespace VaultWitness

/-- `VAULT_WITNESS_EXPORT_VERSION` and `VAULT_WITNESS_EXPORT_HEADER_LEN`. -/
def exportVersion : UInt16 := 1
def exportHeaderLen : Nat := 16

def exportMagic : List UInt8 := ascii "AIMWEXP1"

/-- `vault_witness_export_kind_t`. -/
inductive ExportKind where
  | record
  | checkpoint
  | proof
  | snapshot
  deriving DecidableEq

def ExportKind.toByte : ExportKind → UInt8
  | .record => 0
  | .checkpoint => 1
  | .proof => 2
  | .snapshot => 3

/-- The kind a byte stands for, if `kind_known` accepts it. -/
def ExportKind.ofByte? (b : UInt8) : Option ExportKind :=
  if b = 0 then some .record
  else if b = 1 then some .checkpoint
  else if b = 2 then some .proof
  else if b = 3 then some .snapshot
  else none

/-- `vault_witness_export_parse_t`, with what a parse returns on success. -/
inductive ExportParse where
  | ok (kind : ExportKind) (payload : List UInt8)
  | malformed
  | versionMismatch
  deriving DecidableEq

/-- The bytes of a frame. -/
def frameBytes (kind : ExportKind) (payload : List UInt8) : List UInt8 :=
  exportMagic ++ Wire.putU16 exportVersion ++ kind.toByte :: 0 ::
    Wire.putU32 (UInt32.ofNat payload.length) ++ payload

/-- `vault_witness_export_frame`, into a buffer of `cap` bytes. -/
def exportFrame (kind : ExportKind) (payload : List UInt8) (cap : Nat) : Option (List UInt8) :=
  if 2 ^ 32 ≤ payload.length ∨ cap < exportHeaderLen + payload.length then none
  else some (frameBytes kind payload)

/-- The length of the payload that a header declares. -/
def payloadLen (frame : List UInt8) : Nat := (Wire.getU32 ((frame.drop 12).take 4)).toNat

/-- `vault_witness_export_parse`. -/
def exportParse (frame : List UInt8) : ExportParse :=
  if frame.length < exportHeaderLen ∨ frame.take 8 ≠ exportMagic then .malformed
  else if Wire.getU16 ((frame.drop 8).take 2) ≠ exportVersion then .versionMismatch
  else if frame.getD 11 0 ≠ 0 then .malformed
  else
    match ExportKind.ofByte? (frame.getD 10 0) with
    | none => .malformed
    | some kind =>
      if payloadLen frame ≠ frame.length - exportHeaderLen then .malformed
      else .ok kind (frame.drop exportHeaderLen)

/-! ## Framing and parsing are inverse -/

private theorem ExportKind.ofByte?_toByte (kind : ExportKind) :
    ExportKind.ofByte? kind.toByte = some kind := by
  cases kind <;> rfl

variable {kind : ExportKind} {payload : List UInt8} {frame : List UInt8} {frames : List (List UInt8)}

private theorem ExportKind.toByte_of_ofByte? {b : UInt8}
    (h : ExportKind.ofByte? b = some kind) : kind.toByte = b := by
  unfold ExportKind.ofByte? at h
  split at h
  · rename_i hb
    cases h
    exact hb.symm
  split at h
  · rename_i hb
    cases h
    exact hb.symm
  split at h
  · rename_i hb
    cases h
    exact hb.symm
  split at h
  · rename_i hb
    cases h
    exact hb.symm
  · cases h

theorem length_frameBytes (kind : ExportKind) (payload : List UInt8) :
    (frameBytes kind payload).length = exportHeaderLen + payload.length := by
  simp [frameBytes, exportMagic, ascii, exportHeaderLen]
  omega

theorem payloadLen_frameBytes (kind : ExportKind)
    (h : payload.length < 2 ^ 32) (rest : List UInt8) :
    payloadLen (frameBytes kind payload ++ rest) = payload.length := by
  have hfield : ((frameBytes kind payload ++ rest).drop 12).take 4 =
      Wire.putU32 (UInt32.ofNat payload.length) := by
    simp [frameBytes, exportMagic, ascii, Wire.putU16, Wire.beBytes]
  rw [payloadLen, hfield, Wire.getU32_putU32, UInt32.toNat_ofNat_of_lt' h]

private theorem header_fields (h : exportHeaderLen ≤ frame.length) :
    frame = frame.take 8 ++ ((frame.drop 8).take 2 ++ frame.getD 10 0 :: frame.getD 11 0 ::
      ((frame.drop 12).take 4 ++ frame.drop exportHeaderLen)) := by
  have h10 : 10 < frame.length := Nat.lt_of_lt_of_le (by decide) h
  have h11 : 11 < frame.length := Nat.lt_of_lt_of_le (by decide) h
  rw [List.getD_eq_getElem _ _ h10, List.getD_eq_getElem _ _ h11]
  calc frame
      = frame.take 8 ++ ((frame.drop 8).take 2 ++ (frame.drop 8).drop 2) := by
          rw [List.take_append_drop, List.take_append_drop]
    _ = frame.take 8 ++ ((frame.drop 8).take 2 ++ frame[10] :: frame[11] :: frame.drop 12) := by
          rw [List.drop_drop, List.drop_eq_getElem_cons h10, List.drop_eq_getElem_cons h11]
    _ = _ := by
          rw [show exportHeaderLen = 12 + 4 from rfl, ← List.drop_drop, List.take_append_drop]

/-- A parse succeeds on the output of `vault_witness_export_frame` and on nothing else. -/
theorem exportParse_eq_ok_iff :
    exportParse frame = .ok kind payload ↔
      frame = frameBytes kind payload ∧ payload.length < 2 ^ 32 := by
  constructor
  · intro h
    unfold exportParse at h
    split at h
    · cases h
    split at h
    · cases h
    split at h
    · cases h
    split at h
    · cases h
    split at h
    · cases h
    rename_i hmagic hversion hreserved _ _ hkind hlen
    cases h
    obtain ⟨hheader, hmagic⟩ := not_or.mp hmagic
    rw [not_lt] at hheader
    rw [not_not] at hmagic hversion hreserved hlen
    have hversion' : Wire.putU16 exportVersion = (frame.drop 8).take 2 := by
      rw [← hversion, Wire.putU16_getU16]
      rw [List.length_take, List.length_drop]
      have : 16 ≤ frame.length := hheader
      omega
    have hlen' : Wire.putU32 (UInt32.ofNat (frame.drop exportHeaderLen).length) =
        (frame.drop 12).take 4 := by
      rw [List.length_drop, ← hlen, payloadLen, UInt32.ofNat_toNat, Wire.putU32_getU32]
      rw [List.length_take, List.length_drop]
      have : 16 ≤ frame.length := hheader
      omega
    refine ⟨?_, ?_⟩
    · rw [frameBytes, hversion', hlen', ExportKind.toByte_of_ofByte? hkind, ← hmagic]
      conv_lhs => rw [header_fields hheader, hreserved]
      simp
    · rw [List.length_drop, ← hlen]
      exact UInt32.toNat_lt _
  · rintro ⟨rfl, hlt⟩
    have hlen := payloadLen_frameBytes kind hlt []
    rw [List.append_nil] at hlen
    have hmagic : (frameBytes kind payload).take 8 = exportMagic := rfl
    have hversion : Wire.getU16 (((frameBytes kind payload).drop 8).take 2) = exportVersion := rfl
    have hreserved : (frameBytes kind payload).getD 11 0 = 0 := rfl
    have hkind : (frameBytes kind payload).getD 10 0 = kind.toByte := rfl
    have hdrop : (frameBytes kind payload).drop exportHeaderLen = payload := rfl
    have hheader : ¬ ((frameBytes kind payload).length < exportHeaderLen ∨
        (frameBytes kind payload).take 8 ≠ exportMagic) := by
      simp [length_frameBytes, hmagic]
    rw [exportParse, if_neg hheader, if_neg (not_not.mpr hversion), if_neg (not_not.mpr hreserved),
      hkind, ExportKind.ofByte?_toByte, hlen, length_frameBytes, hdrop]
    simp

theorem exportParse_of_exportFrame {payload frame : List UInt8} {cap : Nat}
    (h : exportFrame kind payload cap = some frame) : exportParse frame = .ok kind payload := by
  unfold exportFrame at h
  split at h
  · cases h
  · rename_i hfits
    cases h
    exact exportParse_eq_ok_iff.mpr ⟨rfl, Nat.lt_of_not_le (not_or.mp hfits).1⟩

/-! ## Cutting a stream into frames -/

/-- The length of the frame that a stream starts with, if the stream holds all of it. -/
def frameLen (rest : List UInt8) : Option Nat :=
  if rest.length < exportHeaderLen then none
  else
    let len := exportHeaderLen + payloadLen rest
    if rest.length < len then none else some len

/-- The frames that a stream starts with, and the bytes behind them. A frame is no shorter
    than its header, so the length of the stream is fuel enough. -/
def cutFrames : Nat → List UInt8 → List (List UInt8) × List UInt8
  | 0, rest => ([], rest)
  | fuel + 1, rest =>
    match frameLen rest with
    | none => ([], rest)
    | some len =>
      let (frames, tail) := cutFrames fuel (rest.drop len)
      (rest.take len :: frames, tail)

/-- The frames of a stream. -/
def streamFrames (stream : List UInt8) : List (List UInt8) := (cutFrames stream.length stream).1

/-- The bytes of a stream that belong to no frame. -/
def streamTail (stream : List UInt8) : List UInt8 := (cutFrames stream.length stream).2

theorem frameLen_frameBytes (h : payload.length < 2 ^ 32) (rest : List UInt8) :
    frameLen (frameBytes kind payload ++ rest) = some (frameBytes kind payload).length := by
  have hheader : exportHeaderLen ≤ (frameBytes kind payload).length := by
    rw [length_frameBytes]
    exact Nat.le_add_right _ _
  have hlong : ¬ (frameBytes kind payload ++ rest).length < exportHeaderLen := by
    rw [List.length_append]
    omega
  have hfits : ¬ (frameBytes kind payload ++ rest).length < exportHeaderLen + payload.length := by
    rw [List.length_append, length_frameBytes]
    omega
  rw [frameLen, if_neg hlong, payloadLen_frameBytes kind h rest, if_neg hfits, length_frameBytes]

private theorem cutFrames_flatten (fuel : Nat) (rest : List UInt8) :
    (cutFrames fuel rest).1.flatten ++ (cutFrames fuel rest).2 = rest := by
  induction fuel generalizing rest with
  | zero => rfl
  | succ fuel ih =>
    rw [cutFrames]
    split
    · rfl
    · rename_i len _
      simp only [List.flatten_cons, List.append_assoc]
      rw [ih, List.take_append_drop]

theorem streamFrames_flatten (stream : List UInt8) :
    (streamFrames stream).flatten ++ streamTail stream = stream :=
  cutFrames_flatten _ _

section

variable (hframes : ∀ frame ∈ frames, ∃ kind payload, exportParse frame = .ok kind payload)
include hframes

private theorem cutFrames_of_wellFormed {fuel : Nat}
    (hfuel : frames.flatten.length ≤ fuel) : cutFrames fuel frames.flatten = (frames, []) := by
  induction frames generalizing fuel with
  | nil =>
    cases fuel with
    | zero => rfl
    | succ fuel => rfl
  | cons frame frames ih =>
    obtain ⟨kind, payload, hparse⟩ := hframes frame List.mem_cons_self
    obtain ⟨rfl, hlt⟩ := exportParse_eq_ok_iff.mp hparse
    rw [List.flatten_cons, List.length_append, length_frameBytes, exportHeaderLen] at hfuel
    cases fuel with
    | zero => omega
    | succ fuel =>
      rw [List.flatten_cons, cutFrames, frameLen_frameBytes hlt]
      simp only [List.drop_left, List.take_left]
      rw [ih (fun f hf => hframes f (List.mem_cons_of_mem _ hf)) (by omega)]

theorem streamFrames_of_wellFormed :
    streamFrames frames.flatten = frames ∧ streamTail frames.flatten = [] := by
  rw [streamFrames, streamTail, cutFrames_of_wellFormed hframes le_rfl]
  exact ⟨rfl, rfl⟩

end

/-- A stream of framed items is read back item by item, in their order and with nothing left over. -/
theorem export_stream_round_trip (items : List (ExportKind × List UInt8)) (cap : Nat)
    (h : List.Forall₂ (fun item frame => exportFrame item.1 item.2 cap = some frame) items frames) :
    (streamFrames frames.flatten).map exportParse = items.map (fun item => .ok item.1 item.2) ∧
      streamTail frames.flatten = [] := by
  have hparse : frames.map exportParse = items.map fun item => .ok item.1 item.2 := by
    induction h with
    | nil => rfl
    | cons hitem _ ih => rw [List.map_cons, List.map_cons, ih, exportParse_of_exportFrame hitem]
  have hframes : ∀ frame ∈ frames, ∃ kind payload, exportParse frame = .ok kind payload := by
    intro frame hframe
    obtain ⟨item, -, hitem⟩ := List.mem_map.mp (hparse ▸ List.mem_map_of_mem hframe)
    exact ⟨item.1, item.2, hitem.symm⟩
  obtain ⟨hcut, htail⟩ := streamFrames_of_wellFormed hframes
  rw [hcut]
  exact ⟨hparse, htail⟩

theorem export_stream_sample :
    (streamFrames [frameBytes .record [1, 2], frameBytes .proof []].flatten).map exportParse =
      [.ok .record [1, 2], .ok .proof []] :=
  (export_stream_round_trip [(.record, [1, 2]), (.proof, [])] 64 (.cons rfl (.cons rfl .nil))).1

end VaultWitness
