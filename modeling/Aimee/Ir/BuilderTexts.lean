-- SUMMARY: Over every run of the response builder, the text of a block is what its own deltas append.
import Aimee.Ir.BuilderFold

/-!
# The texts of the blocks

The text and the argument text of a block are its own deltas, in order: those the builder
accepted, and those it refused only after it had appended them.
-/

namespace AimeeIr

/-- The text a delta adds to its block, and the argument fragment it adds. -/
def Delta.payload (d : Delta) : Field → List UInt8
  | .text =>
    if (d.type = .blockStart ∨ d.type = .blockDelta) ∧ d.kind ≠ .toolUse then (d.textDelta.getD .empty).val else []
  | .arguments => if d.type = .blockDelta ∧ d.kind = .toolUse then (d.toolArgsDelta.getD .empty).val else []
  | _ => []

/-- The delta is about the block of that index. -/
def Delta.about (i : ℕ) (d : Delta) : Bool :=
  (d.type = .blockStart || d.type = .blockDelta || d.type = .blockStop) && d.blockId = i

/-- The text of a reasoning block, or the fragment of a tool call, is taken in before the fields
    that may refuse the delta are looked at. -/
def takenFirst (bytes : ℕ) (slot : Slot) (d : Delta) : Bool :=
  match d.kind with
  | .thinking => d.toolArgsDelta.isNone && d.textDelta.all (fits bytes)
  | .toolUse => d.type = .blockDelta && takesArguments d slot && d.toolArgsDelta.all (fits bytes)
  | _ => false

/-- The builder appends the payload of a delta that it accepts, or refuses half-way. -/
def appends (b : Builder) (d : Delta) : Bool :=
  (builderApply b d).1 || (target b d).any fun t => takenFirst b.bytes t.1 d

/-- The deltas of a run whose payload is appended. -/
def appendedOf (b : Builder) : List Delta → List Delta
  | [] => []
  | d :: ds => (if appends b d then [d] else []) ++ appendedOf (builderApply b d).2 ds

/-- The bytes of a field of a block. -/
def Builder.bytesAt (b : Builder) (f : Field) (i : ℕ) : List UInt8 := (((b.slots[i]?).bind (·.get f)).getD .empty).val

def Slot.bytesOf (s : Slot) (f : Field) : List UInt8 := ((s.get f).getD .empty).val

variable {rest stages : List Stage}

theorem runStages_of_some {stage : Stage} {w w' : Work} (h : stage w = some w') :
    runStages (stage :: rest) w = runStages rest w' := by
  rw [runStages, h]

variable {w : Work} {f : Field} {d : Delta} {b : Builder} {slot : Slot}

theorem runStages_of_none {stage : Stage} (h : stage w = none) :
    runStages (stage :: rest) w = (false, w) := by
  rw [runStages, h]

/-- A stage does not write a field. -/
def Leaves (f : Field) (stage : Stage) : Prop := ∀ w w', stage w = some w' → w'.slot.get f = w.slot.get f

theorem leaves_appendBuffer {f g : Field} (h : g ≠ f) (text : Option CString) : Leaves f (appendBuffer g text) := by
  intro w w' hstage
  rcases appendBuffer_some hstage with rfl | ⟨t, -, -, rfl⟩
  · rfl
  · exact Slot.get_put_of_ne _ _ h

theorem leaves_append {f g : Field} (h : g ≠ f) (text : Option CString) : Leaves f (append g text) :=
  fun w w' hstage => leaves_appendBuffer h text w w' (append_some hstage).2

theorem leaves_retain {f g : Field} (h : g ≠ f) (value : Option CString) : Leaves f (retain g value) := by
  intro w w' hstage
  rcases retain_some hstage with rfl | hstage
  · rfl
  · exact leaves_appendBuffer h value w w' hstage

theorem leaves_check (f : Field) (p : Slot → Bool) : Leaves f (check p) := by
  intro w w' hstage
  unfold check at hstage
  split at hstage
  · cases hstage
    rfl
  · cases hstage

theorem leaves_setInput (f : Field) (input : Option CJson) : Leaves f (setInput input) := by
  intro w w' hstage
  rcases setInput_some hstage with rfl | ⟨_, _, -, -, -, rfl⟩
  · rfl
  · cases f <;> rfl

theorem leaves_none (f g : Field) : Leaves f (appendBuffer g none) := by
  intro w w' hstage
  cases hstage
  rfl

theorem get_runStages (h : ∀ stage ∈ stages, Leaves f stage) (w : Work) :
    (runStages stages w).2.slot.get f = w.slot.get f :=
  runStages_rel (R := fun w w' => w'.slot.get f = w.slot.get f) (fun _ => rfl) (fun h h' => h'.trans h)
    (fun stage hmem w w' hstage => h stage hmem w w' hstage) w

/-- What a stage that appends to a field does to it. -/
theorem bytesOf_appendBuffer {text : Option CString} {w w' : Work} (h : appendBuffer f text w = some w') :
    w'.slot.bytesOf f = w.slot.bytesOf f ++ (text.getD .empty).val ∧ text.all (fits w.bytes) = true := by
  unfold appendBuffer at h
  cases text with
  | none =>
    cases h
    exact ⟨(List.append_nil _).symm, rfl⟩
  | some t =>
    dsimp only at h
    split at h
    · next hfits =>
      cases h
      refine ⟨?_, hfits⟩
      rw [Slot.bytesOf, Slot.get_put_self, Option.getD_some, val_concat_pair]
      rfl
    · cases h

theorem appendBuffer_none {text : Option CString} (h : appendBuffer f text w = none) :
    text.all (fits w.bytes) = false := by
  unfold appendBuffer at h
  cases text with
  | none => cases h
  | some t =>
    dsimp only at h
    split at h
    · cases h
    · next hfits => simpa using hfits

theorem bytesOf_congr {s t : Slot} (h : s.get f = t.get f) : s.bytesOf f = t.bytesOf f := by
  rw [Slot.bytesOf, h, Slot.bytesOf]

theorem startAllowed_kind (h : startAllowed b d = true) :
    d.kind = .text ∨ d.kind = .thinking ∨ d.kind = .toolUse := by
  simp only [startAllowed, Bool.and_eq_true, Bool.or_eq_true, decide_eq_true_eq] at h
  tauto

/-- Fields of another kind are absent from a block start that is accepted. -/
theorem startAllowed_fields (h : startAllowed b d = true) :
    (d.kind ≠ .toolUse → d.toolArgsDelta = none) ∧
      (d.kind ≠ .thinking → d.signatureDelta = none ∧ d.redactedContent = none) := by
  simp only [startAllowed, Bool.and_eq_true, Bool.not_eq_true', Bool.and_eq_false_iff, Bool.or_eq_false_iff,
    decide_eq_false_iff_not, Option.isSome_eq_false_iff, Option.isNone_iff_eq_none] at h
  tauto

theorem entryAllowed_fields (h : entryAllowed b d = true) (hkind : d.kind ≠ .thinking) :
    d.thinkingId = none ∧ d.thinkingEncryptedContent = none := by
  simp only [entryAllowed, Bool.and_eq_true, Bool.or_eq_true, decide_eq_true_eq, Option.isNone_iff_eq_none] at h
  tauto

/-- A block start: its text goes in first, unless it is a tool call. -/
theorem bytesOf_start (hentry : entryAllowed b d = true) (hallowed : startAllowed b d = true)
    (htype : d.type = .blockStart) (hf : f = .text ∨ f = .arguments) (n : ℕ) :
    (runStages (startStages d) ⟨freshSlot d, n⟩).2.slot.bytesOf f =
      if (runStages (startStages d) ⟨freshSlot d, n⟩).1 || takenFirst n (freshSlot d) d then d.payload f else [] := by
  have hfresh : (freshSlot d).bytesOf f = [] := by
    rcases hf with rfl | rfl <;> rfl
  by_cases hkind : d.kind = .toolUse
  · -- A tool call starts without text and without fragments.
    have hpayload : d.payload f = [] := by
      rcases hf with rfl | rfl <;> simp [Delta.payload, hkind, htype]
    rw [hpayload, ite_self, bytesOf_congr (get_runStages (f := f) ?_ _)]
    · exact hfresh
    · intro stage hstage
      simp only [startStages, if_pos hkind, List.mem_cons, List.not_mem_nil, or_false] at hstage
      rcases hstage with rfl | rfl | rfl | rfl | rfl
      · exact leaves_check f _
      · rcases hf with rfl | rfl <;> exact leaves_append (by simp) _
      · rcases hf with rfl | rfl <;> exact leaves_append (by simp) _
      · rcases hf with rfl | rfl <;> exact leaves_append (by simp) _
      · exact leaves_setInput f _
  · have htail : ∀ stage ∈ [appendBuffer .signature d.signatureDelta, append .redacted d.redactedContent,
        retain .thinkingId d.thinkingId, retain .encrypted d.thinkingEncryptedContent], Leaves f stage := by
      intro stage hstage
      simp only [List.mem_cons, List.not_mem_nil, or_false] at hstage
      rcases hstage with rfl | rfl | rfl | rfl
      · rcases hf with rfl | rfl <;> exact leaves_appendBuffer (by simp) _
      · rcases hf with rfl | rfl <;> exact leaves_append (by simp) _
      · rcases hf with rfl | rfl <;> exact leaves_retain (by simp) _
      · rcases hf with rfl | rfl <;> exact leaves_retain (by simp) _
    rw [startStages, if_neg hkind]
    cases htext : appendBuffer .text (some (d.textDelta.getD .empty)) ⟨freshSlot d, n⟩ with
    | none =>
      rw [runStages_of_none htext]
      have hrefused := appendBuffer_none htext
      have hnone : takenFirst n (freshSlot d) d = true → d.payload f = [] := by
        intro htaken
        rcases hf with rfl | rfl
        · cases hdelta : d.textDelta with
          | none => simp [Delta.payload, hdelta]
          | some t =>
            cases hd : d.kind <;> simp_all [takenFirst]
        · simp [Delta.payload, htype]
      rw [hfresh]
      cases htaken : takenFirst n (freshSlot d) d with
      | false => rfl
      | true => exact (hnone htaken).symm
    | some w =>
      rw [runStages_of_some htext]
      have hkept := bytesOf_congr (get_runStages htail w)
      rw [hkept]
      rcases hf with rfl | rfl
      · obtain ⟨hbytes, hfits⟩ := bytesOf_appendBuffer htext
        have hpayload : d.payload .text = (d.textDelta.getD .empty).val := by simp [Delta.payload, htype, hkind]
        rw [hbytes, hfresh, hpayload, List.nil_append]
        refine (if_pos ?_).symm
        rw [Bool.or_eq_true]
        rcases startAllowed_kind hallowed with htextual | hthinking | htool
        · -- Nothing of a text can be refused behind its bytes.
          have hplain : d.kind ≠ .thinking := by simp [htextual]
          obtain ⟨hsignature, hredacted⟩ := (startAllowed_fields hallowed).2 hplain
          obtain ⟨hid, hencrypted⟩ := entryAllowed_fields hentry hplain
          have hfield := leaves_appendBuffer (f := .redacted) (by simp) _ _ _ htext
          have hempty : w.slot.get .redacted = none := hfield.trans rfl
          left
          simp [runStages, appendBuffer, append, retain, hsignature, hredacted, hid, hencrypted, hempty]
        · right
          have hfits' : d.textDelta.all (fits n) = true := by
            cases hdelta : d.textDelta with
            | none => rfl
            | some t => simpa [hdelta] using hfits
          simp [takenFirst, hthinking, (startAllowed_fields hallowed).1 hkind, hfits']
        · exact absurd htool hkind
      · have hpayload : d.payload .arguments = [] := by simp [Delta.payload, htype]
        rw [hpayload, ite_self, bytesOf_congr (leaves_appendBuffer (by simp) _ _ _ htext)]
        exact hfresh

theorem check_pos {p : Slot → Bool} (h : p w.slot = true) : check p w = some w := if_pos h

theorem check_neg {p : Slot → Bool} (h : p w.slot = false) : check p w = none := if_neg (by simp [h])

/-- The writes of a block delta behind its argument fragment. -/
def tailStages (d : Delta) : List Stage := (deltaStages d).drop 2

theorem leaves_arguments_tail (d : Delta) : ∀ stage ∈ tailStages d, Leaves .arguments stage := by
  intro stage hstage
  simp only [tailStages, deltaStages, List.drop_succ_cons, List.drop_zero, List.mem_cons, List.not_mem_nil,
    or_false] at hstage
  rcases hstage with rfl | rfl | rfl | rfl | rfl | rfl | rfl
  · exact leaves_check _ _
  · exact leaves_check _ _
  · exact leaves_appendBuffer (by simp) _
  · exact leaves_appendBuffer (by simp) _
  · exact leaves_retain (by simp) _
  · exact leaves_retain (by simp) _
  · split
    · exact leaves_append (by simp) _
    · intro w w' hsome
      cases hsome
      rfl

/-- A tool call takes in its argument fragment, and no text. -/
theorem bytesOf_delta_tool (htype : d.type = .blockDelta) (hkind : d.kind = slot.block.type)
    (htool : d.kind = .toolUse) (hf : f = .text ∨ f = .arguments) (n : ℕ) :
    (runStages (deltaStages d) ⟨slot, n⟩).2.slot.bytesOf f = slot.bytesOf f ++
      if (runStages (deltaStages d) ⟨slot, n⟩).1 || takenFirst n slot d then d.payload f else [] := by
  have hstages : deltaStages d = check (takesArguments d) :: appendBuffer .arguments d.toolArgsDelta ::
    tailStages d := rfl
  have htaken : takenFirst n slot d = (takesArguments d slot && d.toolArgsDelta.all (fits n)) := by
    simp [takenFirst, htool, htype]
  rw [hstages]
  cases htakes : takesArguments d slot with
  | false =>
    rw [runStages_of_none (check_neg htakes), htaken, htakes]
    exact (List.append_nil _).symm
  | true =>
    rw [runStages_of_some (check_pos htakes)]
    cases hargs : appendBuffer .arguments d.toolArgsDelta ⟨slot, n⟩ with
    | none =>
      rw [runStages_of_none hargs, htaken, appendBuffer_none hargs, Bool.and_false]
      exact (List.append_nil _).symm
    | some w =>
      rw [runStages_of_some hargs]
      obtain ⟨hbytes, hfits⟩ := bytesOf_appendBuffer hargs
      rcases hf with rfl | rfl
      · -- A text refuses the delta before it is appended.
        have hpayload : d.payload .text = [] := by simp [Delta.payload, htool]
        rw [hpayload, ite_self, List.append_nil]
        have hsame : w.slot.get .text = slot.get .text := leaves_appendBuffer (by simp) _ _ _ hargs
        have hw : w.slot.block.type = .toolUse := (wrote_appendBuffer hargs).type.trans (hkind.symm.trans htool)
        rw [← bytesOf_congr hsame]
        apply bytesOf_congr
        cases hdelta : d.textDelta with
        | some t =>
          have hrefused : check (fun s => d.textDelta.isNone || s.block.type = .text || s.block.type = .thinking) w =
              none := check_neg (by simp [hdelta, hw])
          have htail : tailStages d = _ :: (tailStages d).tail := rfl
          rw [htail, runStages_of_none hrefused]
        | none =>
          refine get_runStages ?_ w
          intro stage hstage
          simp only [tailStages, deltaStages, List.drop_succ_cons, List.drop_zero, List.mem_cons, List.not_mem_nil,
            or_false, hdelta] at hstage
          rcases hstage with rfl | rfl | rfl | rfl | rfl | rfl | rfl
          · exact leaves_check _ _
          · exact leaves_check _ _
          · exact leaves_none _ _
          · exact leaves_appendBuffer (by simp) _
          · exact leaves_retain (by simp) _
          · exact leaves_retain (by simp) _
          · split
            · exact leaves_append (by simp) _
            · intro w w' hsome
              cases hsome
              rfl
      · have hpayload : d.payload .arguments = (d.toolArgsDelta.getD .empty).val := by
          simp [Delta.payload, htype, htool]
        rw [bytesOf_congr (get_runStages (leaves_arguments_tail d) w), hbytes, htaken, htakes, hfits, hpayload]
        simp

/-- The writes of a block delta behind its text. -/
def lastStages (d : Delta) : List Stage := (deltaStages d).drop 5

theorem leaves_text_last (d : Delta) : ∀ stage ∈ lastStages d, Leaves .text stage := by
  intro stage hstage
  simp only [lastStages, deltaStages, List.drop_succ_cons, List.drop_zero, List.mem_cons, List.not_mem_nil,
    or_false] at hstage
  rcases hstage with rfl | rfl | rfl | rfl
  · exact leaves_appendBuffer (by simp) _
  · exact leaves_retain (by simp) _
  · exact leaves_retain (by simp) _
  · split
    · exact leaves_append (by simp) _
    · intro w w' hsome
      cases hsome
      rfl

theorem takenFirst_plain {n : ℕ} (htool : d.kind ≠ .toolUse) :
    takenFirst n slot d = (decide (d.kind = .thinking) && (d.toolArgsDelta.isNone && d.textDelta.all (fits n))) := by
  unfold takenFirst
  cases hd : d.kind with
  | thinking => simp
  | toolUse => exact absurd hd htool
  | _ => rfl

/-- Behind the text of a block that is not reasoning, nothing can be refused. -/
theorem lastStages_plain (hentry : entryAllowed b d = true) (hkind : d.kind ≠ .thinking)
    (hsignature : d.signatureDelta = none) (hredacted : d.redactedContent = none) (w : Work) :
    (runStages (lastStages d) w).1 = true := by
  obtain ⟨hid, hencrypted⟩ := entryAllowed_fields hentry hkind
  simp [lastStages, deltaStages, runStages, appendBuffer, retain, hsignature, hredacted, hid, hencrypted]

theorem bytesOf_delta_plain (hentry : entryAllowed b d = true)
    (htype : d.type = .blockDelta) (hkind : d.kind = slot.block.type) (htool : d.kind ≠ .toolUse)
    (hf : f = .text ∨ f = .arguments) (n : ℕ) :
    (runStages (deltaStages d) ⟨slot, n⟩).2.slot.bytesOf f = slot.bytesOf f ++
      if (runStages (deltaStages d) ⟨slot, n⟩).1 || takenFirst n slot d then d.payload f else [] := by
  have hstages : deltaStages d = check (takesArguments d) :: appendBuffer .arguments d.toolArgsDelta ::
      check (fun s => d.textDelta.isNone || s.block.type = .text || s.block.type = .thinking) ::
      check (fun s => (d.signatureDelta.isNone && d.redactedContent.isNone) || s.block.type = .thinking) ::
      appendBuffer .text d.textDelta :: lastStages d := rfl
  have hslot : slot.block.type ≠ .toolUse := fun h => htool (hkind.trans h)
  -- A delta that is refused before its text is appended leaves the slot, and takes nothing in first.
  have hrefused : takenFirst n slot d = false → slot.bytesOf f = slot.bytesOf f ++
      if false || takenFirst n slot d then d.payload f else [] := by
    intro hfalse
    rw [hfalse]
    exact (List.append_nil _).symm
  have hnotThinking : d.kind ≠ .thinking → takenFirst n slot d = false := by
    intro hplain
    simp [takenFirst_plain htool, hplain]
  cases hargs : d.toolArgsDelta with
  | some args =>
    have htakes : takesArguments d slot = false := by simp [takesArguments, hargs, hslot]
    rw [hstages, runStages_of_none (check_neg htakes)]
    refine hrefused ?_
    simp [takenFirst_plain htool, hargs]
  | none =>
    have htakes : takesArguments d slot = true := by simp [takesArguments, hargs]
    have hnone : appendBuffer .arguments d.toolArgsDelta ⟨slot, n⟩ = some ⟨slot, n⟩ := by rw [hargs]; rfl
    rw [hstages, runStages_of_some (check_pos htakes), runStages_of_some hnone]
    cases htextual : (d.textDelta.isNone || slot.block.type = .text || slot.block.type = .thinking : Bool) with
    | false =>
      rw [runStages_of_none (check_neg htextual)]
      refine hrefused (hnotThinking fun hthinking => ?_)
      simp [← hkind, hthinking] at htextual
    | true =>
      rw [runStages_of_some (check_pos htextual)]
      cases hsigned : ((d.signatureDelta.isNone && d.redactedContent.isNone) || slot.block.type = .thinking : Bool) with
      | false =>
        rw [runStages_of_none (check_neg hsigned)]
        refine hrefused (hnotThinking fun hthinking => ?_)
        simp [← hkind, hthinking] at hsigned
      | true =>
        rw [runStages_of_some (check_pos hsigned)]
        cases htext : appendBuffer .text d.textDelta ⟨slot, n⟩ with
        | none =>
          rw [runStages_of_none htext]
          refine hrefused ?_
          rw [takenFirst_plain htool, appendBuffer_none htext, Bool.and_false, Bool.and_false]
        | some w =>
          rw [runStages_of_some htext]
          obtain ⟨hbytes, hfits⟩ := bytesOf_appendBuffer htext
          rcases hf with rfl | rfl
          · have hpayload : d.payload .text = (d.textDelta.getD .empty).val := by
              simp [Delta.payload, htype, htool]
            rw [bytesOf_congr (get_runStages (leaves_text_last d) w), hbytes, hpayload]
            congr 1
            refine (if_pos ?_).symm
            rw [Bool.or_eq_true]
            by_cases hthinking : d.kind = .thinking
            · right
              simp [takenFirst_plain htool, hthinking, hargs, hfits]
            · left
              have hplain : slot.block.type ≠ .thinking := hkind ▸ hthinking
              simp only [hplain, decide_false, Bool.or_false, Bool.and_eq_true, Option.isNone_iff_eq_none] at hsigned
              exact lastStages_plain hentry hthinking hsigned.1 hsigned.2 w
          · have hpayload : d.payload .arguments = [] := by simp [Delta.payload, htool]
            rw [hpayload, ite_self, List.append_nil]
            have hsame : w.slot.get .arguments = slot.get .arguments :=
              leaves_appendBuffer (by simp) _ _ _ htext
            rw [← bytesOf_congr hsame]
            refine bytesOf_congr (get_runStages (fun stage hstage => leaves_arguments_tail d stage ?_) w)
            exact List.mem_of_mem_drop (i := 3) hstage

theorem bytesAt_setSlot {slots : List Slot} {i : ℕ} (h : i ≤ slots.length) (slot : Slot)
    (hslots : b.slots = setSlot slots i slot) (f : Field) : b.bytesAt f i = slot.bytesOf f := by
  rw [Builder.bytesAt, hslots, getElem?_setSlot h, if_pos rfl]
  rfl

theorem bytesAt_setSlot_of_ne {b b' : Builder} {i j : ℕ} (h : i ≤ b.slots.length)
    (hslots : b'.slots = setSlot b.slots i slot) (hne : j ≠ i) (f : Field) : b'.bytesAt f j = b.bytesAt f j := by
  rw [Builder.bytesAt, hslots, getElem?_setSlot h, if_neg hne]
  rfl

theorem bytesAt_congr {b b' : Builder} (h : b'.slots = b.slots) (f : Field) (i : ℕ) :
    b'.bytesAt f i = b.bytesAt f i := by
  rw [Builder.bytesAt, h]
  rfl

theorem bytesAt_of_get {i : ℕ} (h : b.slots[i]? = some slot) (f : Field) :
    b.bytesAt f i = slot.bytesOf f := by
  rw [Builder.bytesAt, h]
  rfl

theorem bytesOf_target (h : target b d = some (slot, stages)) (hf : f = .text ∨ f = .arguments) :
    (runStages stages ⟨slot, b.bytes⟩).2.slot.bytesOf f = b.bytesAt f d.blockId.toNat ++
      if (runStages stages ⟨slot, b.bytes⟩).1 || takenFirst b.bytes slot d then d.payload f else [] := by
  obtain ⟨-, -, -, ⟨htype, hallowed, hnone, rfl, rfl⟩ | ⟨htype, hget, hkind, rfl⟩, hentry⟩ := target_some h
  · have hempty : b.bytesAt f d.blockId.toNat = [] := by
      rw [Builder.bytesAt, hnone]
      rfl
    rw [hempty]
    exact bytesOf_start hentry hallowed htype hf b.bytes
  · rw [bytesAt_of_get hget]
    by_cases htool : d.kind = .toolUse
    · exact bytesOf_delta_tool htype hkind htool hf b.bytes
    · exact bytesOf_delta_plain hentry htype hkind htool hf b.bytes

theorem payload_of_type (hstart : d.type ≠ .blockStart) (hdelta : d.type ≠ .blockDelta) (f : Field) :
    d.payload f = [] := by
  cases f <;> simp [Delta.payload, hstart, hdelta]

theorem bytesAt_step (b : Builder) (d : Delta) (hf : f = .text ∨ f = .arguments) (i : ℕ) :
    (builderApply b d).2.bytesAt f i = b.bytesAt f i ++ if appends b d && d.about i then d.payload f else [] := by
  generalize happends : appends b d = appended
  unfold appends at happends
  generalize hstep : builderApply b d = step at happends
  have happlied := builderApply_applied b d
  rw [hstep] at happlied
  obtain ⟨ok, b'⟩ := step
  cases happlied with
  | untouched htarget =>
    rw [htarget] at happends
    subst happends
    exact (List.append_nil _).symm
  | turn hturn hslots =>
    simp only [Delta.turnLevel, Bool.or_eq_true, decide_eq_true_eq] at hturn
    rw [payload_of_type (by grind) (by grind), ite_self, List.append_nil]
    exact bytesAt_congr hslots f i
  | @admitted _ r htype _ hslots =>
    rw [payload_of_type (by simp [htype]) (by simp [htype]), ite_self, List.append_nil, Builder.bytesAt,
      Builder.bytesAt, hslots, List.getElem?_map]
    cases b.slots[i]? with
    | none => rfl
    | some slot => exact congrArg (fun s : Option CString => (s.getD .empty).val) (classify_get r slot f)
  | @stopped _ old new htype _ hopen hstop hslots =>
    rw [payload_of_type (by simp [htype]) (by simp [htype]), ite_self, List.append_nil]
    obtain ⟨hold, hlt, -⟩ := openSlot_some hopen
    by_cases hindex : i = d.blockId.toNat
    · subst hindex
      rw [bytesAt_setSlot hlt.le new hslots, bytesAt_of_get hold]
      exact bytesOf_congr ((stopSlot_some hstop).2.2.2 f)
    · exact bytesAt_setSlot_of_ne hlt.le hslots hindex f
  | @staged _ slot stages htarget hslots =>
    obtain ⟨hcast, hle, -, hcase, -⟩ := target_some htarget
    rw [htarget, Option.any_some] at happends
    have hstarts : d.type = .blockStart ∨ d.type = .blockDelta := hcase.imp And.left And.left
    by_cases hindex : i = d.blockId.toNat
    · have habout : d.about i = true := by
        have hid : d.blockId = i := hindex ▸ hcast
        rcases hstarts with htype | htype <;> simp [Delta.about, htype, hid]
      subst hindex
      rw [bytesAt_setSlot hle _ hslots, bytesOf_target htarget hf, happends, habout, Bool.and_true]
    · have habout : d.about i = false := by
        simp only [Delta.about, Bool.and_eq_false_iff, decide_eq_false_iff_not]
        right
        omega
      rw [habout, Bool.and_false]
      exact (bytesAt_setSlot_of_ne hle hslots hindex f).trans (List.append_nil _).symm

/-- The texts of a block after a run: the payloads that were appended, in their order. -/
theorem bytesAt_run (b : Builder) (ds : List Delta) (hf : f = .text ∨ f = .arguments) (i : ℕ) :
    (builderRun b ds).bytesAt f i =
      b.bytesAt f i ++ ((appendedOf b ds).filter (Delta.about i)).flatMap fun d => d.payload f := by
  induction ds generalizing b with
  | nil => exact (List.append_nil _).symm
  | cons d ds ih =>
    rw [builderRun_cons, ih, bytesAt_step b d hf i, appendedOf, List.filter_append, List.flatMap_append,
      List.append_assoc]
    congr 2
    cases appends b d <;> cases habout : d.about i <;> simp [habout]

end AimeeIr
