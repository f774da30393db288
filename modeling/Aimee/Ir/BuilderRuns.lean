-- SUMMARY: What the stages and the steps of the response builder do to its slots, its bytes and its texts.
import Aimee.Ir.Builder

/-!
# Steps of the response builder

Every write of the builder goes through a stage, and every stage writes one field of one slot, so
what a step does is said once: `Applied` lists the outcomes of a step with what each leaves
behind. The results about runs are read off it.
-/

namespace AimeeIr

/-! ## Fields -/

theorem Slot.get_put_self (s : Slot) (value : Option CString) (f : Field) : (s.put value f).get f = value := by
  cases f <;> rfl

theorem Slot.get_put_of_ne (s : Slot) (value : Option CString) {f g : Field} (h : f ≠ g) :
    (s.put value f).get g = s.get g := by
  cases f <;> cases g <;> first | rfl | exact absurd rfl h

@[simp] theorem Slot.put_stopped (s : Slot) (value : Option CString) (f : Field) :
    (s.put value f).stopped = s.stopped := by
  cases f <;> rfl

@[simp] theorem Slot.put_type (s : Slot) (value : Option CString) (f : Field) :
    (s.put value f).block.type = s.block.type := by
  cases f <;> rfl

theorem val_concat_pair (a b : CString) : (CString.concat [a, b]).val = a.val ++ b.val := by
  simp [CString.concat]

/-! ## Payload -/

def textLength (s : Option CString) : ℕ := s.elim 0 (·.val.length)

/-- The arguments of a tool call as JSON: its argument text, or else its initial input. -/
def Slot.inputSize (s : Slot) : ℕ :=
  if present s.arguments then 0 else (s.block.toolInput.bind CJson.printUnformatted).elim 0 List.length

/-- The bytes a slot holds. -/
def Slot.payload (s : Slot) : ℕ :=
  textLength (s.get .text) + textLength (s.get .signature) + textLength (s.get .redacted) +
    textLength (s.get .thinkingId) + textLength (s.get .encrypted) + textLength (s.get .toolId) +
    textLength (s.get .toolName) + textLength (s.get .toolNamespace) + textLength (s.get .arguments) + s.inputSize

theorem inputSize_extended (s : Slot) (f : Field) (text : CString) :
    (s.put (some (.concat [(s.get f).getD .empty, text])) f).inputSize ≤ s.inputSize := by
  cases f with
  | arguments =>
    unfold Slot.inputSize
    split
    · exact Nat.zero_le _
    · next habsent =>
      -- A longer argument text is empty only where the shorter one was.
      have hbefore : present s.arguments = false := by
        cases hargs : s.arguments with
        | none => rfl
        | some args =>
          simp only [present, Slot.put, Slot.get, hargs, Option.getD_some, Option.any_some, val_concat_pair,
            ne_eq, List.append_eq_nil_iff, not_and, decide_eq_true_eq, not_forall, not_not] at habsent ⊢
          simpa using habsent.1
      rw [if_neg (by simp [hbefore])]
      exact le_rfl
  | _ => exact le_rfl

theorem payload_extended (s : Slot) (f : Field) (text : CString) :
    (s.put (some (.concat [(s.get f).getD .empty, text])) f).payload ≤ s.payload + text.val.length := by
  have hinput := inputSize_extended s f text
  have hlength : textLength (some (.concat [(s.get f).getD .empty, text])) = textLength (s.get f) +
    text.val.length := by
    cases hget : s.get f with
    | none => simp [textLength, val_concat_pair]
    | some old => simp [textLength, val_concat_pair]
  unfold Slot.payload
  cases f
  all_goals
    simp only [Slot.get_put_self, Slot.get_put_of_ne, ne_eq, reduceCtorEq, not_false_eq_true, hlength]
    omega

/-! ## Stages -/

/-- The shapes of a stage. -/
inductive Writes : Stage → Prop where
  | appendBuffer (f : Field) (text : Option CString) : Writes (appendBuffer f text)
  | append (f : Field) (text : Option CString) : Writes (append f text)
  | retain (f : Field) (value : Option CString) : Writes (retain f value)
  | check (p : Slot → Bool) : Writes (check p)
  | setInput (input : Option CJson) : Writes (setInput input)
  | skip : Writes some

theorem writes_startStages (d : Delta) : ∀ stage ∈ startStages d, Writes stage := by
  intro stage hstage
  unfold startStages at hstage
  split at hstage
  · simp only [List.mem_cons, List.not_mem_nil, or_false] at hstage
    rcases hstage with rfl | rfl | rfl | rfl | rfl
    · exact .check _
    · exact .append _ _
    · exact .append _ _
    · exact .append _ _
    · exact .setInput _
  · simp only [List.mem_cons, List.not_mem_nil, or_false] at hstage
    rcases hstage with rfl | rfl | rfl | rfl | rfl
    · exact .appendBuffer _ _
    · exact .appendBuffer _ _
    · exact .append _ _
    · exact .retain _ _
    · exact .retain _ _

theorem writes_deltaStages (d : Delta) : ∀ stage ∈ deltaStages d, Writes stage := by
  intro stage hstage
  simp only [deltaStages, List.mem_cons, List.not_mem_nil, or_false] at hstage
  rcases hstage with rfl | rfl | rfl | rfl | rfl | rfl | rfl | rfl | rfl
  · exact .check _
  · exact .appendBuffer _ _
  · exact .check _
  · exact .check _
  · exact .appendBuffer _ _
  · exact .appendBuffer _ _
  · exact .retain _ _
  · exact .retain _ _
  · split
    · exact .append _ _
    · exact .skip

variable {w w' : Work} {f : Field} {text : Option CString} {input : Option CJson} {stages : List Stage}
     {slots : List Slot} {i : ℕ} {b : Builder} {d : Delta}

theorem appendBuffer_some (h : appendBuffer f text w = some w') :
    w' = w ∨ ∃ t, text = some t ∧ fits w.bytes t = true ∧
      w' = ⟨w.slot.put (some (.concat [(w.slot.get f).getD .empty, t])) f, w.bytes + t.val.length⟩ := by
  unfold appendBuffer at h
  cases text with
  | none => exact .inl (Option.some.inj h).symm
  | some t =>
    dsimp only at h
    split at h
    · next hfits => exact .inr ⟨t, rfl, hfits, (Option.some.inj h).symm⟩
    · cases h

theorem append_some (h : append f text w = some w') :
    w.slot.get f = none ∧ appendBuffer f text w = some w' := by
  unfold append at h
  split at h
  · cases h
  · next habsent => exact ⟨by simpa using habsent, h⟩

theorem retain_some {value : Option CString} (h : retain f value w = some w') :
    w' = w ∨ appendBuffer f value w = some w' := by
  unfold retain at h
  cases value with
  | none => exact .inl (Option.some.inj h).symm
  | some value =>
    dsimp only at h
    split at h
    · split at h
      · exact .inl (Option.some.inj h).symm
      · cases h
    · exact .inr (append_some h).2

theorem setInput_some (h : setInput input w = some w') :
    w' = w ∨ ∃ json text, input = some json ∧ json.printUnformatted = some text ∧
      w.bytes + text.length ≤ builderMaxBytes ∧
      w' = ⟨{ w.slot with block := { w.slot.block with toolInput := some json } }, w.bytes + text.length⟩ := by
  unfold setInput at h
  cases input with
  | none => exact .inl (Option.some.inj h).symm
  | some json =>
    dsimp only at h
    split at h
    · cases h
    · next text hprint =>
      split at h
      · next hfits => exact .inr ⟨json, text, rfl, hprint, by omega, (Option.some.inj h).symm⟩
      · cases h

/-- What one write, and hence any number of them, leaves of the slot and adds to the bytes. -/
structure Wrote (w w' : Work) : Prop where
  stopped : w'.slot.stopped = w.slot.stopped
  type : w'.slot.block.type = w.slot.block.type
  payload : w'.slot.payload + w.bytes ≤ w.slot.payload + w'.bytes
  bytes : w.bytes ≤ builderMaxBytes → w'.bytes ≤ builderMaxBytes

theorem Wrote.refl (w : Work) : Wrote w w := ⟨rfl, rfl, le_rfl, id⟩

theorem Wrote.trans {w₁ w₂ w₃ : Work} (h : Wrote w₁ w₂) (h' : Wrote w₂ w₃) : Wrote w₁ w₃ := by
  refine ⟨h'.stopped.trans h.stopped, h'.type.trans h.type, ?_, fun hle => h'.bytes (h.bytes hle)⟩
  have := h.payload
  have := h'.payload
  omega

theorem wrote_appendBuffer (h : appendBuffer f text w = some w') :
    Wrote w w' := by
  rcases appendBuffer_some h with rfl | ⟨t, -, hfits, rfl⟩
  · exact .refl _
  · have hpayload := payload_extended w.slot f t
    simp only [fits, Bool.and_eq_true, decide_eq_true_eq] at hfits
    exact ⟨Slot.put_stopped .., Slot.put_type .., by dsimp only; omega, fun _ => by dsimp only; omega⟩

theorem wrote_setInput (h : setInput input w = some w') : Wrote w w' := by
  rcases setInput_some h with rfl | ⟨json, text, -, hprint, hfits, rfl⟩
  · exact .refl _
  · refine ⟨rfl, rfl, ?_, fun _ => hfits⟩
    have hsize : Slot.inputSize { w.slot with block := { w.slot.block with toolInput := some json } } ≤
      text.length := by
      unfold Slot.inputSize
      split
      · exact Nat.zero_le _
      · simp [hprint]
    dsimp only at hsize
    unfold Slot.payload
    simp only [Slot.get]
    omega

theorem Writes.wrote {stage : Stage} (hstage : Writes stage) (h : stage w = some w') : Wrote w w' := by
  cases hstage with
  | appendBuffer f text => exact wrote_appendBuffer h
  | append f text => exact wrote_appendBuffer (append_some h).2
  | retain f value =>
    rcases retain_some h with rfl | h
    · exact .refl _
    · exact wrote_appendBuffer h
  | check p =>
    unfold AimeeIr.check at h
    split at h
    · exact Option.some.inj h ▸ .refl w
    · cases h
  | setInput input => exact wrote_setInput h
  | skip => exact Option.some.inj h ▸ .refl w

/-- A relation that every stage keeps is kept by any number of them, refused or not. -/
theorem runStages_rel {R : Work → Work → Prop} (hrefl : ∀ w, R w w)
    (htrans : ∀ {a b c}, R a b → R b c → R a c) (h : ∀ stage ∈ stages, ∀ w w', stage w = some w' → R w w') (w : Work) :
    R w (runStages stages w).2 := by
  induction stages generalizing w with
  | nil => exact hrefl w
  | cons stage rest ih =>
    rw [runStages]
    cases hstage : stage w with
    | none => exact hrefl w
    | some w' =>
      exact htrans (h stage List.mem_cons_self w w' hstage)
        (ih (fun stage hmem => h stage (List.mem_cons_of_mem _ hmem)) w')

theorem wrote_runStages (h : ∀ stage ∈ stages, Writes stage) (w : Work) :
    Wrote w (runStages stages w).2 :=
  runStages_rel Wrote.refl Wrote.trans (fun stage hmem _ _ hstage => (h stage hmem).wrote hstage) w

/-! ## Outcomes of a step -/

/-- The slots with one of them replaced, or added behind the last. -/
def setSlot (slots : List Slot) (i : ℕ) (slot : Slot) : List Slot := slots.take i ++ slot :: slots.drop (i + 1)

theorem append_eq_setSlot (slots : List Slot) (slot : Slot) : slots ++ [slot] = setSlot slots slots.length slot := by
  rw [setSlot, List.take_length, List.drop_of_length_le (Nat.le_succ _)]

theorem set_eq_setSlot (h : i < slots.length) (slot : Slot) :
    slots.set i slot = setSlot slots i slot := by
  rw [List.set_eq_take_append_cons_drop, if_pos h, setSlot]

theorem getElem?_setSlot (h : i ≤ slots.length) (slot : Slot) (j : ℕ) :
    (setSlot slots i slot)[j]? = if j = i then some slot else slots[j]? := by
  have hlength : (slots.take i).length = i := List.length_take_of_le h
  rcases lt_trichotomy j i with hlt | rfl | hlt
  · rw [setSlot, List.getElem?_append_left (by omega), List.getElem?_take_of_lt hlt, if_neg hlt.ne]
  · rw [setSlot, List.getElem?_append_right (by omega), hlength, Nat.sub_self, List.getElem?_cons_zero, if_pos rfl]
  · rw [setSlot, List.getElem?_append_right (by omega), hlength, if_neg hlt.ne', List.getElem?_cons,
      if_neg (by omega), List.getElem?_drop]
    congr 1
    omega

theorem sum_setSlot (size : Slot → ℕ) (h : i ≤ slots.length) (slot : Slot) :
    ((setSlot slots i slot).map size).sum + (slots[i]?).elim 0 size = (slots.map size).sum + size slot := by
  have hsplit : (slots.map size).sum = ((slots.take i).map size).sum + ((slots.drop i).map size).sum := by
    rw [← List.sum_append, ← List.map_append, List.take_append_drop]
  rw [hsplit, setSlot, List.map_append, List.map_cons, List.sum_append, List.sum_cons]
  rcases Nat.lt_or_eq_of_le h with hlt | rfl
  · rw [List.drop_eq_getElem_cons hlt, List.map_cons, List.sum_cons, List.getElem?_eq_getElem hlt, Option.elim_some]
    omega
  · rw [List.drop_of_length_le (Nat.le_succ _), List.getElem?_eq_none le_rfl, Option.elim_none]
    simp

/-- The delta is about a block and has passed the checks on every delta. -/
def reached (b : Builder) (d : Delta) : Bool :=
  entryAllowed b d && b.started && 0 ≤ d.blockId && d.blockId < maxBlocks

def freshSlot (d : Delta) : Slot := ⟨{ type := d.kind, messageGroup := d.messageGroup }, none, false⟩

/-- The slot that a delta is written to, and the writes. -/
def target (b : Builder) (d : Delta) : Option (Slot × List Stage) :=
  if reached b d then
    if d.type = .blockStart then
      if startAllowed b d then some (freshSlot d, startStages d) else none
    else if d.type = .blockDelta then
      (openSlot b d).bind fun slot => if d.kind = slot.block.type then some (slot, deltaStages d) else none
    else none
  else none

/-- The deltas of the turn itself. -/
def Delta.turnLevel (d : Delta) : Bool := d.type = .turnStart || d.type = .turnStop || d.type = .error

/-- A slot without the classification of its context. -/
def Slot.unclassified (s : Slot) : Slot := { s with block := { s.block with context := {} } }

/-- A slot of a response that is admitted. -/
def Slot.classify (r : Response) (s : Slot) : Slot := { s with block := admitBlock r s.block }

/-- The outcomes of a step. A refused step is not always without effect: a turn stop is refused
    after the header is written, and a write after other writes. -/
inductive Applied (b : Builder) (d : Delta) : Bool → Builder → Prop where
  | untouched (htarget : target b d = none) : Applied b d false b
  | turn {ok : Bool} {b' : Builder} (hturn : d.turnLevel = true) (hslots : b'.slots = b.slots)
      (hbytes : b.bytes ≤ b'.bytes) (hmax : b.bytes ≤ builderMaxBytes → b'.bytes ≤ builderMaxBytes) :
      Applied b d ok b'
  | admitted {b' : Builder} {r : Response} (htype : d.type = .turnStop) (hall : ∀ s ∈ b.slots, s.stopped = true)
      (hslots : b'.slots = b.slots.map (Slot.classify r))
      (hcomplete : b'.complete = true) (hbytes : b.bytes ≤ b'.bytes)
      (hmax : b.bytes ≤ builderMaxBytes → b'.bytes ≤ builderMaxBytes) : Applied b d true b'
  | stopped {b' : Builder} {slot slot' : Slot} (htype : d.type = .blockStop)
      (hid : d.blockId = (d.blockId.toNat : ℤ)) (hopen : openSlot b d = some slot)
      (hstop : stopSlot slot = some slot') (hslots : b'.slots = setSlot b.slots d.blockId.toNat slot')
      (hbytes : b'.bytes = b.bytes) : Applied b d true b'
  | staged {b' : Builder} {slot : Slot} {stages : List Stage} (htarget : target b d = some (slot, stages))
      (hslots : b'.slots = setSlot b.slots d.blockId.toNat (runStages stages ⟨slot, b.bytes⟩).2.slot)
      (hbytes : b'.bytes = (runStages stages ⟨slot, b.bytes⟩).2.bytes) :
      Applied b d (runStages stages ⟨slot, b.bytes⟩).1 b'

theorem openSlot_some {slot : Slot} (h : openSlot b d = some slot) :
    b.slots[d.blockId.toNat]? = some slot ∧ d.blockId.toNat < b.slots.length ∧ slot.stopped = false := by
  obtain ⟨hget, hopen⟩ := Option.filter_eq_some_iff.mp h
  exact ⟨hget, (List.getElem?_eq_some_iff.mp hget).1, by simpa using hopen⟩

theorem builderGrow_some (h : b.slots.length < maxBlocks) :
    ∃ capacity, builderGrow b = some { b with capacity := capacity } := by
  unfold builderGrow
  split
  · exact ⟨b.capacity, rfl⟩
  · next hfull =>
    -- The capacity is below the limit, as the number of slots is, so doubling it helps.
    have hroom : ¬(if maxBlocks < (if b.capacity ≠ 0 then b.capacity * 2 else 4) then maxBlocks
        else if b.capacity ≠ 0 then b.capacity * 2 else 4) ≤ b.capacity := by
      have hmax : maxBlocks = 4096 := rfl
      rcases Nat.eq_zero_or_pos b.capacity with hzero | hpos
      · simp [hzero, hmax]
      · rw [if_pos hpos.ne']
        split <;> omega
    exact ⟨_, if_neg hroom⟩

theorem target_none_of_type (hstart : d.type ≠ .blockStart) (hdelta : d.type ≠ .blockDelta) :
    target b d = none := by
  simp [target, hstart, hdelta]

theorem keepRefusal_some {b b' : Builder} (h : keepRefusal b d = some b') :
    b'.slots = b.slots ∧ b.bytes ≤ b'.bytes ∧ (b.bytes ≤ builderMaxBytes → b'.bytes ≤ builderMaxBytes) := by
  unfold keepRefusal at h
  split at h
  · obtain rfl := Option.some.inj h
    exact ⟨rfl, le_rfl, id⟩
  · dsimp only at h
    split at h
    · next hfits =>
      obtain rfl := Option.some.inj h
      exact ⟨rfl, Nat.le_add_right _ _, fun _ => by dsimp only; omega⟩
    · cases h

theorem applied_turnStop (b : Builder) (d : Delta) (htype : d.type = .turnStop) :
    Applied b d (applyTurnStop b d).1 (applyTurnStop b d).2 := by
  have htarget : target b d = none := target_none_of_type (by simp [htype]) (by simp [htype])
  unfold applyTurnStop
  split
  · exact .untouched htarget
  · next hstopped =>
    have hall : ∀ s ∈ b.slots, s.stopped = true := by simpa using hstopped
    split
    · exact .untouched htarget
    · next kept hkept =>
      obtain ⟨hslots, hbytes, hmax⟩ := keepRefusal_some hkept
      dsimp only
      split
      · exact .admitted htype hall (congrArg (List.map _) hslots) rfl hbytes hmax
      · exact .turn (by simp [Delta.turnLevel, htype]) hslots hbytes hmax

theorem applied_blockStart (b : Builder) (d : Delta) (hreached : reached b d = true) (htype : d.type = .blockStart) :
    Applied b d (applyBlockStart b d).1 (applyBlockStart b d).2 := by
  unfold applyBlockStart
  split
  · next hallowed =>
    have htarget : target b d = some (freshSlot d, startStages d) := by
      rw [target, if_pos hreached, if_pos htype, if_pos hallowed]
    have hindex : d.blockId = b.slots.length := by
      simp only [startAllowed, Bool.and_eq_true, decide_eq_true_eq] at hallowed
      exact hallowed.1.2
    have hroom : b.slots.length < maxBlocks := by
      simp only [reached, Bool.and_eq_true, decide_eq_true_eq] at hreached
      omega
    obtain ⟨capacity, hgrow⟩ := builderGrow_some hroom
    rw [hgrow]
    refine .staged htarget ?_ rfl
    rw [hindex]
    exact append_eq_setSlot ..
  · next hrefused =>
    refine .untouched ?_
    rw [target, if_pos hreached, if_pos htype, if_neg hrefused]

theorem applied_blockStop (b : Builder) (d : Delta) (htype : d.type = .blockStop) (hid : 0 ≤ d.blockId) :
    Applied b d (applyBlockStop b d).1 (applyBlockStop b d).2 := by
  have htarget : target b d = none := target_none_of_type (by simp [htype]) (by simp [htype])
  unfold applyBlockStop
  split
  · exact .untouched htarget
  · next slot hopen =>
    split
    · exact .untouched htarget
    · next slot' hstop =>
        exact .stopped htype (Int.toNat_of_nonneg hid).symm hopen hstop (set_eq_setSlot (openSlot_some hopen).2.1 _) rfl

theorem applied_blockDelta (b : Builder) (d : Delta) (hreached : reached b d = true) (htype : d.type = .blockDelta) :
    Applied b d (applyBlockDelta b d).1 (applyBlockDelta b d).2 := by
  have hstart : d.type ≠ .blockStart := by simp [htype]
  unfold applyBlockDelta
  split
  · next hclosed =>
    refine .untouched ?_
    rw [target, if_pos hreached, if_neg hstart, if_pos htype, hclosed, Option.bind_none]
  · next slot hopen =>
    split
    · next hkind =>
      have htarget : target b d = some (slot, deltaStages d) := by
        rw [target, if_pos hreached, if_neg hstart, if_pos htype, hopen, Option.bind_some, if_pos hkind]
      exact .staged htarget (set_eq_setSlot (openSlot_some hopen).2.1 _) rfl
    · next hkind =>
      refine .untouched ?_
      rw [target, if_pos hreached, if_neg hstart, if_pos htype, hopen, Option.bind_some, if_neg hkind]

/-- Every step has one of the outcomes. -/
theorem builderApply_applied (b : Builder) (d : Delta) : Applied b d (builderApply b d).1 (builderApply b d).2 := by
  unfold builderApply
  split
  · next hentry =>
    cases htype : d.type with
    | turnStart =>
      have htarget : target b d = none := target_none_of_type (by simp [htype]) (by simp [htype])
      simp only [if_true, applyTurnStart]
      split
      · exact .untouched htarget
      · exact .turn (by simp [Delta.turnLevel, htype]) rfl le_rfl id
    | error =>
      have htarget : target b d = none := target_none_of_type (by simp [htype]) (by simp [htype])
      simp only [reduceCtorEq, if_false, if_true]
      split
      · exact .untouched htarget
      · exact .turn (by simp [Delta.turnLevel, htype]) rfl le_rfl id
    | turnStop =>
      simp only [reduceCtorEq, if_false, if_true]
      split
      · exact .untouched (target_none_of_type (by simp [htype]) (by simp [htype]))
      · exact applied_turnStop b d htype
    | blockStart =>
      simp only [reduceCtorEq, if_false, if_true]
      split
      · next hstarted => exact .untouched (by simp [target, reached, by simpa using hstarted])
      · next hstarted =>
        split
        · next hindex => exact .untouched (by simp [target, reached]; omega)
        · next hindex =>
          refine applied_blockStart b d ?_ htype
          simp only [reached, hentry, Bool.true_and, Bool.and_eq_true, decide_eq_true_eq]
          exact ⟨⟨by simpa using hstarted, by omega⟩, by omega⟩
    | blockStop =>
      simp only [reduceCtorEq, if_false, if_true]
      split
      · exact .untouched (target_none_of_type (by simp [htype]) (by simp [htype]))
      · split
        · exact .untouched (target_none_of_type (by simp [htype]) (by simp [htype]))
        · next hindex => exact applied_blockStop b d htype (by omega)
    | blockDelta =>
      simp only [reduceCtorEq, if_false]
      split
      · next hstarted => exact .untouched (by simp [target, reached, by simpa using hstarted])
      · next hstarted =>
        split
        · next hindex => exact .untouched (by simp [target, reached]; omega)
        · next hindex =>
          refine applied_blockDelta b d ?_ htype
          simp only [reached, hentry, Bool.true_and, Bool.and_eq_true, decide_eq_true_eq]
          exact ⟨⟨by simpa using hstarted, by omega⟩, by omega⟩
  · next hentry => exact .untouched (by simp [target, reached, hentry])

end AimeeIr
