-- SUMMARY: Over every run of the response builder, closed blocks stay, inputs are objects, and bytes are bounded.
import Aimee.Ir.BuilderRuns

/-!
# Closed blocks and bounds

Closed blocks change no more, whatever is fed later, but for the classification of their context
by the turn stop that is accepted. A closed tool call has an object for its input, and the bytes
that are held are counted and bounded.
-/

namespace AimeeIr

theorem builderRun_append (b : Builder) (ds more : List Delta) :
    builderRun b (ds ++ more) = builderRun (builderRun b ds) more := List.foldl_append ..

theorem builderRun_cons (b : Builder) (d : Delta) (ds : List Delta) :
    builderRun b (d :: ds) = builderRun (builderApply b d).2 ds := rfl

variable {b : Builder} {slot : Slot} {d : Delta} {stages : List Stage} {i : ℕ} {slots : List Slot}

theorem builderApply_complete (h : b.complete = true) (d : Delta) : builderApply b d = (false, b) := by
  simp [builderApply, entryAllowed, h]

theorem builderRun_complete (h : b.complete = true) (ds : List Delta) : builderRun b ds = b := by
  induction ds with
  | nil => rfl
  | cons d ds ih => rw [builderRun_cons, builderApply_complete h, ih]

theorem target_some (h : target b d = some (slot, stages)) :
    d.blockId = (d.blockId.toNat : ℤ) ∧ d.blockId.toNat ≤ b.slots.length ∧ slot.stopped = false ∧
      (d.type = .blockStart ∧ startAllowed b d = true ∧ b.slots[d.blockId.toNat]? = none ∧ slot = freshSlot d ∧
          stages = startStages d ∨
        d.type = .blockDelta ∧ b.slots[d.blockId.toNat]? = some slot ∧ d.kind = slot.block.type ∧
          stages = deltaStages d) ∧
      entryAllowed b d = true := by
  unfold target at h
  split at h
  · next hreached =>
    simp only [reached, Bool.and_eq_true, decide_eq_true_eq] at hreached
    have hindex : d.blockId = (d.blockId.toNat : ℤ) := (Int.toNat_of_nonneg hreached.1.2).symm
    split at h
    · next htype =>
      split at h
      · next hallowed =>
        cases h
        have hnext : d.blockId = b.slots.length := by
          simp only [startAllowed, Bool.and_eq_true, decide_eq_true_eq] at hallowed
          exact hallowed.1.2
        have hlength : d.blockId.toNat = b.slots.length := by omega
        exact ⟨hindex, hlength.le, rfl,
          .inl ⟨htype, hallowed, List.getElem?_eq_none hlength.ge, rfl, rfl⟩, hreached.1.1.1⟩
      · cases h
    · split at h
      · next htype =>
        obtain ⟨slot', hopen, hkind⟩ := Option.bind_eq_some_iff.mp h
        split at hkind
        · next heq =>
          cases hkind
          obtain ⟨hget, hlt, hstopped⟩ := openSlot_some hopen
          exact ⟨hindex, hlt.le, hstopped, .inr ⟨htype, hget, heq, rfl⟩, hreached.1.1.1⟩
        · cases hkind
      · cases h
  · cases h

theorem writes_target (h : target b d = some (slot, stages)) : ∀ stage ∈ stages, Writes stage := by
  obtain ⟨-, -, -, ⟨-, -, -, -, rfl⟩ | ⟨-, -, -, rfl⟩, -⟩ := target_some h
  · exact writes_startStages d
  · exact writes_deltaStages d

/-! ## Closed blocks -/

theorem classifyBlock_unclassified (origin : ContextOrigin) (authority : ContextAuthority)
    (trust : ContextTrust) (b : Block) :
    { classifyBlock origin authority trust b with context := {} } = { b with context := {} } := by
  unfold classifyBlock
  split
  · rfl
  · cases b.type <;> rfl

theorem admitBlock_unclassified (r : Response) (b : Block) :
    { admitBlock r b with context := {} } = { b with context := {} } := by
  unfold admitBlock classifyMessage
  split
  · exact classifyBlock_unclassified ..
  split
  · exact classifyBlock_unclassified ..
  split
  · exact classifyBlock_unclassified ..
  · exact classifyBlock_unclassified ..

theorem classify_unclassified (r : Response) (s : Slot) : (s.classify r).unclassified = s.unclassified :=
  congrArg (fun block => ({ s with block := block } : Slot)) (admitBlock_unclassified r s.block)

theorem classify_get (r : Response) (s : Slot) (f : Field) : (s.classify r).get f = s.get f := by
  have hget : ∀ t : Slot, t.unclassified.get f = t.get f := fun t => by cases f <;> rfl
  rw [← hget, classify_unclassified, hget]

/-- One step leaves a closed slot alone, but for the context it classifies when it ends the turn. -/
theorem closed_step (d : Delta) (hget : b.slots[i]? = some slot)
    (hstopped : slot.stopped = true) :
    ∃ slot', (builderApply b d).2.slots[i]? = some slot' ∧ slot'.stopped = true ∧
      (slot' = slot ∨ (builderApply b d).2.complete = true ∧ slot'.unclassified = slot.unclassified) := by
  generalize hstep : builderApply b d = step
  have happlied := builderApply_applied b d
  rw [hstep] at happlied
  obtain ⟨ok, b'⟩ := step
  cases happlied with
  | untouched => exact ⟨slot, hget, hstopped, .inl rfl⟩
  | turn _ hslots => exact ⟨slot, by rw [hslots]; exact hget, hstopped, .inl rfl⟩
  | @admitted _ r _ _ hslots hcomplete =>
    refine ⟨slot.classify r, ?_, hstopped, .inr ⟨hcomplete, classify_unclassified r slot⟩⟩
    rw [hslots, List.getElem?_map, hget, Option.map_some]
  | @stopped _ old new _ _ hopen hstop hslots =>
    obtain ⟨hold, hlt, hopened⟩ := openSlot_some hopen
    have hne : i ≠ d.blockId.toNat := by
      rintro rfl
      cases hold.symm.trans hget
      exact absurd (hstopped.symm.trans hopened) (by simp)
    exact ⟨slot, by rw [hslots, getElem?_setSlot hlt.le, if_neg hne]; exact hget, hstopped, .inl rfl⟩
  | @staged _ old stages htarget hslots =>
    obtain ⟨-, hle, hopened, hcase, -⟩ := target_some htarget
    have hne : i ≠ d.blockId.toNat := by
      rintro rfl
      rcases hcase with ⟨-, -, hnone, -⟩ | ⟨-, hold, -⟩
      · cases hnone.symm.trans hget
      · cases hold.symm.trans hget
        exact absurd (hstopped.symm.trans hopened) (by simp)
    exact ⟨slot, by rw [hslots, getElem?_setSlot hle, if_neg hne]; exact hget, hstopped, .inl rfl⟩

/-- A closed slot stays as it is through any continuation, but for its context. -/
theorem closed_run (ds : List Delta) (hget : b.slots[i]? = some slot)
    (hstopped : slot.stopped = true) :
    ∃ slot', (builderRun b ds).slots[i]? = some slot' ∧ slot'.stopped = true ∧
      (slot' = slot ∨ (builderRun b ds).complete = true ∧ slot'.unclassified = slot.unclassified) := by
  induction ds generalizing b with
  | nil => exact ⟨slot, hget, hstopped, .inl rfl⟩
  | cons d ds ih =>
    rw [builderRun_cons]
    obtain ⟨slot', hget', hstopped', hsame⟩ := closed_step d hget hstopped
    rcases hsame with rfl | ⟨hcomplete, hsame⟩
    · exact ih hget'
    · -- The turn is over, and nothing that follows has an effect.
      rw [builderRun_complete hcomplete]
      exact ⟨slot', hget', hstopped', .inr ⟨hcomplete, hsame⟩⟩

theorem stopped_of_lt_closedPrefix (h : i < b.closedPrefix) :
    ∃ slot, b.slots[i]? = some slot ∧ slot.stopped = true := by
  obtain ⟨rest, hrest⟩ := List.takeWhile_prefix (l := b.slots) fun s => s.stopped
  have hget : ((b.slots.takeWhile fun s => s.stopped) ++ rest)[i]? = (b.slots.takeWhile fun s => s.stopped)[i]? :=
    List.getElem?_append_left h
  rw [hrest, List.getElem?_eq_getElem h] at hget
  exact ⟨_, hget, List.mem_takeWhile_imp (List.getElem_mem h)⟩

theorem le_length_takeWhile {n : ℕ}
    (h : ∀ i < n, ∃ slot, slots[i]? = some slot ∧ slot.stopped = true) :
    n ≤ (slots.takeWhile fun s => s.stopped).length := by
  induction slots generalizing n with
  | nil =>
    cases n with
    | zero => exact le_rfl
    | succ n =>
      obtain ⟨slot, hslot, -⟩ := h 0 (Nat.succ_pos n)
      cases hslot
  | cons s slots ih =>
    cases n with
    | zero => exact Nat.zero_le _
    | succ n =>
      obtain ⟨slot, hslot, hstopped⟩ := h 0 (Nat.succ_pos n)
      cases hslot
      rw [List.takeWhile_cons, if_pos hstopped]
      exact Nat.succ_le_succ (ih fun i hi => h (i + 1) (Nat.succ_lt_succ hi))

theorem closedPrefix_run (b : Builder) (ds : List Delta) : b.closedPrefix ≤ (builderRun b ds).closedPrefix := by
  refine le_length_takeWhile fun i hi => ?_
  obtain ⟨slot, hget, hstopped⟩ := stopped_of_lt_closedPrefix hi
  obtain ⟨slot', hget', hstopped', -⟩ := closed_run ds hget hstopped
  exact ⟨slot', hget', hstopped'⟩

/-! ## Inputs and bytes -/

/-- A closed tool call has an object for its input, and that is its argument text if it has one. -/
def Slot.inputOk (s : Slot) : Prop :=
  s.stopped = true → s.block.type = .toolUse →
    s.block.toolInput.any CJson.isObject = true ∧
      (present s.arguments = true → s.block.toolInput = jsonParseFrame (s.arguments.getD .empty).val)

/-- The closed inputs are objects, and the bytes that are held are counted and bounded. -/
structure Builder.Sound (b : Builder) : Prop where
  inputs : ∀ slot ∈ b.slots, slot.inputOk
  held : (b.slots.map Slot.payload).sum ≤ b.bytes
  bounded : b.bytes ≤ builderMaxBytes

theorem sound_start : Builder.Sound {} := ⟨fun _ h => absurd h List.not_mem_nil, le_rfl, Nat.zero_le _⟩

theorem mem_setSlot {slot s : Slot} (h : s ∈ setSlot slots i slot) : s = slot ∨ s ∈ slots := by
  rcases List.mem_append.mp h with h | h
  · exact .inr (List.mem_of_mem_take h)
  · rcases List.mem_cons.mp h with h | h
    · exact .inl h
    · exact .inr (List.mem_of_mem_drop h)

theorem payload_le {s t : Slot} (hget : ∀ f, t.get f = s.get f) (hsize : t.inputSize ≤ s.inputSize) :
    t.payload ≤ s.payload := by
  unfold Slot.payload
  simp only [hget]
  omega

theorem stopSlot_some {s s' : Slot} (h : stopSlot s = some s') :
    s'.stopped = true ∧ s'.inputOk ∧ s'.payload ≤ s.payload ∧ (∀ f, s'.get f = s.get f) := by
  unfold stopSlot at h
  split at h
  · split at h
    · next hpresent =>
      split at h
      · next hparsed =>
        cases h
        refine ⟨rfl, fun _ _ => ⟨rfl, fun _ => hparsed.symm⟩, payload_le (fun f => by cases f <;> rfl) ?_,
          fun f => by cases f <;> rfl⟩
        -- The argument text is counted in the place of the input.
        rw [Slot.inputSize, if_pos hpresent]
        exact Nat.zero_le _
      · cases h
    · next hpresent =>
      split at h
      · next hinput =>
        cases h
        exact ⟨rfl, fun _ _ => ⟨hinput, fun h => absurd h hpresent⟩, le_rfl, fun f => by cases f <;> rfl⟩
      · cases h
  · next htype =>
    cases h
    exact ⟨rfl, fun _ huse => absurd huse htype, le_rfl, fun f => by cases f <;> rfl⟩

theorem Builder.Sound.step (h : b.Sound) (d : Delta) : (builderApply b d).2.Sound := by
  generalize hstep : builderApply b d = step
  have happlied := builderApply_applied b d
  rw [hstep] at happlied
  obtain ⟨ok, b'⟩ := step
  cases happlied with
  | untouched => exact h
  | turn _ hslots hbytes hmax =>
    refine ⟨?_, ?_, hmax h.bounded⟩
    · rw [hslots]
      exact h.inputs
    · rw [hslots]
      exact h.held.trans hbytes
  | @admitted _ r _ _ hslots _ hbytes hmax =>
    refine ⟨?_, ?_, hmax h.bounded⟩
    · rw [hslots]
      intro slot hslot
      obtain ⟨old, hold, rfl⟩ := List.mem_map.mp hslot
      have hinput := congrArg Slot.inputOk (classify_unclassified r old)
      exact hinput.mpr (h.inputs old hold)
    · have hpayload : Slot.payload ∘ Slot.classify r = Slot.payload := by
        funext s
        have hsame := congrArg Slot.payload (classify_unclassified r s)
        exact hsame
      rw [hslots, List.map_map, hpayload]
      exact h.held.trans hbytes
  | @stopped _ old new _ _ hopen hstop hslots hbytes =>
    obtain ⟨hold, hlt, -⟩ := openSlot_some hopen
    obtain ⟨-, hinput, hpayload, -⟩ := stopSlot_some hstop
    refine ⟨?_, ?_, hbytes ▸ h.bounded⟩
    · intro slot hslot
      rw [hslots] at hslot
      rcases mem_setSlot hslot with rfl | hslot
      · exact hinput
      · exact h.inputs slot hslot
    · have hsum := sum_setSlot Slot.payload hlt.le new
      rw [hold, Option.elim_some] at hsum
      rw [hslots]
      have := h.held
      omega
  | @staged _ old stages htarget hslots hbytes =>
    obtain ⟨-, hle, hopened, hcase, -⟩ := target_some htarget
    have hwrote := wrote_runStages (writes_target htarget) ⟨old, b.bytes⟩
    refine ⟨?_, ?_, ?_⟩
    · intro slot hslot
      rw [hslots] at hslot
      rcases mem_setSlot hslot with rfl | hslot
      · intro hstopped
        exact absurd (hstopped.symm.trans (hwrote.stopped.trans hopened)) (by simp)
      · exact h.inputs slot hslot
    · have hsum := sum_setSlot Slot.payload hle (runStages stages ⟨old, b.bytes⟩).2.slot
      have hold : (b.slots[d.blockId.toNat]?).elim 0 Slot.payload = old.payload := by
        rcases hcase with ⟨-, -, hnone, rfl, -⟩ | ⟨-, hget, -⟩
        · rw [hnone]
          rfl
        · rw [hget]
          rfl
      have hpayload := hwrote.payload
      have := h.held
      rw [hslots]
      dsimp only at hpayload
      omega
    · rw [hbytes]
      exact hwrote.bytes h.bounded

theorem Builder.Sound.run (h : b.Sound) (ds : List Delta) : (builderRun b ds).Sound := by
  induction ds generalizing b with
  | nil => exact h
  | cons d ds ih => exact ih (h.step d)

end AimeeIr
