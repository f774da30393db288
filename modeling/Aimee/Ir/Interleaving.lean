-- SUMMARY: The response builder is a fold: the final theorem, and that the interleaving of blocks does not matter.
import Aimee.Ir.BuilderTexts

/-!
# Interleaved blocks

In a run whose deltas are all accepted, a slot is a function of the deltas about it, and the header
one of the deltas of the turn. The response then does not depend on how the deltas of different
blocks are interleaved.
-/

namespace AimeeIr

/-- Every delta of a run is accepted. -/
def accepts (b : Builder) : List Delta → Bool
  | [] => true
  | d :: ds => (builderApply b d).1 && accepts (builderApply b d).2 ds

/-! ## Stages and bytes -/

/-- The count of bytes decides only whether a stage is refused, and a smaller count refuses less. -/
def Blind (stage : Stage) : Prop :=
  ∀ (s : Slot) (n : ℕ) (w : Work), stage ⟨s, n⟩ = some w → ∀ m ≤ n, ∃ m' ≤ w.bytes, stage ⟨s, m⟩ = some ⟨w.slot, m'⟩

variable {m n : ℕ} {stages : List Stage} {d : Delta} {b : Builder} {slot : Slot} {ds : List Delta}
     {ds₁ ds₂ : List Delta}

theorem fits_mono (h : m ≤ n) {text : CString} (hfits : fits n text = true) : fits m text = true := by
  simp only [fits, Bool.and_eq_true, decide_eq_true_eq] at hfits ⊢
  omega

theorem blind_appendBuffer (f : Field) (text : Option CString) : Blind (appendBuffer f text) := by
  intro s n w h m hm
  cases text with
  | none =>
    cases h
    exact ⟨m, hm, rfl⟩
  | some t =>
    simp only [appendBuffer] at h ⊢
    split at h
    · next hfits =>
      cases h
      exact ⟨m + t.val.length, Nat.add_le_add_right hm _, if_pos (fits_mono hm hfits)⟩
    · cases h

theorem blind_append (f : Field) (text : Option CString) : Blind (append f text) := by
  intro s n w h m hm
  unfold append at h ⊢
  split at h
  · cases h
  · next hempty =>
    rw [if_neg hempty]
    exact blind_appendBuffer f text s n w h m hm

theorem blind_retain (f : Field) (value : Option CString) : Blind (retain f value) := by
  intro s n w h m hm
  cases value with
  | none =>
    cases h
    exact ⟨m, hm, rfl⟩
  | some value =>
    simp only [retain] at h ⊢
    cases hkept : s.get f with
    | none =>
      rw [hkept] at h
      exact blind_append f (some value) s n w h m hm
    | some kept =>
      rw [hkept] at h
      dsimp only at h ⊢
      split at h
      · next heq =>
        cases h
        exact ⟨m, hm, if_pos heq⟩
      · cases h

theorem blind_check (p : Slot → Bool) : Blind (check p) := by
  intro s n w h m hm
  unfold check at h ⊢
  split at h
  · next hp =>
    cases h
    exact ⟨m, hm, if_pos hp⟩
  · cases h

theorem blind_setInput (input : Option CJson) : Blind (setInput input) := by
  intro s n w h m hm
  cases input with
  | none =>
    cases h
    exact ⟨m, hm, rfl⟩
  | some input =>
    simp only [setInput] at h ⊢
    cases hjson : input.printUnformatted with
    | none =>
      rw [hjson] at h
      cases h
    | some json =>
      rw [hjson] at h
      dsimp only at h ⊢
      split at h
      · next hfits =>
        cases h
        exact ⟨m + json.length, Nat.add_le_add_right hm _, if_pos ⟨hfits.1, hm.trans hfits.2⟩⟩
      · cases h

theorem blind_startStages (d : Delta) : ∀ stage ∈ startStages d, Blind stage := by
  intro stage hstage
  unfold startStages at hstage
  split at hstage
  · simp only [List.mem_cons, List.not_mem_nil, or_false] at hstage
    rcases hstage with rfl | rfl | rfl | rfl | rfl
    · exact blind_check _
    · exact blind_append _ _
    · exact blind_append _ _
    · exact blind_append _ _
    · exact blind_setInput _
  · simp only [List.mem_cons, List.not_mem_nil, or_false] at hstage
    rcases hstage with rfl | rfl | rfl | rfl | rfl
    · exact blind_appendBuffer _ _
    · exact blind_appendBuffer _ _
    · exact blind_append _ _
    · exact blind_retain _ _
    · exact blind_retain _ _

theorem blind_deltaStages (d : Delta) : ∀ stage ∈ deltaStages d, Blind stage := by
  intro stage hstage
  simp only [deltaStages, List.mem_cons, List.not_mem_nil, or_false] at hstage
  rcases hstage with rfl | rfl | rfl | rfl | rfl | rfl | rfl | rfl | rfl
  · exact blind_check _
  · exact blind_appendBuffer _ _
  · exact blind_check _
  · exact blind_check _
  · exact blind_appendBuffer _ _
  · exact blind_appendBuffer _ _
  · exact blind_retain _ _
  · exact blind_retain _ _
  · split
    · exact blind_append _ _
    · intro s n w hsome m hm
      cases hsome
      exact ⟨m, hm, rfl⟩

/-- Writes that are all accepted give the same slot from any smaller count. -/
theorem runStages_blind (h : ∀ stage ∈ stages, Blind stage) {s : Slot} (hm : m ≤ n)
    (hok : (runStages stages ⟨s, n⟩).1 = true) :
    (runStages stages ⟨s, m⟩).2.slot = (runStages stages ⟨s, n⟩).2.slot := by
  induction stages generalizing s m n with
  | nil => rfl
  | cons stage stages ih =>
    cases hstage : stage ⟨s, n⟩ with
    | none =>
      rw [runStages_of_none hstage] at hok
      cases hok
    | some w =>
      obtain ⟨m', hm', hsame⟩ := h stage List.mem_cons_self s n w hstage m hm
      rw [runStages_of_some hstage] at hok ⊢
      rw [runStages_of_some hsame]
      exact ih (fun stage hmem => h stage (List.mem_cons_of_mem _ hmem)) hm' hok

/-! ## A slot as a fold -/

/-- What an accepted delta makes of its slot. -/
def slotApply (slot : Option Slot) (d : Delta) : Option Slot :=
  match d.type with
  | .blockStart => some (runStages (startStages d) ⟨freshSlot d, 0⟩).2.slot
  | .blockDelta => slot.map fun slot => (runStages (deltaStages d) ⟨slot, 0⟩).2.slot
  | .blockStop => slot.bind stopSlot
  | _ => slot

/-- The deltas of the turn that end it. -/
def Delta.ends (d : Delta) : Bool := d.type = .turnStop || d.type = .error

theorem about_of_turnLevel (h : d.turnLevel = true) (i : ℕ) : d.about i = false := by
  simp only [Delta.turnLevel, Bool.or_eq_true, decide_eq_true_eq] at h
  rcases h with (h | h) | h <;> simp [Delta.about, h]

theorem turnLevel_of_ends (h : d.ends = true) : d.turnLevel = true := by
  simp only [Delta.ends, Bool.or_eq_true, decide_eq_true_eq] at h
  rcases h with h | h <;> simp [Delta.turnLevel, h]

theorem slotApply_target
    (htarget : target b d = some (slot, stages)) (hok : (runStages stages ⟨slot, b.bytes⟩).1 = true) :
    slotApply (b.slots[d.blockId.toNat]?) d = some (runStages stages ⟨slot, b.bytes⟩).2.slot := by
  obtain ⟨-, -, -, ⟨htype, -, -, rfl, rfl⟩ | ⟨htype, hget, -, rfl⟩, -⟩ := target_some htarget
  · simp only [slotApply, htype]
    exact congrArg some (runStages_blind (blind_startStages d) (Nat.zero_le _) hok)
  · simp only [slotApply, htype, hget, Option.map_some]
    exact congrArg some (runStages_blind (blind_deltaStages d) (Nat.zero_le _) hok)

/-- An accepted step that does not end the turn applies the delta to its slot and to no other. -/
theorem slots_step (hok : (builderApply b d).1 = true) (hgoes : d.ends = false) (i : ℕ) :
    (builderApply b d).2.slots[i]? = if d.about i then slotApply (b.slots[i]?) d else b.slots[i]? := by
  generalize hstep : builderApply b d = step at hok
  have happlied := builderApply_applied b d
  rw [hstep] at happlied
  obtain ⟨ok, b'⟩ := step
  -- The slot that is written is the one the delta is about.
  have hset {new : Slot} (hid : d.blockId = (d.blockId.toNat : ℤ)) (hle : d.blockId.toNat ≤ b.slots.length)
      (hblock : d.type = .blockStart ∨ d.type = .blockDelta ∨ d.type = .blockStop)
      (hslots : b'.slots = setSlot b.slots d.blockId.toNat new)
      (hnew : slotApply (b.slots[d.blockId.toNat]?) d = some new) :
      b'.slots[i]? = if d.about i then slotApply (b.slots[i]?) d else b.slots[i]? := by
    rw [hslots, getElem?_setSlot hle]
    have habout : d.about i = decide (i = d.blockId.toNat) := by
      have hiff : d.blockId = (i : ℤ) ↔ i = d.blockId.toNat := by omega
      rcases hblock with htype | htype | htype <;> simp [Delta.about, htype, hiff]
    rw [habout]
    by_cases hindex : i = d.blockId.toNat
    · rw [if_pos hindex, if_pos (decide_eq_true hindex), hindex, hnew]
    · rw [if_neg hindex, if_neg (by simpa using hindex)]
  cases happlied with
  | untouched => cases hok
  | turn hturn hslots =>
    rw [about_of_turnLevel hturn, hslots]
    rfl
  | admitted htype => simp [Delta.ends, htype] at hgoes
  | @stopped _ old new htype hid hopen hstop hslots =>
    obtain ⟨hold, hlt, -⟩ := openSlot_some hopen
    refine hset hid hlt.le (.inr (.inr htype)) hslots ?_
    simp only [slotApply, htype, hold, Option.bind_some]
    exact hstop
  | @staged _ slot stages htarget hslots =>
    obtain ⟨hcast, hle, -, hcase, -⟩ := target_some htarget
    refine hset hcast hle ?_ hslots (slotApply_target htarget hok)
    rcases hcase with ⟨htype, -⟩ | ⟨htype, -⟩
    · exact .inl htype
    · exact .inr (.inl htype)

/-- A slot is the fold of the deltas about it. -/
theorem slots_run (hok : accepts b ds = true) (hgoes : ∀ d ∈ ds, d.ends = false) (i : ℕ) :
    (builderRun b ds).slots[i]? = (ds.filter (Delta.about i)).foldl slotApply (b.slots[i]?) := by
  induction ds generalizing b with
  | nil => rfl
  | cons d ds ih =>
    simp only [accepts, Bool.and_eq_true] at hok
    rw [builderRun_cons, ih hok.2 fun d hmem => hgoes d (List.mem_cons_of_mem _ hmem),
      slots_step hok.1 (hgoes d List.mem_cons_self)]
    cases habout : d.about i <;> simp [habout]

/-! ## The header -/

/-- The header after an accepted delta that does not end the turn. -/
def headerApply (h : Header) (d : Delta) : Header :=
  if d.type = .turnStart then { h with role := some (.ofAscii "assistant") } else h

theorem header_builderGrow {b b' : Builder} (h : builderGrow b = some b') : b'.header = b.header := by
  unfold builderGrow at h
  split at h
  · cases h
    rfl
  · simp only [Option.ite_none_left_eq_some, Option.some.injEq] at h
    obtain ⟨-, rfl⟩ := h
    rfl

theorem header_step (hok : (builderApply b d).1 = true) (hgoes : d.ends = false) :
    (builderApply b d).2.header = headerApply b.header d := by
  simp only [Delta.ends, Bool.or_eq_false_iff, decide_eq_false_iff_not] at hgoes
  unfold builderApply at hok ⊢
  split at hok
  · next hentry =>
    rw [if_pos hentry]
    split at hok
    · next hturn =>
      rw [if_pos hturn, headerApply, if_pos hturn]
      unfold applyTurnStart at hok ⊢
      split at hok
      · cases hok
      · next hfresh => rw [if_neg hfresh]
    · next hturn =>
      rw [headerApply, if_neg hturn]
      simp only [hgoes.1, hgoes.2, if_false]
      split
      · rfl
      split
      · rfl
      split
      · unfold applyBlockStart
        split
        · split
          · rfl
          · next grown hgrow =>
            change grown.header = b.header
            exact header_builderGrow hgrow
        · rfl
      split
      · unfold applyBlockStop
        split
        · rfl
        · split <;> rfl
      · unfold applyBlockDelta
        split
        · rfl
        · split <;> rfl
  · cases hok

theorem header_run (hok : accepts b ds = true) (hgoes : ∀ d ∈ ds, d.ends = false) :
    (builderRun b ds).header = (ds.filter Delta.turnLevel).foldl headerApply b.header := by
  induction ds generalizing b with
  | nil => rfl
  | cons d ds ih =>
    simp only [accepts, Bool.and_eq_true] at hok
    rw [builderRun_cons, ih hok.2 fun d hmem => hgoes d (List.mem_cons_of_mem _ hmem),
      header_step hok.1 (hgoes d List.mem_cons_self)]
    cases hturn : d.turnLevel with
    | true => rw [List.filter_cons_of_pos hturn, List.foldl_cons]
    | false =>
      have hstart : d.type ≠ .turnStart := by
        intro htype
        simp [Delta.turnLevel, htype] at hturn
      rw [List.filter_cons_of_neg (by simp [hturn]), headerApply, if_neg hstart]

/-! ## The end of the turn -/

/-- The response after an accepted delta that ends the turn. -/
def endApply (h : Header) (slots : List Slot) (d : Delta) : Response :=
  if d.type = .error then
    { h with
      errorMessage := some (d.errorMessage.getD (.ofAscii "Provider stream failed")), stopReason := .error
      content := slots.map (·.block) }
  else
    let h := { h with
      refusal := d.refusal.or h.refusal, stopReason := d.stopReason, rawStopReason :=
        d.rawStopReason, usage := d.usage }
    { h with content := slots.map fun s => admitBlock { h with content := slots.map (·.block) } s.block }

theorem keepRefusal_header {b b' : Builder} (h : keepRefusal b d = some b') :
    b'.header = { b.header with refusal := d.refusal.or b.header.refusal } := by
  unfold keepRefusal at h
  cases hrefusal : d.refusal with
  | none =>
    rw [hrefusal] at h
    cases h
    rfl
  | some details =>
    rw [hrefusal] at h
    dsimp only at h
    split at h
    · cases h
      rfl
    · cases h

theorem ended_step (hok : (builderApply b d).1 = true) (hends : d.ends = true) :
    (builderApply b d).2.response = endApply b.header b.slots d ∧ (builderApply b d).2.complete = true := by
  simp only [Delta.ends, Bool.or_eq_true, decide_eq_true_eq] at hends
  unfold builderApply at hok ⊢
  split at hok
  · next hentry =>
    rw [if_pos hentry]
    have hturn : d.type ≠ .turnStart := by rcases hends with h | h <;> simp [h]
    rw [if_neg hturn] at hok ⊢
    split at hok
    · cases hok
    · next hstarted =>
      rw [if_neg hstarted]
      rcases hends with htype | htype
      · have herror : d.type ≠ .error := by simp [htype]
        rw [if_neg herror, if_pos htype] at hok ⊢
        rw [endApply, if_neg herror]
        unfold applyTurnStop at hok ⊢
        split at hok
        · cases hok
        · next hall =>
          rw [if_neg hall]
          cases hkept : keepRefusal b d with
          | none =>
            rw [hkept] at hok
            cases hok
          | some kept =>
            rw [hkept] at hok
            dsimp only at hok ⊢
            split at hok
            · next hvalid =>
              rw [if_pos hvalid]
              refine ⟨?_, rfl⟩
              simp only [Builder.response, keepRefusal_header hkept, (keepRefusal_some hkept).1, List.map_map]
              rfl
            · cases hok
      · rw [if_pos htype, endApply, if_pos htype]
        exact ⟨rfl, rfl⟩
  · cases hok

theorem accepts_shape (hok : accepts b ds = true) :
    ∃ start last, ds = start ++ last ∧ (∀ d ∈ start, d.ends = false) ∧
      (last = [] ∨ ∃ d, last = [d] ∧ d.ends = true) := by
  induction ds generalizing b with
  | nil => exact ⟨[], [], rfl, fun _ h => absurd h List.not_mem_nil, .inl rfl⟩
  | cons d ds ih =>
    simp only [accepts, Bool.and_eq_true] at hok
    cases hends : d.ends with
    | true =>
      refine ⟨[], [d], ?_, fun _ h => absurd h List.not_mem_nil, .inr ⟨d, rfl, hends⟩⟩
      cases ds with
      | nil => rfl
      | cons d' ds =>
        -- Nothing is accepted behind the end.
        have hrefused := builderApply_complete (ended_step hok.1 hends).2 d'
        simp [accepts, hrefused] at hok
    | false =>
      obtain ⟨start, last, rfl, hstart, hlast⟩ := ih hok.2
      refine ⟨d :: start, last, rfl, ?_, hlast⟩
      intro d' hmem
      rcases List.mem_cons.mp hmem with rfl | hmem
      · exact hends
      · exact hstart d' hmem

theorem accepts_append {ds more : List Delta} :
    accepts b (ds ++ more) = (accepts b ds && accepts (builderRun b ds) more) := by
  induction ds generalizing b with
  | nil => rfl
  | cons d ds ih => rw [List.cons_append, accepts, accepts, ih, Bool.and_assoc, builderRun_cons]

/-- The end of a run and what precedes it, read off the deltas of the turn and of the blocks. -/
theorem filter_shape {start last : List Delta} (hgoes : ∀ d ∈ start, d.ends = false)
    (hlast : last = [] ∨ ∃ d, last = [d] ∧ d.ends = true) :
    ((start ++ last).filter Delta.turnLevel).filter Delta.ends = last ∧
      ((start ++ last).filter Delta.turnLevel).filter (!·.ends) = start.filter Delta.turnLevel ∧
      ∀ i, (start ++ last).filter (Delta.about i) = start.filter (Delta.about i) := by
  have hnone : (start.filter Delta.turnLevel).filter Delta.ends = [] := by
    rw [List.filter_eq_nil_iff]
    intro d hmem
    simp [hgoes d (List.mem_filter.mp hmem).1]
  have hself : (start.filter Delta.turnLevel).filter (!·.ends) = start.filter Delta.turnLevel := by
    rw [List.filter_eq_self]
    intro d hmem
    simp [hgoes d (List.mem_filter.mp hmem).1]
  rcases hlast with rfl | ⟨d, rfl, hend⟩
  · rw [List.append_nil]
    exact ⟨hnone, hself, fun _ => rfl⟩
  · have hturn := turnLevel_of_ends hend
    simp [List.filter_append, hnone, hself, hturn, hend, about_of_turnLevel hturn]

/-- The deltas of each block and of the turn decide what is built before the end. -/
theorem built_eq (h₁ : accepts {} ds₁ = true) (h₂ : accepts {} ds₂ = true)
    (hgoes₁ : ∀ d ∈ ds₁, d.ends = false) (hgoes₂ : ∀ d ∈ ds₂, d.ends = false)
    (hblocks : ∀ i, ds₁.filter (Delta.about i) = ds₂.filter (Delta.about i))
    (hturn : ds₁.filter Delta.turnLevel = ds₂.filter Delta.turnLevel) :
    (builderRun {} ds₁).header = (builderRun {} ds₂).header ∧
      (builderRun {} ds₁).slots = (builderRun {} ds₂).slots := by
  constructor
  · rw [header_run h₁ hgoes₁, header_run h₂ hgoes₂, hturn]
  · apply List.ext_getElem?
    intro i
    rw [slots_run h₁ hgoes₁, slots_run h₂ hgoes₂, hblocks]

/-- The response does not depend on the interleaving of the blocks. -/
theorem response_interleaved (h₁ : accepts {} ds₁ = true) (h₂ : accepts {} ds₂ = true)
    (hblocks : ∀ i, ds₁.filter (Delta.about i) = ds₂.filter (Delta.about i))
    (hturn : ds₁.filter Delta.turnLevel = ds₂.filter Delta.turnLevel) :
    (builderRun {} ds₁).response = (builderRun {} ds₂).response := by
  obtain ⟨start₁, last₁, rfl, hgoes₁, hlast₁⟩ := accepts_shape h₁
  obtain ⟨start₂, last₂, rfl, hgoes₂, hlast₂⟩ := accepts_shape h₂
  rw [accepts_append, Bool.and_eq_true] at h₁ h₂
  -- The ends are the same delta, or both are missing.
  obtain ⟨hlast₁', hstart₁, habout₁⟩ := filter_shape hgoes₁ hlast₁
  obtain ⟨hlast₂', hstart₂, habout₂⟩ := filter_shape hgoes₂ hlast₂
  have hlast : last₁ = last₂ := by rw [← hlast₁', ← hlast₂', hturn]
  have hturn' : start₁.filter Delta.turnLevel = start₂.filter Delta.turnLevel := by rw [← hstart₁, ← hstart₂, hturn]
  have hblocks' : ∀ i, start₁.filter (Delta.about i) = start₂.filter (Delta.about i) := by
    intro i
    rw [← habout₁, ← habout₂, hblocks]
  obtain ⟨hheader, hslots⟩ := built_eq h₁.1 h₂.1 hgoes₁ hgoes₂ hblocks' hturn'
  subst hlast
  rw [builderRun_append, builderRun_append]
  rcases hlast₁ with rfl | ⟨d, rfl, hend⟩
  · change (builderRun {} start₁).response = (builderRun {} start₂).response
    rw [Builder.response, hheader, hslots]
    rfl
  · simp only [accepts, Bool.and_true] at h₁ h₂
    have hsame : endApply (builderRun {} start₁).header (builderRun {} start₁).slots d =
        endApply (builderRun {} start₂).header (builderRun {} start₂).slots d := by rw [hheader, hslots]
    exact (ended_step h₁.2 hend).1.trans (hsame.trans (ended_step h₂.2 hend).1.symm)

/-! ## The builder as a fold -/

theorem appendedOf_accepts (h : accepts b ds = true) : appendedOf b ds = ds := by
  induction ds generalizing b with
  | nil => rfl
  | cons d ds ih =>
    simp only [accepts, Bool.and_eq_true] at h
    have happends : appends b d = true := by rw [appends, h.1, Bool.true_or]
    rw [appendedOf, happends, ih h.2]
    rfl

theorem present_of_bytesAt {i : ℕ} (hget : b.slots[i]? = some slot)
    (h : b.bytesAt .arguments i ≠ []) : present slot.arguments = true := by
  rw [bytesAt_of_get hget] at h
  cases hargs : slot.arguments with
  | none => exact absurd (by simp [Slot.bytesOf, Slot.get, hargs, CString.empty]) h
  | some args => simpa [present, Slot.bytesOf, Slot.get, hargs] using h

/-- The builder is a fold of the deltas: blocks of the closed prefix stay, but for the context that
    the accepted turn stop sets; closed tool calls have objects for inputs; the payload is bounded;
    the texts of a block are the payloads of its own deltas, and a closed tool call's input is the
    object they spell; and the interleaving of blocks in an accepted run does not matter. -/
theorem builder_folds :
    (∀ (ds more : List Delta) (i : ℕ), i < (builderRun {} ds).closedPrefix →
      i < (builderRun {} (ds ++ more)).closedPrefix ∧
        ∃ slot slot', (builderRun {} ds).slots[i]? = some slot ∧ (builderRun {} (ds ++ more)).slots[i]? = some slot' ∧
          (slot' = slot ∨ (builderRun {} (ds ++ more)).complete = true ∧ slot'.unclassified = slot.unclassified)) ∧
    (∀ (ds : List Delta), ∀ slot ∈ (builderRun {} ds).slots, slot.stopped = true → slot.block.type = .toolUse →
      slot.block.toolInput.any CJson.isObject = true) ∧
    (∀ ds : List Delta, ((builderRun {} ds).slots.map Slot.payload).sum ≤ 16 * 1024 * 1024) ∧
    (∀ (ds : List Delta) (i : ℕ),
      (∀ f, f = .text ∨ f = .arguments → (builderRun {} ds).bytesAt f i =
        ((appendedOf {} ds).filter (Delta.about i)).flatMap fun d => d.payload f) ∧
      ∀ slot, (builderRun {} ds).slots[i]? = some slot → slot.stopped = true → slot.block.type = .toolUse →
        (builderRun {} ds).bytesAt .arguments i ≠ [] →
        slot.block.toolInput = jsonParseFrame ((builderRun {} ds).bytesAt .arguments i)) ∧
    (∀ ds : List Delta, accepts {} ds = true → appendedOf {} ds = ds) ∧
    ∀ ds₁ ds₂ : List Delta, accepts {} ds₁ = true → accepts {} ds₂ = true →
      (∀ i, ds₁.filter (Delta.about i) = ds₂.filter (Delta.about i)) →
      ds₁.filter Delta.turnLevel = ds₂.filter Delta.turnLevel →
      (builderRun {} ds₁).response = (builderRun {} ds₂).response := by
  refine ⟨?_, ?_, ?_, ?_, fun ds h => appendedOf_accepts h, fun ds₁ ds₂ h₁ h₂ hblocks hturn =>
    response_interleaved h₁ h₂ hblocks hturn⟩
  · intro ds more i hi
    obtain ⟨slot, hget, hstopped⟩ := stopped_of_lt_closedPrefix hi
    rw [builderRun_append]
    obtain ⟨slot', hget', -, hsame⟩ := closed_run more hget hstopped
    exact ⟨hi.trans_le (closedPrefix_run _ more), slot, slot', hget, hget', hsame⟩
  · intro ds slot hslot hstopped huse
    exact ((sound_start.run ds).inputs slot hslot hstopped huse).1
  · intro ds
    have hsound := sound_start.run ds
    exact hsound.held.trans hsound.bounded
  · intro ds i
    refine ⟨fun f hf => ?_, fun slot hget hstopped huse hspelled => ?_⟩
    · rw [bytesAt_run {} ds hf i]
      rfl
    · have hinput := (sound_start.run ds).inputs slot (List.mem_of_getElem? hget) hstopped huse
      rw [hinput.2 (present_of_bytesAt hget hspelled), bytesAt_of_get hget]
      rfl

/-- A turn with one text. -/
def textTurn : List Delta :=
  [{ type := .turnStart }, { type := .blockStart, textDelta := some (.ofAscii "a") }, { type := .blockStop }]

/-- A turn with reasoning that is refused for the id it repeats differently. -/
def reasonedTurn : List Delta :=
  [{ type := .turnStart }, { type := .blockStart, kind := .thinking, thinkingId := some (.ofAscii "1") },
    { type := .blockDelta, kind := .thinking, textDelta := some (.ofAscii "a"), thinkingId := some (.ofAscii "2") },
    { type := .blockStop }, { type := .turnStop, stopReason := .endTurn }]

/-- The turn stop changes a block of the closed prefix, and a delta that was refused stays in the
    text of its block. -/
theorem closed_text_classified :
    (builderRun {} textTurn).closedPrefix = 1 ∧
      accepts {} (textTurn ++ [{ type := .turnStop, stopReason := .endTurn }]) = true ∧
      (builderRun {} (textTurn ++ [{ type := .turnStop, stopReason := .endTurn }])).slots.map (·.block.context) ≠
        (builderRun {} textTurn).slots.map (·.block.context) ∧
      (builderApply (builderRun {} (reasonedTurn.take 2)) (reasonedTurn.getD 2 { type := .error })).1 = false ∧
      accepts (builderRun {} (reasonedTurn.take 3)) (reasonedTurn.drop 3) = true ∧
      (builderRun {} reasonedTurn).bytesAt .text 0 = ascii "a" := by
  decide

end AimeeIr
