-- SUMMARY: Tool-history repair settles a history in one pass, exactly when no message is stranded and the result fits.
import Aimee.Economizer.Repair
import Aimee.Ir.Names
import Mathlib.Data.List.Nodup

/-!
# What one pass of the repair settles

The pass is replayed over the open calls of the history. Its output is the history without its
stray results, with the missing answers put in where a run ends; such an output is settled unless a
message was stranded, and it needs no further repair as far as it is canonical.
-/

namespace Economizer

open JsonValue Cycles

/-! ## The blocks of a message -/

section Blocks

variable {opened : List Text} {blocks : List JsonValue}

variable {block : JsonValue} {type : String}

theorem isType_of_isResult (h : isResult block = true) : isType "tool_use" block = false := by
  have hresult : block.getString "type" = utf8 "tool_result" := of_decide_eq_true h
  rw [isType, hresult]
  decide

theorem idsOf_cons_of_pos (h : isType type block = true) :
    idsOf type (block :: blocks) = block.getString "tool_id" :: idsOf type blocks := by
  rw [idsOf, List.filter_cons_of_pos h, List.map_cons, idsOf]

theorem idsOf_cons_of_neg (h : ¬isType type block = true) :
    idsOf type (block :: blocks) = idsOf type blocks := by
  rw [idsOf, List.filter_cons_of_neg h, idsOf]

theorem answering_cons_other (h : ¬isResult block = true) :
    answering opened (block :: blocks) = block :: answering opened blocks := by
  rw [answering, if_neg h]

theorem answering_cons_open (h : isResult block = true)
    (hopen : block.getString "tool_id" ∈ opened) :
    answering opened (block :: blocks) =
      block :: answering (opened.erase (block.getString "tool_id")) blocks := by
  rw [answering, if_pos h, if_pos hopen]

theorem answering_cons_stray (h : isResult block = true)
    (hstray : block.getString "tool_id" ∉ opened) :
    answering opened (block :: blocks) = answering opened blocks := by
  rw [answering, if_pos h, if_neg hstray]

theorem filter_answering (opened : List Text) (blocks : List JsonValue) :
    (answering opened blocks).filter (!isResult ·) = blocks.filter (!isResult ·) := by
  fun_induction answering opened blocks with
  | case1 => rfl
  | case2 opened block rest h hopen ih =>
    rw [List.filter_cons_of_neg (by simp [h]), List.filter_cons_of_neg (by simp [h]), ih]
  | case3 opened block rest h hstray ih => rw [List.filter_cons_of_neg (by simp [h]), ih]
  | case4 opened block rest h ih =>
    rw [List.filter_cons_of_pos (by simp [h]), List.filter_cons_of_pos (by simp [h]), ih]

theorem answering_sublist (opened : List Text) (blocks : List JsonValue) :
    (answering opened blocks).Sublist blocks := by
  fun_induction answering opened blocks with
  | case1 => exact .slnil
  | case2 opened block rest h hopen ih => exact ih.cons_cons block
  | case3 opened block rest h hstray ih => exact ih.cons block
  | case4 opened block rest h ih => exact ih.cons_cons block

theorem idsOf_tool_use (blocks : List JsonValue) :
    idsOf "tool_use" blocks = idsOf "tool_use" (blocks.filter (!isResult ·)) := by
  rw [idsOf, idsOf, List.filter_filter]
  congr 1
  refine List.filter_congr fun block _ => ?_
  cases hresult : isResult block with
  | true => rw [isType_of_isResult hresult, Bool.false_and]
  | false => rw [Bool.not_false, Bool.and_true]

theorem idsOf_tool_use_answering (opened : List Text) (blocks : List JsonValue) :
    idsOf "tool_use" (answering opened blocks) = idsOf "tool_use" blocks := by
  rw [idsOf_tool_use, filter_answering, ← idsOf_tool_use]

theorem answering_subperm (opened : List Text) (blocks : List JsonValue) :
    (idsOf "tool_result" (answering opened blocks)).Subperm opened := by
  fun_induction answering opened blocks with
  | case1 => exact List.nil_subperm
  | case2 opened block rest h hopen ih =>
    rw [idsOf_cons_of_pos h]
    exact ((List.subperm_cons _).mpr ih).trans (List.perm_cons_erase hopen).symm.subperm
  | case3 opened block rest h hstray ih => exact ih
  | case4 opened block rest h ih =>
    rw [idsOf_cons_of_neg h]
    exact ih

/-- A stray result closes nothing. -/
theorem diff_answering (opened : List Text) (blocks : List JsonValue) :
    opened.diff (idsOf "tool_result" (answering opened blocks)) = opened.diff (idsOf "tool_result" blocks) := by
  fun_induction answering opened blocks with
  | case1 => rfl
  | case2 opened block rest h hopen ih =>
    rw [idsOf_cons_of_pos h, idsOf_cons_of_pos h, List.diff_cons, List.diff_cons, ih]
  | case3 opened block rest h hstray ih =>
    rw [idsOf_cons_of_pos h, List.diff_cons, List.erase_of_not_mem hstray, ih]
  | case4 opened block rest h ih => rw [idsOf_cons_of_neg h, idsOf_cons_of_neg h, ih]

theorem idsOf_answering_eq_nil :
    idsOf "tool_result" (answering opened blocks) = [] ↔ ∀ id ∈ idsOf "tool_result" blocks, id ∉ opened := by
  fun_induction answering opened blocks with
  | case1 => simp [idsOf]
  | case2 opened block rest h hopen ih =>
    rw [idsOf_cons_of_pos h, idsOf_cons_of_pos h]
    simp [hopen]
  | case3 opened block rest h hstray ih =>
    rw [ih, idsOf_cons_of_pos h, List.forall_mem_cons]
    exact (and_iff_right hstray).symm
  | case4 opened block rest h ih => rw [idsOf_cons_of_neg h, idsOf_cons_of_neg h, ih]

theorem answering_of_subperm (h : (idsOf "tool_result" blocks).Subperm opened) : answering opened blocks = blocks := by
  induction blocks generalizing opened with
  | nil => rfl
  | cons block rest ih =>
    by_cases hresult : isResult block = true
    · rw [idsOf_cons_of_pos hresult] at h
      have hopen := h.subset List.mem_cons_self
      have hrest : (idsOf "tool_result" rest).Subperm (opened.erase (block.getString "tool_id")) := by
        have herase := h.erase (block.getString "tool_id")
        rwa [List.erase_cons_head] at herase
      rw [answering_cons_open hresult hopen, ih hrest]
    · rw [idsOf_cons_of_neg hresult] at h
      rw [answering_cons_other hresult, ih h]

end Blocks

/-! ## The pending calls of the pass -/

/-- The calls of a pending list that are open: the rest of it is blanks. -/
def live (pending : List Text) : List Text := pending.filter (· ≠ [])

theorem live_cons_blank (pending : List Text) : live ([] :: pending) = live pending := rfl

theorem live_cons {call : Text} (h : call ≠ []) (pending : List Text) :
    live (call :: pending) = call :: live pending := by
  rw [live, List.filter_cons_of_pos (by simpa using h), live]

theorem live_append (pending pending' : List Text) : live (pending ++ pending') = live pending ++ live pending' :=
  List.filter_append ..

variable {pending : List Text} {id : Text}

theorem mem_live : id ∈ live pending ↔ id ∈ pending ∧ id ≠ [] := by
  simp [live]

theorem answerCall_of_mem (h : id ∈ live pending) :
    ∃ pending', answerCall id pending = some pending' ∧ live pending' = (live pending).erase id := by
  have hid : id ≠ [] := (mem_live.mp h).2
  induction pending with
  | nil => cases h
  | cons call rest ih =>
    rw [answerCall]
    by_cases hcall : call = id
    · refine ⟨_, if_pos ⟨hid, hcall⟩, ?_⟩
      rw [live_cons_blank, hcall, live_cons hid, List.erase_cons_head]
    · rw [if_neg fun h => hcall h.2]
      have hrest : id ∈ live rest := by
        rw [mem_live] at h ⊢
        exact ⟨List.mem_of_ne_of_mem (Ne.symm hcall) h.1, hid⟩
      obtain ⟨pending', hanswer, hlive⟩ := ih hrest
      refine ⟨call :: pending', by rw [hanswer, Option.map_some], ?_⟩
      by_cases hblank : call = []
      · rw [hblank, live_cons_blank, live_cons_blank, hlive]
      · rw [live_cons hblank, live_cons hblank, hlive, List.erase_cons_tail (by simpa using hcall)]

theorem answerCall_of_not_mem (h : id ∉ live pending) :
    answerCall id pending = none := by
  induction pending with
  | nil => rfl
  | cons call rest ih =>
    have hrest : id ∉ live rest := fun hid => h (by
      rw [mem_live] at hid ⊢
      exact ⟨List.mem_cons_of_mem _ hid.1, hid.2⟩)
    have hcall : ¬(id ≠ [] ∧ call = id) := fun hid => h (mem_live.mpr ⟨hid.2 ▸ List.mem_cons_self, hid.1⟩)
    rw [answerCall, if_neg hcall, ih hrest, Option.map_none]

theorem keepBlocks_spec (pending : List Text) (blocks : List JsonValue) :
    ∃ pending' dropped, keepBlocks pending blocks = (answering (live pending) blocks, pending', dropped) ∧
      live pending' = (live pending).diff (idsOf "tool_result" blocks) ∧
      dropped + (answering (live pending) blocks).length = blocks.length := by
  induction blocks generalizing pending with
  | nil => exact ⟨pending, 0, rfl, rfl, rfl⟩
  | cons block rest ih =>
    by_cases hresult : isResult block = true
    · rw [idsOf_cons_of_pos hresult, List.diff_cons, keepBlocks, if_pos hresult]
      by_cases hopen : block.getString "tool_id" ∈ live pending
      · obtain ⟨pending₁, hanswer, hlive⟩ := answerCall_of_mem hopen
        obtain ⟨pending', dropped, hkeep, hlive', hlen⟩ := ih pending₁
        rw [answering_cons_open hresult hopen, hanswer, ← hlive]
        dsimp only
        rw [hkeep]
        exact ⟨pending', dropped, rfl, hlive', by rw [List.length_cons, List.length_cons]; omega⟩
      · obtain ⟨pending', dropped, hkeep, hlive', hlen⟩ := ih pending
        rw [answering_cons_stray hresult hopen, answerCall_of_not_mem hopen, List.erase_of_not_mem hopen]
        rw [hkeep]
        exact ⟨pending', dropped + 1, rfl, hlive', by rw [List.length_cons]; omega⟩
    · obtain ⟨pending', dropped, hkeep, hlive', hlen⟩ := ih pending
      rw [idsOf_cons_of_neg hresult, keepBlocks, if_neg hresult, answering_cons_other hresult, hkeep]
      exact ⟨pending', dropped, rfl, hlive', by rw [List.length_cons, List.length_cons]; omega⟩

/-- The calls of a message are taken when each has an id that is not open. -/
theorem addCalls_of_nodup {blocks : List JsonValue}
    (hids : [] ∉ idsOf "tool_use" blocks) (hnodup : (live pending ++ idsOf "tool_use" blocks).Nodup) :
    ∃ pending', addCalls pending blocks = some pending' ∧
      live pending' = live pending ++ idsOf "tool_use" blocks := by
  induction blocks generalizing pending with
  | nil => exact ⟨pending, rfl, (List.append_nil _).symm⟩
  | cons block rest ih =>
    by_cases huse : isType "tool_use" block = true
    · rw [idsOf_cons_of_pos huse] at hids hnodup ⊢
      rw [List.mem_cons, not_or] at hids
      have hid : block.getString "tool_id" ≠ [] := Ne.symm hids.1
      have hnew : live (pending ++ [block.getString "tool_id"]) =
          live pending ++ [block.getString "tool_id"] := by
        rw [live_append, live_cons hid]
        rfl
      have hfresh : ¬(block.getString "tool_id" = [] ∨ block.getString "tool_id" ∈ pending) := by
        rintro (hblank | hmem)
        · exact hid hblank
        · exact (List.nodup_append'.mp hnodup).2.2 (mem_live.mpr ⟨hmem, hid⟩) List.mem_cons_self
      rw [← List.singleton_append, ← List.append_assoc, ← hnew] at hnodup
      obtain ⟨pending', hadd, hlive⟩ := ih hids.2 hnodup
      refine ⟨pending', ?_, ?_⟩
      · rw [addCalls, if_pos huse, if_neg hfresh, hadd]
      · rw [hlive, hnew, List.append_assoc, List.singleton_append]
    · rw [idsOf_cons_of_neg huse] at hids hnodup ⊢
      rw [addCalls, if_neg huse]
      exact ih hids hnodup

theorem addCalls_refused {blocks : List JsonValue} (hopen : (live pending).Nodup)
    (h : [] ∈ idsOf "tool_use" blocks ∨ ¬(live pending ++ idsOf "tool_use" blocks).Nodup) :
    addCalls pending blocks = none := by
  induction blocks generalizing pending with
  | nil =>
    rcases h with hnil | hnodup
    · cases hnil
    · exact absurd ((List.append_nil (live pending)).symm ▸ hopen) hnodup
  | cons block rest ih =>
    by_cases huse : isType "tool_use" block = true
    · rw [idsOf_cons_of_pos huse] at h
      rw [addCalls, if_pos huse]
      by_cases hfresh : block.getString "tool_id" = [] ∨ block.getString "tool_id" ∈ pending
      · exact if_pos hfresh
      · rw [not_or] at hfresh
        have hnew : live (pending ++ [block.getString "tool_id"]) =
            live pending ++ [block.getString "tool_id"] := by
          rw [live_append, live_cons hfresh.1]
          rfl
        have hopen' : (live (pending ++ [block.getString "tool_id"])).Nodup := by
          rw [hnew]
          exact hopen.append (List.nodup_singleton _) (List.disjoint_singleton.mpr fun hmem =>
            hfresh.2 (mem_live.mp hmem).1)
        rw [if_neg (not_or.mpr hfresh)]
        refine ih hopen' ?_
        rw [hnew, List.append_assoc]
        exact h.imp_left fun hnil => (List.mem_cons.mp hnil).resolve_left (Ne.symm hfresh.1)
    · rw [idsOf_cons_of_neg huse] at h
      rw [addCalls, if_neg huse]
      exact ih hopen h

/-! ## The pass over the open calls -/

/-- What the pass puts in place of a message. -/
def mendedMessage (opened : List Text) (m : JsonValue) : List JsonValue :=
  (if toolResults m = [] then opened.map missingResult else []) ++ (pruneMessage opened m).toList

/-- The output of the pass. -/
def mended : List Text → List JsonValue → List JsonValue
  | opened, [] => opened.map missingResult
  | opened, m :: ms => mendedMessage opened m ++ mended (openAfter toolCalls toolResults opened m) ms

/-- How many results of a message are dropped. -/
def strayCount (opened : List Text) (m : JsonValue) : ℕ :=
  (blocksOf m).length - (answering opened (blocksOf m)).length

/-- The repairs of the pass. -/
def repairsIn : List Text → List JsonValue → ℕ
  | opened, [] => opened.length
  | opened, m :: ms =>
    (if toolResults m = [] then opened.length else 0) + strayCount opened m +
      repairsIn (openAfter toolCalls toolResults opened m) ms

section Pass

variable {opened : List Text} {m : JsonValue} {blocks : List JsonValue} {s : RepairState}

theorem blocksOf_eq (h : messageContent m = some blocks) : blocksOf m = blocks := by
  rw [blocksOf, h, Option.getD_some]

theorem idsOf_tool_result_eq_nil : idsOf "tool_result" blocks = [] ↔ ¬blocks.any isResult = true := by
  rw [idsOf, List.map_eq_nil_iff, List.filter_eq_nil_iff, List.any_eq_true]
  exact ⟨fun h ⟨b, hb, hresult⟩ => h b hb hresult, fun h b hb hresult => h ⟨b, hb, hresult⟩⟩

/-- Without results nothing is taken out. -/
theorem answering_of_no_results (opened : List Text) (h : idsOf "tool_result" blocks = []) :
    answering opened blocks = blocks :=
  answering_of_subperm (h ▸ List.nil_subperm)

theorem flush_rebuilt (s : RepairState) :
    s.flush.rebuilt = s.rebuilt ++ (live s.pending).map missingResult := rfl

theorem flush_repairs (s : RepairState) : s.flush.repairs = s.repairs + (live s.pending).length := rfl

/-- The state the blocks of a message are looked at in. -/
def RepairState.enter (s : RepairState) (m : JsonValue) : RepairState :=
  if (blocksOf m).any isResult then s else s.flush

theorem live_enter (s : RepairState) (m : JsonValue) :
    live (s.enter m).pending = if toolResults m = [] then [] else live s.pending := by
  rw [RepairState.enter, toolResults]
  by_cases hresults : idsOf "tool_result" (blocksOf m) = []
  · rw [if_neg (idsOf_tool_result_eq_nil.mp hresults), if_pos hresults]
    rfl
  · rw [if_pos (not_not.mp (mt idsOf_tool_result_eq_nil.mpr hresults)), if_neg hresults]

theorem enter_rebuilt (s : RepairState) (m : JsonValue) :
    (s.enter m).rebuilt =
      s.rebuilt ++ if toolResults m = [] then (live s.pending).map missingResult else [] := by
  rw [RepairState.enter, toolResults]
  by_cases hresults : idsOf "tool_result" (blocksOf m) = []
  · rw [if_neg (idsOf_tool_result_eq_nil.mp hresults), if_pos hresults, flush_rebuilt]
  · rw [if_pos (not_not.mp (mt idsOf_tool_result_eq_nil.mpr hresults)), if_neg hresults, List.append_nil]

theorem enter_repairs (s : RepairState) (m : JsonValue) :
    (s.enter m).repairs = s.repairs + if toolResults m = [] then (live s.pending).length else 0 := by
  rw [RepairState.enter, toolResults]
  by_cases hresults : idsOf "tool_result" (blocksOf m) = []
  · rw [if_neg (idsOf_tool_result_eq_nil.mp hresults), if_pos hresults, flush_repairs]
  · rw [if_pos (not_not.mp (mt idsOf_tool_result_eq_nil.mpr hresults)), if_neg hresults, Nat.add_zero]

/-- A result-less message keeps its blocks whatever is open. -/
theorem answering_enter (s : RepairState) (m : JsonValue) :
    answering (live (s.enter m).pending) (blocksOf m) = answering (live s.pending) (blocksOf m) := by
  rw [live_enter]
  by_cases hresults : toolResults m = []
  · rw [answering_of_no_results _ hresults, answering_of_no_results _ hresults]
  · rw [if_neg hresults]

theorem diff_enter (s : RepairState) (m : JsonValue) :
    (live (s.enter m).pending).diff (toolResults m) ++ toolCalls m =
      openAfter toolCalls toolResults (live s.pending) m := by
  rw [live_enter, openAfter]
  by_cases hresults : toolResults m = []
  · rw [if_pos hresults, if_pos hresults, List.nil_diff]
  · rw [if_neg hresults, if_neg hresults]

theorem repairMessage_of_pairable (hcontent : (messageContent m).isSome) (hids : [] ∉ toolCalls m)
    (hnodup : (openAfter toolCalls toolResults (live s.pending) m).Nodup) :
    ∃ s', repairMessage s m = some s' ∧
      live s'.pending = openAfter toolCalls toolResults (live s.pending) m ∧
      s'.rebuilt = s.rebuilt ++ mendedMessage (live s.pending) m ∧
      s'.repairs = s.repairs + ((if toolResults m = [] then (live s.pending).length else 0) +
        strayCount (live s.pending) m) := by
  obtain ⟨blocks, hblocks⟩ := Option.isSome_iff_exists.mp hcontent
  obtain ⟨pending₁, dropped, hkeep, hlive₁, hlen⟩ := keepBlocks_spec (s.enter m).pending (blocksOf m)
  rw [answering_enter] at hkeep hlen
  rw [← diff_enter s m, toolResults, ← hlive₁] at hnodup
  obtain ⟨pending₂, hadd, hlive₂⟩ := addCalls_of_nodup hids hnodup
  have hrebuilt : (if answering (live s.pending) (blocksOf m) = [] ∧ blocksOf m ≠ [] then (s.enter m).rebuilt
      else (s.enter m).rebuilt ++ [m.set "blocks" (array (answering (live s.pending) (blocksOf m)))]) =
        s.rebuilt ++ mendedMessage (live s.pending) m := by
    rw [enter_rebuilt, mendedMessage, pruneMessage]
    split
    · rw [Option.toList_none, List.append_nil]
    · rw [Option.toList_some, List.append_assoc]
  have hrepairs : (s.enter m).repairs + dropped = s.repairs +
      ((if toolResults m = [] then (live s.pending).length else 0) + strayCount (live s.pending) m) := by
    rw [enter_repairs, strayCount]
    omega
  refine ⟨⟨s.rebuilt ++ mendedMessage (live s.pending) m, pending₂, (s.enter m).repairs + dropped⟩,
    ?_, ?_, rfl, hrepairs⟩
  · have henter : (if blocks.any isResult = true then s else s.flush) = s.enter m := by
      rw [RepairState.enter, blocksOf_eq hblocks]
    rw [blocksOf_eq hblocks] at hkeep hadd hrebuilt
    rw [repairMessage, hblocks]
    dsimp only
    rw [henter, hkeep]
    rw [hadd, hrebuilt]
  · rw [hlive₂, hlive₁]
    exact diff_enter s m

theorem repairMessage_refused (hopen : (live s.pending).Nodup)
    (h : ¬((messageContent m).isSome ∧ [] ∉ toolCalls m ∧
      (openAfter toolCalls toolResults (live s.pending) m).Nodup)) : repairMessage s m = none := by
  rw [repairMessage]
  split
  · rfl
  · next blocks hblocks =>
    have henter : (if blocks.any isResult = true then s else s.flush) = s.enter m := by
      rw [RepairState.enter, blocksOf_eq hblocks]
    obtain ⟨pending₁, dropped, hkeep, hlive₁, -⟩ := keepBlocks_spec (s.enter m).pending (blocksOf m)
    have hopen₁ : (live pending₁).Nodup := by
      rw [hlive₁, live_enter]
      split
      · rw [List.nil_diff]
        exact List.nodup_nil
      · exact hopen.sublist (List.diff_sublist _ _)
    have hrefused : addCalls pending₁ (blocksOf m) = none := by
      refine addCalls_refused hopen₁ ?_
      rw [hlive₁]
      by_contra hpairs
      rw [not_or, not_not] at hpairs
      exact h ⟨by rw [hblocks]; rfl, hpairs.1, diff_enter s m ▸ hpairs.2⟩
    rw [blocksOf_eq hblocks] at hkeep hrefused
    dsimp only
    rw [henter, hkeep]
    rw [hrefused]

/-- The pass over a history whose calls can be paired. -/
theorem foldlM_repairMessage {h : List JsonValue} (hpairs : Pairable (live s.pending) h) :
    ∃ s', h.foldlM repairMessage s = some s' ∧ s'.flush.rebuilt = s.rebuilt ++ mended (live s.pending) h ∧
      s'.flush.repairs = s.repairs + repairsIn (live s.pending) h := by
  induction h generalizing s with
  | nil => exact ⟨s, rfl, rfl, rfl⟩
  | cons m ms ih =>
    obtain ⟨hcontent, hids, hnodup, hrest⟩ := hpairs
    obtain ⟨s₁, hstep, hlive, hrebuilt, hrepairs⟩ := repairMessage_of_pairable hcontent hids hnodup
    rw [← hlive] at hrest
    obtain ⟨s', hrun, hrebuilt', hrepairs'⟩ := ih hrest
    refine ⟨s', ?_, ?_, ?_⟩
    · rw [List.foldlM_cons, hstep]
      exact hrun
    · rw [hrebuilt', hrebuilt, hlive, mended, List.append_assoc]
    · rw [hrepairs', hrepairs, hlive, repairsIn, Nat.add_assoc]

theorem foldlM_repairMessage_refused {h : List JsonValue} (hopen : (live s.pending).Nodup)
    (hpairs : ¬Pairable (live s.pending) h) : h.foldlM repairMessage s = none := by
  induction h generalizing s with
  | nil => exact absurd trivial hpairs
  | cons m ms ih =>
    rw [List.foldlM_cons]
    by_cases hm : (messageContent m).isSome ∧ [] ∉ toolCalls m ∧
        (openAfter toolCalls toolResults (live s.pending) m).Nodup
    · obtain ⟨hcontent, hids, hnodup⟩ := hm
      obtain ⟨s₁, hstep, hlive, -, -⟩ := repairMessage_of_pairable hcontent hids hnodup
      rw [hstep]
      rw [← hlive] at hnodup
      refine ih hnodup fun hrest => hpairs ⟨hcontent, hids, hlive ▸ hnodup, hlive ▸ hrest⟩
    · rw [repairMessage_refused hopen hm]
      rfl

end Pass

/-! ## A history that needs no repair -/

section Unrepaired

variable {opened : List Text} {m : JsonValue} {h : List JsonValue}

theorem get_blocks {blocks : List JsonValue} (h : messageContent m = some blocks) :
    m.get "blocks" = some (array blocks) := by
  obtain ⟨v, hget, hitems⟩ := Option.bind_eq_some_iff.mp h
  cases v with
  | array items =>
    cases hitems
    exact hget
  | _ => cases hitems

theorem get_blocks_of_isSome (h : (messageContent m).isSome) : m.get "blocks" = some (array (blocksOf m)) := by
  obtain ⟨blocks, hblocks⟩ := Option.isSome_iff_exists.mp h
  rw [blocksOf_eq hblocks]
  exact get_blocks hblocks

/-- A message all of whose results answer open calls stays as it is. -/
theorem pruneMessage_of_answering (hcontent : (messageContent m).isSome)
    (h : answering opened (blocksOf m) = blocksOf m) : pruneMessage opened m = some m := by
  rw [pruneMessage, h, if_neg fun hnil => hnil.2 hnil.1, set_of_get (get_blocks_of_isSome hcontent)]

theorem answering_of_strayCount (h : strayCount opened m = 0) : answering opened (blocksOf m) = blocksOf m := by
  refine (answering_sublist opened (blocksOf m)).eq_of_length ?_
  have hle := (answering_sublist opened (blocksOf m)).length_le
  rw [strayCount] at h
  omega

theorem mended_of_repairsIn (hpairs : Pairable opened h) (hzero : repairsIn opened h = 0) : mended opened h = h := by
  induction h generalizing opened with
  | nil => rw [mended, List.eq_nil_of_length_eq_zero hzero, List.map_nil]
  | cons m ms ih =>
    obtain ⟨hcontent, -, -, hrest⟩ := hpairs
    rw [repairsIn, Nat.add_eq_zero_iff, Nat.add_eq_zero_iff] at hzero
    obtain ⟨⟨hflush, hstray⟩, hzero⟩ := hzero
    have hmissing : (if toolResults m = [] then opened.map missingResult else []) = [] := by
      split at hflush
      · next hresults => rw [if_pos hresults, List.eq_nil_of_length_eq_zero hflush, List.map_nil]
      · next hresults => rw [if_neg hresults]
    rw [mended, mendedMessage, hmissing, pruneMessage_of_answering hcontent (answering_of_strayCount hstray),
      ih hrest hzero]
    rfl

theorem repairsIn_of_settled (hcontent : ∀ m ∈ h, (messageContent m).isSome ∧ [] ∉ toolCalls m)
    (hsettled : Settled toolCalls toolResults opened h) : Pairable opened h ∧ repairsIn opened h = 0 := by
  induction h generalizing opened with
  | nil =>
    cases hsettled
    exact ⟨trivial, rfl⟩
  | cons m ms ih =>
    obtain ⟨hquiet, hanswers, hnodup, hrest⟩ := hsettled
    obtain ⟨hblocks, hids⟩ := hcontent m List.mem_cons_self
    obtain ⟨hpairs, hzero⟩ := ih (fun m hm => hcontent m (List.mem_cons_of_mem _ hm)) hrest
    refine ⟨⟨hblocks, hids, hnodup, hpairs⟩, ?_⟩
    have hstray : strayCount opened m = 0 := by
      rw [strayCount, answering_of_subperm hanswers, Nat.sub_self]
    rw [repairsIn, hzero, hstray]
    split
    · next hresults => rw [hquiet hresults, List.length_nil]
    · rfl

theorem repairCanonicalHistory_of_pairable (hpairs : Pairable [] h) :
    repairCanonicalHistory h = (((repairsIn [] h : ℕ) : ℤ), mended [] h) := by
  obtain ⟨s, hrun, hrebuilt, hrepairs⟩ := foldlM_repairMessage (s := {}) hpairs
  rw [repairCanonicalHistory, hrun]
  dsimp only
  rw [hrepairs, hrebuilt]
  change (((0 + repairsIn [] h : ℕ) : ℤ), if 0 < 0 + repairsIn [] h then mended [] h else h) = _
  rw [Nat.zero_add]
  split
  · rfl
  · next hzero => rw [mended_of_repairsIn hpairs (by omega)]

theorem repairCanonicalHistory_refused (hpairs : ¬Pairable [] h) : repairCanonicalHistory h = (-1, h) := by
  rw [repairCanonicalHistory, foldlM_repairMessage_refused (s := {}) List.nodup_nil hpairs]

end Unrepaired

/-! ## The output is settled -/

section Output

variable {opened : List Text} {m : JsonValue} {h : List JsonValue}

theorem toolCalls_missingResult (id : Text) : toolCalls (missingResult id) = [] := rfl

theorem toolResults_missingResult (id : Text) : toolResults (missingResult id) = [id] := rfl

section

variable (hcontent : (messageContent m).isSome)
include hcontent

theorem messageContent_set_blocks (kept : List JsonValue) :
    messageContent (m.set "blocks" (array kept)) = some kept := by
  rw [messageContent, get_set_self (get_blocks_of_isSome hcontent)]
  rfl

theorem blocksOf_set (kept : List JsonValue) :
    blocksOf (m.set "blocks" (array kept)) = kept :=
  blocksOf_eq (messageContent_set_blocks hcontent kept)

theorem toolCalls_pruned :
    toolCalls (m.set "blocks" (array (answering opened (blocksOf m)))) = toolCalls m := by
  rw [toolCalls, blocksOf_set hcontent, idsOf_tool_use_answering, toolCalls]

theorem toolResults_pruned :
    toolResults (m.set "blocks" (array (answering opened (blocksOf m)))) =
      idsOf "tool_result" (answering opened (blocksOf m)) := by
  rw [toolResults, blocksOf_set hcontent]

end

/-- A message that stays without results in an open run was stranded. -/
theorem stranded_iff (hresults : toolResults m ≠ []) (hkept : answering opened (blocksOf m) ≠ []) :
    Stranded opened m ↔ opened ≠ [] ∧ idsOf "tool_result" (answering opened (blocksOf m)) = [] := by
  rw [idsOf_answering_eq_nil]
  constructor
  · rintro ⟨hopened, -, hstray, -⟩
    exact ⟨hopened, hstray⟩
  · rintro ⟨hopened, hstray⟩
    refine ⟨hopened, hresults, hstray, ?_⟩
    obtain ⟨b, hb⟩ := List.exists_mem_of_ne_nil _ hkept
    refine ⟨b, (answering_sublist _ _).subset hb, ?_⟩
    have hnone := idsOf_tool_result_eq_nil.mp (idsOf_answering_eq_nil.mpr hstray)
    exact Bool.eq_false_iff.mpr fun hresult => hnone (List.any_eq_true.mpr ⟨b, hb, hresult⟩)

theorem openAfter_of_no_results (hresults : toolResults m = []) :
    openAfter toolCalls toolResults opened m = toolCalls m := by
  rw [openAfter, if_pos hresults, List.nil_append]

theorem openAfter_of_results (hresults : toolResults m ≠ []) :
    openAfter toolCalls toolResults opened m = opened.diff (toolResults m) ++ toolCalls m := by
  rw [openAfter, if_neg hresults]

/-- A message with nothing but stray results leaves the open calls as they are. -/
theorem openAfter_of_emptied (hresults : toolResults m ≠ []) (hkept : answering opened (blocksOf m) = []) :
    openAfter toolCalls toolResults opened m = opened := by
  rw [openAfter_of_results hresults, toolResults, ← diff_answering, hkept, toolCalls, ← idsOf_tool_use_answering opened,
    hkept]
  exact List.append_nil _

theorem not_stranded_of_emptied (hkept : answering opened (blocksOf m) = []) : ¬Stranded opened m := by
  rintro ⟨-, -, -, b, hb, hother⟩
  have hmem : b ∈ (blocksOf m).filter (!isResult ·) := List.mem_filter.mpr ⟨hb, by rw [hother]; rfl⟩
  rw [← filter_answering opened, hkept] at hmem
  cases hmem

theorem settled_pruned_iff (hcontent : (messageContent m).isSome) (hresults : toolResults m ≠ [])
    (hkept : answering opened (blocksOf m) ≠ []) (hnodup : (openAfter toolCalls toolResults opened m).Nodup)
    {rest : List JsonValue} :
    Settled toolCalls toolResults opened (m.set "blocks" (array (answering opened (blocksOf m))) :: rest) ↔
      ¬Stranded opened m ∧ Settled toolCalls toolResults (openAfter toolCalls toolResults opened m) rest := by
  rw [stranded_iff hresults hkept, Settled, toolResults_pruned hcontent]
  have hafter : (idsOf "tool_result" (answering opened (blocksOf m)) = [] → opened = []) →
      openAfter toolCalls toolResults opened (m.set "blocks" (array (answering opened (blocksOf m)))) =
        openAfter toolCalls toolResults opened m := by
    intro hquiet
    rw [openAfter_of_results hresults, openAfter, toolResults_pruned hcontent, toolCalls_pruned hcontent,
      diff_answering]
    split
    · next hnil => rw [hquiet hnil, List.nil_diff]
    · rfl
  constructor
  · rintro ⟨hquiet, -, -, hrest⟩
    rw [hafter hquiet] at hrest
    exact ⟨fun hstranded => hstranded.1 (hquiet hstranded.2), hrest⟩
  · rintro ⟨hstranded, hrest⟩
    have hquiet : idsOf "tool_result" (answering opened (blocksOf m)) = [] → opened = [] := by
      intro hnil
      by_contra hopened
      exact hstranded ⟨hopened, hnil⟩
    rw [hafter hquiet]
    exact ⟨hquiet, answering_subperm _ _, hnodup, hrest⟩

/-- One pass settles a history exactly when it strands no message. -/
theorem settled_mended_iff (hopen : opened.Nodup) (hpairs : Pairable opened h) :
    Settled toolCalls toolResults opened (mended opened h) ↔ NoneStranded opened h := by
  induction h generalizing opened with
  | nil =>
    have hreplies : Settled toolCalls toolResults opened (opened.map missingResult ++ []) ↔
        Settled toolCalls toolResults [] [] :=
      settled_replies toolCalls_missingResult toolResults_missingResult hopen
    rw [List.append_nil] at hreplies
    rw [mended, hreplies]
    exact iff_of_true rfl trivial
  | cons m ms ih =>
    obtain ⟨hcontent, -, hnodup, hrest⟩ := hpairs
    have ih := ih hnodup hrest
    rw [mended, mendedMessage, NoneStranded, ← ih]
    by_cases hresults : toolResults m = []
    · have hmessage := pruneMessage_of_answering hcontent (answering_of_no_results opened hresults)
      have hstranded : ¬Stranded opened m := fun hstranded => hstranded.2.1 hresults
      rw [if_pos hresults, hmessage, Option.toList_some, List.append_assoc,
        settled_replies toolCalls_missingResult toolResults_missingResult hopen, List.singleton_append, Settled,
        openAfter_of_no_results hresults, openAfter_of_no_results hresults, hresults]
      rw [openAfter_of_no_results hresults] at hnodup
      constructor
      · rintro ⟨-, -, -, hsettled⟩
        exact ⟨hstranded, hsettled⟩
      · rintro ⟨-, hsettled⟩
        exact ⟨fun _ => rfl, List.nil_subperm, hnodup, hsettled⟩
    · rw [if_neg hresults, List.nil_append, pruneMessage]
      by_cases hkept : answering opened (blocksOf m) = []
      · have hblocks : blocksOf m ≠ [] := fun hnil => hresults (by rw [toolResults, hnil]; rfl)
        rw [if_pos ⟨hkept, hblocks⟩, openAfter_of_emptied hresults hkept]
        exact (and_iff_right (not_stranded_of_emptied hkept)).symm
      · rw [if_neg fun hnil => hkept hnil.1, Option.toList_some, List.singleton_append,
          settled_pruned_iff hcontent hresults hkept hnodup]

/-! ## What the output keeps -/

/-- Every message of the output spells its blocks and gives its calls an id. -/
theorem mem_mended (hpairs : Pairable opened h) {m' : JsonValue} (hm' : m' ∈ mended opened h) :
    (messageContent m').isSome ∧ [] ∉ toolCalls m' := by
  have hmissing : ∀ id, (messageContent (missingResult id)).isSome ∧ [] ∉ toolCalls (missingResult id) :=
    fun id => ⟨rfl, List.not_mem_nil⟩
  induction h generalizing opened with
  | nil =>
    obtain ⟨id, -, rfl⟩ := List.mem_map.mp hm'
    exact hmissing id
  | cons m ms ih =>
    obtain ⟨hcontent, hids, -, hrest⟩ := hpairs
    rw [mended, mendedMessage, List.append_assoc, List.mem_append, List.mem_append] at hm'
    rcases hm' with hm' | hm' | hm'
    · split at hm'
      · obtain ⟨id, -, rfl⟩ := List.mem_map.mp hm'
        exact hmissing id
      · cases hm'
    · rw [Option.mem_toList, pruneMessage] at hm'
      split at hm'
      · cases hm'
      · cases hm'
        rw [messageContent_set_blocks hcontent, toolCalls_pruned hcontent]
        exact ⟨rfl, hids⟩
    · exact ih hrest hm'

theorem flatMap_missing {f : JsonValue → List JsonValue} (hf : ∀ id, f (missingResult id) = []) (ids : List Text) :
    (ids.map missingResult).flatMap f = [] := by
  rw [List.flatMap_eq_nil_iff]
  intro m hm
  obtain ⟨id, -, rfl⟩ := List.mem_map.mp hm
  exact hf id

theorem others_mended (hpairs : Pairable opened h) :
    (mended opened h).flatMap (fun m => (blocksOf m).filter (!isResult ·)) =
      h.flatMap (fun m => (blocksOf m).filter (!isResult ·)) := by
  have hmissing := flatMap_missing (f := fun m => (blocksOf m).filter (!isResult ·)) fun _ => rfl
  induction h generalizing opened with
  | nil => exact hmissing opened
  | cons m ms ih =>
    obtain ⟨hcontent, -, -, hrest⟩ := hpairs
    rw [mended, mendedMessage, List.flatMap_append, List.flatMap_append, ih hrest, List.flatMap_cons]
    have hflush : (if toolResults m = [] then opened.map missingResult else []).flatMap
        (fun m => (blocksOf m).filter (!isResult ·)) = [] := by
      split
      · exact hmissing opened
      · rfl
    have hkept := filter_answering opened (blocksOf m)
    rw [hflush, List.nil_append, pruneMessage]
    split
    · next hnil =>
      rw [hnil.1] at hkept
      rw [← hkept]
      rfl
    · rw [Option.toList_some, List.flatMap_singleton, blocksOf_set hcontent, hkept]

theorem answered_mended (hpairs : Pairable opened h) :
    (answeredResults opened h).Sublist ((mended opened h).flatMap fun m => (blocksOf m).filter isResult) := by
  induction h generalizing opened with
  | nil => exact List.nil_sublist _
  | cons m ms ih =>
    obtain ⟨hcontent, -, -, hrest⟩ := hpairs
    rw [answeredResults, mended, List.flatMap_append, mendedMessage, List.flatMap_append, pruneMessage]
    refine List.Sublist.append (List.Sublist.trans ?_ (List.sublist_append_right _ _)) (ih hrest)
    split
    · next hnil =>
      rw [hnil.1]
      exact List.nil_sublist _
    · rw [Option.toList_some, List.flatMap_singleton, blocksOf_set hcontent]

/-! ## Whether the output is canonical -/

theorem length_mended (opened : List Text) (h : List JsonValue) :
    (mended opened h).length = (pruned opened h).length + unanswered opened h := by
  induction h generalizing opened with
  | nil => rw [mended, pruned, unanswered, List.length_map, List.length_nil, Nat.zero_add]
  | cons m ms ih =>
    rw [mended, mendedMessage, pruned, unanswered, List.length_append, List.length_append, List.length_append, ih]
    split
    · rw [List.length_map]
      omega
    · rw [List.length_nil]
      omega

/-- The output consists of the history without its stray results and of missing answers. -/
theorem forall_mem_mended {A : JsonValue → Prop} {P : Text → Prop} (hmissing : ∀ id, P id → A (missingResult id))
    (hopened : ∀ id ∈ opened, P id) (hcalls : ∀ m ∈ h, ∀ id ∈ toolCalls m, P id) :
    (∀ m ∈ mended opened h, A m) ↔ ∀ m ∈ pruned opened h, A m := by
  have hflush : ∀ ids : List Text, (∀ id ∈ ids, P id) → ∀ m ∈ ids.map missingResult, A m := by
    intro ids hids m hm
    obtain ⟨id, hid, rfl⟩ := List.mem_map.mp hm
    exact hmissing id (hids id hid)
  induction h generalizing opened with
  | nil => exact iff_of_true (hflush opened hopened) (List.forall_mem_nil _)
  | cons m ms ih =>
    have hafter : ∀ id ∈ openAfter toolCalls toolResults opened m, P id := by
      intro id hid
      rw [openAfter, List.mem_append] at hid
      rcases hid with hid | hid
      · split at hid
        · cases hid
        · exact hopened id ((List.diff_sublist _ _).subset hid)
      · exact hcalls m List.mem_cons_self id hid
    rw [mended, mendedMessage, pruned, List.append_assoc, List.forall_mem_append, List.forall_mem_append,
      List.forall_mem_append]
    refine (and_iff_right ?_).trans (and_congr_right fun _ =>
      ih hafter fun m hm => hcalls m (List.mem_cons_of_mem _ hm))
    split
    · exact hflush opened hopened
    · exact List.forall_mem_nil _

theorem canonicalHistory_iff :
    canonicalHistory h = true ↔ h.length ≤ Ir.maxMessages ∧ ∀ m ∈ h, Ir.admissible m = true :=
  Ir.decodeMessages_isSome_iff

theorem decodeBlock_missingBlock {id : Text} (hid : id ≠ []) :
    ∃ b, Ir.decodeBlock {} (missingBlock id) = some b ∧ b.valid = true ∧ b.type = utf8 "tool_result" := by
  have hdiagnostic : (Ir.decodeContext missingDiagnostic).isSome = true := by decide +kernel
  obtain ⟨context, hdiagnostic⟩ := Option.isSome_iff_exists.mp hdiagnostic
  have htool : Ir.fieldOf Ir.blockFields (utf8 "tool_id") = some "tool_id" := by decide
  have herror : Ir.fieldOf Ir.blockFields (utf8 "is_error") = some "is_error" := by decide
  have hcontext : Ir.fieldOf Ir.blockFields (utf8 "context") = some "context" := by decide
  have hassign : ∀ b : Ir.Block, b.assign "context" missingDiagnostic = some { b with context := some context } := by
    intro b
    have hdecode : (Ir.decodeContext missingDiagnostic).map (fun c => { b with context := some c }) =
        some { b with context := some context } := by
      rw [hdiagnostic, Option.map_some]
    exact hdecode
  have hdecode : Ir.decodeBlock {} (missingBlock id) = some
      { type := utf8 "tool_result", toolId := id, content := some (string (utf8 missingResultMsg))
        isError := some true, context := some context } := by
    rw [missingBlock, Ir.decodeBlock, Ir.decodeMembers_step Ir.fieldOf_type rfl, Ir.decodeMembers_step htool rfl,
      Ir.decodeMembers_step Ir.fieldOf_content rfl, Ir.decodeMembers_step herror rfl,
      Ir.decodeMembers_step hcontext (hassign _)]
    rfl
  have hkind : (Ir.blockKinds.find? fun k => utf8 k.1 = utf8 "tool_result") =
      some ("tool_result", ["tool_id", "content", "is_error"]) := by
    decide
  have hmembers : (["type", "tool_id", "content", "is_error", "context"].all fun name =>
      Ir.commonMembers.contains name || ["tool_id", "content", "is_error"].contains name) = true := by
    decide
  refine ⟨_, hdecode, ?_, rfl⟩
  have hpresent : Ir.Block.present { type := utf8 "tool_result", toolId := id
                                     content := some (string (utf8 missingResultMsg))
                                     isError := some true, context := some context } =
      ["type", "tool_id", "content", "is_error", "context"] := by
    delta Ir.Block.present
    simp only [Option.isSome_none, Option.isSome_some, if_neg hid, if_true, Bool.false_eq_true, if_false,
      List.append_nil, List.cons_append, List.nil_append]
  rw [Ir.Block.valid]
  dsimp only
  rw [hkind]
  dsimp only
  rw [hpresent, hmembers]
  exact decide_eq_true hid

/-- The diagnostic is an admissible message. -/
theorem admissible_missingResult {id : Text} (h : Ir.validString id = true ∧ id ≠ []) :
    Ir.admissible (missingResult id) = true := by
  have hstring : Ir.validJson 4 (string id) = true := by
    rw [Ir.validJson, h.1]
    rfl
  have hempty : Ir.validJson 3 (missingBlock []) = true := by decide +kernel
  have hget : (missingBlock []).get "tool_id" = some (string []) := rfl
  have hset : (missingBlock []).set "tool_id" (string id) = missingBlock id := rfl
  have hblock : Ir.validJson 3 (missingBlock id) = true := by
    rw [← hset]
    exact Ir.validJson_set hempty hget hstring
  have hitems : Ir.validJson 2 (array [missingBlock id]) = true := by
    rw [Ir.validJson, Ir.validItems, hblock]
    rfl
  have htree : Ir.validJson 1 (missingResult id) = true := by
    have hrole : Ir.validJson 2 (string (utf8 "tool")) = true := by decide +kernel
    have hnames : Ir.validString (utf8 "role") = true ∧ Ir.validString (utf8 "blocks") = true := by decide +kernel
    rw [missingResult, Ir.validJson, Ir.validMembers, Ir.validMembers, hitems, hrole, hnames.1, hnames.2]
    rfl
  obtain ⟨b, hdecode, hvalid, htype⟩ := decodeBlock_missingBlock h.2
  have hblocks : (Ir.decodeBlocks [] [missingBlock id]).map
      (fun bs => ({ role := utf8 "tool", blocks := some bs } : Ir.Message)) =
        some { role := utf8 "tool", blocks := some [b] } := by
    rw [Ir.decodeBlocks, Ir.decodeBlocks, List.headD_nil, hdecode]
    rfl
  have hmessage : Ir.decodeMessage (missingResult id) = some { role := utf8 "tool", blocks := some [b] } := by
    rw [missingResult, Ir.decodeMessage, Ir.decodeMembers_step Ir.fieldOf_role rfl,
      Ir.decodeMembers_step Ir.fieldOf_blocks hblocks]
    rfl
  have hrole : Ir.validRole (utf8 "tool") = true := by decide
  have huse : utf8 "tool_result" ≠ utf8 "tool_use" := by decide
  have hroom : 1 ≤ Ir.maxMessages := by decide
  rw [Ir.admissible, htree, hmessage, Bool.true_and, Option.any_some, Ir.Message.valid]
  simp only [List.all_cons, List.all_nil, List.length_singleton, hvalid, htype, hrole, decide_eq_true huse,
    decide_eq_true hroom, decide_true, Bool.not_false, Bool.true_or, Bool.or_true, Bool.and_true]

theorem validString_getString {depth : ℕ} {block : JsonValue} {key : String}
    (hvalid : Ir.validJson depth block = true) : Ir.validString (block.getString key) = true := by
  rw [getString]
  split
  · next value hget =>
    cases block with
    | object members =>
      rw [Ir.validJson, Bool.and_eq_true] at hvalid
      have hmember := Ir.validJson_of_lookup hvalid.2 hget
      rw [Ir.validJson, Bool.and_eq_true] at hmember
      exact hmember.2
    | _ => cases hget
  · rfl

theorem validString_of_mem_toolCalls (hvalid : Ir.admissible m = true) {id : Text} (hid : id ∈ toolCalls m) :
    Ir.validString id = true := by
  obtain ⟨block, hblock, rfl⟩ := List.mem_map.mp hid
  have hblock : block ∈ blocksOf m := (List.mem_filter.mp hblock).1
  have hcontent : (messageContent m).isSome := by
    by_contra hnone
    rw [blocksOf, Option.not_isSome_iff_eq_none.mp hnone] at hblock
    cases hblock
  have htree := (Bool.and_eq_true_iff.mp hvalid).1
  have hget := get_blocks_of_isSome hcontent
  cases m with
  | object members =>
    rw [Ir.validJson, Bool.and_eq_true] at htree
    have hblocks := Ir.validJson_of_lookup htree.2 hget
    rw [Ir.validJson, Bool.and_eq_true] at hblocks
    exact validString_getString (Ir.validJson_of_mem hblocks.2 hblock)
  | _ => cases hget

theorem Pairable.ids_ne_nil (hpairs : Pairable opened h) (hm : m ∈ h) : [] ∉ toolCalls m := by
  induction h generalizing opened with
  | nil => cases hm
  | cons m' ms ih =>
    obtain ⟨-, hids, -, hrest⟩ := hpairs
    rcases List.mem_cons.mp hm with rfl | hm
    · exact hids
    · exact ih hrest hm

/-- The output is canonical when it fits and the history without its stray results is. -/
theorem canonicalHistory_mended_iff (hcanonical : canonicalHistory h = true) (hpairs : Pairable [] h) :
    canonicalHistory (mended [] h) = true ↔
      canonicalHistory (pruned [] h) = true ∧ (pruned [] h).length + unanswered [] h ≤ Ir.maxMessages := by
  have hids : ∀ m ∈ h, ∀ id ∈ toolCalls m, Ir.validString id = true ∧ id ≠ [] := by
    intro m hm id hid
    refine ⟨validString_of_mem_toolCalls ((canonicalHistory_iff.mp hcanonical).2 m hm) hid, ?_⟩
    rintro rfl
    exact hpairs.ids_ne_nil hm hid
  rw [canonicalHistory_iff, canonicalHistory_iff, length_mended,
    forall_mem_mended (fun _ => admissible_missingResult) (List.forall_mem_nil _) hids]
  constructor
  · rintro ⟨hroom, hadmissible⟩
    exact ⟨⟨by omega, hadmissible⟩, hroom⟩
  · rintro ⟨⟨-, hadmissible⟩, hroom⟩
    exact ⟨hroom, hadmissible⟩

end Output

/-! ## The repair -/

theorem messageHistoryRepair_array {h : List JsonValue} (hcanonical : canonicalHistory h = true) :
    messageHistoryRepair (array h) =
      ((repairCanonicalHistory h).1, array (repairCanonicalHistory h).2) := by
  rw [messageHistoryRepair, if_pos hcanonical]

theorem normalised_iff {h : List JsonValue} (hcanonical : canonicalHistory h = true) (hpairs : Pairable [] h) :
    Normalised h (mended [] h) ↔ Mendable h := by
  have hsettled := settled_mended_iff List.nodup_nil hpairs
  have houtput := canonicalHistory_mended_iff hcanonical hpairs
  constructor
  · intro hnormal
    have hcanonical' : canonicalHistory (mended [] h) = true := by
      by_contra hnot
      have hagain := hnormal.again
      rw [messageHistoryRepair, if_neg hnot] at hagain
      cases congrArg Prod.fst hagain
    exact ⟨hsettled.mp hnormal.settled, (houtput.mp hcanonical').1, (houtput.mp hcanonical').2⟩
  · intro hmendable
    have hcanonical' := houtput.mpr ⟨hmendable.canonical, hmendable.room⟩
    have hsettled' := hsettled.mpr hmendable.stranded
    obtain ⟨hpairs', hzero⟩ := repairsIn_of_settled (fun m hm => mem_mended hpairs hm) hsettled'
    refine ⟨hsettled', others_mended hpairs, answered_mended hpairs, ?_⟩
    rw [messageHistoryRepair_array hcanonical', repairCanonicalHistory_of_pairable hpairs', hzero,
      mended_of_repairsIn hpairs' hzero]
    rfl

/-- The repair refuses and leaves the messages, or replaces them with the output of the pass. -/
theorem messageHistoryRepair_cases (messages : JsonValue) :
    (∃ h, messages = array h ∧ canonicalHistory h = true ∧ Pairable [] h ∧
        messageHistoryRepair messages = (((repairsIn [] h : ℕ) : ℤ), array (mended [] h))) ∨
      (∀ h, messages = array h → canonicalHistory h = true → ¬Pairable [] h) ∧
        messageHistoryRepair messages = (-1, messages) := by
  cases messages with
  | array h =>
    by_cases hcanonical : canonicalHistory h = true
    · rw [messageHistoryRepair_array hcanonical]
      by_cases hpairs : Pairable [] h
      · rw [repairCanonicalHistory_of_pairable hpairs]
        exact .inl ⟨h, rfl, hcanonical, hpairs, rfl⟩
      · rw [repairCanonicalHistory_refused hpairs]
        refine .inr ⟨?_, rfl⟩
        rintro _ ⟨⟩ -
        exact hpairs
    · refine .inr ⟨?_, if_neg hcanonical⟩
      rintro _ ⟨⟩ hcanonical'
      exact absurd hcanonical' hcanonical
  | _ => exact .inr ⟨nofun, rfl⟩

/-- The repair does what it is for exactly on what it refuses and on the histories that are mendable. -/
theorem repairLaw_iff (messages : JsonValue) :
    RepairLaw messages ↔
      ∀ h, messages = array h → canonicalHistory h = true → Pairable [] h → Mendable h := by
  rcases messageHistoryRepair_cases messages with ⟨h, rfl, hcanonical, hpairs, hrepair⟩ | ⟨hrefused, hrepair⟩
  · have haccepted : (messageHistoryRepair (array h)).1 ≠ -1 := by
      rw [hrepair]
      dsimp only
      omega
    constructor
    · rintro hlaw _ ⟨⟩ - -
      obtain ⟨before, after, hbefore, hafter, hnormal⟩ := hlaw.repaired haccepted
      cases hbefore
      rw [hrepair] at hafter
      cases hafter
      exact (normalised_iff hcanonical hpairs).mp hnormal
    · intro hmendable
      refine ⟨fun hrefused => absurd hrefused haccepted, fun _ => ⟨h, mended [] h, rfl, ?_, ?_⟩⟩
      · rw [hrepair]
      · exact (normalised_iff hcanonical hpairs).mpr (hmendable h rfl hcanonical hpairs)
  · refine iff_of_true ⟨fun _ => ?_, fun haccepted => ?_⟩ fun h hh hcanonical hpairs => ?_
    · rw [hrepair]
    · exact absurd (congrArg Prod.fst hrepair) haccepted
    · exact absurd hpairs (hrefused h hh hcanonical)

/-- A text and a stray result between a call and its answer. -/
def strandingHistory : List JsonValue :=
  [object [(utf8 "role", string (utf8 "assistant")),
      (utf8 "blocks", array [object [(utf8 "type", string (utf8 "tool_use")), (utf8 "tool_id", string (utf8 "a")),
        (utf8 "name", string (utf8 "Read"))]])],
    object [(utf8 "role", string (utf8 "user")),
      (utf8 "blocks", array [object [(utf8 "type", string (utf8 "text")), (utf8 "text", string (utf8 "note"))],
        object [(utf8 "type", string (utf8 "tool_result")), (utf8 "tool_id", string (utf8 "unknown"))]])],
    object [(utf8 "role", string (utf8 "tool")),
      (utf8 "blocks", array
        [object [(utf8 "type", string (utf8 "tool_result")), (utf8 "tool_id", string (utf8 "a"))]])]]

/-- The repaired history has a second repair to make: the text ends the run, so the real answer is
    dropped for a diagnostic. -/
theorem stranded_text_unsettled : ¬RepairLaw (array strandingHistory) := by
  intro hlaw
  obtain ⟨before, after, -, hafter, hnormal⟩ := hlaw.repaired (by decide +kernel)
  have hagain : (messageHistoryRepair (messageHistoryRepair (array strandingHistory)).2).1 = 0 := by
    rw [hafter, hnormal.again]
  exact absurd hagain (by decide +kernel)

end Economizer
