-- SUMMARY: Chunk planning and synthesis assembly: the window scan of `PlanChunks` and the greedy selection of `BuildAssembly`.
import Mathlib.Algebra.GroupWithZero.Nat
import Mathlib.Algebra.Order.BigOperators.Group.List
import Mathlib.Data.List.Induction
import Aimee.Lib.Lines

/-!
# Chunk plans

`modules/roundtable/chunk.go`. Offsets and lengths are naturals: every sum the source forms is
bounded by the length of the artifact.
-/

namespace Roundtable

open Lines

/-! ## The source -/

def maxChunks : ℕ := 64

structure ChunkSpan where
  index : ℕ
  offset : ℕ
  len : ℕ
deriving DecidableEq, Repr

structure ChunkPlan where
  chunks : List ChunkSpan
  count : ℕ
  budgetBytes : ℤ
  originLen : ℕ
  overBudget : Bool
  truncated : Bool
deriving DecidableEq, Repr

structure Assembly where
  selected : List ℕ
  selectedCount : ℕ
  omitted : List ℕ
  omittedCount : ℕ
  budgetBytes : ℤ
  usedBytes : ℕ
  overBudget : Bool
deriving DecidableEq, Repr

/-- `'\n'`. -/
def newline : UInt8 := 10

/-- The scan `for i := pos + steps; i > pos; i--`; `none` is the break `-1`. -/
def scanBack (origin : List UInt8) (pos : ℕ) : ℕ → Option ℕ
  | 0 => none
  | steps + 1 => if origin[pos + (steps + 1)]? = some newline then some (pos + (steps + 1)) else
      scanBack origin pos steps

/-- One turn of the loop of `PlanChunks`. -/
def planTurn (origin : List UInt8) (budget pos : ℕ) (plan : ChunkPlan) : ℕ × ChunkPlan :=
  let remaining := origin.length - pos
  let append (take : ℕ) (plan : ChunkPlan) : ℕ × ChunkPlan :=
    (pos + take, { plan with chunks := plan.chunks ++ [⟨plan.count, pos, take⟩], count := plan.count + 1 })
  if remaining < budget then append remaining plan
  else match scanBack origin pos (budget - 1) with
    | some brk => append (brk - pos + 1) plan
    | none => append budget { plan with overBudget := true }

/-- The loop of `PlanChunks`, with the slots that are left. -/
def planLoop (origin : List UInt8) (budget : ℕ) : ℕ → ℕ → ChunkPlan → ChunkPlan
  | 0, pos, plan => if pos < origin.length then { plan with truncated := true } else plan
  | slots + 1, pos, plan =>
    if pos < origin.length then planLoop origin budget slots (planTurn origin budget pos plan).1
      (planTurn origin budget pos plan).2
    else plan

def emptyPlan (origin : List UInt8) (budgetBytes : ℤ) : ChunkPlan :=
  { chunks := [], count := 0, budgetBytes := budgetBytes, originLen := origin.length,
    overBudget := false, truncated := false }

def planChunks (origin : List UInt8) (budgetBytes : ℤ) : ChunkPlan :=
  if budgetBytes ≤ 0 ∨ (origin.length : ℤ) ≤ budgetBytes then
    { emptyPlan origin budgetBytes with chunks := [⟨0, 0, origin.length⟩], count := 1 }
  else planLoop origin budgetBytes.toNat maxChunks 0 (emptyPlan origin budgetBytes)

def emptyAssembly (budgetBytes : ℤ) : Assembly :=
  { selected := [], selectedCount := 0, omitted := [], omittedCount := 0, budgetBytes := budgetBytes, usedBytes := 0,
    overBudget := false }

/-- The very first span already overflows the synthesis budget. -/
def noteOverflow (a : Assembly) (c : ChunkSpan) : Assembly :=
  if 0 < a.budgetBytes ∧ a.budgetBytes < c.len ∧ a.selectedCount = 0 then { a with overBudget := true } else a

/-- One turn of the loop of `BuildAssembly`. -/
def assembleSpan (a : Assembly) (c : ChunkSpan) : Assembly :=
  let a := noteOverflow a c
  if a.budgetBytes ≤ 0 ∨ (a.usedBytes + c.len : ℤ) ≤ a.budgetBytes then
    { a with
      selected := a.selected ++ [c.index]
      selectedCount := a.selectedCount + 1
      usedBytes := a.usedBytes + c.len }
  else { a with omitted := a.omitted ++ [c.index], omittedCount := a.omittedCount + 1 }

def buildAssembly (plan : ChunkPlan) (budgetBytes : ℤ) : Assembly :=
  plan.chunks.foldl assembleSpan (emptyAssembly budgetBytes)

variable {text : List UInt8} {budget pos : ℕ}

/-! ## The window scan -/

theorem scanBack_eq_some {steps brk : ℕ} (h : scanBack text pos steps = some brk) :
    pos < brk ∧ brk ≤ pos + steps ∧ text[brk]? = some newline := by
  induction steps with
  | zero => simp [scanBack] at h
  | succ steps ih =>
    rw [scanBack] at h
    split at h
    next hnl =>
      cases h
      exact ⟨by omega, le_refl _, hnl⟩
    next =>
      obtain ⟨hlt, hle, hnl⟩ := ih h
      exact ⟨hlt, by omega, hnl⟩

theorem scanBack_eq_none {steps : ℕ} :
    scanBack text pos steps = none ↔ ∀ i, pos < i → i ≤ pos + steps → text[i]? ≠ some newline := by
  induction steps with
  | zero =>
    refine ⟨fun _ i hlt hle => ?_, fun _ => rfl⟩
    omega
  | succ steps ih =>
    rw [scanBack]
    split
    next hnl =>
      refine ⟨fun h => by simp at h, fun h => ?_⟩
      exact absurd hnl (h _ (by omega) (le_refl _))
    next hnl =>
      rw [ih]
      refine ⟨fun h i hlt hle => ?_, fun h i hlt hle => h i hlt (by omega)⟩
      rcases Nat.lt_or_ge (pos + steps) i with hi | hi
      · obtain rfl : i = pos + (steps + 1) := by omega
        exact hnl
      · exact h i hlt hi

/-- Where the span that starts at `pos` ends. -/
def nextBreak (text : List UInt8) (budget pos : ℕ) : ℕ :=
  if text.length - pos < budget then text.length
  else match scanBack text pos (budget - 1) with
    | some brk => brk + 1
    | none => pos + budget

/-- A full window at `pos` with no newline after its first byte: the turn that cuts hard. -/
def Unbroken (text : List UInt8) (budget pos : ℕ) : Prop :=
  budget ≤ text.length - pos ∧ ∀ i, pos < i → i < pos + budget → text[i]? ≠ some newline

section

variable (hbudget : 0 < budget)
include hbudget

theorem unbroken_iff :
    Unbroken text budget pos ↔ budget ≤ text.length - pos ∧ scanBack text pos (budget - 1) = none := by
  rw [scanBack_eq_none]
  refine and_congr Iff.rfl (forall_congr' fun i => imp_congr Iff.rfl ?_)
  rw [show i ≤ pos + (budget - 1) ↔ i < pos + budget by omega]

theorem nextBreak_of_unbroken (h : Unbroken text budget pos) :
    nextBreak text budget pos = pos + budget := by
  obtain ⟨hfull, hnone⟩ := (unbroken_iff hbudget).mp h
  rw [nextBreak, if_neg (by omega), hnone]

/-- A turn that does not cut hard ends at the end of the text or after a newline. -/
theorem nextBreak_of_not_unbroken (h : ¬Unbroken text budget pos) :
    nextBreak text budget pos = text.length ∨
      0 < nextBreak text budget pos ∧ text[nextBreak text budget pos - 1]? = some newline := by
  rw [unbroken_iff hbudget] at h
  unfold nextBreak
  split
  next => exact .inl rfl
  next hfull =>
    refine .inr ?_
    cases hscan : scanBack text pos (budget - 1) with
    | none => exact absurd ⟨by omega, hscan⟩ h
    | some brk => exact ⟨Nat.succ_pos _, (scanBack_eq_some hscan).2.2⟩

theorem nextBreak_bounds (hpos : pos < text.length) :
    pos < nextBreak text budget pos ∧ nextBreak text budget pos ≤ pos + budget ∧
      nextBreak text budget pos ≤ text.length := by
  unfold nextBreak
  split
  next => exact ⟨hpos, by omega, le_refl _⟩
  next hfull =>
    cases hscan : scanBack text pos (budget - 1) with
    | none => exact ⟨by simp only; omega, le_refl _, by simp only; omega⟩
    | some brk =>
      obtain ⟨hlt, hle, -⟩ := scanBack_eq_some hscan
      exact ⟨by simp only; omega, by simp only; omega, by simp only; omega⟩

/-! ## Cuts inside a line -/

/-- Only a hard cut ends a span inside a line. -/
theorem inside_nextBreak_iff :
    Inside newline text (nextBreak text budget pos) ↔
      Unbroken text budget pos ∧ pos + budget < text.length ∧ text[pos + budget - 1]? ≠ some newline := by
  by_cases hunbroken : Unbroken text budget pos
  · rw [nextBreak_of_unbroken hbudget hunbroken]
    exact ⟨fun h => ⟨hunbroken, h.2⟩, fun h => ⟨by omega, h.2⟩⟩
  · refine ⟨fun h => ?_, fun h => absurd h.1 hunbroken⟩
    rcases nextBreak_of_not_unbroken hbudget hunbroken with hend | ⟨-, hnl⟩
    · exact absurd h.2.1 (by omega)
    · exact absurd hnl h.2.2

/-- The line that a hard cut falls into is longer than the budget, unless it starts after the
    window's first byte and ends right after the cut. -/
theorem insideLong_iff (hunbroken : Unbroken text budget pos)
    (hcut : Inside newline text (pos + budget)) :
    InsideLong newline text budget (pos + budget) ↔
      (text[pos]? = some newline → text[pos + budget]? ≠ some newline ∧ pos + budget + 1 < text.length) := by
  by_cases hfirst : text[pos]? = some newline
  · constructor
    · rintro ⟨s, t, hline, hse, het, hlong⟩ -
      have hs : pos + 1 ≤ s := hline.le_start (Nat.succ_pos _) (by omega) het hfirst
      have hle := hline.le
      refine ⟨fun hnl => ?_, by omega⟩
      have := hline.stop_le (by omega) hnl
      omega
    · intro h
      obtain ⟨hnl, hrest⟩ := h hfirst
      obtain ⟨s, t, hline, hse, het⟩ := hcut.exists_isLine
      have hs : s ≤ pos + 1 := hline.start_le hse fun i hi hie => hunbroken.2 i (by omega) hie
      refine ⟨s, t, hline, hse, het, ?_⟩
      by_contra hshort
      have ht : t = pos + budget + 1 := by omega
      rcases hline.ends with hend | hend
      · omega
      · exact hnl (by rw [← hend, ht, Nat.add_sub_cancel])
  · refine ⟨fun _ h => absurd h hfirst, fun _ => ?_⟩
    have hlong := hcut.insideLong (p := pos) fun i hi hie => by
      rcases Nat.eq_or_lt_of_le hi with rfl | hlt
      · exact hfirst
      · exact hunbroken.2 i hlt hie
    rwa [Nat.add_sub_cancel_left] at hlong

end

/-! ## The plan in closed form -/

/-- Where the turn `k` of the loop starts. -/
def turnAt (text : List UInt8) (budget k : ℕ) : ℕ := (nextBreak text budget)^[k] 0

theorem turnAt_succ (k : ℕ) : turnAt text budget (k + 1) = nextBreak text budget (turnAt text budget k) :=
  Function.iterate_succ_apply' _ _ _

def span (text : List UInt8) (budget k : ℕ) : ChunkSpan :=
  { index := k, offset := turnAt text budget k, len := turnAt text budget (k + 1) - turnAt text budget k }

def hardCut (text : List UInt8) (budget pos : ℕ) : Bool :=
  decide (budget ≤ text.length - pos) && (scanBack text pos (budget - 1)).isNone

theorem hardCut_iff (hbudget : 0 < budget) : hardCut text budget pos = true ↔ Unbroken text budget pos := by
  simp [hardCut, unbroken_iff hbudget]

theorem planTurn_eq (hpos : pos < text.length) (plan : ChunkPlan) :
    planTurn text budget pos plan =
      (nextBreak text budget pos,
        { plan with
          chunks := plan.chunks ++ [⟨plan.count, pos, nextBreak text budget pos - pos⟩]
          count := plan.count + 1
          overBudget := plan.overBudget || hardCut text budget pos }) := by
  by_cases hrest : text.length - pos < budget
  · have hnext : nextBreak text budget pos = text.length := if_pos hrest
    have hcut : hardCut text budget pos = false := by simp [hardCut, hrest]
    rw [hnext, hcut, planTurn, if_pos hrest]
    simp [Nat.add_sub_cancel' hpos.le]
  · rw [planTurn, if_neg hrest]
    cases hscan : scanBack text pos (budget - 1) with
    | none =>
      have hnext : nextBreak text budget pos = pos + budget := by simp [nextBreak, hrest, hscan]
      have hcut : hardCut text budget pos = true := by simpa [hardCut, hscan] using hrest
      simp [hnext, hcut]
    | some brk =>
      have hnext : nextBreak text budget pos = brk + 1 := by simp [nextBreak, hrest, hscan]
      have hcut : hardCut text budget pos = false := by simp [hardCut, hscan]
      have hbrk := (scanBack_eq_some hscan).1
      simp only [hnext, hcut, Bool.or_false]
      rw [Nat.sub_add_comm hbrk.le, show pos + (brk - pos + 1) = brk + 1 by omega]

/-- The plan after `k` turns. -/
def planAfter (text : List UInt8) (budgetBytes : ℤ) (k : ℕ) : ChunkPlan :=
  { emptyPlan text budgetBytes with
    chunks := (List.range k).map (span text budgetBytes.toNat)
    count := k
    overBudget := (List.range k).any fun i => hardCut text budgetBytes.toNat (turnAt text budgetBytes.toNat i) }

variable {budgetBytes : ℤ} {m k : ℕ}

theorem planTurn_planAfter {k : ℕ} (hpos : turnAt text budgetBytes.toNat k < text.length) :
    planTurn text budgetBytes.toNat (turnAt text budgetBytes.toNat k) (planAfter text budgetBytes k) =
      (turnAt text budgetBytes.toNat (k + 1), planAfter text budgetBytes (k + 1)) := by
  rw [planTurn_eq hpos]
  simp [planAfter, emptyPlan, List.range_succ, span, turnAt_succ]

theorem planLoop_eq (slots k : ℕ) :
    ∃ m, k ≤ m ∧ m ≤ k + slots ∧ (∀ i, k ≤ i → i < m → turnAt text budgetBytes.toNat i < text.length) ∧
      (m = k + slots ∨ text.length ≤ turnAt text budgetBytes.toNat m) ∧
      planLoop text budgetBytes.toNat slots (turnAt text budgetBytes.toNat k) (planAfter text budgetBytes k) =
        { planAfter text budgetBytes m with truncated := decide (turnAt text budgetBytes.toNat m < text.length) } := by
  induction slots generalizing k with
  | zero =>
    refine ⟨k, le_refl _, le_refl _, fun i hki hik => by omega, .inl rfl, ?_⟩
    rw [planLoop]
    split_ifs with hpos <;> simp [planAfter, emptyPlan, hpos]
  | succ slots ih =>
    rw [planLoop]
    by_cases hpos : turnAt text budgetBytes.toNat k < text.length
    · obtain ⟨m, hkm, hm, hturns, hend, hplan⟩ := ih (k + 1)
      refine ⟨m, by omega, by omega, fun i hki him => ?_, hend.imp_left (by omega), ?_⟩
      · rcases Nat.eq_or_lt_of_le hki with rfl | hlt
        · exact hpos
        · exact hturns i hlt him
      · rw [if_pos hpos, planTurn_planAfter hpos]
        exact hplan
    · refine ⟨k, le_refl _, by omega, fun i hki hik => by omega, .inr (by omega), ?_⟩
      simp [planAfter, emptyPlan, hpos]

/-- The loop takes `m` turns: each starts inside the text, and after them the slots or the text are used up. -/
structure Turns (text : List UInt8) (budget m : ℕ) : Prop where
  slots : m ≤ maxChunks
  taken : ∀ i < m, turnAt text budget i < text.length
  stops : m = maxChunks ∨ text.length ≤ turnAt text budget m

theorem planChunks_eq (hbudget : 0 < budgetBytes) (hlong : budgetBytes.toNat < text.length) :
    ∃ m, Turns text budgetBytes.toNat m ∧ planChunks text budgetBytes =
      { planAfter text budgetBytes m with truncated := decide (turnAt text budgetBytes.toNat m < text.length) } := by
  obtain ⟨m, -, hm, hturns, hend, hplan⟩ := @planLoop_eq text budgetBytes maxChunks 0
  refine ⟨m, ⟨hm, fun i => hturns i (Nat.zero_le i), hend⟩, ?_⟩
  rw [planChunks, if_neg (by omega)]
  exact hplan

theorem Turns.bounds (h : Turns text budget m) (hbudget : 0 < budget) (hk : k < m) :
    turnAt text budget k < turnAt text budget (k + 1) ∧
      turnAt text budget (k + 1) ≤ turnAt text budget k + budget ∧ turnAt text budget (k + 1) ≤ text.length := by
  rw [turnAt_succ]
  exact nextBreak_bounds hbudget (h.taken k hk)

theorem Turns.span_stop (h : Turns text budget m) (hbudget : 0 < budget) (hk : k < m) :
    (span text budget k).offset + (span text budget k).len = nextBreak text budget (turnAt text budget k) := by
  rw [← turnAt_succ]
  exact Nat.add_sub_cancel' (h.bounds hbudget hk).1.le

theorem Turns.le_length {m : ℕ} (h : Turns text budget m) (hbudget : 0 < budget) :
    turnAt text budget m ≤ text.length := by
  cases m with
  | zero => exact Nat.zero_le _
  | succ m => exact (h.bounds hbudget (Nat.lt_succ_self m)).2.2

theorem turnAt_stays (hbudget : 0 < budget) (hm : text.length ≤ turnAt text budget m) (hk : m ≤ k) :
    text.length ≤ turnAt text budget k := by
  induction k, hk using Nat.le_induction with
  | base => exact hm
  | succ k _ ih => rw [turnAt_succ, nextBreak, if_pos (by omega)]

/-- Below the limit on the slots, a turn that starts inside the text is taken. -/
theorem Turns.lt_of_turnAt_lt (h : Turns text budget m) (hbudget : 0 < budget) (hk : k < maxChunks)
    (hin : turnAt text budget k < text.length) : k < m := by
  by_contra hmk
  rcases h.stops with hm | hm
  · omega
  · have := turnAt_stays hbudget hm (show m ≤ k by omega)
    omega

theorem Turns.sum_spans (h : Turns text budget m) (hbudget : 0 < budget) (hk : k ≤ m) :
    (((List.range k).map (span text budget)).map ChunkSpan.len).sum = turnAt text budget k := by
  induction k with
  | zero => rfl
  | succ k ih =>
    have hlt := (h.bounds hbudget hk).1
    rw [List.range_succ, List.map_append, List.map_append, List.sum_append]
    simp only [List.map_cons, List.map_nil, List.sum_singleton, span]
    omega

/-! ## Assembly -/

/-- The assembly splits the spans in two, and what it selects fits the budget, where there is one. -/
def Partitions (chunks : List ChunkSpan) (budgetBytes : ℤ) (a : Assembly) : Prop :=
  ∃ selected omitted : List ChunkSpan, selected.Sublist chunks ∧ omitted.Sublist chunks ∧
    (selected ++ omitted).Perm chunks ∧
    a.selected = selected.map ChunkSpan.index ∧ a.omitted = omitted.map ChunkSpan.index ∧
    a.selectedCount = selected.length ∧ a.omittedCount = omitted.length ∧
    a.usedBytes = (selected.map ChunkSpan.len).sum ∧ (0 < budgetBytes → (a.usedBytes : ℤ) ≤ budgetBytes)

/-- One span goes to the selected ones, where it still fits, or to the omitted ones. -/
theorem assembleSpan_cases (a : Assembly) (c : ChunkSpan) :
    (assembleSpan a c).budgetBytes = a.budgetBytes ∧
      (((a.budgetBytes ≤ 0 ∨ (a.usedBytes + c.len : ℤ) ≤ a.budgetBytes) ∧
          (assembleSpan a c).selected = a.selected ++ [c.index] ∧
            (assembleSpan a c).selectedCount = a.selectedCount + 1 ∧
          (assembleSpan a c).usedBytes = a.usedBytes + c.len ∧
          (assembleSpan a c).omitted = a.omitted ∧ (assembleSpan a c).omittedCount = a.omittedCount) ∨
        ((assembleSpan a c).selected = a.selected ∧ (assembleSpan a c).selectedCount = a.selectedCount ∧
          (assembleSpan a c).usedBytes = a.usedBytes ∧
          (assembleSpan a c).omitted = a.omitted ++ [c.index] ∧
            (assembleSpan a c).omittedCount = a.omittedCount + 1)) := by
  have hnote : noteOverflow a c = { a with overBudget := (noteOverflow a c).overBudget } := by
    unfold noteOverflow
    split <;> rfl
  unfold assembleSpan
  rw [hnote]
  by_cases hfits : a.budgetBytes ≤ 0 ∨ (a.usedBytes + c.len : ℤ) ≤ a.budgetBytes
  · simp only [if_pos hfits]
    exact ⟨trivial, .inl ⟨hfits, trivial, trivial, trivial, trivial, trivial⟩⟩
  · simp only [if_neg hfits]
    exact ⟨trivial, .inr ⟨trivial, trivial, trivial, trivial, trivial⟩⟩

theorem foldl_assembleSpan (chunks : List ChunkSpan) (budgetBytes : ℤ) :
    (chunks.foldl assembleSpan (emptyAssembly budgetBytes)).budgetBytes = budgetBytes ∧
      Partitions chunks budgetBytes (chunks.foldl assembleSpan (emptyAssembly budgetBytes)) := by
  induction chunks using List.reverseRecOn with
  | nil =>
    exact ⟨rfl, [], [], List.Sublist.refl _, List.Sublist.refl _, List.Perm.refl _, rfl, rfl, rfl, rfl, rfl, le_of_lt⟩
  | append_singleton chunks c ih =>
    rw [List.foldl_append]
    obtain ⟨hbudget, selected, omitted, hsel, hom, hperm, hs, ho, hsc, hoc, hused, hfits⟩ := ih
    obtain ⟨hkeep, hcase⟩ := assembleSpan_cases (chunks.foldl assembleSpan (emptyAssembly budgetBytes)) c
    refine ⟨hkeep.trans hbudget, ?_⟩
    simp only [List.foldl_cons, List.foldl_nil]
    rcases hcase with ⟨hroom, h1, h2, h3, h4, h5⟩ | ⟨h1, h2, h3, h4, h5⟩
    · refine ⟨selected ++ [c], omitted, hsel.append (List.Sublist.refl _),
        hom.trans (List.sublist_append_left _ _), ?_, ?_, ?_, ?_, ?_, ?_, ?_⟩
      · rw [List.append_assoc]
        exact (List.perm_append_comm.append_left _).trans (by rw [← List.append_assoc]; exact hperm.append_right _)
      · rw [h1, hs, List.map_append, List.map_singleton]
      · rw [h4, ho]
      · rw [h2, hsc, List.length_append, List.length_singleton]
      · rw [h5, hoc]
      · rw [h3, hused, List.map_append, List.map_singleton, List.sum_append, List.sum_singleton]
      · intro hpos
        omega
    · refine ⟨selected, omitted ++ [c], hsel.trans (List.sublist_append_left _ _),
        hom.append (List.Sublist.refl _), ?_, ?_, ?_, ?_, ?_, ?_, ?_⟩
      · rw [← List.append_assoc]
        exact hperm.append_right _
      · rw [h1, hs]
      · rw [h4, ho, List.map_append, List.map_singleton]
      · rw [h2, hsc]
      · rw [h5, hoc, List.length_append, List.length_singleton]
      · rw [h3, hused]
      · rwa [h3]

theorem buildAssembly_partitions (plan : ChunkPlan) (budgetBytes : ℤ) :
    Partitions plan.chunks budgetBytes (buildAssembly plan budgetBytes) :=
  (foldl_assembleSpan plan.chunks budgetBytes).2

/-! ## Tilings on line boundaries -/

/-- The spans tile the text, cut only lines longer than the budget, and the flags say so. -/
structure TilesOnLines (text : List UInt8) (budget : ℕ) (plan : ChunkPlan) : Prop where
  nonempty : text ≠ [] → plan.chunks ≠ [] ∧ ∀ c ∈ plan.chunks, 0 < c.len
  contiguous : ∀ i c, plan.chunks[i]? = some c → c.index = i ∧ c.offset = ((plan.chunks.take i).map ChunkSpan.len).sum
  small : ∀ c ∈ plan.chunks, c.len ≤ budget
  covers : (plan.chunks.map ChunkSpan.len).sum = text.length ↔ plan.truncated = false
  cuts : ∀ c ∈ plan.chunks, Inside newline text (c.offset + c.len) → InsideLong newline text budget (c.offset + c.len)
  flag : plan.overBudget = true ↔ ∃ c ∈ plan.chunks, InsideLong newline text budget (c.offset + c.len)

/-- The turn `k` finds a full window without a newline after its first byte. -/
def HardTurn (text : List UInt8) (budget k : ℕ) : Prop :=
  k < maxChunks ∧ budget < text.length ∧ Unbroken text budget (turnAt text budget k)

/-- Where the plan does what it is for. A window that starts with a newline and has no other is not
    cut one byte before the end of a line, and some window without a newline is cut inside a line
    when there is one at all. -/
structure CleanCuts (text : List UInt8) (budget : ℕ) : Prop where
  windows : ∀ k, HardTurn text budget k → Inside newline text (turnAt text budget k + budget) →
    text[turnAt text budget k]? = some newline →
    text[turnAt text budget k + budget]? ≠ some newline ∧ turnAt text budget k + budget + 1 < text.length
  cut : ∀ k, HardTurn text budget k → ∃ j, HardTurn text budget j ∧ Inside newline text (turnAt text budget j + budget)

theorem whole_tilesOnLines (hbudget : 0 < budgetBytes) (hfits : text.length ≤ budgetBytes.toNat) :
    TilesOnLines text budgetBytes.toNat (planChunks text budgetBytes) := by
  have hplan : planChunks text budgetBytes =
      { emptyPlan text budgetBytes with chunks := [⟨0, 0, text.length⟩], count := 1 } := by
    rw [planChunks, if_pos (.inr (by omega))]
  have hend : ¬Inside newline text (0 + text.length) := fun h => by
    have := h.2.1
    omega
  rw [hplan]
  refine ⟨fun hne => ⟨by simp, ?_⟩, ?_, ?_, ?_, ?_, ?_⟩
  · simpa using List.length_pos_of_ne_nil hne
  · intro i c hc
    obtain ⟨rfl, rfl⟩ : i = 0 ∧ c = ⟨0, 0, text.length⟩ := by
      cases i with
      | zero => exact ⟨rfl, (Option.some.inj hc).symm⟩
      | succ i => simp at hc
    exact ⟨rfl, rfl⟩
  · simpa using hfits
  · simp [emptyPlan]
  · intro c hc hin
    rw [List.mem_singleton.mp hc] at hin
    exact absurd hin hend
  · refine ⟨fun h => by simp [emptyPlan] at h, fun ⟨c, hc, hlong⟩ => ?_⟩
    rw [List.mem_singleton.mp hc] at hlong
    exact absurd hlong.inside hend

theorem Turns.hardTurn_iff (h : Turns text budget m) (hbudget : 0 < budget) (hlong : budget < text.length) :
    HardTurn text budget k ↔ k < m ∧ Unbroken text budget (turnAt text budget k) := by
  constructor
  · rintro ⟨hk, -, hun⟩
    have := hun.1
    exact ⟨h.lt_of_turnAt_lt hbudget hk (by omega), hun⟩
  · rintro ⟨hk, hun⟩
    exact ⟨hk.trans_le h.slots, hlong, hun⟩

/-- The spans that end inside a line are those of the hard turns that do. -/
theorem Turns.inside_iff (h : Turns text budget m) (hbudget : 0 < budget) (hlong : budget < text.length) (hk : k < m) :
    Inside newline text ((span text budget k).offset + (span text budget k).len) ↔
      HardTurn text budget k ∧ Inside newline text (turnAt text budget k + budget) := by
  rw [h.span_stop hbudget hk, h.hardTurn_iff hbudget hlong, inside_nextBreak_iff hbudget]
  constructor
  · rintro ⟨hun, hlen, hnl⟩
    exact ⟨⟨hk, hun⟩, by omega, hlen, hnl⟩
  · rintro ⟨⟨-, hun⟩, -, hlen, hnl⟩
    exact ⟨hun, hlen, hnl⟩

theorem mem_chunks_planAfter {m : ℕ} {c : ChunkSpan} :
    c ∈ (planAfter text budgetBytes m).chunks ↔ ∃ k < m, span text budgetBytes.toNat k = c := by
  simp [planAfter]

/-- Every plan tiles the text, up to where its slots end. -/
theorem Turns.tiles {m : ℕ} (h : Turns text budgetBytes.toNat m) (hbudget : 0 < budgetBytes.toNat) :
    (∀ c ∈ (planAfter text budgetBytes m).chunks, 0 < c.len ∧ c.len ≤ budgetBytes.toNat) ∧
    (∀ i c, (planAfter text budgetBytes m).chunks[i]? = some c →
      c.index = i ∧ c.offset = (((planAfter text budgetBytes m).chunks.take i).map ChunkSpan.len).sum) ∧
    ((planAfter text budgetBytes m).chunks.map ChunkSpan.len).sum = turnAt text budgetBytes.toNat m := by
  refine ⟨fun c hc => ?_, fun i c hc => ?_, h.sum_spans hbudget (le_refl m)⟩
  · obtain ⟨k, hkm, rfl⟩ := mem_chunks_planAfter.mp hc
    obtain ⟨hlt, hle, -⟩ := h.bounds hbudget hkm
    exact ⟨Nat.sub_pos_of_lt hlt, Nat.sub_le_of_le_add (by omega)⟩
  · obtain ⟨him, rfl⟩ : i < m ∧ span text budgetBytes.toNat i = c := by
      simpa [planAfter, List.getElem?_eq_some_iff] using hc
    refine ⟨rfl, ?_⟩
    have htake : (planAfter text budgetBytes m).chunks.take i = (List.range i).map (span text budgetBytes.toNat) := by
      rw [planAfter, ← List.map_take, List.take_range, Nat.min_eq_left him.le]
    rw [htake, h.sum_spans hbudget him.le]
    rfl

/-- The cuts and the flag of a plan are right exactly where the windows are clean. -/
theorem Turns.cuts_iff {m : ℕ} (h : Turns text budgetBytes.toNat m) (hbudget : 0 < budgetBytes.toNat)
    (hlong : budgetBytes.toNat < text.length) :
    ((∀ c ∈ (planAfter text budgetBytes m).chunks, Inside newline text (c.offset + c.len) →
        InsideLong newline text budgetBytes.toNat (c.offset + c.len)) ∧
      ((planAfter text budgetBytes m).overBudget = true ↔
        ∃ c ∈ (planAfter text budgetBytes m).chunks, InsideLong newline text budgetBytes.toNat (c.offset + c.len))) ↔
      CleanCuts text budgetBytes.toNat := by
  have hflag : (planAfter text budgetBytes m).overBudget = true ↔ ∃ k, HardTurn text budgetBytes.toNat k := by
    simp [planAfter, hardCut_iff hbudget, h.hardTurn_iff hbudget hlong]
  have hspan : ∀ k, HardTurn text budgetBytes.toNat k →
      k < m ∧ (span text budgetBytes.toNat k).offset + (span text budgetBytes.toNat k).len =
        turnAt text budgetBytes.toNat k + budgetBytes.toNat := fun k hk => by
    obtain ⟨hkm, hun⟩ := (h.hardTurn_iff hbudget hlong).mp hk
    exact ⟨hkm, by rw [h.span_stop hbudget hkm, nextBreak_of_unbroken hbudget hun]⟩
  constructor
  · rintro ⟨hcuts, hover⟩
    refine ⟨fun k hk hin => ?_, fun k hk => ?_⟩
    · obtain ⟨hkm, hstop⟩ := hspan k hk
      have hlongcut := hcuts _ (mem_chunks_planAfter.mpr ⟨k, hkm, rfl⟩)
      rw [hstop] at hlongcut
      exact (insideLong_iff hbudget hk.2.2 hin).mp (hlongcut hin)
    · obtain ⟨c, hc, hin⟩ := hover.mp (hflag.mpr ⟨k, hk⟩)
      obtain ⟨j, hjm, rfl⟩ := mem_chunks_planAfter.mp hc
      exact ⟨j, (h.inside_iff hbudget hlong hjm).mp hin.inside⟩
  · rintro ⟨hwindows, hsome⟩
    have hcuts : ∀ c ∈ (planAfter text budgetBytes m).chunks, Inside newline text (c.offset + c.len) →
        InsideLong newline text budgetBytes.toNat (c.offset + c.len) := by
      intro c hc hin
      obtain ⟨k, hkm, rfl⟩ := mem_chunks_planAfter.mp hc
      obtain ⟨hk, hin'⟩ := (h.inside_iff hbudget hlong hkm).mp hin
      rw [(hspan k hk).2]
      exact (insideLong_iff hbudget hk.2.2 hin').mpr (hwindows k hk hin')
    refine ⟨hcuts, hflag.trans ⟨?_, ?_⟩⟩
    · rintro ⟨k, hk⟩
      obtain ⟨j, hj, hin⟩ := hsome k hk
      have hmem : span text budgetBytes.toNat j ∈ (planAfter text budgetBytes m).chunks :=
        mem_chunks_planAfter.mpr ⟨j, (hspan j hj).1, rfl⟩
      exact ⟨_, hmem, hcuts _ hmem ((h.inside_iff hbudget hlong (hspan j hj).1).mpr ⟨hj, hin⟩)⟩
    · rintro ⟨c, hc, hin⟩
      obtain ⟨k, hkm, rfl⟩ := mem_chunks_planAfter.mp hc
      exact ⟨k, ((h.inside_iff hbudget hlong hkm).mp hin.inside).1⟩

theorem long_tilesOnLines_iff (hbudget : 0 < budgetBytes) (hlong : budgetBytes.toNat < text.length) :
    TilesOnLines text budgetBytes.toNat (planChunks text budgetBytes) ↔ CleanCuts text budgetBytes.toNat := by
  obtain ⟨m, hturns, hplan⟩ := planChunks_eq hbudget hlong
  have hpos : 0 < budgetBytes.toNat := by omega
  obtain ⟨hlens, hoffsets, hsum⟩ := hturns.tiles hpos
  have hle := hturns.le_length hpos
  rw [← hturns.cuts_iff hpos hlong, hplan]
  refine ⟨fun h => ⟨h.cuts, h.flag⟩, fun ⟨hcuts, hflag⟩ => ?_⟩
  refine ⟨fun _ => ⟨?_, fun c hc => (hlens c hc).1⟩, hoffsets, fun c hc => (hlens c hc).2, ?_, hcuts, hflag⟩
  · have hm : 0 < m := hturns.lt_of_turnAt_lt hpos (by decide) (show 0 < text.length by omega)
    exact List.ne_nil_of_mem (mem_chunks_planAfter.mpr ⟨0, hm, rfl⟩)
  · simp only [hsum, decide_eq_false_iff_not]
    omega

/-- The plan tiles the text on line boundaries, and every assembly of it partitions the spans, if and
    only if the text fits the budget or its windows are clean. -/
theorem planChunks_tiles_iff (text : List UInt8) {budgetBytes : ℤ} (hbudget : 0 < budgetBytes) :
    (TilesOnLines text budgetBytes.toNat (planChunks text budgetBytes) ∧
      ∀ assemblyBudget, Partitions (planChunks text budgetBytes).chunks assemblyBudget
        (buildAssembly (planChunks text budgetBytes) assemblyBudget)) ↔
      text.length ≤ budgetBytes.toNat ∨ CleanCuts text budgetBytes.toNat := by
  rw [and_iff_left fun assemblyBudget => buildAssembly_partitions _ assemblyBudget]
  rcases Nat.lt_or_ge budgetBytes.toNat text.length with hlong | hfits
  · rw [long_tilesOnLines_iff hbudget hlong, or_iff_right (by omega)]
  · exact ⟨fun _ => .inl hfits, fun _ => whole_tilesOnLines hbudget hfits⟩

/-- A text of one line, longer than the budget. -/
theorem planChunks_tiles_long_line :
    TilesOnLines [97, 98, 99] 2 (planChunks [97, 98, 99] 2) ∧
      ∀ assemblyBudget, Partitions (planChunks [97, 98, 99] 2).chunks assemblyBudget
        (buildAssembly (planChunks [97, 98, 99] 2) assemblyBudget) := by
  have hhard : HardTurn [97, 98, 99] 2 0 := by
    refine ⟨by decide, by decide, by decide, fun i hi hi' => ?_⟩
    obtain rfl : i = 1 := by
      change i < 2 at hi'
      change 0 < i at hi
      omega
    decide
  refine (planChunks_tiles_iff [97, 98, 99] (show (0 : ℤ) < 2 by decide)).mpr
    (.inr ⟨fun k hk _ hnl => ?_, fun _ _ => ?_⟩)
  swap
  · exact ⟨0, hhard, by decide, by decide, by decide⟩
  match k with
  | 0 => exact absurd hnl (by decide)
  | 1 => exact absurd hk.2.2.1 (by decide)
  | k + 2 =>
    have hend : [97, 98, 99].length ≤ turnAt [97, 98, 99] 2 (k + 2) :=
      @turnAt_stays [97, 98, 99] 2 2 (k + 2) (by decide) (by decide) (by omega)
    change 3 ≤ _ at hend
    have hroom : 2 ≤ 3 - turnAt [97, 98, 99] 2 (k + 2) := hk.2.2.1
    omega

/-- A lone newline, then a line within the budget, cut one byte before its end. -/
theorem not_planChunks_tiles :
    ¬∀ (text : List UInt8) (budgetBytes : ℤ), 0 < budgetBytes →
      TilesOnLines text budgetBytes.toNat (planChunks text budgetBytes) ∧
        ∀ assemblyBudget, Partitions (planChunks text budgetBytes).chunks assemblyBudget
          (buildAssembly (planChunks text budgetBytes) assemblyBudget) := by
  intro h
  obtain ⟨s, t, hline, hs, ht, hlen⟩ := (h [10, 97, 98, 10] 3 (by decide)).1.cuts ⟨0, 0, 3⟩ (by decide)
    ⟨by decide, by decide, by decide⟩
  have hstart : 1 ≤ s := hline.le_start (by decide) (show 1 ≤ 3 by decide) ht rfl
  have hle : t ≤ 4 := hline.le
  simp only [Nat.zero_add] at hs ht
  have : (3 : ℤ).toNat = 3 := rfl
  omega

end Roundtable
