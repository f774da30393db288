-- SUMMARY: A list cut down by a mask: what is kept stands, and each maximal run that is left out becomes one marker.
import Mathlib.Data.List.Chain

/-!
# Elision

A mask says for each item of a list whether it is kept. The items fall into pieces, one for each
kept item and one for each maximal run between them, and the text that is shown has one item a
piece. Masks are made by loops that set marks at indices.
-/

namespace Elision

variable {α : Type*}

inductive Piece (α : Type*) where
  | kept (item : α)
  | elided (run : List α)

/-- The items a piece stands for. -/
def Piece.items : Piece α → List α
  | .kept a => [a]
  | .elided run => run

/-- What the mask says of them. -/
def Piece.marks : Piece α → List Bool
  | .kept _ => [true]
  | .elided run => run.map fun _ => false

def Piece.isElided : Piece α → Bool
  | .kept _ => false
  | .elided _ => true

/-- The item that is shown for a piece: a run is replaced by a marker of its length. -/
def Piece.shown (marker : ℕ → α) : Piece α → α
  | .kept a => a
  | .elided run => marker run.length

/-- The pieces are what a mask makes of a list: no run is empty, and no two of them meet. -/
structure Cuts (mask : List Bool) (items : List α) (pieces : List (Piece α)) : Prop where
  items_eq : pieces.flatMap Piece.items = items
  marks_eq : pieces.flatMap Piece.marks = mask
  nonempty : ∀ run, .elided run ∈ pieces → run ≠ []
  maximal : pieces.IsChain fun p q => ¬ (p.isElided ∧ q.isElided)

/-- The items at which a mask is set. -/
def picked (mask : List Bool) (items : List α) : List α := ((items.zip mask).filter (·.2)).map (·.1)

/-! ## The loop with a counter -/

variable {marker : ℕ → α} {mask : List Bool} {items : List α}

/-- The marker that is due before the next item. -/
def flush (marker : ℕ → α) (elided : ℕ) : List α := if 0 < elided then [marker elided] else []

/-- The loop over the items: it counts what is left out, and writes a marker when a kept item or the
    end comes. -/
def collapse (marker : ℕ → α) : List (α × Bool) → (elided : ℕ) → List α
  | [], elided => flush marker elided
  | (a, true) :: rest, elided => flush marker elided ++ a :: collapse marker rest 0
  | (_, false) :: rest, elided => collapse marker rest (elided + 1)

/-- The run that is pending, as pieces. -/
def pending (run : List α) : List (Piece α) := if run = [] then [] else [.elided run]

/-- The pieces of the loop. -/
def cut : List (α × Bool) → (run : List α) → List (Piece α)
  | [], run => pending run
  | (a, true) :: rest, run => pending run ++ .kept a :: cut rest []
  | (a, false) :: rest, run => cut rest (run ++ [a])

theorem pending_shown (run : List α) : (pending run).map (Piece.shown marker) = flush marker run.length := by
  by_cases h : run = []
  · simp [pending, flush, h]
  · simp [pending, flush, h, Piece.shown, List.length_pos_iff]

theorem pending_items (run : List α) : (pending run).flatMap Piece.items = run := by
  by_cases h : run = []
  · simp [pending, h]
  · simp [pending, h, Piece.items]

theorem pending_marks (run : List α) : (pending run).flatMap Piece.marks = run.map fun _ => false := by
  by_cases h : run = []
  · simp [pending, h]
  · simp [pending, h, Piece.marks]

theorem ne_nil_of_mem_pending {r run : List α} (h : Piece.elided r ∈ pending run) : r ≠ [] := by
  by_cases hrun : run = []
  · simp [pending, hrun] at h
  · simp only [pending, hrun, if_false, List.mem_singleton, Piece.elided.injEq] at h
    rw [h]
    exact hrun

theorem collapse_eq (ps : List (α × Bool)) (run : List α) :
    collapse marker ps run.length = (cut ps run).map (Piece.shown marker) := by
  induction ps generalizing run with
  | nil => rw [collapse, cut, pending_shown]
  | cons p rest ih =>
    obtain ⟨a, keep⟩ := p
    cases keep with
    | true =>
      have ih := ih []
      rw [List.length_nil] at ih
      rw [collapse, cut, List.map_append, List.map_cons, pending_shown, ih]
      rfl
    | false =>
      have ih := ih (run ++ [a])
      rw [List.length_append, List.length_singleton] at ih
      rw [collapse, cut, ih]

theorem cut_items (ps : List (α × Bool)) (run : List α) :
    (cut ps run).flatMap Piece.items = run ++ ps.map Prod.fst := by
  induction ps generalizing run with
  | nil => rw [cut, pending_items, List.map_nil, List.append_nil]
  | cons p rest ih =>
    obtain ⟨a, keep⟩ := p
    cases keep with
    | true => rw [cut, List.flatMap_append, List.flatMap_cons, pending_items, ih]; rfl
    | false => rw [cut, ih, List.append_assoc]; rfl

theorem cut_marks (ps : List (α × Bool)) (run : List α) :
    (cut ps run).flatMap Piece.marks = (run.map fun _ => false) ++ ps.map Prod.snd := by
  induction ps generalizing run with
  | nil => rw [cut, pending_marks, List.map_nil, List.append_nil]
  | cons p rest ih =>
    obtain ⟨a, keep⟩ := p
    cases keep with
    | true => rw [cut, List.flatMap_append, List.flatMap_cons, pending_marks, ih]; rfl
    | false => rw [cut, ih, List.map_append, List.append_assoc]; rfl

theorem ne_nil_of_mem_cut {ps : List (α × Bool)} {r run : List α} (h : Piece.elided r ∈ cut ps run) : r ≠ [] := by
  induction ps generalizing run with
  | nil => exact ne_nil_of_mem_pending h
  | cons p rest ih =>
    obtain ⟨a, keep⟩ := p
    cases keep with
    | true =>
      rw [cut, List.mem_append, List.mem_cons] at h
      rcases h with h | h | h
      · exact ne_nil_of_mem_pending h
      · cases h
      · exact ih h
    | false => exact ih h

/-- A run is closed only by a kept item or by the end. -/
theorem cut_isChain (ps : List (α × Bool)) (run : List α) :
    (cut ps run).IsChain fun p q => ¬ (p.isElided ∧ q.isElided) := by
  induction ps generalizing run with
  | nil =>
    rw [cut]
    by_cases h : run = []
    · simp [pending, h]
    · simp [pending, h]
  | cons p rest ih =>
    obtain ⟨a, keep⟩ := p
    cases keep with
    | true =>
      have htail : (Piece.kept a :: cut rest []).IsChain fun p q => ¬ (p.isElided ∧ q.isElided) := by
        rw [List.isChain_cons]
        exact ⟨fun q _ h => Bool.noConfusion h.1, ih []⟩
      rw [cut]
      by_cases h : run = []
      · simpa [pending, h] using htail
      · simp only [pending, h, if_false, List.singleton_append]
        rw [List.isChain_cons_cons]
        exact ⟨fun hboth => Bool.noConfusion hboth.2, htail⟩
    | false => exact ih (run ++ [a])

theorem cuts_cut (h : mask.length = items.length) : Cuts mask items (cut (items.zip mask) []) where
  items_eq := by rw [cut_items, List.nil_append, List.map_fst_zip (by omega)]
  marks_eq := by rw [cut_marks, List.map_nil, List.nil_append, List.map_snd_zip (by omega)]
  nonempty _ := ne_nil_of_mem_cut
  maximal := cut_isChain _ _

/-! ## What is kept is shown, in its order -/

theorem picked_nil_mask (items : List α) : picked [] items = [] := by rw [picked, List.zip_nil_right]; rfl

theorem picked_cons (b : Bool) (a : α) :
    picked (b :: mask) (a :: items) = (if b then [a] else []) ++ picked mask items := by
  cases b <;> rfl

theorem picked_append {mask' : List Bool} {items' : List α} (h : items.length = mask.length) :
    picked (mask ++ mask') (items ++ items') = picked mask items ++ picked mask' items' := by
  rw [picked, List.zip_append h, List.filter_append, List.map_append]
  rfl

theorem picked_false (run : List α) : picked (run.map fun _ => false) run = [] := by
  induction run with
  | nil => rfl
  | cons a run ih => rw [List.map_cons, picked_cons, ih]; rfl

/-- A smaller mask picks fewer items, in the same order. -/
theorem picked_sublist {less more : List Bool} (hlen : less.length = more.length)
    (h : ∀ i : ℕ, less[i]? = some true → more[i]? = some true) : (picked less items).Sublist (picked more items) := by
  induction less generalizing more items with
  | nil => rw [picked_nil_mask]; exact List.nil_sublist _
  | cons b less ih =>
    cases more with
    | nil => cases hlen
    | cons c more =>
      cases items with
      | nil => exact List.nil_sublist _
      | cons a items =>
        have hrest : (picked less items).Sublist (picked more items) :=
          ih (Nat.succ.inj hlen) fun i hi => by simpa using h (i + 1) (by simpa using hi)
        rw [picked_cons, picked_cons]
        refine List.Sublist.append ?_ hrest
        cases b with
        | false => exact List.nil_sublist _
        | true =>
          have hc : c = true := by simpa using h 0 rfl
          rw [hc]

theorem Cuts.picked_sublist {pieces : List (Piece α)} (h : Cuts mask items pieces) :
    (picked mask items).Sublist (pieces.map (Piece.shown marker)) := by
  obtain ⟨rfl, rfl, -, -⟩ := h
  induction pieces with
  | nil => exact List.nil_sublist _
  | cons p pieces ih =>
    cases p with
    | kept a => exact ih.cons_cons a
    | elided run =>
      rw [List.flatMap_cons, List.flatMap_cons, Piece.marks, Piece.items,
        picked_append (by rw [List.length_map]), picked_false]
      exact ih.cons _

/-! ## Marks set at indices -/

/-- `for j := lo; j <= hi; j++ { mask[j] = true }`. -/
def mark (mask : List Bool) (lo hi : ℕ) :
    List Bool := (List.range' lo (hi + 1 - lo)).foldl (fun m j => m.set j true) mask

theorem length_setAll (js : List ℕ) (mask : List Bool) :
    (js.foldl (fun m j => m.set j true) mask).length = mask.length := by
  induction js generalizing mask with
  | nil => rfl
  | cons j js ih => rw [List.foldl_cons, ih, List.length_set]

theorem getElem?_setAll {js : List ℕ} {i : ℕ} (hjs : ∀ j ∈ js, j < mask.length) :
    (js.foldl (fun m j => m.set j true) mask)[i]? = some true ↔ i ∈ js ∨ mask[i]? = some true := by
  induction js generalizing mask with
  | nil => simp
  | cons j js ih =>
    have hj := hjs j List.mem_cons_self
    rw [List.foldl_cons, ih fun k hk => by rw [List.length_set]; exact hjs k (List.mem_cons_of_mem j hk)]
    by_cases hij : i = j
    · subst hij
      simp [hj]
    · rw [List.getElem?_set_ne (Ne.symm hij), List.mem_cons]
      simp only [hij, false_or]

@[simp] theorem length_mark (mask : List Bool) (lo hi : ℕ) : (mark mask lo hi).length = mask.length := length_setAll _ _

theorem getElem?_mark {lo hi i : ℕ} (h : hi < mask.length) :
    (mark mask lo hi)[i]? = some true ↔ lo ≤ i ∧ i ≤ hi ∨ mask[i]? = some true := by
  rw [mark, getElem?_setAll fun j hj => by rw [List.mem_range'_1] at hj; omega, List.mem_range'_1]
  have hrange : lo ≤ i ∧ i < lo + (hi + 1 - lo) ↔ lo ≤ i ∧ i ≤ hi := by omega
  rw [hrange]

end Elision
