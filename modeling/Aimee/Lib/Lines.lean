-- SUMMARY: The lines of a list with separators, and the cuts that fall inside one.
import Mathlib.Data.Nat.Find
import Mathlib.Order.Basic

/-!
# Lines

A line is a maximal run that ends with its separator; the last line of a text may lack it. A cut
is a position between two items, and it falls inside a line when the item before it is no separator.
-/

namespace Lines

variable {α : Type*} {sep : α} {text : List α} {s t e p q : ℕ}

/-- The items `s … t - 1` are one line, its separator included. -/
structure IsLine (sep : α) (text : List α) (s t : ℕ) : Prop where
  lt : s < t
  le : t ≤ text.length
  starts : s = 0 ∨ text[s - 1]? = some sep
  ends : t = text.length ∨ text[t - 1]? = some sep
  clean : ∀ i, s ≤ i → i + 1 < t → text[i]? ≠ some sep

/-- The cut at `e` is neither after a separator nor at an end of the text. -/
def Inside (sep : α) (text : List α) (e : ℕ) : Prop := 0 < e ∧ e < text.length ∧ text[e - 1]? ≠ some sep

/-- The cut at `e` falls inside a line of more than `budget` items. -/
def InsideLong (sep : α) (text : List α) (budget e : ℕ) : Prop :=
  ∃ s t, IsLine sep text s t ∧ s < e ∧ e < t ∧ budget < t - s

/-! ## The line around a cut -/

theorem IsLine.start_le (h : IsLine sep text s t) (hse : s < e)
    (hclean : ∀ i, p ≤ i → i < e → text[i]? ≠ some sep) : s ≤ p := by
  by_contra hps
  rcases h.starts with h0 | hsep
  · omega
  · exact hclean (s - 1) (by omega) (by omega) hsep

theorem IsLine.le_start (h : IsLine sep text s t) (hp : 0 < p) (hpe : p ≤ e) (het : e < t)
    (hsep : text[p - 1]? = some sep) : p ≤ s := by
  by_contra hsp
  exact h.clean (p - 1) (by omega) (by omega) hsep

theorem IsLine.stop_le (h : IsLine sep text s t) (hsq : s ≤ q) (hsep : text[q]? = some sep) : t ≤ q + 1 := by
  by_contra hqt
  exact h.clean q hsq (by omega) hsep

theorem Inside.exists_isLine (h : Inside sep text e) : ∃ s t, IsLine sep text s t ∧ s < e ∧ e < t := by
  classical
  obtain ⟨hpos, hlen, hsep⟩ := h
  let Start : ℕ → Prop := fun i => i = 0 ∨ text[i - 1]? = some sep
  let Stop : ℕ → Prop := fun i => e < i ∧ (i = text.length ∨ text[i - 1]? = some sep)
  have hstop : ∃ i, Stop i := ⟨text.length, hlen, .inl rfl⟩
  have hstart : Start (Nat.findGreatest Start (e - 1)) := Nat.findGreatest_spec (Nat.zero_le _) (.inl rfl)
  have hbound : Nat.findGreatest Start (e - 1) ≤ e - 1 := Nat.findGreatest_le _
  obtain ⟨hlt, hend⟩ := Nat.find_spec hstop
  have hle : Nat.find hstop ≤ text.length := Nat.find_min' hstop ⟨hlen, .inl rfl⟩
  refine ⟨_, Nat.find hstop, ⟨by omega, hle, hstart, hend, fun i hi hit hnl => ?_⟩, by omega, hlt⟩
  rcases Nat.lt_trichotomy (i + 1) e with hlow | heq | hhigh
  · have := Nat.le_findGreatest (P := Start) (n := e - 1) (m := i + 1) (by omega) (.inr hnl)
    omega
  · exact hsep (by rw [← heq]; exact hnl)
  · exact Nat.find_min hstop hit ⟨hhigh, .inr hnl⟩

/-- A cut with no separator among the `budget` items before it falls inside a longer line. -/
theorem Inside.insideLong (h : Inside sep text e)
    (hclean : ∀ i, p ≤ i → i < e → text[i]? ≠ some sep) : InsideLong sep text (e - p) e := by
  obtain ⟨s, t, hline, hse, het⟩ := h.exists_isLine
  have hsp := hline.start_le hse hclean
  exact ⟨s, t, hline, hse, het, by omega⟩

theorem InsideLong.inside {budget : ℕ} (h : InsideLong sep text budget e) : Inside sep text e := by
  obtain ⟨s, t, hline, hse, het, -⟩ := h
  have hle := hline.le
  refine ⟨by omega, by omega, fun hsep => ?_⟩
  exact hline.clean (e - 1) (by omega) (by omega) hsep

/-! ## Splitting at the separator -/

theorem notMem_of_mem_splitOn [DecidableEq α] {line : List α} (h : line ∈ text.splitOn sep) : sep ∉ line := by
  induction text generalizing line with
  | nil =>
    rw [List.mem_singleton.mp h]
    exact List.not_mem_nil
  | cons c text ih =>
    rw [List.splitOn_cons_eq_if_modifyHead] at h
    by_cases hc : c = sep
    · rw [if_pos (beq_iff_eq.mpr hc), List.mem_cons] at h
      rcases h with rfl | h
      · exact List.not_mem_nil
      · exact ih h
    · rw [if_neg fun hbeq => hc (beq_iff_eq.mp hbeq)] at h
      cases hlines : text.splitOn sep with
      | nil => exact absurd hlines (List.splitOn_ne_nil sep text)
      | cons l rest =>
        rw [hlines, List.modifyHead_cons, List.mem_cons] at h
        rcases h with rfl | h
        · rw [List.mem_cons, not_or]
          exact ⟨Ne.symm hc, ih (hlines ▸ List.mem_cons_self)⟩
        · exact ih (hlines ▸ List.mem_cons_of_mem l h)

end Lines
