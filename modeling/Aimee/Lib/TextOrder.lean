-- SUMMARY: The order of texts by their code points, and sorting by a text key: what is sorted depends only on the elements.
import Mathlib.Data.List.Perm.Basic
import Mathlib.Data.String.Basic

/-!
# The order of texts

Texts in the order of their code points, which is the order of their bytes in UTF-8. A list whose
keys are distinct has one sorted form, whatever the order it comes in.
-/

namespace TextOrder

/-- The order of words, letter by letter. -/
def wordLe : List ℕ → List ℕ → Bool
  | [], _ => true
  | _ :: _, [] => false
  | a :: as, b :: bs => decide (a < b) || (decide (a = b) && wordLe as bs)

def codes (s : String) : List ℕ := s.toList.map Char.toNat

/-- `a <= b` on strings. -/
def le (a b : String) : Bool := wordLe (codes a) (codes b)

theorem wordLe_total : ∀ as bs : List ℕ, (wordLe as bs || wordLe bs as) = true
  | [], _ => by simp [wordLe]
  | _ :: _, [] => by simp [wordLe]
  | a :: as, b :: bs => by
    have ih := wordLe_total as bs
    rcases Nat.lt_trichotomy a b with hlt | rfl | hlt
    · simp [wordLe, hlt]
    · simpa [wordLe] using ih
    · simp [wordLe, hlt]

theorem wordLe_trans : ∀ as bs cs : List ℕ, wordLe as bs = true → wordLe bs cs = true → wordLe as cs = true
  | [], _, _, _, _ => rfl
  | _ :: _, [], _, h, _ => by simp [wordLe] at h
  | _ :: _, _ :: _, [], _, h => by simp [wordLe] at h
  | a :: as, b :: bs, c :: cs, hab, hbc => by
    simp only [wordLe, Bool.or_eq_true, Bool.and_eq_true, decide_eq_true_eq] at hab hbc ⊢
    rcases hab with hab | ⟨rfl, hab⟩
    · rcases hbc with hbc | ⟨rfl, -⟩
      · exact .inl (hab.trans hbc)
      · exact .inl hab
    · rcases hbc with hbc | ⟨rfl, hbc⟩
      · exact .inl hbc
      · exact .inr ⟨rfl, wordLe_trans as bs cs hab hbc⟩

theorem wordLe_antisymm : ∀ as bs : List ℕ, wordLe as bs = true → wordLe bs as = true → as = bs
  | [], [], _, _ => rfl
  | [], _ :: _, _, h => by simp [wordLe] at h
  | _ :: _, [], h, _ => by simp [wordLe] at h
  | a :: as, b :: bs, hab, hba => by
    simp only [wordLe, Bool.or_eq_true, Bool.and_eq_true, decide_eq_true_eq] at hab hba
    rcases hab with hab | ⟨rfl, hab⟩
    · rcases hba with hba | ⟨rfl, -⟩ <;> omega
    · rcases hba with hba | ⟨-, hba⟩
      · omega
      · rw [wordLe_antisymm as bs hab hba]

theorem codes_injective : Function.Injective codes := by
  intro a b h
  exact String.toList_injective (List.map_injective_iff.mpr (fun c d hcd => Char.toNat_inj.mp hcd) h)

theorem le_total (a b : String) : (le a b || le b a) = true := wordLe_total _ _

theorem le_trans {a b c : String} (hab : le a b = true) (hbc : le b c = true) :
    le a c = true := wordLe_trans _ _ _ hab hbc

theorem le_antisymm {a b : String} (hab : le a b = true) (hba : le b a = true) : a = b :=
  codes_injective (wordLe_antisymm _ _ hab hba)

/-! ## Sorting by a key -/

variable {α : Type*} {key : α → String} {as bs : List α}

/-- `sort.Slice` by a text key; keys are distinct where it is used. -/
def sortBy (key : α → String) (as : List α) : List α := as.mergeSort fun a b => le (key a) (key b)

/-- `sort.Strings`. -/
def sortStrings (texts : List String) : List String := sortBy id texts

theorem sortBy_perm (key : α → String) (as : List α) : (sortBy key as).Perm as := List.mergeSort_perm _ _

theorem mem_sortBy {a : α} : a ∈ sortBy key as ↔ a ∈ as := (sortBy_perm key as).mem_iff

theorem sortBy_pairwise (key : α → String) (as : List α) :
    (sortBy key as).Pairwise fun a b => le (key a) (key b) = true := by
  apply List.pairwise_mergeSort
  · exact fun a b c => le_trans
  · exact fun a b => le_total (key a) (key b)

/-- Two orders of the same elements have one sorted form. -/
theorem sortBy_eq_of_perm (h : as.Perm bs) (hkey : ∀ a ∈ as, ∀ b ∈ as, key a = key b → a = b) :
    sortBy key as = sortBy key bs := by
  refine List.Perm.eq_of_pairwise (fun a b ha hb hab hba => ?_) (sortBy_pairwise key as) (sortBy_pairwise key bs) ?_
  · exact hkey a (mem_sortBy.mp ha) b (h.mem_iff.mpr (mem_sortBy.mp hb)) (le_antisymm hab hba)
  · exact (sortBy_perm key as).trans (h.trans (sortBy_perm key bs).symm)

theorem sortStrings_eq_of_perm {as bs : List String} (h : as.Perm bs) : sortStrings as = sortStrings bs :=
  sortBy_eq_of_perm h fun _ _ _ _ hab => hab

end TextOrder
