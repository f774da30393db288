-- SUMMARY: Choices made one after the other, each tested against those taken before it.
import Mathlib.Data.List.Induction

/-!
# Greedy choices

A list is read once; an element is taken when a test of it against the elements taken before it
passes. Whether no taken element is in conflict with an earlier one is then a question about that test
alone.
-/

namespace Greedy

variable {α : Type*} (test : List α → α → Bool)

def take (seen : List α) (a : α) : List α := if test seen a then seen ++ [a] else seen

/-- The elements taken, in their order. -/
def taken (l : List α) : List α := l.foldl (take test) []

theorem taken_snoc (l : List α) (a : α) : taken test (l ++ [a]) = take test (taken test l) a := by
  simp [taken]

/-- The element at that place is taken. -/
def TakenAt (l : List α) (i : ℕ) (a : α) : Prop :=
  ∃ pre post, l = pre ++ a :: post ∧ pre.length = i ∧ test (taken test pre) a

variable {test}

variable {l : List α} {i : ℕ} {a : α}

theorem TakenAt.append (h : TakenAt test l i a) (more : List α) : TakenAt test (l ++ more) i a := by
  obtain ⟨pre, post, rfl, hi, htest⟩ := h
  exact ⟨pre, post ++ more, by simp, hi, htest⟩

/-- An element of the front is taken there as it is taken in the whole. -/
theorem TakenAt.of_append {l more : List α} (h : TakenAt test (l ++ more) i a) (hi : i < l.length) :
    TakenAt test l i a := by
  obtain ⟨pre, post, hsplit, rfl, htest⟩ := h
  rcases List.append_eq_append_iff.mp hsplit with ⟨l', rfl, -⟩ | ⟨post', rfl, hpost⟩
  · rw [List.length_append] at hi
    omega
  · cases post' with
    | nil => simp at hi
    | cons b post' =>
      obtain ⟨rfl, -⟩ := List.cons.inj hpost
      exact ⟨pre, post', rfl, rfl, htest⟩

theorem TakenAt.lt_length (h : TakenAt test l i a) : i < l.length := by
  obtain ⟨pre, post, rfl, rfl, -⟩ := h
  simp

theorem takenAt_snoc {a b : α} :
    TakenAt test (l ++ [b]) i a ↔ TakenAt test l i a ∨ i = l.length ∧ a = b ∧ test (taken test l) b := by
  constructor
  · intro h
    by_cases hi : i < l.length
    · exact .inl (h.of_append hi)
    · have hlt := h.lt_length
      obtain ⟨pre, post, hsplit, rfl, htest⟩ := h
      have hpre : l.length = pre.length := by
        simp only [List.length_append, List.length_singleton] at hlt
        omega
      obtain ⟨rfl, heq⟩ := List.append_inj hsplit hpre
      obtain ⟨rfl, -⟩ := List.cons.inj heq
      exact .inr ⟨rfl, rfl, htest⟩
  · rintro (h | ⟨rfl, rfl, htest⟩)
    · exact h.append [b]
    · exact ⟨l, [], rfl, rfl, htest⟩

theorem mem_taken : a ∈ taken test l ↔ ∃ i, TakenAt test l i a := by
  induction l using List.reverseRecOn with
  | nil =>
    constructor
    · intro h
      cases h
    · rintro ⟨i, h⟩
      exact absurd h.lt_length (Nat.not_lt_zero i)
  | append_singleton l b ih =>
    simp only [taken_snoc, take, takenAt_snoc, exists_or, ← ih]
    split
    · rename_i htest
      simp [htest]
    · rename_i htest
      simp [htest]

/-- The earlier elements taken are those taken before the place. -/
theorem mem_taken_of_lt {pre post : List α} {a b : α} (h : TakenAt test (pre ++ b :: post) i a) (hi : i < pre.length) :
    a ∈ taken test pre :=
  mem_taken.mpr ⟨i, h.of_append hi⟩

/-- No taken element is in conflict with one taken before it, exactly when the test passes none that is. -/
theorem no_conflict_iff {conflict : α → α → Prop} :
    (∀ i j a b, TakenAt test l i a → TakenAt test l j b → i < j → ¬ conflict a b) ↔
      ∀ pre b post, l = pre ++ b :: post → test (taken test pre) b → ∀ a ∈ taken test pre, ¬ conflict a b := by
  constructor
  · rintro h pre b post rfl htest a ha
    obtain ⟨i, hi⟩ := mem_taken.mp ha
    exact h i pre.length a b (hi.append (b :: post)) ⟨pre, post, rfl, rfl, htest⟩ hi.lt_length
  · rintro h i j a b ha ⟨pre, post, rfl, rfl, htest⟩ hij
    exact h pre b post rfl htest a (mem_taken_of_lt ha hij)

end Greedy
