-- SUMMARY: Programs that cut texts at offsets: slices that may be out of range, loops with bounded rounds, and the rules by which they return.
import Mathlib.Data.List.Infix

/-!
# Slices

A program cuts texts at offsets it has computed, and faults where a slice or an index is out of
range. A loop is given a number of rounds, and faults when they do not suffice. `Returns` says of a
program that it does neither, and what it gives.
-/

namespace Slices

variable {α β σ ρ : Type}

inductive Fault where
  | outOfRange
  | tooManyRounds
  deriving DecidableEq

abbrev Run (α : Type) := Except Fault α

/-! ## Programs that return -/

/-- The program returns, and what it returns is as said. -/
def Returns (x : Run α) (P : α → Prop) : Prop := ∃ a, x = .ok a ∧ P a

variable {P : α → Prop} {Q : β → Prop} {x : Run α} {f : α → Run β}

theorem Returns.ok {a : α} (h : P a) : Returns (.ok a) P := ⟨a, rfl, h⟩

theorem Returns.mono {P' : α → Prop} (h : Returns x P) (hP : ∀ a, P a → P' a) : Returns x P' := by
  obtain ⟨a, ha, hPa⟩ := h
  exact ⟨a, ha, hP a hPa⟩

theorem Returns.bind (hx : Returns x P) (hf : ∀ a, P a → Returns (f a) Q) : Returns (x >>= f) Q := by
  obtain ⟨a, rfl, hPa⟩ := hx
  exact hf a hPa

theorem Returns.ite {c : Prop} [Decidable c] {y : Run α} (hx : c → Returns x P) (hy : ¬c → Returns y P) :
    Returns (if c then x else y) P := by
  by_cases h : c
  · rw [if_pos h]
    exact hx h
  · rw [if_neg h]
    exact hy h

/-! ## Slices and indices -/

/-- `s[lo:hi]`. -/
def slice (s : List α) (lo hi : ℕ) : Run (List α) :=
  if lo ≤ hi ∧ hi ≤ s.length then .ok ((s.take hi).drop lo) else .error .outOfRange

/-- `s[lo:]`. -/
def sliceFrom (s : List α) (lo : ℕ) : Run (List α) := slice s lo s.length

/-- `s[i]`. -/
def item (s : List α) (i : ℕ) : Run α :=
  match s[i]? with
  | some a => .ok a
  | none => .error .outOfRange

variable {s t needle : List α} {lo hi i : ℕ}

/-- The items of `t` are those of `s` from `lo` to before `hi`. -/
structure IsSlice (s : List α) (lo hi : ℕ) (t : List α) : Prop where
  le : lo ≤ hi
  bound : hi ≤ s.length
  eq : t = (s.take hi).drop lo

theorem IsSlice.length (h : IsSlice s lo hi t) : t.length = hi - lo := by
  rw [h.eq, List.length_drop, List.length_take, Nat.min_eq_left h.bound]

theorem IsSlice.infix (h : IsSlice s lo hi t) : t <:+: s := by
  rw [h.eq]
  exact (List.drop_suffix _ _).isInfix.trans (List.take_prefix _ _).isInfix

theorem IsSlice.getElem? (h : IsSlice s lo hi t) (hi' : i < hi - lo) : t[i]? = s[lo + i]? := by
  rw [h.eq, List.getElem?_drop, List.getElem?_take, if_pos (by omega)]

theorem returns_slice (hlo : lo ≤ hi) (hhi : hi ≤ s.length) : Returns (slice s lo hi) (IsSlice s lo hi) := by
  rw [slice, if_pos ⟨hlo, hhi⟩]
  exact .ok ⟨hlo, hhi, rfl⟩

theorem returns_sliceFrom (h : lo ≤ s.length) : Returns (sliceFrom s lo) (IsSlice s lo s.length) :=
  returns_slice h (Nat.le_refl _)

theorem returns_item (h : i < s.length) : Returns (item s i) fun a => s[i]? = some a := by
  rw [item, List.getElem?_eq_getElem h]
  exact .ok rfl

/-! ## Searches -/

section

variable [DecidableEq α] {c : α}

def index (s needle : List α) : Option ℕ := s.tails.findIdx? needle.isPrefixOf

def contains (s needle : List α) : Bool := (index s needle).isSome

def indexByte (s : List α) (c : α) : Option ℕ := s.findIdx? (· = c)

theorem prefix_of_index (h : index s needle = some i) : needle <+: s.drop i := by
  obtain ⟨hlt, hpre, -⟩ := List.findIdx?_eq_some_iff_getElem.mp h
  rw [List.getElem_tails] at hpre
  exact List.isPrefixOf_iff_prefix.mp hpre

/-- What is found lies within the text. -/
theorem le_of_index (hne : needle ≠ []) (h : index s needle = some i) : i + needle.length ≤ s.length := by
  have hle := (prefix_of_index h).length_le
  have hpos := List.length_pos_iff.mpr hne
  rw [List.length_drop] at hle
  omega

theorem infix_of_index (h : index s needle = some i) : needle <:+: s :=
  (prefix_of_index h).isInfix.trans (List.drop_suffix i s).isInfix

/-- The items of the needle stand where it was found. -/
theorem getElem?_of_index {j : ℕ} (h : index s needle = some i) (hj : j < needle.length) :
    s[i + j]? = needle[j]? := by
  obtain ⟨rest, hrest⟩ := prefix_of_index h
  rw [← List.getElem?_drop, ← hrest, List.getElem?_append_left hj]

theorem contains_iff : contains s needle = true ↔ needle <:+: s := by
  constructor
  · intro h
    obtain ⟨i, hi⟩ := Option.isSome_iff_exists.mp h
    exact infix_of_index hi
  · rintro ⟨before, behind, rfl⟩
    rw [contains, index, List.findIdx?_isSome, List.any_eq_true]
    refine ⟨needle ++ behind, ?_, List.isPrefixOf_iff_prefix.mpr (List.prefix_append _ _)⟩
    rw [List.mem_tails]
    exact ⟨before, by rw [List.append_assoc]⟩

theorem indexByte_eq_some (h : indexByte s c = some i) : i < s.length ∧ s[i]? = some c := by
  obtain ⟨hlt, hc, -⟩ := List.findIdx?_eq_some_iff_getElem.mp h
  refine ⟨hlt, ?_⟩
  rw [List.getElem?_eq_getElem hlt, of_decide_eq_true hc]

end

/-- `for i < len(s) && p(s[i]) { i++ }`. -/
def advance (p : α → Bool) (s : List α) (i : ℕ) : ℕ := i + ((s.drop i).takeWhile p).length

theorem le_advance (p : α → Bool) (s : List α) (i : ℕ) : i ≤ advance p s i := Nat.le_add_right _ _

theorem advance_le {p : α → Bool} (h : i ≤ s.length) : advance p s i ≤ s.length := by
  have hle := (List.takeWhile_prefix (l := s.drop i) p).length_le
  rw [List.length_drop] at hle
  rw [advance]
  omega

/-! ## Loops -/

/-- A loop over a state, whose body goes on with another state or leaves with a result. -/
def loop (body : σ → Run (σ ⊕ ρ)) : (rounds : ℕ) → σ → Run ρ
  | 0, _ => .error .tooManyRounds
  | rounds + 1, s => do
      match ← body s with
      | .inl next => loop body rounds next
      | .inr result => .ok result

variable {body : σ → Run (σ ⊕ ρ)} {I : σ → Prop} {R : ρ → Prop} {m : σ → ℕ}

/-- Each round keeps the invariant and lowers the measure, or leaves with what is wanted. -/
def Round (I : σ → Prop) (m : σ → ℕ) (R : ρ → Prop) (s : σ) : σ ⊕ ρ → Prop
  | .inl next => I next ∧ m next < m s
  | .inr result => R result

/-- A loop whose rounds lower a measure returns. -/
theorem returns_loop (hbody : ∀ s, I s → Returns (body s) (Round I m R s)) :
    ∀ (rounds : ℕ) (s : σ), I s → m s < rounds → Returns (loop body rounds s) R
  | 0, _, _, h => absurd h (Nat.not_lt_zero _)
  | rounds + 1, s, hI, h => by
    rw [loop]
    refine (hbody s hI).bind fun step hstep => ?_
    cases step with
    | inl next => exact returns_loop hbody rounds next hstep.1 (Nat.lt_of_lt_of_le hstep.2 (Nat.lt_succ_iff.mp h))
    | inr result => exact .ok hstep

end Slices
