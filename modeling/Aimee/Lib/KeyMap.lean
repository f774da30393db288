-- SUMMARY: Finite maps as tables of key and value: lookups after each write, and totals of a weight over the values.
import Aimee.Lib.Table

/-!
# Finite maps

A map of a program, as the table of its keys with their values. The order of the rows is not
visible to a lookup. `total` adds up a weight over the values: a program that keeps such a total
in a counter of its own is checked against it.
-/

abbrev KeyMap (κ α : Type*) := Table (κ × α) Prod.fst

namespace KeyMap

variable {κ α : Type*} [DecidableEq κ]

def empty : KeyMap κ α := Table.empty

def get? (m : KeyMap κ α) (k : κ) : Option α := (m.find? k).map Prod.snd

def put (m : KeyMap κ α) (k : κ) (a : α) : KeyMap κ α := m.upsert (k, a)

def erase (m : KeyMap κ α) (k : κ) : KeyMap κ α := m.delete fun r => r.1 = k

/-- A change of the value under a key, without effect when the key is absent. -/
def alter (m : KeyMap κ α) (k : κ) (f : α → α) : KeyMap κ α :=
  m.update (fun r => r.1 = k) (fun r => (r.1, f r.2)) fun _ => rfl

/-- The rows with a property of their value. -/
def keep (m : KeyMap κ α) (p : α → Bool) : KeyMap κ α := m.delete fun r => !p r.2

def size (m : KeyMap κ α) : ℕ := m.rows.length

/-- The sum of a weight over the rows. -/
def sumBy (m : KeyMap κ α) (f : κ × α → ℤ) : ℤ := (m.rows.map f).sum

def total (m : KeyMap κ α) (f : α → ℤ) : ℤ := m.sumBy fun r => f r.2

/-! ## Lookups -/

@[simp]
theorem get?_empty (k : κ) : (empty : KeyMap κ α).get? k = none := rfl

variable {m : KeyMap κ α} {k : κ} {a : α}

theorem get?_eq_some_iff : m.get? k = some a ↔ (k, a) ∈ m.rows := by
  constructor
  · intro h
    obtain ⟨⟨k', a'⟩, hfind, rfl⟩ := Option.map_eq_some_iff.mp h
    obtain ⟨hmem, hkey⟩ := Table.find?_eq_some_iff.mp hfind
    cases hkey
    exact hmem
  · intro h
    exact Option.map_eq_some_iff.mpr ⟨(k, a), Table.find?_of_mem h, rfl⟩

theorem get?_put (m : KeyMap κ α) (k : κ) (a : α) (k' : κ) :
    (m.put k a).get? k' = if k = k' then some a else m.get? k' := by
  rw [get?, put, Table.find?_upsert]
  split <;> rfl

theorem get?_erase (m : KeyMap κ α) (k k' : κ) :
    (m.erase k).get? k' = if k = k' then none else m.get? k' := by
  rw [get?, erase, Table.find?_delete, get?]
  cases hfind : m.find? k' with
  | none => simp
  | some r =>
    have hkey : r.1 = k' := Table.key_of_find? hfind
    by_cases hk : k = k'
    · simp [hk, hkey, Option.filter]
    · simp [hk, hkey, Option.filter, Ne.symm hk]

theorem get?_alter (m : KeyMap κ α) (k : κ) (f : α → α) (k' : κ) :
    (m.alter k f).get? k' = (m.get? k').map fun a => if k = k' then f a else a := by
  rw [get?, alter, Table.find?_update, get?]
  cases hfind : m.find? k' with
  | none => rfl
  | some r =>
    have hkey : r.1 = k' := Table.key_of_find? hfind
    by_cases hk : k = k'
    · simp [hk, hkey]
    · simp [hk, hkey, Ne.symm hk]

theorem get?_keep (m : KeyMap κ α) (p : α → Bool) (k : κ) : (m.keep p).get? k = (m.get? k).filter p := by
  rw [get?, keep, Table.find?_delete, get?]
  cases m.find? k with
  | none => rfl
  | some r => cases hp : p r.2 <;> simp [Option.filter, hp]

theorem get?_put_self (m : KeyMap κ α) (k : κ) (a : α) : (m.put k a).get? k = some a := by
  rw [get?_put, if_pos rfl]

/-- A change under an absent key has no effect. -/
theorem alter_of_none (f : α → α) (h : m.get? k = none) : m.alter k f = m := by
  refine Table.ext ?_
  conv_rhs => rw [← List.map_id m.rows]
  refine List.map_congr_left fun r hr => if_neg ?_
  rintro hk
  rw [decide_eq_true_eq] at hk
  subst hk
  rw [get?_eq_some_iff.mpr (show (r.1, r.2) ∈ m.rows from hr)] at h
  cases h

omit [DecidableEq κ] in
theorem keep_eq_self {p : α → Bool} (h : ∀ r ∈ m.rows, p r.2 = true) : m.keep p = m := by
  refine Table.ext (List.filter_eq_self.mpr fun r hr => ?_)
  simp [h r hr]

omit [DecidableEq κ] in
theorem keep_eq_empty {p : α → Bool} (h : ∀ r ∈ m.rows, p r.2 = false) : m.keep p = empty := by
  refine Table.ext (List.filter_eq_nil_iff.mpr fun r hr => ?_)
  simp [h r hr]

/-! ## Sizes -/

theorem find?_of_get?_none (h : m.get? k = none) : m.find? k = none :=
  Option.map_eq_none_iff.mp h

theorem size_put_of_none (a : α) (h : m.get? k = none) :
    (m.put k a).size = m.size + 1 := by
  rw [size, put, Table.rows_upsert_of_find?_none (a := (k, a)) (find?_of_get?_none h), List.length_append]
  rfl

omit [DecidableEq κ] in
theorem size_keep_le (m : KeyMap κ α) (p : α → Bool) : (m.keep p).size ≤ m.size :=
  List.length_filter_le _ _

theorem size_erase_le (m : KeyMap κ α) (k : κ) : (m.erase k).size ≤ m.size :=
  List.length_filter_le _ _

@[simp]
theorem size_alter (m : KeyMap κ α) (k : κ) (f : α → α) : (m.alter k f).size = m.size :=
  List.length_map _

theorem size_erase_lt (h : m.get? k = some a) :
    (m.erase k).size < m.size := by
  refine List.length_filter_lt_length_iff_exists.mpr ⟨(k, a), get?_eq_some_iff.mp h, ?_⟩
  simp

/-! ## Totals -/

theorem total_put_of_none (a : α) (f : α → ℤ) (h : m.get? k = none) :
    (m.put k a).total f = m.total f + f a := by
  rw [total, sumBy, put, Table.rows_upsert_of_find?_none (a := (k, a)) (find?_of_get?_none h), List.map_append,
    List.sum_append, List.map_singleton, List.sum_singleton]
  rfl

theorem sum_filter_add_sum_filter_not {β : Type*} (l : List β) (p : β → Bool) (f : β → ℤ) :
    ((l.filter p).map f).sum + ((l.filter fun b => !p b).map f).sum = (l.map f).sum := by
  induction l with
  | nil => rfl
  | cons b l ih =>
    cases hp : p b <;> simp only [List.filter_cons, hp, if_true, Bool.not_true, Bool.not_false,
      Bool.false_eq_true, if_false, List.map_cons, List.sum_cons] <;> omega

omit [DecidableEq κ] in
theorem total_keep (m : KeyMap κ α) (p : α → Bool) (f : α → ℤ) :
    (m.keep p).total f = m.total f - (m.keep fun a => !p a).total f := by
  have h := sum_filter_add_sum_filter_not m.rows (fun r => p r.2) fun r => f r.2
  simp only [total, sumBy, keep, Table.delete, Bool.not_not] at h ⊢
  omega

/-- The row of a key, and the rows of the other keys around it. -/
theorem split_of_get? (h : m.get? k = some a) :
    ∃ l₁ l₂, m.rows = l₁ ++ (k, a) :: l₂ ∧ (∀ r ∈ l₁, r.1 ≠ k) ∧ ∀ r ∈ l₂, r.1 ≠ k := by
  obtain ⟨l₁, l₂, hrows⟩ := List.append_of_mem (get?_eq_some_iff.mp h)
  have hnodup := m.nodup
  rw [hrows, List.map_append, List.map_cons, List.nodup_append, List.nodup_cons] at hnodup
  refine ⟨l₁, l₂, hrows, fun r hr hk => ?_, fun r hr hk => ?_⟩
  · exact hnodup.2.2 r.1 (List.mem_map_of_mem hr) k List.mem_cons_self hk
  · exact hnodup.2.1.1 (List.mem_map.mpr ⟨r, hr, hk⟩)

theorem rows_erase {l₁ l₂ : List (κ × α)} (hrows : m.rows = l₁ ++ (k, a) :: l₂)
    (hleft : ∀ r ∈ l₁, r.1 ≠ k) (hright : ∀ r ∈ l₂, r.1 ≠ k) : (m.erase k).rows = l₁ ++ l₂ := by
  change m.rows.filter _ = _
  rw [hrows, List.filter_append, List.filter_cons, List.filter_eq_self.mpr, List.filter_eq_self.mpr]
  · simp
  · simpa using hright
  · simpa using hleft

theorem size_erase (h : m.get? k = some a) : (m.erase k).size + 1 = m.size := by
  obtain ⟨l₁, l₂, hrows, hleft, hright⟩ := split_of_get? h
  rw [size, size, rows_erase hrows hleft hright, hrows, List.length_append, List.length_append, List.length_cons]
  omega

theorem sumBy_erase (f : κ × α → ℤ) (h : m.get? k = some a) :
    (m.erase k).sumBy f = m.sumBy f - f (k, a) := by
  obtain ⟨l₁, l₂, hrows, hleft, hright⟩ := split_of_get? h
  simp only [sumBy, rows_erase hrows hleft hright, hrows, List.map_append, List.map_cons, List.sum_append,
    List.sum_cons]
  omega

theorem total_erase (f : α → ℤ) (h : m.get? k = some a) :
    (m.erase k).total f = m.total f - f a :=
  sumBy_erase _ h

/-- A change that keeps the weight of every value keeps the total. -/
theorem total_alter_of_eq (m : KeyMap κ α) (k : κ) {g : α → α} {f : α → ℤ} (h : ∀ a, f (g a) = f a) :
    (m.alter k g).total f = m.total f := by
  rw [total, sumBy, alter, Table.update, List.map_map, total]
  refine congrArg List.sum (List.map_congr_left fun r _ => ?_)
  by_cases hk : r.1 = k <;> simp [hk, h]

/-- The total follows the weight of the one value that changed. -/
theorem total_alter (g : α → α) (f : α → ℤ) (h : m.get? k = some a) :
    (m.alter k g).total f = m.total f - f a + f (g a) := by
  obtain ⟨l₁, l₂, hrows, hleft, hright⟩ := split_of_get? h
  have hother : ∀ l : List (κ × α), (∀ r ∈ l, r.1 ≠ k) →
      (l.map fun r => if r.1 = k then (r.1, g r.2) else r) = l := by
    intro l hl
    exact (List.map_congr_left fun r hr => if_neg (hl r hr)).trans (List.map_id l)
  have hrows' : (m.alter k g).rows = l₁ ++ (k, g a) :: l₂ := by
    change m.rows.map _ = _
    simp only [hrows, List.map_append, List.map_cons, decide_eq_true_eq]
    rw [hother l₁ hleft, hother l₂ hright, if_pos trivial]
  simp only [total, sumBy, hrows', hrows, List.map_append, List.map_cons, List.sum_append, List.sum_cons]
  omega

omit [DecidableEq κ] in
theorem sumBy_nonneg (m : KeyMap κ α) {f : κ × α → ℤ} (h : ∀ r ∈ m.rows, 0 ≤ f r) : 0 ≤ m.sumBy f := by
  rw [sumBy]
  generalize m.rows = rows at h
  induction rows with
  | nil => exact le_rfl
  | cons r rows ih =>
    exact add_nonneg (h r List.mem_cons_self) (ih fun r' hr => h r' (List.mem_cons_of_mem _ hr))

omit [DecidableEq κ] in
theorem total_nonneg (m : KeyMap κ α) {f : α → ℤ} (h : ∀ a, 0 ≤ f a) : 0 ≤ m.total f :=
  m.sumBy_nonneg fun r _ => h r.2

end KeyMap
