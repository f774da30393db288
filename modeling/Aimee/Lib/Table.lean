-- SUMMARY: Tables with a unique key: guarded updates, checked inserts, deletes and upserts, and what a lookup sees after each.
import Mathlib.Data.List.Nodup
import Mathlib.Algebra.BigOperators.Group.List.Basic
import Mathlib.Algebra.Order.Monoid.Defs
import Mathlib.Tactic.Abel

/-!
# Tables with a unique key

The rows of a table in the order of their insertion, no two with the same key. The
statements of a database on such a table are an update of the rows a guard matches, an
insert that fails on a key that is taken, a delete, and an insert that replaces the row
with the same key. Each is described by what a lookup of one key sees afterwards.
-/

/-- Rows with a unique key, oldest first. -/
structure Table {κ : Type*} (α : Type*) (key : α → κ) where
  rows : List α
  nodup : (rows.map key).Nodup

namespace Table

variable {α κ : Type*} {key : α → κ}

@[ext]
theorem ext {t u : Table α key} (h : t.rows = u.rows) : t = u := by
  cases t
  cases u
  cases h
  rfl

def empty : Table α key where
  rows := []
  nodup := List.nodup_nil

theorem eq_of_key (t : Table α key) {a b : α} (ha : a ∈ t.rows) (hb : b ∈ t.rows)
    (h : key a = key b) : a = b :=
  List.inj_on_of_nodup_map t.nodup ha hb h

/-! ## Lookups -/

section Lookup

variable [DecidableEq κ]

/-- The row with a key. -/
def find? (t : Table α key) (k : κ) : Option α := t.rows.find? fun a => key a = k

variable {t : Table α key} {k : κ} {a : α}

theorem key_of_find? (h : t.find? k = some a) : key a = k := by
  simpa using List.find?_some h

theorem mem_of_find? (h : t.find? k = some a) : a ∈ t.rows :=
  List.mem_of_find?_eq_some h

theorem find?_of_mem (h : a ∈ t.rows) : t.find? (key a) = some a := by
  cases hfind : t.find? (key a) with
  | none => exact absurd (List.find?_eq_none.mp hfind a h) (by simp)
  | some b => rw [t.eq_of_key (mem_of_find? hfind) h (key_of_find? hfind)]

theorem find?_eq_some_iff :
    t.find? k = some a ↔ a ∈ t.rows ∧ key a = k := by
  refine ⟨fun h => ⟨mem_of_find? h, key_of_find? h⟩, ?_⟩
  rintro ⟨hmem, rfl⟩
  exact find?_of_mem hmem

theorem find?_eq_none_iff :
    t.find? k = none ↔ ∀ a ∈ t.rows, key a ≠ k := by
  simp [find?, List.find?_eq_none]

end Lookup

/-! ## Guarded updates -/

/-- `UPDATE … SET f WHERE p`, for a change that keeps the key. -/
def update (t : Table α key) (p : α → Bool) (f : α → α) (hf : ∀ a, key (f a) = key a) :
    Table α key where
  rows := t.rows.map fun a => if p a then f a else a
  nodup := by
    have hkeys : (t.rows.map fun a => if p a then f a else a).map key = t.rows.map key := by
      rw [List.map_map]
      refine List.map_congr_left fun a _ => ?_
      by_cases hp : p a <;> simp [hp, hf]
    rw [hkeys]
    exact t.nodup

/-- The number of rows a guard matches. -/
def matched (t : Table α key) (p : α → Bool) : ℕ := t.rows.countP p

/-- A relation to the rows before an update carries over to the rows after it. -/
theorem forall₂_update {β : Type*} {R : β → α → Prop} {l : List β} {rows : List α} {p : α → Bool}
    {f : α → α} (h : List.Forall₂ R l rows) (hhit : ∀ b a, R b a → p a = true → R b (f a)) :
    List.Forall₂ R l (rows.map fun a => if p a then f a else a) := by
  refine List.forall₂_map_right_iff.mpr (h.imp fun b a hR => ?_)
  cases hp : p a with
  | true => exact hhit b a hR hp
  | false => exact hR

variable [DecidableEq κ]

omit [DecidableEq κ] in
theorem exists_mem_of_forall₂ {β : Type*} {R : β → α → Prop} {l : List β} {u : List α}
    (h : List.Forall₂ R l u) {b : α} (hb : b ∈ u) : ∃ a ∈ l, R a b := by
  induction h with
  | nil => cases hb
  | cons hab _ ih =>
    rcases List.mem_cons.mp hb with rfl | hb
    · exact ⟨_, List.mem_cons_self, hab⟩
    · obtain ⟨a, ha, hR⟩ := ih hb
      exact ⟨a, List.mem_cons_of_mem _ ha, hR⟩

omit [DecidableEq κ] in
theorem forall₂_mem {R : α → α → Prop} {l u : List α} (h : List.Forall₂ R l u) :
    List.Forall₂ (fun a b => a ∈ l ∧ b ∈ u ∧ R a b) l u := by
  induction h with
  | nil => exact .nil
  | cons hab _ ih =>
    refine .cons ⟨List.mem_cons_self, List.mem_cons_self, hab⟩ (ih.imp ?_)
    rintro c d ⟨hc, hd, hcd⟩
    exact ⟨List.mem_cons_of_mem _ hc, List.mem_cons_of_mem _ hd, hcd⟩

theorem exists_find?_of_forall₂ {R : α → α → Prop} (hkey : ∀ a b, R a b → key b = key a)
    {t u : Table α key} (h : List.Forall₂ R t.rows u.rows) {k : κ} {b : α} (hb : u.find? k = some b) :
    ∃ a, t.find? k = some a ∧ R a b := by
  obtain ⟨hmem, hk⟩ := find?_eq_some_iff.mp hb
  obtain ⟨a, ha, hab⟩ := exists_mem_of_forall₂ h hmem
  exact ⟨a, find?_eq_some_iff.mpr ⟨ha, (hkey a b hab).symm.trans hk⟩, hab⟩

theorem find?_update (t : Table α key) (p : α → Bool) (f : α → α) (hf : ∀ a, key (f a) = key a)
    (k : κ) : (t.update p f hf).find? k = (t.find? k).map fun a => if p a then f a else a := by
  unfold find? update
  rw [List.find?_map]
  congr 1
  refine congrArg (List.find? · t.rows) (funext fun a => ?_)
  by_cases hp : p a <;> simp [hp, hf]

theorem matched_key (t : Table α key) (k : κ) (g : α → Bool) :
    t.matched (fun a => key a = k && g a) = (((t.find? k).filter g).toList).length := by
  obtain ⟨rows, hnd⟩ := t
  simp only [matched, find?]
  induction rows with
  | nil => rfl
  | cons a rows ih =>
    rw [List.map_cons, List.nodup_cons] at hnd
    have htail := ih hnd.2
    by_cases ha : key a = k
    · have hnone : rows.countP (fun a => key a = k && g a) = 0 := by
        rw [List.countP_eq_zero]
        intro b hb hkey
        have hbk : key b = k := by
          rw [Bool.and_eq_true, decide_eq_true_eq] at hkey
          exact hkey.1
        exact hnd.1 (List.mem_map.mpr ⟨b, hb, hbk.trans ha.symm⟩)
      cases hg : g a <;> simp [ha, hg, hnone, Option.filter]
    · simp only [List.countP_cons, List.find?_cons, ha, decide_false, Bool.false_and, htail]
      rfl

theorem matched_key_eq_one_iff (t : Table α key) (k : κ) (g : α → Bool) :
    t.matched (fun a => key a = k && g a) = 1 ↔ ∃ a, t.find? k = some a ∧ g a := by
  rw [matched_key]
  cases t.find? k with
  | none => simp
  | some a => cases hg : g a <;> simp [hg, Option.filter]

/-! ## Inserts and deletes -/

/-- An insert that fails on a key that is taken. -/
def insert (t : Table α key) (a : α) : Option (Table α key) :=
  if h : key a ∈ t.rows.map key then none
  else some
    { rows := t.rows ++ [a]
      nodup := by
        rw [List.map_append, List.map_singleton]
        exact List.nodup_append.mpr
          ⟨t.nodup, List.nodup_singleton _, fun x hx y hy hxy =>
            h (List.mem_singleton.mp hy ▸ hxy ▸ hx)⟩ }

theorem rows_of_insert {t t' : Table α key} {a : α} (h : t.insert a = some t') :
    t'.rows = t.rows ++ [a] ∧ t.find? (key a) = none := by
  unfold insert at h
  split at h
  · cases h
  · next hkey =>
    obtain rfl := Option.some.inj h
    refine ⟨rfl, find?_eq_none_iff.mpr fun b hb hbk => ?_⟩
    exact hkey (List.mem_map.mpr ⟨b, hb, hbk⟩)

theorem find?_of_insert {t t' : Table α key} {a : α} (h : t.insert a = some t') (k : κ) :
    t'.find? k = if key a = k then some a else t.find? k := by
  obtain ⟨hrows, hnone⟩ := rows_of_insert h
  rw [find?, hrows, List.find?_append]
  by_cases hk : key a = k
  · subst hk
    rw [find?] at hnone
    rw [hnone]
    simp
  · simp [hk, find?]

/-- `DELETE … WHERE p`. -/
def delete (t : Table α key) (p : α → Bool) : Table α key where
  rows := t.rows.filter fun a => !p a
  nodup := List.Nodup.sublist (List.filter_sublist.map key) t.nodup

omit [DecidableEq κ] in
theorem mem_rows_delete {t : Table α key} {p : α → Bool} {a : α} :
    a ∈ (t.delete p).rows ↔ a ∈ t.rows ∧ p a = false := by
  simp [delete]

theorem find?_delete (t : Table α key) (p : α → Bool) (k : κ) :
    (t.delete p).find? k = (t.find? k).filter fun a => !p a := by
  refine Option.ext fun a => ?_
  rw [find?_eq_some_iff, mem_rows_delete, Option.filter_eq_some_iff, find?_eq_some_iff]
  rw [Bool.not_eq_true']
  tauto

/-- An insert that replaces the row with the same key. -/
def upsert (t : Table α key) (a : α) : Table α key :=
  (t.insert a).getD
    { rows := t.rows.map fun b => if key b = key a then a else b
      nodup := by
        have hkeys : (t.rows.map fun b => if key b = key a then a else b).map key = t.rows.map key := by
          rw [List.map_map]
          refine List.map_congr_left fun b _ => ?_
          by_cases hb : key b = key a <;> simp [hb]
        rw [hkeys]
        exact t.nodup }

theorem find?_upsert (t : Table α key) (a : α) (k : κ) :
    (t.upsert a).find? k = if key a = k then some a else t.find? k := by
  unfold upsert
  cases h : t.insert a with
  | some t' => exact find?_of_insert h k
  | none =>
    have hmem : key a ∈ t.rows.map key := by
      by_contra hmem
      simp [insert, hmem] at h
    rw [Option.getD_none, find?, List.find?_map]
    have hfun : ((fun b => decide (key b = k)) ∘ fun b => if key b = key a then a else b) =
        fun b => decide (key b = k) := by
      funext b
      by_cases hb : key b = key a <;> simp [hb]
    rw [hfun]
    change (t.find? k).map _ = _
    by_cases hk : key a = k
    · subst hk
      obtain ⟨b, hb, hbk⟩ := List.mem_map.mp hmem
      rw [← hbk, find?_of_mem hb]
      simp [hbk]
    · rw [if_neg hk]
      cases hfind : t.find? k with
      | none => rfl
      | some b =>
        have hbk := key_of_find? hfind
        have hne : key b ≠ key a := fun h' => hk (h'.symm.trans hbk)
        simp [hne]

theorem mem_rows_upsert {t : Table α key} {a b : α} :
    b ∈ (t.upsert a).rows ↔ b = a ∨ b ∈ t.rows ∧ key b ≠ key a := by
  rw [← and_iff_left (a := b ∈ (t.upsert a).rows) (rfl : key b = key b), ← find?_eq_some_iff,
    find?_upsert]
  by_cases h : key a = key b
  · rw [if_pos h, Option.some_inj]
    refine ⟨fun hab => Or.inl hab.symm, ?_⟩
    rintro (rfl | ⟨-, hne⟩)
    · rfl
    · exact absurd h.symm hne
  · rw [if_neg h, find?_eq_some_iff]
    refine ⟨fun hb => Or.inr ⟨hb.1, Ne.symm h⟩, ?_⟩
    rintro (rfl | hb)
    · exact absurd rfl h
    · exact ⟨hb.1, rfl⟩

theorem rows_upsert_of_find?_none {t : Table α key} {a : α} (h : t.find? (key a) = none) :
    (t.upsert a).rows = t.rows ++ [a] := by
  have hfresh : key a ∉ t.rows.map key := by
    intro hmem
    obtain ⟨b, hb, hkey⟩ := List.mem_map.mp hmem
    exact find?_eq_none_iff.mp h b hb hkey
  cases hinsert : t.insert a with
  | some t' => rw [upsert, hinsert, Option.getD_some, (rows_of_insert hinsert).1]
  | none => simp [insert, hfresh] at hinsert

theorem rows_upsert_of_find?_some {t : Table α key} {a b : α} (h : t.find? (key a) = some b) :
    (t.upsert a).rows = t.rows.map fun c => if key c = key a then a else c := by
  have hmem : key a ∈ t.rows.map key := List.mem_map.mpr ⟨b, mem_of_find? h, key_of_find? h⟩
  have hinsert : t.insert a = none := by simp [insert, hmem]
  rw [upsert, hinsert, Option.getD_none]

theorem length_upsert (t : Table α key) (a : α) :
    (t.upsert a).rows.length = t.rows.length + if (t.find? (key a)).isSome then 0 else 1 := by
  cases h : t.find? (key a) with
  | none => rw [rows_upsert_of_find?_none h, List.length_append, List.length_singleton]; rfl
  | some b => rw [rows_upsert_of_find?_some h, List.length_map]; rfl

/-! ## Sums over the rows -/

theorem sum_upsert {M : Type*} [AddCommGroup M] (t : Table α key) (a : α) (f : α → M) :
    ((t.upsert a).rows.map f).sum = (t.rows.map f).sum - ((t.find? (key a)).map f).getD 0 + f a := by
  cases h : t.find? (key a) with
  | none =>
    rw [rows_upsert_of_find?_none h, List.map_append, List.sum_append, List.map_singleton, List.sum_singleton,
      Option.map_none, Option.getD_none, sub_zero]
  | some b =>
    rw [rows_upsert_of_find?_some h, Option.map_some, Option.getD_some, List.map_map]
    obtain ⟨hb, hkey⟩ := find?_eq_some_iff.mp h
    obtain ⟨l₁, l₂, hrows⟩ := List.append_of_mem hb
    have hnodup := t.nodup
    rw [hrows, List.map_append, List.map_cons, List.nodup_append, List.nodup_cons] at hnodup
    have hother : ∀ c, c ∈ l₁ ∨ c ∈ l₂ → key c ≠ key a := by
      rintro c (hc | hc) hck
      · exact hnodup.2.2 (key c) (List.mem_map_of_mem hc) (key b) List.mem_cons_self (hck.trans hkey.symm)
      · exact hnodup.2.1.1 (hkey ▸ hck ▸ List.mem_map_of_mem hc)
    have hkeep : ∀ l : List α, (∀ c ∈ l, key c ≠ key a) →
        (l.map (f ∘ fun c => if key c = key a then a else c)) = l.map f := by
      intro l hl
      refine List.map_congr_left fun c hc => ?_
      rw [Function.comp_apply, if_neg (hl c hc)]
    rw [hrows, List.map_append, List.map_cons, hkeep l₁ fun c hc => hother c (.inl hc),
      hkeep l₂ fun c hc => hother c (.inr hc), Function.comp_apply, if_pos hkey, List.map_append, List.map_cons,
      List.sum_append, List.sum_append, List.sum_cons, List.sum_cons]
    abel

section Sums

variable {M : Type*} [AddCommMonoid M] [PartialOrder M] [IsOrderedAddMonoid M]

/-- If one key may gain `x` and no other key gains anything, the sum over a set of keys gains at
    most `x`. -/
theorem sum_filter_le {rows rows' : List α} (hnodup : (rows.map key).Nodup) (p : κ → Bool) (f : α → M)
    {k : κ} {x : M} (hx : 0 ≤ x)
    (h : List.Forall₂ (fun a b => key b = key a ∧
      (p (key a) = true → f b ≤ f a + if key a = k then x else 0)) rows rows') :
    ((rows'.filter fun b => p (key b)).map f).sum ≤ ((rows.filter fun a => p (key a)).map f).sum + x := by
  induction rows generalizing rows' x with
  | nil =>
    cases h
    simpa using hx
  | cons a rows ih =>
    obtain ⟨b, rows', hab, htail, rfl⟩ := List.forall₂_cons_left_iff.mp h
    rw [List.map_cons, List.nodup_cons] at hnodup
    obtain ⟨hkey, hle⟩ := hab
    simp only [List.filter_cons, hkey]
    cases hp : p (key a) with
    | false => exact ih hnodup.2 hx htail
    | true =>
      by_cases hk : key a = k
      · -- The gain is spent on the head: no row of the tail has the key.
        have hrest : List.Forall₂ (fun a b => key b = key a ∧
            (p (key a) = true → f b ≤ f a + if key a = k then 0 else 0)) rows rows' := by
          refine (forall₂_mem htail).imp ?_
          rintro c d ⟨hc, -, hcd, hle⟩
          refine ⟨hcd, fun hpc => ?_⟩
          have hne : key c ≠ k := fun h => hnodup.1 (List.mem_map.mpr ⟨c, hc, h.trans hk.symm⟩)
          simpa [hne] using hle hpc
        have htotal := ih hnodup.2 le_rfl hrest
        have hhead := hle hp
        rw [if_pos hk] at hhead
        rw [add_zero] at htotal
        calc f b + ((rows'.filter fun b => p (key b)).map f).sum
            ≤ f a + x + ((rows.filter fun a => p (key a)).map f).sum := add_le_add hhead htotal
          _ = f a + ((rows.filter fun a => p (key a)).map f).sum + x := by
              rw [add_right_comm]
      · have hhead := hle hp
        rw [if_neg hk, add_zero] at hhead
        calc f b + ((rows'.filter fun b => p (key b)).map f).sum
            ≤ f a + (((rows.filter fun a => p (key a)).map f).sum + x) :=
              add_le_add hhead (ih hnodup.2 hx htail)
          _ = f a + ((rows.filter fun a => p (key a)).map f).sum + x := (add_assoc _ _ _).symm

end Sums

end Table
