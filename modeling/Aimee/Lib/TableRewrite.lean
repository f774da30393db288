-- SUMMARY: More on tables with a unique key: the row of a key removed or put last, and every row rewritten by a function that may fail.
import Aimee.Lib.Table

/-!
# Rewriting a table

A row is replaced by taking the old one out and appending the new one, or every row is passed
through a function that keeps the key and may refuse. A lookup of the result is described by a
lookup of the table it came from.
-/

namespace List

variable {α β : Type*}

theorem mapM_eq_some_iff_forall₂ {f : α → Option β} {items : List α} {values : List β} :
    items.mapM f = some values ↔ Forall₂ (fun a b => f a = some b) items values := by
  induction items generalizing values with
  | nil =>
    rw [forall₂_nil_left_iff]
    exact ⟨fun h => (Option.some.inj h).symm, fun h => congrArg some h.symm⟩
  | cons a items ih =>
    rw [mapM_cons]
    constructor
    · intro h
      obtain ⟨b, hb, h⟩ := Option.bind_eq_some_iff.mp h
      obtain ⟨rest, hrest, h⟩ := Option.bind_eq_some_iff.mp h
      cases h
      exact .cons hb (ih.mp hrest)
    · rintro (_ | ⟨hb, hrest⟩)
      rw [hb, ih.mpr hrest]
      rfl

theorem isSome_mapM {f : α → Option β} {items : List α} : (items.mapM f).isSome ↔ ∀ a ∈ items, (f a).isSome := by
  induction items with
  | nil => simp
  | cons a items ih =>
    rw [forall_mem_cons, ← ih, mapM_cons]
    cases f a <;> cases items.mapM f <;> simp

/-- A partial function through a map on either side. -/
theorem mapM_map_of_eq {γ δ : Type*} {f : β → Option δ} {g : α → Option γ} {i : α → β} {j : γ → δ} {items : List α}
    (h : ∀ a ∈ items, f (i a) = (g a).map j) : (items.map i).mapM f = (items.mapM g).map (map j) := by
  induction items with
  | nil => rfl
  | cons a items ih =>
    obtain ⟨ha, hrest⟩ := forall_mem_cons.mp h
    rw [map_cons, mapM_cons, mapM_cons, ha, ih hrest]
    cases g a <;> cases items.mapM g <;> rfl

end List

namespace Table

variable {α κ : Type*} {key : α → κ} [DecidableEq κ]

/-! ## One row -/

/-- The row of a key taken out. -/
def remove (t : Table α key) (k : κ) : Table α key := t.delete fun a => key a = k

/-- There is one row to take out, so the first one is all of them. -/
theorem rows_remove (t : Table α key) (k : κ) : (t.remove k).rows = t.rows.eraseP fun a => key a = k := by
  obtain ⟨rows, hnodup⟩ := t
  change rows.filter (fun a => !decide (key a = k)) = _
  induction rows with
  | nil => rfl
  | cons a rows ih =>
    rw [List.map_cons, List.nodup_cons] at hnodup
    by_cases ha : key a = k
    · have hkeep : rows.filter (fun a => !decide (key a = k)) = rows := by
        refine List.filter_eq_self.mpr fun b hb => ?_
        have hne : key b ≠ k := fun hbk => hnodup.1 (List.mem_map.mpr ⟨b, hb, hbk.trans ha.symm⟩)
        simpa using hne
      rw [List.filter_cons_of_neg (by simpa using ha), List.eraseP_cons_of_pos (by simpa using ha), hkeep]
    · rw [List.filter_cons_of_pos (by simpa using ha), List.eraseP_cons_of_neg (by simpa using ha), ih hnodup.2]

theorem find?_remove (t : Table α key) (k k' : κ) : (t.remove k).find? k' = if k' = k then none else t.find? k' := by
  rw [remove, find?_delete]
  cases hfind : t.find? k' with
  | none => simp
  | some a =>
    have hkey := key_of_find? hfind
    by_cases hk : k' = k <;> simp [hkey, hk]

/-- The row of that key taken out, and `a` put last. -/
def replace (t : Table α key) (a : α) : Table α key where
  rows := (t.remove (key a)).rows ++ [a]
  nodup := by
    rw [List.map_append, List.map_singleton]
    refine List.nodup_append.mpr ⟨(t.remove (key a)).nodup, List.nodup_singleton _, fun x hx y hy hxy => ?_⟩
    obtain ⟨b, hb, rfl⟩ := List.mem_map.mp hx
    have hne := (mem_rows_delete.mp hb).2
    rw [List.mem_singleton.mp hy] at hxy
    simp [hxy] at hne

theorem rows_replace (t : Table α key) (a : α) :
    (t.replace a).rows = (t.rows.eraseP fun b => key b = key a) ++ [a] := by
  rw [← rows_remove]
  rfl

theorem find?_replace (t : Table α key) (a : α) (k : κ) :
    (t.replace a).find? k = if k = key a then some a else t.find? k := by
  have hold := find?_remove t (key a) k
  rw [find?] at hold ⊢
  rw [replace, List.find?_append, hold]
  by_cases hk : k = key a
  · simp [hk]
  · have hne : ¬key a = k := Ne.symm hk
    simp [hk, hne]

/-! ## Every row -/

omit [DecidableEq κ] in
theorem keys_of_mapM {f : α → Option α} (hf : ∀ a b, f a = some b → key b = key a) {rows rows' : List α}
    (h : rows.mapM f = some rows') : rows'.map key = rows.map key := by
  have hall := List.mapM_eq_some_iff_forall₂.mp h
  clear h
  induction hall with
  | nil => rfl
  | cons hab _ ih => rw [List.map_cons, List.map_cons, hf _ _ hab, ih]

/-- Every row rewritten, unless one cannot be. -/
def traverse (t : Table α key) (f : α → Option α) (hf : ∀ a b, f a = some b → key b = key a) : Option (Table α key) :=
  (t.rows.mapM f).attach.map fun rows =>
    { rows := rows.1
      nodup := by
        rw [keys_of_mapM hf rows.2]
        exact t.nodup }

variable {f : α → Option α} {hf : ∀ a b, f a = some b → key b = key a}

omit [DecidableEq κ] in
theorem rows_traverse (f : α → Option α) (hf : ∀ a b, f a = some b → key b = key a) (t : Table α key) :
    (t.traverse f hf).map rows = t.rows.mapM f := by
  rw [traverse, Option.map_map]
  exact Option.attach_map_subtype_val _

omit [DecidableEq κ] in
theorem forall₂_traverse {t u : Table α key} (h : t.traverse f hf = some u) :
    List.Forall₂ (fun a b => f a = some b) t.rows u.rows := by
  have hrows := rows_traverse f hf t
  rw [h] at hrows
  exact List.mapM_eq_some_iff_forall₂.mp hrows.symm

omit [DecidableEq κ] in
theorem isSome_of_traverse {t u : Table α key} (h : t.traverse f hf = some u) {a : α} (ha : a ∈ t.rows) :
    (f a).isSome := by
  have hrows := rows_traverse f hf t
  rw [h] at hrows
  exact List.isSome_mapM.mp (by rw [← hrows]; rfl) a ha

omit [DecidableEq κ] in
/-- The only rows that stop it are those it is not defined on. -/
theorem isSome_traverse {t : Table α key} : (t.traverse f hf).isSome ↔ ∀ a ∈ t.rows, (f a).isSome := by
  rw [← List.isSome_mapM, ← rows_traverse f hf, Option.isSome_map]

theorem find?_traverse {t u : Table α key} (h : t.traverse f hf = some u) (k : κ) : u.find? k = (t.find? k).bind f := by
  have hall := forall₂_traverse h
  rw [find?, find?]
  generalize t.rows = rows at hall
  generalize u.rows = rows' at hall
  induction hall with
  | nil => rfl
  | @cons a b rows rows' hab _ ih =>
    by_cases ha : key a = k
    · have hb : key b = k := (hf a b hab).trans ha
      simpa [List.find?_cons, ha, hb] using hab.symm
    · have hb : ¬key b = k := fun hb => ha ((hf a b hab).symm.trans hb)
      simpa [List.find?_cons, ha, hb] using ih

end Table
