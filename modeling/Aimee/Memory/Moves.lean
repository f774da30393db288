-- SUMMARY: The elementary writes of the memory owner, and that every call is a sequence of them.
import Aimee.Memory.SourceReleaseFork
import Mathlib.Data.Prod.Lex
import Mathlib.Data.String.Basic

/-!
# Elementary writes

Every call changes the state by a few kinds of writes: a field of an entry or a receipt, an entry
that is added, moved or removed, a receipt that is added or removed. An invariant that each write
keeps is kept by every call.
-/

namespace SourceRelease

variable {Ref : Type}

/-- A change of an entry that keeps what the entry accounts for. -/
def KeepsEntry (f : Entry Ref → Entry Ref) : Prop :=
  ∀ e, (f e).sources = e.sources ∧ (f e).executionGrades = e.executionGrades ∧
    (f e).assemblyMetadata = e.assemblyMetadata ∧ (f e).healthMetadata = e.healthMetadata

/-- A change of a receipt that keeps what the receipt accounts for. -/
def KeepsReceipt (f : Receipt → Receipt) : Prop :=
  ∀ r, (f r).size = r.size ∧ (f r).observation = r.observation ∧ (f r).persistedAt = r.persistedAt

variable (P : Platform Ref)

/-- A write of a call that draws some tokens. -/
inductive Move (tokens : List String) : State Ref → State Ref → Prop where
  | expire (s : State Ref) (now : Time) : Move tokens s (expire P s now)
  | entry (s : State Ref) (slot : Slot) (f : Entry Ref → Entry Ref) (hf : KeepsEntry f) : Move tokens s (s.alter slot f)
  | receipt (s : State Ref) (id : String) (f : Receipt → Receipt) (hf : KeepsReceipt f) :
      Move tokens s { s with receipts := s.receipts.alter id f }
  | producer (s : State Ref) (producer : String) : Move tokens s { s with receiptProducer := producer }
  | addEntry (s : State Ref) (token : String) (e : Entry Ref) (hdrawn : token ∈ tokens)
      (hentry : s.entries.get? token = none) (hfork : s.forks.get? token = none)
      (hroom : s.entries.size + s.forks.size < sourceReleaseMaxEntries)
      (hbytes : s.bytes + P.sourceReleaseBytes e ≤ sourceReleaseMaxBytes)
      (hhealth : s.healthBytes + e.healthSize ≤ sourceReleaseHealthMaxBytes) :
      Move tokens s
        { s with
          entries := s.entries.put token e
          bytes := s.bytes + P.sourceReleaseBytes e
          healthBytes := s.healthBytes + e.healthSize }
  | dropEntry (s : State Ref) (token : String) (e : Entry Ref) (hentry : s.entries.get? token = some e) :
      Move tokens s
        { s with
          entries := s.entries.erase token
          bytes := s.bytes - P.sourceReleaseBytes e
          healthBytes := s.healthBytes - e.healthSize }
  | addFork (s : State Ref) (token : String) (fork : Fork Ref) (hdrawn : token ∈ tokens)
      (hentry : s.entries.get? token = none) (hfork : s.forks.get? token = none)
      (hroom : s.entries.size + s.forks.size < sourceReleaseMaxEntries)
      (hbytes : s.bytes + P.sourceReleaseBytes fork.entry ≤ sourceReleaseMaxBytes)
      (hhealth : s.healthBytes + fork.entry.healthSize ≤ sourceReleaseHealthMaxBytes) :
      Move tokens s (openFork P s token fork)
  | dropFork (s : State Ref) (token : String) : Move tokens s (dropFork P s token)
  | promoteFork (s : State Ref) (token : String) : Move tokens s (promoteFork s token)
  | evict (s : State Ref) (id : String) (r : Receipt) (hreceipt : s.receipts.get? id = some r) :
      Move tokens s (evict s id r)
  | addReceipt (s : State Ref) (attempt : String) (r : Receipt) (hdrawn : attempt ∈ tokens)
      (hreceipt : s.receipts.get? attempt = none) (hroom : s.receipts.size < sourceReleaseMaxEntries)
      (hbytes : s.receiptBytes + (r.prepared.length + r.admitted.length : ℕ) ≤ sourceReleaseMaxBytes)
      (hobservation : r.observation = none) (hstarted : r.started = none) (hstored : r.persistedAt = none) :
      Move tokens s (addReceipt s attempt r)
  | store (s : State Ref) (id : String) (r : Receipt) (now : Time) (hreceipt : s.receipts.get? id = some r)
      (hobservation : r.observation.isSome) :
      Move tokens s { s with receipts := s.receipts.alter id fun r => { r with persistedAt := some now } }
  | detail (s : State Ref) (id : String) (r : Receipt) (f : Receipt → Receipt) (n : ℕ)
      (hreceipt : s.receipts.get? id = some r) (hsize : (f r).size = r.size + n)
      (hbytes : s.receiptBytes + n ≤ sourceReleaseMaxBytes)
      (hstored : (f r).persistedAt.isSome → (f r).observation.isSome) :
      Move tokens s { s with receipts := s.receipts.alter id f, receiptBytes := s.receiptBytes + n }

abbrev Moves (tokens : List String) : State Ref → State Ref → Prop := Relation.ReflTransGen (Move P tokens)

variable {P} {tokens : List String}

theorem Move.moves {s s' : State Ref} (h : Move P tokens s s') : Moves P tokens s s' := .single h

/-! ## Expiry and dropping -/

variable {α : Type} {id : String} {r : Receipt} {best : Option (Time × String)} {t : Time} {at_ : Time}
     {rows : List (String × Receipt)} {receipts : KeyMap String Receipt} {s : State Ref}

theorem get?_live (expires : α → Time) (now : Time) (m : KeyMap String α) (k : String) :
    (live expires now m).get? k = (m.get? k).filter fun a => now < expires a :=
  KeyMap.get?_keep _ _ _

theorem get?_live_none {expires : α → Time} {now : Time} {m : KeyMap String α} {k : String} (h : m.get? k = none) :
    (live expires now m).get? k = none := by
  rw [get?_live, h]
  rfl

theorem moves_dropChain (rounds : ℕ) (s : State Ref) (token binding : String) (ancestors : Bool) :
    Moves P tokens s (dropChain P rounds s token binding ancestors) := by
  induction rounds generalizing s token with
  | zero => exact .refl
  | succ rounds ih =>
    unfold dropChain
    split
    · exact .refl
    · split
      · exact .refl
      · next e he =>
        split
        · exact .refl
        · have hdrop : Moves P tokens s _ := (Move.dropEntry s token e he).moves
          split
          · exact hdrop.trans (ih _ _)
          · exact hdrop

theorem moves_drop (s : State Ref) (token binding : String) (ancestors : Bool) :
    Moves P tokens s (drop P s token binding ancestors) :=
  moves_dropChain _ _ _ _ _

/-! ## Receipts -/

/-- Two states that differ in their receipts only. -/
structure SameSources (s s' : State Ref) : Prop where
  entries : s'.entries = s.entries
  forks : s'.forks = s.forks
  bindings : s'.forkBindings = s.forkBindings
  bytes : s'.bytes = s.bytes
  healthBytes : s'.healthBytes = s.healthBytes

theorem SameSources.refl (s : State Ref) : SameSources s s := ⟨rfl, rfl, rfl, rfl, rfl⟩

theorem SameSources.trans {s s' s'' : State Ref} (h : SameSources s s') (h' : SameSources s' s'') : SameSources s s'' :=
  ⟨h'.entries.trans h.entries, h'.forks.trans h.forks, h'.bindings.trans h.bindings, h'.bytes.trans h.bytes,
    h'.healthBytes.trans h.healthBytes⟩

theorem makeRoom_absent (rounds : ℕ) (s : State Ref) (entries bytes : ℕ) (h : s.receipts.get? id = none) :
    (makeRoom rounds s entries bytes).1.receipts.get? id = none := by
  induction rounds generalizing s with
  | zero => exact h
  | succ rounds ih =>
    unfold makeRoom
    split
    · split
      · exact h
      · split
        · exact h
        · refine ih _ ?_
          rw [evict, KeyMap.get?_erase, h, ite_self]
    · exact h

/-- What making room does: it evicts receipts, and it answers whether there is room. -/
structure RoomMade (tokens : List String) (s : State Ref) (entries bytes : ℕ) (result : State Ref × Bool) : Prop where
  moves : Moves P tokens s result.1
  same : SameSources s result.1
  producer : result.1.receiptProducer = s.receiptProducer
  size : result.2 = true → result.1.receipts.size + entries ≤ sourceReleaseMaxEntries
  fits : result.2 = true → result.1.receiptBytes + bytes ≤ sourceReleaseMaxBytes

theorem makeRoom_made (P : Platform Ref) (tokens : List String) (rounds : ℕ) (s : State Ref) (entries bytes : ℕ) :
    RoomMade (P := P) tokens s entries bytes (makeRoom rounds s entries bytes) := by
  induction rounds generalizing s with
  | zero => exact ⟨.refl, .refl s, rfl, fun h => (Bool.noConfusion h), fun h => (Bool.noConfusion h)⟩
  | succ rounds ih =>
    unfold makeRoom
    split
    · split
      · exact ⟨.refl, .refl s, rfl, fun h => (Bool.noConfusion h), fun h => (Bool.noConfusion h)⟩
      · next id _ =>
        split
        · exact ⟨.refl, .refl s, rfl, fun h => (Bool.noConfusion h), fun h => (Bool.noConfusion h)⟩
        · next r hr =>
          have hrest := ih (evict s id r)
          refine ⟨(Move.evict s id r hr).moves.trans hrest.moves, ?_, hrest.producer, hrest.size, hrest.fits⟩
          have hevict : SameSources s (evict s id r) := ⟨rfl, rfl, rfl, rfl, rfl⟩
          exact hevict.trans hrest.same
    · next h =>
      rw [not_or, not_lt, not_lt] at h
      exact ⟨.refl, .refl s, rfl, fun _ => h.1, fun _ => h.2⟩

theorem receiptRoom_made (P : Platform Ref) (tokens : List String) (s : State Ref) (entries bytes : ℕ) :
    RoomMade (P := P) tokens s entries bytes (receiptRoom s entries bytes) :=
  makeRoom_made _ _ _ _ _ _

/-! ## Stored receipts under pressure -/

/-- Whether a stored receipt is evicted before the one that was stored at a time under an id. -/
def storedBefore (at_ : Time) (id : String) (row : String × Receipt) : Bool :=
  match row.2.persistedAt with
  | none => false
  | some t => t < at_ ∨ t = at_ ∧ row.1 < id

/-- The bytes the stored receipts before one account for. -/
def bytesBefore (receipts : KeyMap String Receipt) (at_ : Time) (id : String) : ℤ :=
  receipts.sumBy fun row => if storedBefore at_ id row then row.2.size else 0

/-- The bytes the stored receipts account for. -/
def storedBytes (receipts : KeyMap String Receipt) : ℤ :=
  receipts.total fun r => if r.persistedAt.isSome then r.size else 0

theorem Receipt.size_nonneg (r : Receipt) : 0 ≤ r.size := by
  unfold Receipt.size
  omega

theorem older_of_pending (h : r.persistedAt = none) :
    older best id r = best := by
  simp [older, h]

theorem older_none (h : r.persistedAt = some t) : older none id r = some (t, id) := by
  simp [older, h]

theorem older_some {b : Time × String} (h : r.persistedAt = some t) :
    older (some b) id r = if toLex (t, id) < toLex b then some (t, id) else some b := by
  simp [older, h, Prod.Lex.toLex_lt_toLex]

theorem foldl_older (h : rows.foldl (fun best row => older best row.1 row.2) best = some (at_, id)) :
    (best = some (at_, id) ∨ ∃ r, (id, r) ∈ rows ∧ r.persistedAt = some at_) ∧
      (∀ b, best = some b → toLex (at_, id) ≤ toLex b) ∧ ∀ row ∈ rows, storedBefore at_ id row = false := by
  induction rows generalizing best with
  | nil =>
    obtain rfl : best = some (at_, id) := h
    refine ⟨.inl rfl, ?_, by simp⟩
    rintro b ⟨⟩
    exact le_rfl
  | cons row rows ih =>
    rw [List.foldl_cons] at h
    obtain ⟨hfrom, hbest, hrest⟩ := ih h
    cases hp : row.2.persistedAt with
    | none =>
      rw [older_of_pending hp] at hfrom hbest
      refine ⟨hfrom.imp_right ?_, hbest, ?_⟩
      · rintro ⟨r, hr, hat⟩
        exact ⟨r, List.mem_cons_of_mem _ hr, hat⟩
      · rintro row' (_ | ⟨_, hrow⟩)
        · rw [storedBefore, hp]
        · exact hrest row' hrow
    | some t =>
      -- The row is the choice so far, or the choice so far is not after it.
      have hrow : (older best row.1 row.2 = some (t, row.1) ∨ older best row.1 row.2 = best) ∧
          toLex (at_, id) ≤ toLex (t, row.1) ∧ ∀ b, best = some b → toLex (at_, id) ≤ toLex b := by
        cases best with
        | none =>
          rw [older_none hp] at hbest ⊢
          exact ⟨.inl rfl, hbest _ rfl, by simp⟩
        | some b =>
          rw [older_some hp] at hbest ⊢
          split at hbest
          · next hlt =>
            rw [if_pos hlt]
            refine ⟨.inl rfl, hbest _ rfl, ?_⟩
            rintro b ⟨⟩
            exact (hbest _ rfl).trans hlt.le
          · next hge =>
            rw [if_neg hge]
            refine ⟨.inr rfl, (hbest _ rfl).trans (not_lt.mp hge), ?_⟩
            rintro b ⟨⟩
            exact hbest _ rfl
      refine ⟨?_, hrow.2.2, ?_⟩
      · rcases hfrom with hfrom | ⟨r, hr, hat⟩
        · rcases hrow.1 with hnew | hold
          · rw [hnew] at hfrom
            cases hfrom
            exact .inr ⟨row.2, List.mem_cons_self, hp⟩
          · exact .inl (hold.symm.trans hfrom)
        · exact .inr ⟨r, List.mem_cons_of_mem _ hr, hat⟩
      · rintro row' (_ | ⟨_, hmem⟩)
        · have hle := hrow.2.1
          rw [← not_lt, Prod.Lex.toLex_lt_toLex] at hle
          rw [storedBefore, hp]
          exact decide_eq_false hle
        · exact hrest row' hmem

theorem oldestStored_spec (h : oldestStored receipts = some id) :
    ∃ r at_, receipts.get? id = some r ∧ r.persistedAt = some at_ ∧
      ∀ row ∈ receipts.rows, storedBefore at_ id row = false := by
  obtain ⟨⟨at_, id'⟩, hfold, rfl⟩ := Option.map_eq_some_iff.mp h
  obtain ⟨hfrom, -, hrest⟩ := foldl_older hfold
  rcases hfrom with hfrom | ⟨r, hr, hat⟩
  · cases hfrom
  · exact ⟨r, at_, KeyMap.get?_eq_some_iff.mpr hr, hat, hrest⟩

theorem foldl_older_ne_none (best : Option (Time × String))
    (h : best ≠ none ∨ ∃ row ∈ rows, row.2.persistedAt ≠ none) :
    rows.foldl (fun best row => older best row.1 row.2) best ≠ none := by
  induction rows generalizing best with
  | nil => simpa using h
  | cons row rows ih =>
    refine ih (older best row.1 row.2) ?_
    by_cases hp : row.2.persistedAt = none
    · rcases h with hb | ⟨row', hrow, hat⟩
      · refine .inl ?_
        rwa [older_of_pending hp]
      · rcases List.mem_cons.mp hrow with rfl | hrow
        · exact absurd hp hat
        · exact .inr ⟨row', hrow, hat⟩
    · refine .inl ?_
      obtain ⟨t, ht⟩ := Option.ne_none_iff_exists'.mp hp
      cases best with
      | none => simp [older_none ht]
      | some b =>
        rw [older_some ht]
        split <;> simp

theorem oldestStored_ne_none (h : receipts.get? id = some r)
    (hp : r.persistedAt ≠ none) : oldestStored receipts ≠ none := by
  refine fun hnone => foldl_older_ne_none none (.inr ⟨(id, r), KeyMap.get?_eq_some_iff.mp h, hp⟩) ?_
  exact Option.map_eq_none_iff.mp hnone

theorem storedBefore_oldest {id oldest : String} {r r' : Receipt} {at_ t : Time}
    (hr : receipts.get? id = some r) (hp : r.persistedAt = some at_) (hat : r'.persistedAt = some t)
    (hmin : ∀ row ∈ receipts.rows, storedBefore t oldest row = false) (hne : oldest ≠ id) :
    storedBefore at_ id (oldest, r') = true := by
  have hself := hmin (id, r) (KeyMap.get?_eq_some_iff.mp hr)
  simp only [storedBefore, hp, hat, decide_eq_false_iff_not, decide_eq_true_eq] at hself ⊢
  rw [← Prod.Lex.toLex_lt_toLex (x := (at_, id)) (y := (t, oldest)), not_lt] at hself
  rw [← Prod.Lex.toLex_lt_toLex (x := (t, oldest)) (y := (at_, id))]
  refine lt_of_le_of_ne hself fun heq => hne ?_
  exact congrArg Prod.snd (toLex_inj.mp heq)

theorem bytesBefore_evict {id oldest : String} {r' : Receipt} (hr' : s.receipts.get? oldest = some r')
    (hbefore : storedBefore at_ id (oldest, r') = true) :
    bytesBefore (evict s oldest r').receipts at_ id = bytesBefore s.receipts at_ id - r'.size := by
  change bytesBefore (s.receipts.erase oldest) at_ id = _
  rw [bytesBefore, KeyMap.sumBy_erase _ hr', if_pos hbefore]
  rfl

theorem makeRoom_keeps_pending (hp : r.persistedAt = none) (rounds : ℕ) (s : State Ref) (entries bytes : ℕ)
    (h : s.receipts.get? id = some r) : (makeRoom rounds s entries bytes).1.receipts.get? id = some r := by
  induction rounds generalizing s with
  | zero => exact h
  | succ rounds ih =>
    unfold makeRoom
    split
    · split
      · exact h
      · next oldest hold =>
        obtain ⟨r', t, hr', hat, -⟩ := oldestStored_spec hold
        have hne : oldest ≠ id := by
          rintro rfl
          rw [h, Option.some_inj] at hr'
          rw [← hr', hp] at hat
          cases hat
        rw [hr']
        refine ih _ ?_
        rw [evict, KeyMap.get?_erase, if_neg hne, h]
    · exact h

/-- Making room keeps a stored receipt when the ones stored before it free enough. -/
theorem makeRoom_keeps_stored (hp : r.persistedAt = some at_) (rounds : ℕ) (s : State Ref)
    (bytes : ℕ) (h : s.receipts.get? id = some r) (hsize : s.receipts.size ≤ sourceReleaseMaxEntries)
    (hrounds : s.receipts.size < rounds)
    (hfits : s.receiptBytes + bytes ≤ sourceReleaseMaxBytes + bytesBefore s.receipts at_ id) :
    (makeRoom rounds s 0 bytes).1.receipts.get? id = some r ∧ (makeRoom rounds s 0 bytes).2 = true := by
  induction rounds generalizing s with
  | zero => exact absurd hrounds (Nat.not_lt_zero _)
  | succ rounds ih =>
    unfold makeRoom
    split
    · next hfull =>
      split
      · next hnone => exact absurd hnone (oldestStored_ne_none h (by simp [hp]))
      · next oldest hold =>
        obtain ⟨r', t, hr', hat, hmin⟩ := oldestStored_spec hold
        rw [hr']
        -- The receipt is not the oldest one: nothing is stored before the oldest.
        have hne : oldest ≠ id := by
          rintro rfl
          have hzero : bytesBefore s.receipts at_ oldest = 0 := by
            rw [h, Option.some_inj] at hr'
            rw [← hr', hp, Option.some_inj] at hat
            refine List.sum_eq_zero fun x hx => ?_
            obtain ⟨row, hrow, rfl⟩ := List.mem_map.mp hx
            rw [hat, hmin row hrow]
            rfl
          omega
        have hbefore := bytesBefore_evict hr' (storedBefore_oldest h hp hat hmin hne)
        have hkept : (evict s oldest r').receipts.get? id = some r := by
          rw [evict, KeyMap.get?_erase, if_neg hne, h]
        have hlt := KeyMap.size_erase_lt hr'
        refine ih _ hkept ?_ ?_ ?_
        · exact hlt.le.trans hsize
        · exact lt_of_lt_of_le hlt (Nat.lt_succ_iff.mp hrounds)
        · change s.receiptBytes - r'.size + bytes ≤ _
          omega
    · exact ⟨h, rfl⟩

/-- There is no room when all stored receipts together do not free enough. -/
theorem makeRoom_refused (rounds : ℕ) (s : State Ref) (entries bytes : ℕ)
    (h : sourceReleaseMaxBytes + storedBytes s.receipts < s.receiptBytes + bytes) :
    (makeRoom rounds s entries bytes).2 = false := by
  have hnonneg : ∀ m : KeyMap String Receipt, 0 ≤ storedBytes m := by
    refine fun m => KeyMap.total_nonneg m fun r => ?_
    split
    · exact r.size_nonneg
    · exact le_rfl
  induction rounds generalizing s with
  | zero => rfl
  | succ rounds ih =>
    have hpos := hnonneg s.receipts
    unfold makeRoom
    rw [if_pos (.inr (by omega))]
    split
    · rfl
    · next oldest hold =>
      obtain ⟨r', t, hr', hat, -⟩ := oldestStored_spec hold
      rw [hr']
      refine ih _ ?_
      change _ + storedBytes (s.receipts.erase oldest) < s.receiptBytes - r'.size + bytes
      rw [storedBytes, KeyMap.total_erase _ hr', hat]
      change _ + (storedBytes s.receipts - r'.size) < _
      omega

theorem makeRoom_unstored (rounds : ℕ) (s : State Ref) (entries bytes : ℕ) :
    (makeRoom rounds s entries bytes).1.receiptBytes - storedBytes (makeRoom rounds s entries bytes).1.receipts =
      s.receiptBytes - storedBytes s.receipts := by
  induction rounds generalizing s with
  | zero => rfl
  | succ rounds ih =>
    unfold makeRoom
    split
    · split
      · rfl
      · next oldest hold =>
        obtain ⟨r', t, hr', hat, -⟩ := oldestStored_spec hold
        rw [hr']
        refine (ih _).trans ?_
        change s.receiptBytes - r'.size - storedBytes (s.receipts.erase oldest) = _
        rw [storedBytes, KeyMap.total_erase _ hr', hat]
        change _ - (storedBytes s.receipts - r'.size) = _
        omega
    · rfl

/-- Making room keeps a receipt, unless the receipts before it do not free enough and all stored
    ones do. -/
theorem receiptRoom_keeps (bytes : ℕ) (hr : s.receipts.get? id = some r)
    (hsize : s.receipts.size ≤ sourceReleaseMaxEntries)
    (h : ∀ t, r.persistedAt = some t → sourceReleaseMaxBytes + bytesBefore s.receipts t id < s.receiptBytes + bytes →
      sourceReleaseMaxBytes + storedBytes s.receipts < s.receiptBytes + bytes)
    (hroom : (receiptRoom s 0 bytes).2 = true) : (receiptRoom s 0 bytes).1.receipts.get? id = some r := by
  cases hp : r.persistedAt with
  | none => exact makeRoom_keeps_pending hp _ s 0 bytes hr
  | some t =>
    by_cases hbefore : sourceReleaseMaxBytes + bytesBefore s.receipts t id < s.receiptBytes + bytes
    · rw [receiptRoom, makeRoom_refused _ _ _ _ (h t hp hbefore)] at hroom
      cases hroom
    · exact (makeRoom_keeps_stored hp _ s bytes hr hsize (Nat.lt_succ_self _) (not_lt.mp hbefore)).1

/-- Where there is room already, making room changes nothing. -/
theorem receiptRoom_of_room {entries bytes : ℕ} (hsize : s.receipts.size + entries ≤ sourceReleaseMaxEntries)
    (hbytes : s.receiptBytes + bytes ≤ sourceReleaseMaxBytes) : receiptRoom s entries bytes = (s, true) := by
  rw [receiptRoom, makeRoom, if_neg]
  rw [not_or, not_lt, not_lt]
  exact ⟨hsize, hbytes⟩

end SourceRelease
