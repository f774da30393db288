-- SUMMARY: The byte counters of the memory owner are exact and within their limits in every run without a start that evicts its receipt.
import Aimee.Memory.CallMoves
import Aimee.Memory.ReceiptTexts
import Mathlib.Data.List.Induction

/-!
# Accounting

The counters of the owner are changed at every insert, growth, move and removal. They are compared
with the sums over the maps themselves.
-/

namespace SourceRelease

variable {Ref : Type}

/-- The counters are the sums over the maps, and within their limits. -/
structure Accounted (P : Platform Ref) (s : State Ref) : Prop where
  bytes : s.bytes = s.entries.total P.sourceReleaseBytes + s.forks.total fun k => P.sourceReleaseBytes k.entry
  healthBytes : s.healthBytes = s.entries.total Entry.healthSize + s.forks.total fun k => k.entry.healthSize
  receiptBytes : s.receiptBytes = s.receipts.total Receipt.size
  bytes_le : s.bytes ≤ sourceReleaseMaxBytes
  healthBytes_le : s.healthBytes ≤ sourceReleaseHealthMaxBytes
  receiptBytes_le : s.receiptBytes ≤ sourceReleaseMaxBytes
  entries_le : s.entries.size + s.forks.size ≤ sourceReleaseMaxEntries
  receipts_le : s.receipts.size ≤ sourceReleaseMaxEntries

/-- What the writes keep, for the tokens that were drawn so far. -/
structure Kept (P : Platform Ref) (used : List String) (s : State Ref) : Prop where
  accounted : Accounted P s
  stored : StoredObserved s
  /-- A pending fork is not an entry. -/
  apart : ∀ token, s.forks.get? token ≠ none → s.entries.get? token = none
  entry_drawn : ∀ token, s.entries.get? token ≠ none → token ∈ used
  fork_drawn : ∀ token, s.forks.get? token ≠ none → token ∈ used
  receipt_drawn : ∀ token, s.receipts.get? token ≠ none → token ∈ used

variable {P : Platform Ref}

theorem kept_empty (used : List String) : Kept P used {} where
  accounted :=
    have hbytes : (0 : ℤ) ≤ sourceReleaseMaxBytes := by decide
    have hhealth : (0 : ℤ) ≤ sourceReleaseHealthMaxBytes := by decide
    ⟨rfl, rfl, rfl, hbytes, hhealth, hbytes, Nat.zero_le _, Nat.zero_le _⟩
  stored _ _ h := by cases h
  apart _ _ := rfl
  entry_drawn _ h := absurd rfl h
  fork_drawn _ h := absurd rfl h
  receipt_drawn _ h := absurd rfl h

variable {s : State Ref} {α : Type} {m : KeyMap String α} {used : List String} {k k' : String} {r : Receipt}
     {steps : List (Step Ref)} {st : Step Ref}

theorem Kept.mono {used used' : List String} (h : Kept P used s) (hsub : ∀ t ∈ used, t ∈ used') : Kept P used' s :=
  { h with
    entry_drawn := fun t ht => hsub t (h.entry_drawn t ht)
    fork_drawn := fun t ht => hsub t (h.fork_drawn t ht)
    receipt_drawn := fun t ht => hsub t (h.receipt_drawn t ht) }

/-- A token that was never drawn is no key. -/
theorem Kept.unused {used tokens : List String} (h : Kept P used s) (hfresh : ∀ t ∈ tokens, t ∉ used) :
    Unused s tokens where
  entries t ht := by
    by_contra hsome
    exact hfresh t ht (h.entry_drawn t hsome)
  forks t ht := by
    by_contra hsome
    exact hfresh t ht (h.fork_drawn t hsome)
  receipts t ht := by
    by_contra hsome
    exact hfresh t ht (h.receipt_drawn t hsome)

/-! ## The writes -/

theorem get?_live_ne_none {expires : α → Time} {now : Time} {k : String}
    (h : (live expires now m).get? k ≠ none) : m.get? k ≠ none :=
  fun hnone => h (get?_live_none hnone)

theorem total_live (expires : α → Time) (now : Time) (m : KeyMap String α) (f : α → ℤ) :
    (live expires now m).total f = m.total f - (lapsed expires now m).total f :=
  KeyMap.total_keep _ _ _

theorem bytes_expire (s : State Ref) (now : Time) :
    (expire P s now).bytes = s.bytes - ((lapsed (fun k : Fork Ref => k.entry.expires) now s.forks).total fun k =>
      P.sourceReleaseBytes k.entry) - (lapsed Entry.expires now s.entries).total P.sourceReleaseBytes :=
  rfl

theorem healthBytes_expire (s : State Ref) (now : Time) :
    (expire P s now).healthBytes =
      s.healthBytes - ((lapsed (fun k : Fork Ref => k.entry.expires) now s.forks).total fun k =>
      k.entry.healthSize) - (lapsed Entry.expires now s.entries).total Entry.healthSize :=
  rfl

theorem receiptBytes_expire (s : State Ref) (now : Time) :
    (expire P s now).receiptBytes = s.receiptBytes - (lapsed Receipt.expires now s.receipts).total Receipt.size :=
  rfl

theorem kept_expire (h : Kept P used s) (now : Time) : Kept P used (expire P s now) := by
  have hbytes := total_live (fun k : Fork Ref => k.entry.expires) now s.forks fun k => P.sourceReleaseBytes k.entry
  have hbytes' := total_live Entry.expires now s.entries P.sourceReleaseBytes
  have hhealth := total_live (fun k : Fork Ref => k.entry.expires) now s.forks fun k => k.entry.healthSize
  have hhealth' := total_live Entry.expires now s.entries Entry.healthSize
  have hreceipts := total_live Receipt.expires now s.receipts Receipt.size
  have hgone := total_live_le (fun k : Fork Ref => k.entry.expires) now s.forks (f := fun k =>
    P.sourceReleaseBytes k.entry)
    fun k => sourceReleaseBytes_nonneg k.entry
  have hgone' := total_live_le Entry.expires now s.entries (f := P.sourceReleaseBytes) sourceReleaseBytes_nonneg
  have hgoneReceipts := total_live_le Receipt.expires now s.receipts (f := Receipt.size) Receipt.size_nonneg
  have hentries : (live Entry.expires now s.entries).size ≤ s.entries.size := KeyMap.size_keep_le _ _
  have hforks : (live (fun k : Fork Ref => k.entry.expires) now s.forks).size ≤ s.forks.size := KeyMap.size_keep_le _ _
  have a := h.accounted
  refine ⟨⟨?_, ?_, ?_, ?_, (healthBytes_expire_le s now).trans a.healthBytes_le, ?_, ?_, ?_⟩,
    h.stored.expire now, ?_, ?_, ?_, ?_⟩
  · change _ = (live Entry.expires now s.entries).total P.sourceReleaseBytes +
      (live (fun k : Fork Ref => k.entry.expires) now s.forks).total fun k => P.sourceReleaseBytes k.entry
    rw [bytes_expire, hbytes, a.bytes]
    omega
  · change _ = (live Entry.expires now s.entries).total Entry.healthSize +
      (live (fun k : Fork Ref => k.entry.expires) now s.forks).total fun k => k.entry.healthSize
    rw [healthBytes_expire, hhealth, a.healthBytes]
    omega
  · change _ = (live Receipt.expires now s.receipts).total Receipt.size
    rw [receiptBytes_expire, hreceipts, a.receiptBytes]
  · have := a.bytes_le
    rw [bytes_expire]
    omega
  · have := a.receiptBytes_le
    rw [receiptBytes_expire]
    omega
  · change (live Entry.expires now s.entries).size + (live _ now s.forks).size ≤ _
    have := a.entries_le
    omega
  · exact (KeyMap.size_keep_le _ _).trans a.receipts_le
  · exact fun token hfork => get?_live_none (h.apart token (get?_live_ne_none hfork))
  · exact fun token hentry => h.entry_drawn token (get?_live_ne_none hentry)
  · exact fun token hfork => h.fork_drawn token (get?_live_ne_none hfork)
  · exact fun token hreceipt => h.receipt_drawn token (get?_live_ne_none hreceipt)

variable {f : Entry Ref → Entry Ref} {token : String} {e : Entry Ref} {id : String}

theorem KeepsEntry.bytes (hf : KeepsEntry f) (e : Entry Ref) :
    P.sourceReleaseBytes (f e) = P.sourceReleaseBytes e := by
  obtain ⟨hsources, hgrades, hmetadata, -⟩ := hf e
  simp only [Platform.sourceReleaseBytes, Platform.sourcesText, hsources, hgrades, hmetadata]

theorem KeepsEntry.healthSize (hf : KeepsEntry f) (e : Entry Ref) : (f e).healthSize = e.healthSize := by
  simp only [Entry.healthSize, (hf e).2.2.2]

theorem get?_alter_ne_none {f : α → α} :
    (m.alter k f).get? k' ≠ none ↔ m.get? k' ≠ none := by
  rw [KeyMap.get?_alter, ne_eq, Option.map_eq_none_iff]

theorem get?_alter_none {f : α → α} :
    (m.alter k f).get? k' = none ↔ m.get? k' = none := by
  rw [KeyMap.get?_alter, Option.map_eq_none_iff]

theorem kept_entry (h : Kept P used s) (slot : Slot)
    (hf : KeepsEntry f) : Kept P used (s.alter slot f) := by
  have a := h.accounted
  cases slot with
  | entry ticket =>
    refine ⟨⟨?_, ?_, a.receiptBytes, a.bytes_le, a.healthBytes_le, a.receiptBytes_le, ?_, a.receipts_le⟩,
      h.stored, ?_, ?_, h.fork_drawn, h.receipt_drawn⟩
    · change s.bytes = (s.entries.alter ticket f).total _ + _
      rw [KeyMap.total_alter_of_eq _ _ hf.bytes, a.bytes]
      rfl
    · change s.healthBytes = (s.entries.alter ticket f).total _ + _
      rw [KeyMap.total_alter_of_eq _ _ hf.healthSize, a.healthBytes]
      rfl
    · change (s.entries.alter ticket f).size + _ ≤ _
      rw [KeyMap.size_alter]
      exact a.entries_le
    · exact fun token hfork => get?_alter_none.mpr (h.apart token hfork)
    · exact fun token hentry => h.entry_drawn token (get?_alter_ne_none.mp hentry)
  | fork ticket =>
    refine ⟨⟨?_, ?_, a.receiptBytes, a.bytes_le, a.healthBytes_le, a.receiptBytes_le, ?_, a.receipts_le⟩, h.stored, ?_,
      h.entry_drawn, ?_, h.receipt_drawn⟩
    · change s.bytes = s.entries.total P.sourceReleaseBytes +
        (s.forks.alter ticket fun k => { k with entry := f k.entry }).total fun k => P.sourceReleaseBytes k.entry
      rw [KeyMap.total_alter_of_eq s.forks ticket (g := fun k => { k with entry := f k.entry })
        (f := fun k => P.sourceReleaseBytes k.entry) fun k => hf.bytes k.entry]
      exact a.bytes
    · change s.healthBytes = s.entries.total Entry.healthSize +
        (s.forks.alter ticket fun k => { k with entry := f k.entry }).total fun k => k.entry.healthSize
      rw [KeyMap.total_alter_of_eq s.forks ticket (g := fun k => { k with entry := f k.entry })
        (f := fun k => k.entry.healthSize) fun k => hf.healthSize k.entry]
      exact a.healthBytes
    · change _ + (s.forks.alter ticket _).size ≤ _
      rw [KeyMap.size_alter]
      exact a.entries_le
    · exact fun token hfork => h.apart token (get?_alter_ne_none.mp hfork)
    · exact fun token hfork => h.fork_drawn token (get?_alter_ne_none.mp hfork)

theorem get?_put_ne_none {a : α} (h : (m.put k a).get? k' ≠ none) :
    k = k' ∨ m.get? k' ≠ none := by
  rw [KeyMap.get?_put] at h
  split at h
  · next hk => exact .inl hk
  · exact .inr h

theorem get?_erase_ne_none (h : (m.erase k).get? k' ≠ none) :
    k ≠ k' ∧ m.get? k' ≠ none := by
  rw [KeyMap.get?_erase] at h
  split at h
  · exact absurd rfl h
  · next hk => exact ⟨hk, h⟩

section

variable (h : Kept P used s)
include h

theorem kept_addEntry (hdrawn : token ∈ used)
    (hentry : s.entries.get? token = none) (hfork : s.forks.get? token = none)
    (hroom : s.entries.size + s.forks.size < sourceReleaseMaxEntries)
    (hbytes : s.bytes + P.sourceReleaseBytes e ≤ sourceReleaseMaxBytes)
    (hhealth : s.healthBytes + e.healthSize ≤ sourceReleaseHealthMaxBytes) :
    Kept P used
      { s with
        entries := s.entries.put token e
        bytes := s.bytes + P.sourceReleaseBytes e
        healthBytes := s.healthBytes + e.healthSize } := by
  have a := h.accounted
  refine ⟨⟨?_, ?_, a.receiptBytes, hbytes, hhealth, a.receiptBytes_le, ?_, a.receipts_le⟩, h.stored, ?_, ?_,
    h.fork_drawn, h.receipt_drawn⟩
  · dsimp only
    rw [KeyMap.total_put_of_none _ _ hentry, a.bytes]
    omega
  · dsimp only
    rw [KeyMap.total_put_of_none _ _ hentry, a.healthBytes]
    omega
  · dsimp only
    rw [KeyMap.size_put_of_none _ hentry]
    omega
  · intro token' hfork'
    rw [KeyMap.get?_put, if_neg]
    · exact h.apart token' hfork'
    · rintro rfl
      exact hfork' hfork
  · intro token' hentry'
    rcases get?_put_ne_none hentry' with rfl | hold
    · exact hdrawn
    · exact h.entry_drawn token' hold

theorem kept_dropEntry (hentry : s.entries.get? token = some e) :
    Kept P used
      { s with
        entries := s.entries.erase token
        bytes := s.bytes - P.sourceReleaseBytes e
        healthBytes := s.healthBytes - e.healthSize } := by
  have a := h.accounted
  have hbytes := sourceReleaseBytes_nonneg (P := P) e
  have hhealth := e.healthSize_nonneg
  refine ⟨⟨?_, ?_, a.receiptBytes, ?_, ?_, a.receiptBytes_le, ?_, a.receipts_le⟩, h.stored, ?_, ?_,
    h.fork_drawn, h.receipt_drawn⟩
  · dsimp only
    rw [KeyMap.total_erase _ hentry, a.bytes]
    omega
  · dsimp only
    rw [KeyMap.total_erase _ hentry, a.healthBytes]
    omega
  · have := a.bytes_le
    dsimp only
    omega
  · have := a.healthBytes_le
    dsimp only
    omega
  · have := a.entries_le
    have := KeyMap.size_erase_le s.entries token
    dsimp only
    omega
  · intro token' hfork
    rw [KeyMap.get?_erase, h.apart token' hfork, ite_self]
  · exact fun token' hentry' => h.entry_drawn token' (get?_erase_ne_none hentry').2

theorem kept_addFork {fork : Fork Ref} (hdrawn : token ∈ used)
    (hentry : s.entries.get? token = none) (hfork : s.forks.get? token = none)
    (hroom : s.entries.size + s.forks.size < sourceReleaseMaxEntries)
    (hbytes : s.bytes + P.sourceReleaseBytes fork.entry ≤ sourceReleaseMaxBytes)
    (hhealth : s.healthBytes + fork.entry.healthSize ≤ sourceReleaseHealthMaxBytes) :
    Kept P used (openFork P s token fork) := by
  have a := h.accounted
  refine ⟨⟨?_, ?_, a.receiptBytes, hbytes, hhealth, a.receiptBytes_le, ?_, a.receipts_le⟩, h.stored, ?_,
    h.entry_drawn, ?_, h.receipt_drawn⟩
  · change s.bytes + _ = _ + (s.forks.put token fork).total _
    rw [KeyMap.total_put_of_none _ _ hfork, a.bytes]
    change _ = s.entries.total _ + _
    omega
  · change s.healthBytes + _ = _ + (s.forks.put token fork).total _
    rw [KeyMap.total_put_of_none _ _ hfork, a.healthBytes]
    change _ = s.entries.total _ + _
    omega
  · change s.entries.size + (s.forks.put token fork).size ≤ _
    rw [KeyMap.size_put_of_none _ hfork]
    omega
  · intro token' hfork'
    rcases get?_put_ne_none hfork' with rfl | hold
    · exact hentry
    · exact h.apart token' hold
  · intro token' hfork'
    rcases get?_put_ne_none hfork' with rfl | hold
    · exact hdrawn
    · exact h.fork_drawn token' hold

theorem kept_dropFork (token : String) : Kept P used (dropFork P s token) := by
  unfold dropFork
  split
  · exact h
  next fork hfork =>
  have a := h.accounted
  have hbytes := sourceReleaseBytes_nonneg (P := P) fork.entry
  have hhealth := fork.entry.healthSize_nonneg
  refine ⟨⟨?_, ?_, a.receiptBytes, ?_, ?_, a.receiptBytes_le, ?_, a.receipts_le⟩, h.stored, ?_,
    h.entry_drawn, ?_, h.receipt_drawn⟩
  · dsimp only
    rw [KeyMap.total_erase _ hfork, a.bytes]
    omega
  · dsimp only
    rw [KeyMap.total_erase _ hfork, a.healthBytes]
    omega
  · have := a.bytes_le
    dsimp only
    omega
  · have := a.healthBytes_le
    dsimp only
    omega
  · have := a.entries_le
    have := KeyMap.size_erase_le s.forks token
    dsimp only
    omega
  · exact fun token' hfork' => h.apart token' (get?_erase_ne_none hfork').2
  · exact fun token' hfork' => h.fork_drawn token' (get?_erase_ne_none hfork').2

theorem kept_promoteFork (token : String) : Kept P used (promoteFork s token) := by
  unfold promoteFork
  split
  · exact h
  next fork hfork =>
  have a := h.accounted
  have hentry : s.entries.get? token = none := h.apart token (by simp [hfork])
  refine ⟨⟨?_, ?_, a.receiptBytes, a.bytes_le, a.healthBytes_le, a.receiptBytes_le, ?_, a.receipts_le⟩,
    h.stored, ?_, ?_, ?_, h.receipt_drawn⟩
  · rw [KeyMap.total_erase _ hfork, KeyMap.total_put_of_none _ _ hentry, a.bytes]
    change _ = _ + P.sourceReleaseBytes fork.entry + _
    omega
  · rw [KeyMap.total_erase _ hfork, KeyMap.total_put_of_none _ _ hentry, a.healthBytes]
    change _ = _ + fork.entry.healthSize + _
    omega
  · have := a.entries_le
    have := KeyMap.size_erase_lt hfork
    dsimp only
    rw [KeyMap.size_put_of_none _ hentry]
    omega
  · intro token' hfork'
    obtain ⟨hne, hold⟩ := get?_erase_ne_none hfork'
    rw [KeyMap.get?_put, if_neg hne]
    exact h.apart token' hold
  · intro token' hentry'
    rcases get?_put_ne_none hentry' with rfl | hold
    · exact h.fork_drawn _ (by simp [hfork])
    · exact h.entry_drawn token' hold
  · exact fun token' hfork' => h.fork_drawn token' (get?_erase_ne_none hfork').2

end

/-! ## The writes of receipts -/

theorem kept_receipts {s s' : State Ref} (h : Kept P used s) (hsame : SameSources s s')
    (hbytes : s'.receiptBytes = s'.receipts.total Receipt.size) (hlimit : s'.receiptBytes ≤ sourceReleaseMaxBytes)
    (hsize : s'.receipts.size ≤ sourceReleaseMaxEntries) (hstored : StoredObserved s')
    (hdrawn : ∀ token, s'.receipts.get? token ≠ none → token ∈ used) : Kept P used s' := by
  have a := h.accounted
  refine ⟨⟨?_, ?_, hbytes, ?_, ?_, hlimit, ?_, hsize⟩, hstored, ?_, ?_, ?_, hdrawn⟩
  · rw [hsame.bytes, hsame.entries, hsame.forks, a.bytes]
  · rw [hsame.healthBytes, hsame.entries, hsame.forks, a.healthBytes]
  · rw [hsame.bytes]
    exact a.bytes_le
  · rw [hsame.healthBytes]
    exact a.healthBytes_le
  · rw [hsame.entries, hsame.forks]
    exact a.entries_le
  · rw [hsame.entries, hsame.forks]
    exact h.apart
  · rw [hsame.entries]
    exact h.entry_drawn
  · rw [hsame.forks]
    exact h.fork_drawn

section

variable (h : Kept P used s)
include h

theorem kept_receipt (id : String) {f : Receipt → Receipt}
    (hf : KeepsReceipt f) : Kept P used { s with receipts := s.receipts.alter id f } := by
  refine kept_receipts h ⟨rfl, rfl, rfl, rfl, rfl⟩ ?_ h.accounted.receiptBytes_le ?_ ?_ ?_
  · rw [KeyMap.total_alter_of_eq _ _ fun r => (hf r).1, h.accounted.receiptBytes]
  · exact (KeyMap.size_alter _ _ _).trans_le h.accounted.receipts_le
  · intro id' r hr
    rw [KeyMap.get?_alter] at hr
    obtain ⟨r', hr', rfl⟩ := Option.map_eq_some_iff.mp hr
    split
    · rw [(hf r').2.1, (hf r').2.2]
      exact h.stored id' r' hr'
    · exact h.stored id' r' hr'
  · exact fun token hreceipt => h.receipt_drawn token (get?_alter_ne_none.mp hreceipt)

theorem kept_store (now : Time)
    (hreceipt : s.receipts.get? id = some r) (hobservation : r.observation.isSome) :
    Kept P used { s with receipts := s.receipts.alter id fun r => { r with persistedAt := some now } } := by
  refine kept_receipts h ⟨rfl, rfl, rfl, rfl, rfl⟩ ?_ h.accounted.receiptBytes_le ?_ ?_ ?_
  · rw [KeyMap.total_alter_of_eq (g := fun r : Receipt => { r with persistedAt := some now }) _ _ fun r => rfl,
      h.accounted.receiptBytes]
  · exact (KeyMap.size_alter _ _ _).trans_le h.accounted.receipts_le
  · intro id' r' hr'
    rw [KeyMap.get?_alter] at hr'
    obtain ⟨r'', hr'', rfl⟩ := Option.map_eq_some_iff.mp hr'
    split
    · next hid =>
      subst hid
      rw [hreceipt, Option.some_inj] at hr''
      subst hr''
      exact fun _ => hobservation
    · exact h.stored id' r'' hr''
  · exact fun token hreceipt => h.receipt_drawn token (get?_alter_ne_none.mp hreceipt)

theorem kept_evict (hreceipt : s.receipts.get? id = some r) : Kept P used (evict s id r) := by
  have hnonneg := r.size_nonneg
  refine kept_receipts h ⟨rfl, rfl, rfl, rfl, rfl⟩ ?_ ?_ ?_ ?_ ?_
  · change s.receiptBytes - r.size = (s.receipts.erase id).total Receipt.size
    rw [KeyMap.total_erase _ hreceipt, h.accounted.receiptBytes]
  · have := h.accounted.receiptBytes_le
    change s.receiptBytes - r.size ≤ _
    omega
  · exact (KeyMap.size_erase_le _ _).trans h.accounted.receipts_le
  · intro id' r' hr'
    change (s.receipts.erase id).get? id' = some r' at hr'
    rw [KeyMap.get?_erase] at hr'
    split at hr'
    · cases hr'
    · exact h.stored id' r' hr'
  · exact fun token hreceipt' => h.receipt_drawn token (get?_erase_ne_none hreceipt').2

theorem kept_addReceipt {attempt : String} (hdrawn : attempt ∈ used)
    (hreceipt : s.receipts.get? attempt = none) (hroom : s.receipts.size < sourceReleaseMaxEntries)
    (hbytes : s.receiptBytes + (r.prepared.length + r.admitted.length : ℕ) ≤ sourceReleaseMaxBytes)
    (hobservation : r.observation = none) (hstarted : r.started = none) (hstored : r.persistedAt = none) :
    Kept P used (addReceipt s attempt r) := by
  have hsize : r.size = (r.prepared.length + r.admitted.length : ℕ) := by simp [Receipt.size, hobservation, hstarted]
  refine kept_receipts h ⟨rfl, rfl, rfl, rfl, rfl⟩ ?_ hbytes ?_ ?_ ?_
  · change s.receiptBytes + _ = (s.receipts.put attempt r).total Receipt.size
    rw [KeyMap.total_put_of_none _ _ hreceipt, h.accounted.receiptBytes, hsize]
  · change (s.receipts.put attempt r).size ≤ _
    rw [KeyMap.size_put_of_none _ hreceipt]
    exact hroom
  · intro id' r' hr'
    change (s.receipts.put attempt r).get? id' = some r' at hr'
    rw [KeyMap.get?_put] at hr'
    split at hr'
    · cases hr'
      simp [hstored]
    · exact h.stored id' r' hr'
  · intro token hreceipt'
    rcases get?_put_ne_none hreceipt' with rfl | hold
    · exact hdrawn
    · exact h.receipt_drawn token hold

theorem kept_detail {f : Receipt → Receipt} {n : ℕ}
    (hreceipt : s.receipts.get? id = some r) (hsize : (f r).size = r.size + n)
    (hbytes : s.receiptBytes + n ≤ sourceReleaseMaxBytes) (hstored : (f r).persistedAt.isSome →
      (f r).observation.isSome) :
    Kept P used { s with receipts := s.receipts.alter id f, receiptBytes := s.receiptBytes + n } := by
  refine kept_receipts h ⟨rfl, rfl, rfl, rfl, rfl⟩ ?_ hbytes ?_ ?_ ?_
  · dsimp only
    rw [KeyMap.total_alter _ _ hreceipt, h.accounted.receiptBytes]
    omega
  · exact (KeyMap.size_alter _ _ _).trans_le h.accounted.receipts_le
  · intro id' r' hr'
    rw [KeyMap.get?_alter] at hr'
    obtain ⟨r'', hr'', rfl⟩ := Option.map_eq_some_iff.mp hr'
    split
    · next hid =>
      subst hid
      rw [hreceipt, Option.some_inj] at hr''
      subst hr''
      exact hstored
    · exact h.stored id' r'' hr''
  · exact fun token hreceipt' => h.receipt_drawn token (get?_alter_ne_none.mp hreceipt')

end

theorem kept_move {used tokens : List String} {s s' : State Ref} (hsub : ∀ t ∈ tokens, t ∈ used)
    (hmove : Move P tokens s s') (h : Kept P used s) : Kept P used s' := by
  cases hmove with
  | expire now => exact kept_expire h now
  | entry slot f hf => exact kept_entry h slot hf
  | receipt id f hf => exact kept_receipt h id hf
  | producer p => exact ⟨{ h.accounted with }, h.stored, h.apart, h.entry_drawn, h.fork_drawn, h.receipt_drawn⟩
  | addEntry token e hdrawn hentry hfork hroom hbytes hhealth =>
    exact kept_addEntry h (hsub _ hdrawn) hentry hfork hroom hbytes hhealth
  | dropEntry token e hentry => exact kept_dropEntry h hentry
  | addFork token fork hdrawn hentry hfork hroom hbytes hhealth =>
    exact kept_addFork h (hsub _ hdrawn) hentry hfork hroom hbytes hhealth
  | dropFork token => exact kept_dropFork h token
  | promoteFork token => exact kept_promoteFork h token
  | evict id r hreceipt => exact kept_evict h hreceipt
  | addReceipt attempt r hdrawn hreceipt hroom hbytes hobservation hstarted hstored =>
    exact kept_addReceipt h (hsub _ hdrawn) hreceipt hroom hbytes hobservation hstarted hstored
  | store id r now hreceipt hobservation => exact kept_store h now hreceipt hobservation
  | detail id r f n hreceipt hsize hbytes hstored => exact kept_detail h hreceipt hsize hbytes hstored

theorem kept_moves {used tokens : List String} {s s' : State Ref} (hsub : ∀ t ∈ tokens, t ∈ used)
    (hmoves : Moves P tokens s s') (h : Kept P used s) : Kept P used s' := by
  induction hmoves with
  | refl => exact h
  | tail _ hmove ih => exact kept_move hsub hmove ih

/-! ## Runs -/

/-- The tokens that were drawn in a run. -/
def drawn (steps : List (Step Ref)) : List String := steps.flatMap fun st => st.draws.tokens

@[simp]
theorem drawn_concat (steps : List (Step Ref)) (st : Step Ref) :
    drawn (steps ++ [st]) = drawn steps ++ st.draws.tokens := by
  simp [drawn]

theorem Fresh.init (h : Fresh (steps ++ [st])) : Fresh steps where
  valid t ht := h.valid t (by rw [List.flatMap_append]; exact List.mem_append_left _ ht)
  distinct := by
    have hdistinct := h.distinct
    rw [List.flatMap_append, List.nodup_append] at hdistinct
    exact hdistinct.1

theorem Fresh.last (h : Fresh (steps ++ [st])) : ∀ t ∈ st.draws.tokens, t ∉ drawn steps := by
  intro t ht hold
  have hdistinct := h.distinct
  rw [List.flatMap_append, List.nodup_append] at hdistinct
  exact hdistinct.2.2 t hold t (by simpa using ht) rfl

theorem Fresh.concat (h : Fresh steps)
    (hvalid : ∀ t ∈ st.draws.tokens, releaseTokenValid t = true) (hdistinct : st.draws.tokens.Nodup)
    (hnew : ∀ t ∈ st.draws.tokens, t ∉ drawn steps) : Fresh (steps ++ [st]) := by
  have htokens : (steps ++ [st]).flatMap (fun st => st.draws.tokens) = drawn steps ++ st.draws.tokens :=
    drawn_concat steps st
  constructor
  · intro t ht
    rw [htokens] at ht
    exact (List.mem_append.mp ht).elim (h.valid t) (hvalid t)
  · rw [htokens, List.nodup_append]
    exact ⟨h.distinct, hdistinct, fun t ht t' ht' heq => hnew t' ht' (heq ▸ ht)⟩

/-- No step of a run starts an attempt whose receipt it evicts for the record of it. -/
def NoDrift (P : Platform Ref) (steps : List (Step Ref)) : Prop :=
  ∀ before st after, steps = before ++ st :: after → ¬ StartDrifts P (run P before) st

theorem NoDrift.init (h : NoDrift P (steps ++ [st])) : NoDrift P steps := by
  rintro before st' after rfl
  exact h before st' (after ++ [st]) (by simp)

theorem noDrift_of_no_start
    (h : ∀ st ∈ steps, ∀ args, st.call = .release args → args.operation ≠ .providerReceiptStarted) :
    NoDrift P steps := by
  rintro before st after rfl ⟨args, hcall, hop, -⟩
  exact h st (by simp) args hcall hop

theorem step_of_concat {steps before after : List (Step Ref)} {st st' : Step Ref}
    (h : steps ++ [st] = before ++ st' :: after) :
    (steps = before ∧ st = st') ∨ ∃ rest, steps = before ++ st' :: rest := by
  rcases List.eq_nil_or_concat after with rfl | ⟨rest, last, rfl⟩
  · obtain ⟨hsteps, hst⟩ := List.append_inj' h rfl
    exact .inl ⟨hsteps, List.head_eq_of_cons_eq hst⟩
  · rw [List.concat_eq_append, ← List.cons_append, ← List.append_assoc] at h
    exact .inr ⟨rest, (List.append_inj' h rfl).1⟩

theorem NoDrift.concat (h : NoDrift P steps) (hst : ¬ StartDrifts P (run P steps) st) : NoDrift P (steps ++ [st]) := by
  intro before st' after hsteps
  rcases step_of_concat hsteps with ⟨rfl, rfl⟩ | ⟨rest, hrest⟩
  · exact hst
  · exact h before st' rest hrest

theorem NoDrift.append {steps' : List (Step Ref)} (h : NoDrift P steps)
    (hsteps : ∀ st ∈ steps', ∀ args, st.call = .release args → args.operation ≠ .providerReceiptStarted) :
    NoDrift P (steps ++ steps') := by
  induction steps' using List.reverseRecOn with
  | nil => rwa [List.append_nil]
  | append_singleton steps' st ih =>
    rw [← List.append_assoc]
    refine (ih fun st hst => hsteps st (List.mem_append_left _ hst)).concat ?_
    rintro ⟨args, hcall, hop, -⟩
    exact hsteps st (by simp) args hcall hop

theorem kept_run (hfresh : Fresh steps) (hdrift : NoDrift P steps) : Kept P (drawn steps) (run P steps) := by
  induction steps using List.reverseRecOn with
  | nil => exact kept_empty _
  | append_singleton steps st ih =>
    have h := ih hfresh.init hdrift.init
    have hunused := h.unused hfresh.last
    have hstart := hdrift steps st [] rfl
    rw [run_concat, drawn_concat]
    have hmoves : Moves P st.draws.tokens (run P steps) (next P (run P steps) st) :=
      moves_next h.stored h.accounted.receipts_le h.accounted.healthBytes_le hstart (fun t ht => ht) hunused
    exact kept_moves (fun t ht => List.mem_append_right _ ht) hmoves (h.mono fun t ht => List.mem_append_left _ ht)

/-- In a run whose tokens are fresh, and in which no start evicts its own receipt, the counters are
    exact and within their limits. -/
theorem source_release_accounts (P : Platform Ref) (steps : List (Step Ref)) (hfresh : Fresh steps)
    (hdrift : NoDrift P steps) :
    Accounted P (run P steps) :=
  (kept_run hfresh hdrift).accounted

end SourceRelease
