-- SUMMARY: What the operations of an exploration ledger book: one attempt charged, one refunded, or nothing.
import Aimee.ExecutionPolicy.ExplorationSession
import Mathlib.Algebra.Order.BigOperators.Group.List
import Mathlib.Algebra.Order.Ring.Int

/-!
# Exploration accounts

The counters of a usage are looked at one by one: the scans, the graph expansions, the bytes, the
tokens and the reads of every file. Whatever a ledger operation does, it books at most one attempt
at a time: a counter moves by as much as the attempts that are charged and not refunded.
-/

namespace ExecutionPolicy

/-! ## Counters -/

inductive ExplorationCounter where
  | rawScans
  | graph
  | bytes
  | tokens
  | file (name : String)

def ExplorationUsage.counter (u : ExplorationUsage) : ExplorationCounter → ℤ
  | .rawScans => u.rawScans
  | .graph => u.graph
  | .bytes => u.bytes
  | .tokens => u.tokens
  | .file name => u.reads name

/-- What an attempt costs. -/
def ExplorationAttempt.cost (a : ExplorationAttempt) : ExplorationCounter → ℤ
  | .rawScans => if a.class_ = .rawScan then 1 else 0
  | .graph => if a.class_ = .graphExpand then 1 else 0
  | .bytes => a.bytes
  | .tokens => a.tokens
  | .file name => if a.class_ = .fileRead ∧ a.file = name then 1 else 0

/-- The map of a usage has an entry exactly for the files that were read. -/
def ExplorationUsage.Tidy (u : ExplorationUsage) : Prop := ∀ row ∈ u.files.rows, 0 < row.2

variable {l : ExplorationLimits}

section Usage

variable {u u' : ExplorationUsage} {a : ExplorationAttempt}

@[simp]
theorem reads_setReads (u : ExplorationUsage) (file other : String) (n : ℤ) :
    (u.setReads file n).reads other = if file = other then n else u.reads other := by
  rw [ExplorationUsage.reads, ExplorationUsage.setReads, Table.find?_upsert]
  split
  · rfl
  · rfl

theorem reads_delete (u : ExplorationUsage) (file other : String) :
    { u with files := u.files.delete (·.1 = file) }.reads other = if file = other then 0 else u.reads other := by
  rw [ExplorationUsage.reads, Table.find?_delete, ExplorationUsage.reads]
  cases hfind : u.files.find? other with
  | none => split <;> rfl
  | some row =>
    have hkey : row.1 = other := Table.key_of_find? hfind
    by_cases hfile : file = other
    · rw [Option.filter_some, if_neg (by simp [hkey, hfile]), if_pos hfile]
      rfl
    · rw [Option.filter_some, if_pos (by simpa [hkey] using Ne.symm hfile), if_neg hfile]

theorem tidy_setReads {file : String} {n : ℤ} (h : u.Tidy) (hn : 0 < n) : (u.setReads file n).Tidy := by
  intro row hrow
  rcases Table.mem_rows_upsert.mp hrow with rfl | ⟨hrow, -⟩
  · exact hn
  · exact h row hrow

theorem reads_nonneg (h : u.Tidy) (file : String) : 0 ≤ u.reads file := by
  rw [ExplorationUsage.reads]
  cases hfind : u.files.find? file with
  | none => exact le_rfl
  | some row => exact (h row (Table.mem_of_find? hfind)).le

/-- The usage with the bytes and tokens of an attempt. -/
def ExplorationUsage.addOutput (u : ExplorationUsage) (bytes tokens : ℤ) : ExplorationUsage :=
  { u with bytes := u.bytes + bytes, tokens := u.tokens + tokens }

section

variable (h : addUsage u a = .ok u')
include h

/-- What a charge does, with the bounds that were checked. -/
theorem addUsage_cases :
    (0 ≤ a.bytes ∧ 0 ≤ a.tokens) ∧
      (u.bytes + a.bytes ≤ maxInt64 ∧ u.tokens + a.tokens ≤ maxInt64 ∧ u.rawScans ≠ maxInt64 ∧
        u.graph ≠ maxInt64) ∧
      ((a.class_ = .rawScan ∧ u' = { u.addOutput a.bytes a.tokens with rawScans := u.rawScans + 1 }) ∨
        (a.class_ = .graphExpand ∧ u' = { u.addOutput a.bytes a.tokens with graph := u.graph + 1 }) ∨
        (a.class_ = .fileRead ∧
          u' = (u.addOutput a.bytes a.tokens).setReads a.file (u.reads a.file + 1))) := by
  unfold addUsage at h
  split at h
  · cases h
  · next hcost =>
    simp only [not_or, not_lt] at hcost
    obtain ⟨hbytes, htokens, hbytes', htokens', hscans, hgraph⟩ := hcost
    refine ⟨⟨hbytes, htokens⟩, ⟨by omega, by omega, hscans, hgraph⟩, ?_⟩
    split at h
    · next hclass =>
      cases h
      exact .inl ⟨hclass, rfl⟩
    · next hclass =>
      cases h
      exact .inr (.inl ⟨hclass, rfl⟩)
    · next hclass =>
      split at h
      · cases h
      · cases h
        exact .inr (.inr ⟨hclass, rfl⟩)
    · cases h

theorem counter_addUsage (k : ExplorationCounter) :
    u'.counter k = u.counter k + a.cost k := by
  obtain ⟨-, -, ⟨hclass, rfl⟩ | ⟨hclass, rfl⟩ | ⟨hclass, rfl⟩⟩ := addUsage_cases h
  · cases k <;> simp [ExplorationUsage.counter, ExplorationAttempt.cost, hclass, ExplorationUsage.reads,
      ExplorationUsage.addOutput]
  · cases k <;> simp [ExplorationUsage.counter, ExplorationAttempt.cost, hclass, ExplorationUsage.reads,
      ExplorationUsage.addOutput]
  · cases k with
    | file name =>
      rw [ExplorationUsage.counter, reads_setReads, ExplorationAttempt.cost, ExplorationUsage.counter]
      by_cases hfile : a.file = name
      · rw [if_pos hfile, if_pos ⟨hclass, hfile⟩, hfile]
      · rw [if_neg hfile, if_neg fun h => hfile h.2, add_zero]
        rfl
    | _ => simp [ExplorationUsage.counter, ExplorationAttempt.cost, hclass, ExplorationUsage.setReads,
        ExplorationUsage.addOutput]

theorem cost_nonneg (k : ExplorationCounter) : 0 ≤ a.cost k := by
  obtain ⟨⟨hbytes, htokens⟩, -, -⟩ := addUsage_cases h
  cases k with
  | bytes => exact hbytes
  | tokens => exact htokens
  | _ =>
    rw [ExplorationAttempt.cost]
    split
    · exact Int.one_nonneg
    · exact le_rfl

theorem tidy_addUsage (htidy : u.Tidy) : u'.Tidy := by
  obtain ⟨-, -, ⟨-, rfl⟩ | ⟨-, rfl⟩ | ⟨-, rfl⟩⟩ := addUsage_cases h
  · exact htidy
  · exact htidy
  · have hreads := reads_nonneg htidy a.file
    have htidy' : (u.addOutput a.bytes a.tokens).Tidy := htidy
    exact tidy_setReads htidy' (by omega)

end

/-- The counters that are checked before they grow stay 64-bit integers. -/
def ExplorationUsage.Fits (u : ExplorationUsage) : Prop :=
  ∀ k, (∀ name, k ≠ .file name) → u.counter k ≤ maxInt64

theorem fits_addUsage (h : addUsage u a = .ok u') (hfits : u.Fits) : u'.Fits := by
  intro k hk
  obtain ⟨-, ⟨hbytes, htokens, hscans, hgraph⟩, -⟩ := addUsage_cases h
  rw [counter_addUsage h]
  have hle := hfits k hk
  cases k with
  | rawScans =>
    have hless : u.rawScans < maxInt64 := lt_of_le_of_ne hle hscans
    rw [ExplorationAttempt.cost]
    split
    · exact hless
    · rw [add_zero]
      exact hle
  | graph =>
    have hless : u.graph < maxInt64 := lt_of_le_of_ne hle hgraph
    rw [ExplorationAttempt.cost]
    split
    · exact hless
    · rw [add_zero]
      exact hle
  | bytes => exact hbytes
  | tokens => exact htokens
  | file name => exact absurd rfl (hk name)

theorem counter_refundUsage (u : ExplorationUsage) (a : ExplorationAttempt) (k : ExplorationCounter) :
    (refundUsage u a).counter k = u.counter k - a.cost k := by
  unfold refundUsage
  dsimp only
  split
  · next hclass =>
    cases k <;> simp [ExplorationUsage.counter, ExplorationAttempt.cost, hclass, ExplorationUsage.reads]
  · next hclass =>
    cases k <;> simp [ExplorationUsage.counter, ExplorationAttempt.cost, hclass, ExplorationUsage.reads]
  · next hclass =>
    split
    · next hlast =>
      cases k with
      | file name =>
        have hreads : u.reads a.file = 1 := by
          change u.reads a.file - 1 = 0 at hlast
          omega
        rw [ExplorationUsage.counter, ExplorationAttempt.cost, ExplorationUsage.counter]
        refine (reads_delete _ a.file name).trans ?_
        by_cases hfile : a.file = name
        · rw [if_pos hfile, if_pos ⟨hclass, hfile⟩, ← hfile, hreads, sub_self]
        · rw [if_neg hfile, if_neg fun h => hfile h.2, sub_zero]
      | _ => simp [ExplorationUsage.counter, ExplorationAttempt.cost, hclass]
    · cases k with
      | file name =>
        rw [ExplorationUsage.counter, reads_setReads, ExplorationAttempt.cost]
        by_cases hfile : a.file = name
        · rw [if_pos hfile, if_pos ⟨hclass, hfile⟩, ← hfile]
          rfl
        · rw [if_neg hfile, if_neg fun h => hfile h.2, sub_zero]
          rfl
      | _ => simp [ExplorationUsage.counter, ExplorationAttempt.cost, hclass, ExplorationUsage.setReads]
  · next hclass =>
    cases k <;> simp [ExplorationUsage.counter, ExplorationAttempt.cost, hclass, ExplorationUsage.reads]

theorem tidy_refundUsage (htidy : u.Tidy) (hcost : ∀ k, a.cost k ≤ u.counter k) : (refundUsage u a).Tidy := by
  unfold refundUsage
  dsimp only
  split
  · exact htidy
  · exact htidy
  · next hclass =>
    have hread : 1 ≤ u.reads a.file := by
      have hfile := hcost (.file a.file)
      rwa [ExplorationAttempt.cost, if_pos ⟨hclass, rfl⟩] at hfile
    split
    · exact fun row hrow => htidy row (Table.mem_rows_delete.mp hrow).1
    · next hlast =>
      change ¬u.reads a.file - 1 = 0 at hlast
      refine tidy_setReads (u := { u with bytes := u.bytes - a.bytes, tokens := u.tokens - a.tokens }) htidy ?_
      change 0 < u.reads a.file - 1
      omega
  · exact htidy

theorem length_files_refundUsage (hcost : ∀ k, a.cost k ≤ u.counter k) :
    (refundUsage u a).files.rows.length ≤ u.files.rows.length := by
  unfold refundUsage
  dsimp only
  split
  · exact le_rfl
  · exact le_rfl
  · next hclass =>
    split
    · exact List.length_filter_le _ _
    · have hread : 1 ≤ u.reads a.file := by
        have hfile := hcost (.file a.file)
        rwa [ExplorationAttempt.cost, if_pos ⟨hclass, rfl⟩] at hfile
      have hknown : (u.files.find? a.file).isSome := by
        by_contra hnone
        rw [ExplorationUsage.reads, Option.not_isSome_iff_eq_none.mp hnone] at hread
        cases hread
      rw [ExplorationUsage.setReads, Table.length_upsert, if_pos hknown]
      exact le_rfl
  · exact le_rfl

theorem exceeds_mono {n n' : ℤ} {ceiling : Option ℤ} (h : exceeds n ceiling = false) (hle : n' ≤ n) :
    exceeds n' ceiling = false := by
  cases ceiling with
  | none => rfl
  | some c =>
    have hn : ¬c < n := of_decide_eq_false h
    exact decide_eq_false (by omega)

/-- A usage that lies below another one exceeds no limit that the other one keeps. -/
theorem exceeds_of_le (h : u.exceeds l = false) (hle : ∀ k, u'.counter k ≤ u.counter k)
    (hfiles : u'.files.rows.length ≤ u.files.rows.length) : u'.exceeds l = false := by
  simp only [ExplorationUsage.exceeds, Bool.or_eq_false_iff] at h ⊢
  obtain ⟨⟨⟨⟨hscans, hkeys⟩, hgraph⟩, hbytes⟩, htokens⟩ := h
  exact ⟨⟨⟨⟨exceeds_mono hscans (hle .rawScans), exceeds_mono hkeys (by exact_mod_cast hfiles)⟩,
    exceeds_mono hgraph (hle .graph)⟩, exceeds_mono hbytes (hle .bytes)⟩, exceeds_mono htokens (hle .tokens)⟩

end Usage

/-! ## Bookings -/

/-- What a reservation counts for: an attempt that was admitted and not refunded. -/
def ExplorationReservation.weight (r : ExplorationReservation) (k : ExplorationCounter) : ℤ :=
  if r.charged && !r.refunded then r.attempt.cost k else 0

/-- The sum of the admitted and not refunded attempts of a task. -/
def ExplorationSnapshot.spent (s : ExplorationSnapshot) (k : ExplorationCounter) : ℤ :=
  (s.attempts.rows.map (·.weight k)).sum

/-- A row is charged exactly when its decision does not restrict the attempt. -/
def ExplorationReservation.Frank (r : ExplorationReservation) : Prop := r.charged = !r.decision.restricted

/-- The counters of two snapshots are the same. -/
structure SameUsage (s s' : ExplorationSnapshot) : Prop where
  task : s'.taskUsage = s.taskUsage
  session : s'.sessionUsage = s.sessionUsage

/-- One booking of a ledger, under the limits of the operator. -/
inductive Booked (operator : Option ExplorationLimits) (s s' : ExplorationSnapshot) : Prop where
  /-- The attempts stay as they are. -/
  | idle (hattempts : s'.attempts = s.attempts) (husage : SameUsage s s')
  /-- A reservation is noted that counts for what the one before it did. -/
  | note (r : ExplorationReservation) (hattempts : s'.attempts = s.attempts.upsert r) (husage : SameUsage s s')
      (hweight : ∀ k, r.weight k = ((s.attempts.find? r.attempt.id).map (·.weight k)).getD 0)
      (hknown : r.charged = true → ∃ old ∈ s.attempts.rows, old.charged = true ∧ old.attempt = r.attempt)
      (hfrank : (∀ old ∈ s.attempts.rows, old.Frank) → r.Frank)
      (hroom : s.attempts.find? r.attempt.id = none → s.attempts.rows.length < 4096)
  | charge (r : ExplorationReservation) (hattempts : s'.attempts = s.attempts.upsert r)
      (hnew : s.attempts.find? r.attempt.id = none) (hcharged : r.charged = true) (hrefunded : r.refunded = false)
      (hfrank : r.Frank)
      (htask : addUsage s.taskUsage r.attempt = .ok s'.taskUsage)
      (hsession : addUsage s.sessionUsage r.attempt = .ok s'.sessionUsage)
      (hroom : s.attempts.rows.length < 4096)
      (hlimits : ∃ l, operator = some l ∧ l.valid = true ∧ s'.sessionUsage.exceeds l = false)
  | refund (r : ExplorationReservation) (hattempts : s'.attempts = s.attempts.upsert { r with refunded := true })
      (hfind : s.attempts.find? r.attempt.id = some r) (hcharged : r.charged = true) (hrefunded : r.refunded = false)
      (htask : s'.taskUsage = refundUsage s.taskUsage r.attempt)
      (hsession : s'.sessionUsage = refundUsage s.sessionUsage r.attempt)

variable {c : ExplorationContract} {tu su : ExplorationUsage} {id : String}

section Ledger

variable {s s' : ExplorationSnapshot} {operator : Option ExplorationLimits} {now : ℤ} {r : ExplorationReservation}

theorem bind_eq_ok_iff {α β ε : Type} {x : Except ε α} {f : α → Except ε β} {b : β} :
    (x >>= f) = .ok b ↔ ∃ a, x = .ok a ∧ f a = .ok b := by
  cases x with
  | error e => exact ⟨nofun, nofun⟩
  | ok a => exact ⟨fun h => ⟨a, rfl, h⟩, fun ⟨_, ha, h⟩ => by cases ha; exact h⟩

theorem map_eq_ok_iff {α β ε : Type} {x : Except ε α} {f : α → β} {b : β} :
    x.map f = .ok b ↔ ∃ a, x = .ok a ∧ f a = b := by
  cases x with
  | error e => exact ⟨nofun, nofun⟩
  | ok a => exact ⟨fun h => ⟨a, rfl, Except.ok.inj h⟩, fun ⟨_, ha, h⟩ => by cases ha; exact congrArg _ h⟩

/-- The contract in force stays in its budget group. -/
def KeepsGroup (s s' : ExplorationSnapshot) : Prop :=
  ∀ c, s.current = some c → ∃ c', s'.current = some c' ∧ c'.binding.group = c.binding.group

theorem KeepsGroup.same (h : s'.revisions = s.revisions) : KeepsGroup s s' := by
  intro c hc
  exact ⟨c, by rw [ExplorationSnapshot.current, h]; exact hc, rfl⟩

theorem KeepsGroup.append {c' : ExplorationContract} (h : s'.revisions = s.revisions ++ [c'])
    (hgroup : ∀ c, s.current = some c → c'.binding.group = c.binding.group) : KeepsGroup s s' := by
  intro c hc
  exact ⟨c', by rw [ExplorationSnapshot.current, h, List.getLast?_concat], hgroup c hc⟩

theorem KeepsGroup.trans {s'' : ExplorationSnapshot} (h : KeepsGroup s s') (h' : KeepsGroup s' s'') :
    KeepsGroup s s'' := by
  intro c hc
  obtain ⟨c', hc', hgroup⟩ := h c hc
  obtain ⟨c'', hc'', hgroup'⟩ := h' c' hc'
  exact ⟨c'', hc'', hgroup'.trans hgroup⟩

/-- What one operation of a ledger does. -/
structure Posted (operator : Option ExplorationLimits) (s s' : ExplorationSnapshot) : Prop where
  booked : Booked operator s s'
  keeps : KeepsGroup s s'

/-- Nothing that a booking looks at differs between the two starts. -/
theorem Posted.of_same {s₁ : ExplorationSnapshot} (h : Posted operator s₁ s') (hattempts : s₁.attempts = s.attempts)
    (husage : SameUsage s s₁) (hrevisions : s₁.revisions = s.revisions) : Posted operator s s' := by
  refine ⟨?_, (KeepsGroup.same hrevisions).trans h.keeps⟩
  obtain ⟨htask, hsession⟩ := husage
  cases h.booked with
  | idle h₁ h₂ => exact .idle (h₁.trans hattempts) ⟨h₂.task.trans htask, h₂.session.trans hsession⟩
  | note r h₁ h₂ h₃ h₄ h₅ h₆ =>
    rw [hattempts] at h₁ h₃ h₄ h₅ h₆
    exact .note r h₁ ⟨h₂.task.trans htask, h₂.session.trans hsession⟩ h₃ h₄ h₅ h₆
  | charge r h₁ h₂ h₃ h₄ h₅ h₆ h₇ h₈ h₉ =>
    rw [hattempts] at h₁ h₂ h₈
    exact .charge r h₁ h₂ h₃ h₄ h₅ (htask ▸ h₆) (hsession ▸ h₇) h₈ h₉
  | refund r h₁ h₂ h₃ h₄ h₅ h₆ =>
    rw [hattempts] at h₁ h₂
    exact .refund r h₁ h₂ h₃ h₄ (htask ▸ h₅) (hsession ▸ h₆)

theorem posted_issue (h : s.issue c now = .ok s') : Posted operator s s' := by
  unfold ExplorationSnapshot.issue at h
  split_ifs at h with hvalid hfull hmoved
  cases h
  refine ⟨.idle rfl ⟨rfl, rfl⟩, .append rfl fun old hold => ?_⟩
  rw [hold, Option.any_some] at hmoved
  simp only [Bool.or_eq_true, decide_eq_true_eq, not_or, not_not] at hmoved
  exact hmoved.2

theorem posted_start (h : s.start id = .ok s') : Posted operator s s' := by
  revert h
  fun_cases ExplorationSnapshot.start s id <;> intro h <;> cases h
  next r hfind _ =>
    obtain ⟨hmem, hid⟩ := Table.find?_eq_some_iff.mp hfind
    refine ⟨.note { r with started := true } rfl ⟨rfl, rfl⟩ (fun k => ?_) (fun hcharged => ?_)
      (fun hfrank => hfrank r hmem) fun hnone => ?_, .same rfl⟩
    · change r.weight k = ((s.attempts.find? r.attempt.id).map _).getD 0
      rw [hid, hfind, Option.map_some, Option.getD_some]
    · exact ⟨r, hmem, hcharged, rfl⟩
    · rw [hid, hfind] at hnone
      cases hnone

theorem posted_cancelBeforeDispatch (h : s.cancelBeforeDispatch id = .ok s') :
    Posted operator s s' := by
  unfold ExplorationSnapshot.cancelBeforeDispatch at h
  split at h
  · cases h
  · next r hfind =>
    obtain ⟨hmem, hid⟩ := Table.find?_eq_some_iff.mp hfind
    have hfind' : s.attempts.find? r.attempt.id = some r := hid ▸ hfind
    split_ifs at h with hstarted hrefunded hcharged
    · cases h
      exact ⟨.idle rfl ⟨rfl, rfl⟩, .same rfl⟩
    · cases h
      exact ⟨.refund r rfl hfind' hcharged (Bool.eq_false_iff.mpr hrefunded) rfl rfl, .same rfl⟩
    · cases h
      refine ⟨.note { r with refunded := true } rfl ⟨rfl, rfl⟩ (fun k => ?_) (fun h => absurd h hcharged)
        (fun hfrank => hfrank r hmem) ?_, .same rfl⟩
      · rw [hfind', Option.map_some, Option.getD_some, ExplorationReservation.weight,
          ExplorationReservation.weight]
        simp [hcharged]
      · intro hnone
        rw [hfind'] at hnone
        cases hnone

theorem posted_relax (h : s.relax = .ok s') : Posted operator s s' := by
  revert h
  fun_cases ExplorationSnapshot.relax s <;> intro h <;> cases h
  · exact ⟨.idle rfl ⟨rfl, rfl⟩, .same rfl⟩
  · exact ⟨.idle rfl ⟨rfl, rfl⟩, .same rfl⟩
  · next hcurrent _ _ =>
    refine ⟨.idle rfl ⟨rfl, rfl⟩, .append rfl fun old hold => ?_⟩
    rw [hcurrent] at hold
    cases hold
    rfl

theorem posted_completedTurn {turn : UInt64} {constrained unresolved failed progress : Bool}
    (h : s.completedTurn turn constrained unresolved failed progress = .ok s') : Posted operator s s' := by
  unfold ExplorationSnapshot.completedTurn at h
  split at h
  · cases h
    exact ⟨.idle rfl ⟨rfl, rfl⟩, .same rfl⟩
  · exact (posted_relax h).of_same rfl ⟨rfl, rfl⟩ rfl

theorem posted_recordIndexedOutcome {o : IndexedOutcome} (h : s.recordIndexedOutcome o now = .ok s') :
    Posted operator s s' := by
  revert h
  fun_cases ExplorationSnapshot.recordIndexedOutcome s o now <;> intro h <;> cases h <;>
    exact ⟨.idle rfl ⟨rfl, rfl⟩, .same rfl⟩

theorem posted_expand {reason gap outcomeId : String} (h : s.expand reason gap outcomeId now = .ok s') :
    Posted operator s s' := by
  revert h
  fun_cases ExplorationSnapshot.expand s reason gap outcomeId now <;> intro h <;> cases h
  · exact ⟨.idle rfl ⟨rfl, rfl⟩, .same rfl⟩
  · next hcurrent _ _ _ _ _ _ _ _ =>
    refine ⟨.idle rfl ⟨rfl, rfl⟩, .append rfl fun old hold => ?_⟩
    rw [hcurrent] at hold
    cases hold
    rfl

section Reserve

variable {a : ExplorationAttempt} {limits : ExplorationLimits} {optIn : Bool} {calibrated : String → String → Bool}
  {d : ExplorationDecision}

/-- An attempt that is not restricted leaves the session within the operator's limits. -/
theorem weigh_restricted
    (h : (s.weigh a tu su limits optIn calibrated now).1.restricted = false) : su.exceeds limits = false := by
  exact (Bool.or_eq_false_iff.mp h).1

/-- An attempt that is entered is charged, or noted as refused. -/
theorem posted_enter {fallback : Option ℕ} (hnew : s.attempts.find? a.id = none)
    (hroom : s.attempts.rows.length < 4096) (htask : addUsage s.taskUsage a = .ok tu)
    (hsession : addUsage s.sessionUsage a = .ok su) (hvalid : limits.valid = true)
    (hwithin : d.restricted = false → su.exceeds limits = false) :
    Posted (some limits) s (s.enter a tu su d fallback now) ∧
      (d.restricted = true → SameUsage s (s.enter a tu su d fallback now)) := by
  unfold ExplorationSnapshot.enter
  cases hrestricted : d.restricted with
  | true =>
    refine ⟨⟨.note _ rfl ⟨rfl, rfl⟩ (fun k => ?_) nofun (fun _ => ?_) fun _ => hroom, .same rfl⟩,
      fun _ => ⟨rfl, rfl⟩⟩
    · rw [hnew]
      rfl
    · rw [ExplorationReservation.Frank, hrestricted]
  | false =>
    refine ⟨⟨.charge _ rfl hnew rfl rfl ?_ htask hsession hroom ⟨limits, rfl, hvalid, hwithin hrestricted⟩, .same rfl⟩,
      nofun⟩
    rw [ExplorationReservation.Frank, hrestricted]

theorem admit_spec (hnew : s.attempts.find? a.id = none) (hvalid : limits.valid = true)
    (h : s.admitAttempt a limits optIn calibrated now = .ok (d, s')) :
    Posted (some limits) s s' ∧ (d.restricted = true → SameUsage s s') := by
  unfold ExplorationSnapshot.admitAttempt at h
  split at h
  · cases h
  · next hroom =>
    obtain ⟨tu, htask, h⟩ := bind_eq_ok_iff.mp h
    obtain ⟨su, hsession, h⟩ := bind_eq_ok_iff.mp h
    obtain ⟨rfl, rfl⟩ := Prod.mk.inj (Except.ok.inj h)
    exact posted_enter hnew (not_le.mp hroom) htask hsession hvalid weigh_restricted

theorem reserve_known (hknown : (s.attempts.find? a.id).isSome)
    (h : s.reserve a limits optIn calibrated now = .ok (d, s')) : s' = s := by
  unfold ExplorationSnapshot.reserve at h
  split at h
  · cases h
  · split at h
    · split_ifs at h
      cases h
      rfl
    · next hnone =>
      rw [hnone] at hknown
      cases hknown

theorem reserve_spec (h : s.reserve a limits optIn calibrated now = .ok (d, s')) :
    Posted (some limits) s s' ∧ (d.restricted = true → SameUsage s s') := by
  by_cases hknown : (s.attempts.find? a.id).isSome
  · cases reserve_known hknown h
    exact ⟨⟨.idle rfl ⟨rfl, rfl⟩, .same rfl⟩, fun _ => ⟨rfl, rfl⟩⟩
  · have hnew := Option.not_isSome_iff_eq_none.mp hknown
    unfold ExplorationSnapshot.reserve at h
    split at h
    · cases h
    · next hvalid =>
      rw [hnew] at h
      simp only [not_or, Bool.not_eq_true', Bool.not_eq_false] at hvalid
      exact admit_spec hnew hvalid.2.2 h

theorem find?_enter {fallback : Option ℕ} (hadmitted : d.restricted = false) :
    ∃ r, (s.enter a tu su d fallback now).attempts.find? a.id = some r ∧ r.charged = true ∧ r.refunded = false := by
  refine ⟨{ reservedAt := now, attempt := a, decision := d, charged := !d.restricted }, ?_, by simp [hadmitted], rfl⟩
  rw [ExplorationSnapshot.enter, hadmitted]
  exact (Table.find?_upsert ..).trans (if_pos rfl)

/-- An attempt that is let through has a charged row that was not refunded. -/
theorem reserve_admits (hfrank : ∀ r ∈ s.attempts.rows, r.Frank)
    (h : s.reserve a limits optIn calibrated now = .ok (d, s')) (hadmitted : d.restricted = false) :
    ∃ r, s'.attempts.find? a.id = some r ∧ r.charged = true ∧ r.refunded = false := by
  unfold ExplorationSnapshot.reserve at h
  split at h
  · cases h
  · split at h
    · next old hfind =>
      split_ifs at h with _ hrefunded
      cases h
      have hold := hfrank old (Table.mem_of_find? hfind)
      rw [ExplorationReservation.Frank, hadmitted] at hold
      exact ⟨old, hfind, hold, Bool.eq_false_iff.mpr hrefunded⟩
    · unfold ExplorationSnapshot.admitAttempt at h
      split at h
      · cases h
      · obtain ⟨tu, -, h⟩ := bind_eq_ok_iff.mp h
        obtain ⟨su, -, h⟩ := bind_eq_ok_iff.mp h
        obtain ⟨rfl, rfl⟩ := Prod.mk.inj (Except.ok.inj h)
        exact find?_enter hadmitted

end Reserve

/-! ## What a booking keeps -/

theorem spent_upsert {t : Table ExplorationReservation (·.attempt.id)} (h : s'.attempts = t.upsert r)
    (k : ExplorationCounter) :
    s'.spent k = (t.rows.map (·.weight k)).sum - ((t.find? r.attempt.id).map (·.weight k)).getD 0 + r.weight k := by
  rw [ExplorationSnapshot.spent, h, Table.sum_upsert]

theorem Booked.conserves (h : Booked operator s s') (k : ExplorationCounter) :
    s'.taskUsage.counter k - s.taskUsage.counter k = s'.spent k - s.spent k ∧
      s'.sessionUsage.counter k - s.sessionUsage.counter k = s'.spent k - s.spent k := by
  cases h with
  | idle hattempts husage =>
    rw [husage.task, husage.session, ExplorationSnapshot.spent, ExplorationSnapshot.spent, hattempts]
    exact ⟨by omega, by omega⟩
  | note r hattempts husage hweight =>
    rw [husage.task, husage.session, spent_upsert hattempts, hweight k, ExplorationSnapshot.spent]
    exact ⟨by omega, by omega⟩
  | charge r hattempts hnew hcharged hrefunded _ htask hsession =>
    have hcost : r.weight k = r.attempt.cost k := by
      rw [ExplorationReservation.weight, hcharged, hrefunded]
      rfl
    rw [counter_addUsage htask, counter_addUsage hsession, spent_upsert hattempts, hnew, hcost,
      ExplorationSnapshot.spent, Option.map_none, Option.getD_none]
    exact ⟨by omega, by omega⟩
  | refund r hattempts hfind hcharged hrefunded htask hsession =>
    have hcost : r.weight k = r.attempt.cost k := by
      rw [ExplorationReservation.weight, hcharged, hrefunded]
      rfl
    have hvoid : ({ r with refunded := true } : ExplorationReservation).weight k = 0 := by
      rw [ExplorationReservation.weight, Bool.not_true, Bool.and_false]
      rfl
    have hspent := spent_upsert hattempts k
    change s'.spent k = s.spent k - ((s.attempts.find? r.attempt.id).map (·.weight k)).getD 0 + _ at hspent
    rw [hfind, Option.map_some, Option.getD_some] at hspent
    rw [htask, hsession, counter_refundUsage, counter_refundUsage]
    exact ⟨by omega, by omega⟩

/-- A ledger whose counters cover its attempts. -/
structure Balanced (s : ExplorationSnapshot) : Prop where
  fair : ∀ r ∈ s.attempts.rows, r.charged = true → ∀ k, 0 ≤ r.attempt.cost k
  task : ∀ k, s.spent k ≤ s.taskUsage.counter k
  session : ∀ k, s.spent k ≤ s.sessionUsage.counter k
  tidyTask : s.taskUsage.Tidy
  tidySession : s.sessionUsage.Tidy
  room : s.attempts.rows.length ≤ 4096

theorem weight_nonneg (hfair : r.charged = true → ∀ k, 0 ≤ r.attempt.cost k) (k : ExplorationCounter) :
    0 ≤ r.weight k := by
  rw [ExplorationReservation.weight]
  split
  · next hcounts =>
    rw [Bool.and_eq_true] at hcounts
    exact hfair hcounts.1 k
  · exact le_rfl

theorem spent_nonneg (hfair : ∀ r ∈ s.attempts.rows, r.charged = true → ∀ k, 0 ≤ r.attempt.cost k)
    (k : ExplorationCounter) : 0 ≤ s.spent k := by
  refine List.sum_nonneg fun w hw => ?_
  obtain ⟨r, hr, rfl⟩ := List.mem_map.mp hw
  exact weight_nonneg (hfair r hr) k

/-- A refund never takes more than the counters hold. -/
theorem Balanced.cost_le (h : Balanced s) (hr : r ∈ s.attempts.rows) (hcharged : r.charged = true)
    (hrefunded : r.refunded = false) (k : ExplorationCounter) :
    r.attempt.cost k ≤ s.taskUsage.counter k ∧ r.attempt.cost k ≤ s.sessionUsage.counter k := by
  have hweight : r.weight k = r.attempt.cost k := by
    rw [ExplorationReservation.weight, hcharged, hrefunded]
    rfl
  have hle : r.weight k ≤ s.spent k := by
    refine List.single_le_sum (fun w hw => ?_) _ (List.mem_map_of_mem hr)
    obtain ⟨r', hr', rfl⟩ := List.mem_map.mp hw
    exact weight_nonneg (h.fair r' hr') k
  have htask := h.task k
  have hsession := h.session k
  omega

section

variable (h : Booked operator s s')
include h

/-- A row after a booking: an older one, one that goes on from an older one or was refused, or the row
    of an attempt that is charged. -/
theorem Booked.row (hr : r ∈ s'.attempts.rows) :
    r ∈ s.attempts.rows ∨
      (r.charged = true → ∃ old ∈ s.attempts.rows, old.charged = true ∧ old.attempt = r.attempt) ∧
        ((∀ old ∈ s.attempts.rows, old.Frank) → r.Frank) ∨
      r.Frank ∧ (∃ u, addUsage s.taskUsage r.attempt = .ok u) ∧ ∃ l, operator = some l ∧ l.valid = true := by
  cases h with
  | idle hattempts => exact .inl (hattempts ▸ hr)
  | note r' hattempts _ _ hknown hfrank =>
    rcases Table.mem_rows_upsert.mp (hattempts ▸ hr) with rfl | ⟨hr, -⟩
    · exact .inr (.inl ⟨hknown, hfrank⟩)
    · exact .inl hr
  | charge r' hattempts _ _ _ hfrank htask _ _ hlimits =>
    rcases Table.mem_rows_upsert.mp (hattempts ▸ hr) with rfl | ⟨hr, -⟩
    · obtain ⟨l, hoperator, hvalid, -⟩ := hlimits
      exact .inr (.inr ⟨hfrank, ⟨_, htask⟩, l, hoperator, hvalid⟩)
    · exact .inl hr
  | refund r' hattempts hfind =>
    have hmem := Table.mem_of_find? hfind
    rcases Table.mem_rows_upsert.mp (hattempts ▸ hr) with rfl | ⟨hr, -⟩
    · exact .inr (.inl ⟨fun hcharged => ⟨r', hmem, hcharged, rfl⟩, fun hfrank => hfrank r' hmem⟩)
    · exact .inl hr

theorem Booked.fair (hfair : ∀ r ∈ s.attempts.rows, r.charged = true → ∀ k, 0 ≤ r.attempt.cost k) :
    ∀ r ∈ s'.attempts.rows, r.charged = true → ∀ k, 0 ≤ r.attempt.cost k := by
  intro r hr hcharged
  rcases h.row hr with hr | ⟨hknown, -⟩ | ⟨-, ⟨u, hcost⟩, -⟩
  · exact hfair r hr hcharged
  · obtain ⟨old, hold, hcharged, hattempt⟩ := hknown hcharged
    exact hattempt ▸ hfair old hold hcharged
  · exact cost_nonneg hcost

theorem Booked.frank (hfrank : ∀ r ∈ s.attempts.rows, r.Frank) : ∀ r ∈ s'.attempts.rows, r.Frank := by
  intro r hr
  rcases h.row hr with hr | ⟨-, hkept⟩ | ⟨hcharged, -⟩
  · exact hfrank r hr
  · exact hkept hfrank
  · exact hcharged

theorem Booked.balanced (hs : Balanced s) : Balanced s' := by
  have hfair := h.fair hs.fair
  have htask : ∀ k, s'.spent k ≤ s'.taskUsage.counter k := by
    intro k
    have hmoves := (h.conserves k).1
    have hle := hs.task k
    omega
  have hsession : ∀ k, s'.spent k ≤ s'.sessionUsage.counter k := by
    intro k
    have hmoves := (h.conserves k).2
    have hle := hs.session k
    omega
  have hroom := hs.room
  cases h with
  | idle hattempts husage =>
    exact ⟨hfair, htask, hsession, husage.task ▸ hs.tidyTask, husage.session ▸ hs.tidySession, hattempts ▸ hroom⟩
  | note r hattempts husage _ _ _ hnew =>
    refine ⟨hfair, htask, hsession, husage.task ▸ hs.tidyTask, husage.session ▸ hs.tidySession, ?_⟩
    rw [hattempts, Table.length_upsert]
    split
    · exact hroom
    · next hnone => exact hnew (Option.not_isSome_iff_eq_none.mp hnone)
  | charge r hattempts hnew _ _ _ htask' hsession' hless =>
    refine ⟨hfair, htask, hsession, tidy_addUsage htask' hs.tidyTask, tidy_addUsage hsession' hs.tidySession, ?_⟩
    rw [hattempts, Table.length_upsert, hnew]
    exact hless
  | refund r hattempts hfind hcharged hrefunded htask' hsession' =>
    have hcost := hs.cost_le (Table.mem_of_find? hfind) hcharged hrefunded
    refine ⟨hfair, htask, hsession, ?_, ?_, ?_⟩
    · rw [htask']
      exact tidy_refundUsage hs.tidyTask fun k => (hcost k).1
    · rw [hsession']
      exact tidy_refundUsage hs.tidySession fun k => (hcost k).2
    · rw [hattempts, Table.length_upsert]
      rw [hfind]
      exact hroom

theorem Booked.fits (hs : Balanced s) (hfits : s.sessionUsage.Fits) :
    s'.sessionUsage.Fits := by
  cases h with
  | idle _ husage => rw [husage.session]; exact hfits
  | note r _ husage => rw [husage.session]; exact hfits
  | charge r _ _ _ _ _ _ hsession => exact fits_addUsage hsession hfits
  | refund r _ hfind hcharged _ _ hsession =>
    intro k hk
    have hle := hfits k hk
    have hnonneg := hs.fair r (Table.mem_of_find? hfind) hcharged k
    rw [hsession, counter_refundUsage]
    omega

/-- No booking brings the session over limits that it keeps. -/
theorem Booked.within (hs : Balanced s)
    (hconst : ∀ l', operator = some l' → l' = l) (hwithin : s.sessionUsage.exceeds l = false) :
    s'.sessionUsage.exceeds l = false := by
  cases h with
  | idle _ husage => rw [husage.session]; exact hwithin
  | note r _ husage => rw [husage.session]; exact hwithin
  | charge r _ _ _ _ _ _ _ _ hlimits =>
    obtain ⟨l', hoperator, -, hkept⟩ := hlimits
    exact hconst l' hoperator ▸ hkept
  | refund r _ hfind hcharged hrefunded _ hsession =>
    have hmem := Table.mem_of_find? hfind
    have hcost := fun k => (hs.cost_le hmem hcharged hrefunded k).2
    rw [hsession]
    refine exceeds_of_le hwithin (fun k => ?_) (length_files_refundUsage hcost)
    have hnonneg := hs.fair r hmem hcharged k
    rw [counter_refundUsage]
    omega

/-- Under limits that are not valid nothing is charged. -/
theorem Booked.uncharged (hconst : ∀ l', operator = some l' → l' = l) (hinvalid : l.valid = false)
    (hs : ∀ r ∈ s.attempts.rows, r.charged = false) : ∀ r ∈ s'.attempts.rows, r.charged = false := by
  intro r hr
  rcases h.row hr with hr | ⟨hknown, -⟩ | ⟨-, -, l', hoperator, hvalid⟩
  · exact hs r hr
  · by_contra hcharged
    obtain ⟨old, hold, hcharged, -⟩ := hknown (Bool.eq_true_of_not_eq_false hcharged)
    rw [hs old hold] at hcharged
    cases hcharged
  · rw [hconst l' hoperator, hinvalid] at hvalid
    cases hvalid

end

end Ledger

/-! ## The operations of a request -/

/-- The limits of the operator, none when the policy cannot be read. -/
def ExplorationHost.limits (host : ExplorationHost) : Option ExplorationLimits :=
  host.policy.toOption.map ExplorationHost.operator

/-- A reply that refuses what was asked for. -/
def ExplorationReply.refused : ExplorationReply → Bool
  | .decision d => d.restricted
  | .response r => !r.allowed
  | _ => false

/-- A reply that lets an attempt through. -/
def ExplorationReply.admits : ExplorationReply → Bool
  | .decision d => !d.restricted
  | .response r => r.allowed && r.exploration.isSome
  | _ => false

/-- The attempt a request asks for. -/
def ExplorationRequest.names (req : ExplorationRequest) : Option String :=
  match req.operation with
  | .reserve => req.attempt.map (·.id)
  | .check => some req.attemptId
  | _ => none

/-- What an operation of a request does to the ledger of its task: bookings one after another, none of
    which moves a counter for a refusal or for an attempt that is known, and one of which stands for an
    attempt that is let through. -/
structure Performed (host : ExplorationHost) (req : ExplorationRequest) (s : ExplorationSnapshot)
    (reply : ExplorationReply) (s' : ExplorationSnapshot) : Prop where
  posted : Relation.ReflTransGen (Posted host.limits) s s'
  refused : reply.refused = true → SameUsage s s'
  known : ∀ id, req.names = some id → (s.attempts.find? id).isSome → SameUsage s s'
  admitted : reply.admits = true → (∀ r ∈ s.attempts.rows, r.Frank) →
    ∃ id r, req.names = some id ∧ s'.attempts.find? id = some r ∧ r.charged = true ∧ r.refunded = false

section Operations

variable {host : ExplorationHost} {now : ℤ} {req : ExplorationRequest} {s s' : ExplorationSnapshot}
  {reply : ExplorationReply}

theorem limits_of_policy {policy : Option ExplorationPolicy} (h : host.policy = .ok policy) :
    host.limits = some (ExplorationHost.operator policy) := by
  rw [ExplorationHost.limits, h]
  rfl

/-- Bookings for a request that asks for no attempt. -/
theorem Performed.of_posted (hposted : Relation.ReflTransGen (Posted host.limits) s s') (hnames : req.names = none)
    (hrefused : reply.refused = false) (hadmits : reply.admits = false) : Performed host req s reply s' := by
  refine ⟨hposted, fun h => ?_, fun id hid => ?_, fun h => ?_⟩
  · rw [hrefused] at h
    cases h
  · rw [hnames] at hid
    cases hid
  · rw [hadmits] at h
    cases h

/-- An operation of the ledger that answers nothing. -/
theorem Performed.of_map {x : Except String ExplorationSnapshot} (h : x.map (.ok, ·) = .ok (reply, s'))
    (hnames : req.names = none) (hposted : ∀ {s₁}, x = .ok s₁ → Posted host.limits s s₁) :
    Performed host req s reply s' := by
  obtain ⟨s₁, hx, h⟩ := map_eq_ok_iff.mp h
  cases h
  exact .of_posted (.single (hposted hx)) hnames rfl rfl

theorem Performed.unmoved (hadmits : reply.admits = false) : Performed host req s reply s := by
  refine ⟨.refl, fun _ => ⟨rfl, rfl⟩, fun _ _ _ => ⟨rfl, rfl⟩, fun h => ?_⟩
  rw [hadmits] at h
  cases h

theorem performed_issue (hnames : req.names = none) (h : applyIssue host now req s = .ok (reply, s')) :
    Performed host req s reply s' := by
  unfold applyIssue at h
  split at h
  · cases h
  · split at h
    · cases h
    · dsimp only at h
      split at h
      · cases h
        exact .unmoved rfl
      · obtain ⟨s₁, hissue, h⟩ := map_eq_ok_iff.mp h
        cases h
        exact .of_posted (.single (posted_issue hissue)) hnames rfl rfl

theorem stampContract_binding (host : ExplorationHost) (now : ℤ) (old : Option ExplorationContract)
    (c : ExplorationContract) : (stampContract host now old c).binding = c.binding := by
  have happrove : ∀ receipt c, (approveContract receipt c).binding = c.binding := by
    intro receipt c
    unfold approveContract
    split
    · rfl
    · rfl
  rw [stampContract, happrove]
  cases old with
  | none => rfl
  | some old => rfl

theorem current_of_issue (h : s.issue c now = .ok s') : s'.current = some c := by
  unfold ExplorationSnapshot.issue at h
  split_ifs at h
  cases h
  exact List.getLast?_concat

/-- The first contract of a task is bound as its request is. -/
theorem current_of_applyIssue (hnew : s.current = none) (h : applyIssue host now req s = .ok (reply, s')) :
    ∃ c, s'.current = some c ∧ c.binding = req.binding := by
  unfold applyIssue at h
  rw [hnew] at h
  split at h
  · cases h
  · next c hcontract =>
    split at h
    · cases h
    · next hbinding =>
      obtain ⟨s₁, hissue, h⟩ := map_eq_ok_iff.mp h
      cases h
      exact ⟨_, current_of_issue hissue, (stampContract_binding ..).trans (not_not.mp hbinding)⟩

theorem admitted_of_start (h : s.start id = .ok s') :
    ∃ r, s'.attempts.find? id = some r ∧ r.charged = true ∧ r.refunded = false := by
  revert h
  fun_cases ExplorationSnapshot.start s id <;> intro h <;> cases h
  next r hfind hadmitted =>
    rw [Bool.or_eq_true, not_or, Bool.not_eq_true', Bool.not_eq_false] at hadmitted
    refine ⟨{ r with started := true }, ?_, hadmitted.1, Bool.eq_false_iff.mpr hadmitted.2⟩
    exact (Table.find?_upsert ..).trans (if_pos (Table.key_of_find? hfind))

theorem start_sameUsage (h : s.start id = .ok s') : SameUsage s s' := by
  unfold ExplorationSnapshot.start at h
  split at h
  · cases h
  · split at h
    · cases h
    · cases h
      exact ⟨rfl, rfl⟩

section Reserving

variable {policy : Option ExplorationPolicy} {a : ExplorationAttempt} {d : ExplorationDecision}

theorem posted_reserveApproved (hpolicy : host.policy = .ok policy)
    (h : reserveApproved host now (ExplorationHost.operator policy) a s = .ok (d, s')) :
    Posted host.limits s s' ∧ (d.restricted = true → SameUsage s s') := by
  rw [limits_of_policy hpolicy]
  exact reserve_spec h

theorem reserveApproved_known {limits : ExplorationLimits} (hknown : (s.attempts.find? a.id).isSome)
    (h : reserveApproved host now limits a s = .ok (d, s')) : s' = s :=
  reserve_known hknown h

end Reserving

theorem performed_reserve (hoperation : req.operation = .reserve)
    (h : applyReserve host now req s = .ok (reply, s')) : Performed host req s reply s' := by
  unfold applyReserve at h
  split at h
  · cases h
  · next a hattempt =>
    split at h
    · cases h
    · obtain ⟨policy, hpolicy, h⟩ := bind_eq_ok_iff.mp h
      obtain ⟨⟨d, s₁⟩, hreserve, h⟩ := bind_eq_ok_iff.mp h
      cases h
      obtain ⟨hposted, hrefused⟩ := posted_reserveApproved hpolicy hreserve
      have hnames : req.names = some a.id := by rw [ExplorationRequest.names, hoperation, hattempt]; rfl
      refine ⟨.single hposted, hrefused, fun id hid hknown => ?_, fun hadmits hfrank => ?_⟩
      · rw [hnames] at hid
        cases hid
        cases reserveApproved_known (by exact hknown) hreserve
        exact ⟨rfl, rfl⟩
      · obtain ⟨r, hr⟩ := reserve_admits hfrank hreserve (by simpa [ExplorationReply.admits] using hadmits)
        exact ⟨a.id, r, hnames, hr⟩

theorem performed_check (hoperation : req.operation = .check)
    (h : applyCheck host now req s = .ok (reply, s')) : Performed host req s reply s' := by
  obtain ⟨policy, hpolicy, h⟩ := bind_eq_ok_iff.mp h
  dsimp only at h
  split at h
  · next hbaseline =>
    cases h
    refine .unmoved ?_
    rw [ExplorationReply.admits]
    simpa [Classical.or_iff_not_imp_left] using hbaseline
  · split at h
    · cases h
    · split at h
      · cases h
      · next digest _ =>
        obtain ⟨⟨d, s₁⟩, hadmit, h⟩ := bind_eq_ok_iff.mp h
        cases h
        obtain ⟨⟨d', s₂⟩, hreserve, hadmit⟩ := bind_eq_ok_iff.mp hadmit
        obtain ⟨hposted, hrefused⟩ := posted_reserveApproved hpolicy hreserve
        have hknown : ∀ id, req.names = some id → (s.attempts.find? id).isSome → SameUsage s s₂ := by
          intro id hid hsome
          rw [ExplorationRequest.names, hoperation] at hid
          cases hid
          cases reserveApproved_known hsome hreserve
          exact ⟨rfl, rfl⟩
        dsimp only at hadmit
        split at hadmit
        · next hrestricted =>
          cases hadmit
          refine ⟨.single hposted, fun _ => hrefused hrestricted, hknown, fun hadmits => ?_⟩
          rw [ExplorationReply.admits, hrestricted] at hadmits
          cases hadmits
        · next hrestricted =>
          obtain ⟨s₃, hstart, hadmit⟩ := bind_eq_ok_iff.mp hadmit
          cases hadmit
          have hsame := start_sameUsage hstart
          refine ⟨.tail (.single hposted) (posted_start hstart), fun h => ?_, fun id hid hsome => ?_, fun _ _ => ?_⟩
          · rw [ExplorationReply.refused, Bool.not_not] at h
            exact absurd h hrestricted
          · obtain ⟨htask, hsession⟩ := hknown id hid hsome
            exact ⟨hsame.task.trans htask, hsame.session.trans hsession⟩
          · obtain ⟨r, hr⟩ := admitted_of_start hstart
            exact ⟨req.attemptId, r, by rw [ExplorationRequest.names, hoperation], hr⟩

theorem performed_observeIndexed (hnames : req.names = none)
    (h : applyObserveIndexed host now req s = .ok (reply, s')) : Performed host req s reply s' := by
  revert h
  fun_cases applyObserveIndexed host now req s <;> intro h <;> try cases h <;> exact .unmoved rfl
  obtain ⟨s₁, hrecord, h⟩ := map_eq_ok_iff.mp h
  cases h
  exact .of_posted (.single ((posted_recordIndexedOutcome hrecord).of_same rfl ⟨rfl, rfl⟩ rfl)) hnames rfl rfl

theorem performed_observeTurn (hnames : req.names = none)
    (h : applyObserveTurn now req s = .ok (reply, s')) : Performed host req s reply s' := by
  unfold applyObserveTurn at h
  split at h
  · cases h
  · split at h
    · cases h
      exact .unmoved rfl
    · split at h
      · cases h
      · obtain ⟨s₁, hturn, h⟩ := map_eq_ok_iff.mp h
        cases h
        exact .of_posted (.tail (.single (posted_completedTurn hturn)) ⟨.idle rfl ⟨rfl, rfl⟩, .same rfl⟩) hnames rfl rfl

theorem performed_applyOperation (h : applyOperation host now req s = .ok (reply, s')) :
    Performed host req s reply s' := by
  unfold applyOperation at h
  split at h
  · next hoperation => exact performed_issue (by rw [ExplorationRequest.names, hoperation]) h
  · next hoperation => exact performed_check hoperation h
  · next hoperation => exact performed_reserve hoperation h
  · next hoperation => exact performed_observeIndexed (by rw [ExplorationRequest.names, hoperation]) h
  · next hoperation => exact performed_observeTurn (by rw [ExplorationRequest.names, hoperation]) h
  · next hoperation => exact .of_map h (by rw [ExplorationRequest.names, hoperation]) posted_start
  · next hoperation => exact .of_map h (by rw [ExplorationRequest.names, hoperation]) posted_cancelBeforeDispatch
  · next hoperation =>
    split at h
    · cases h
    · split at h
      · cases h
      · exact .of_map h (by rw [ExplorationRequest.names, hoperation]) posted_recordIndexedOutcome
  · next hoperation => exact .of_map h (by rw [ExplorationRequest.names, hoperation]) posted_expand
  · next hoperation => exact .of_map h (by rw [ExplorationRequest.names, hoperation]) posted_completedTurn
  · cases h
    exact .unmoved rfl
  · split at h
    · cases h
    · cases h
      exact .unmoved rfl
  · cases h
  · cases h
  · cases h

end Operations

end ExecutionPolicy
