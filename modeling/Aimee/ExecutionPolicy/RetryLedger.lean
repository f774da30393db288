-- SUMMARY: What the retry journal's load check accepts, as exact sums over its calls, and that every operation keeps it.
import Aimee.ExecutionPolicy.Retry

/-!
# The retry ledger

The load check adds words with guards against overflow. A journal passes it when its attempts and
calls are well formed and its counters are the sums over the calls, as natural numbers.
-/

namespace ExecutionPolicy

/-! ## Words -/

theorem maxWord_toNat : maxWord.toNat = 2 ^ 64 - 1 := rfl

theorem toNat_add_of_le {a b : UInt64} (h : b ≤ maxWord - a) : (a + b).toNat = a.toNat + b.toNat := by
  have ha : a ≤ maxWord := UInt64.le_iff_toNat_le.mpr (Nat.le_of_lt_succ a.toNat_lt)
  rw [UInt64.le_iff_toNat_le, UInt64.toNat_sub_of_le _ _ ha, maxWord_toNat] at h
  rw [UInt64.toNat_add]
  have := a.toNat_lt
  omega

theorem le_maxWord_sub {a b : UInt64} : b ≤ maxWord - a ↔ a.toNat + b.toNat < 2 ^ 64 := by
  have ha : a ≤ maxWord := UInt64.le_iff_toNat_le.mpr (Nat.le_of_lt_succ a.toNat_lt)
  rw [UInt64.le_iff_toNat_le, UInt64.toNat_sub_of_le _ _ ha, maxWord_toNat]
  have := a.toNat_lt
  omega

theorem le_maxWord_div {a b : UInt64} (hb : b ≠ 0) : a ≤ maxWord / b ↔ a.toNat * b.toNat < 2 ^ 64 := by
  have hpos : 0 < b.toNat := by
    rw [Nat.pos_iff_ne_zero]
    exact fun h => hb (UInt64.toNat_inj.mp h)
  rw [UInt64.le_iff_toNat_le, UInt64.toNat_div, Nat.le_div_iff_mul_le hpos, maxWord_toNat]
  omega

theorem toNat_mul_of_lt {a b : UInt64} (h : a.toNat * b.toNat < 2 ^ 64) : (a * b).toNat = a.toNat * b.toNat := by
  rw [UInt64.toNat_mul, Nat.mod_eq_of_lt h]

/-! ## Ledgers -/

/-- A call whose cost is its bytes at its rate. -/
structure CallOk (c : RetryCall) : Prop where
  id : c.id ≠ ""
  payload : actionHash c.payload = true
  bytes : c.bytes ≠ 0
  rate : c.rate ≠ 0
  cost : c.cost.toNat = c.bytes.toNat * c.rate.toNat

/-- An attempt on its own. -/
structure AttemptOk (codec : RetryCodec) (a : RetryAttempt) : Prop where
  id : a.id ≠ ""
  inputDigest : a.inputDigest ≠ ""
  started : a.started ≠ 0
  state : validAttemptState a.state = true
  input : a.input = "" ∨ codec.inputDigest a.input = a.inputDigest
  length : a.calls.length ≤ maxCalls
  calls : ∀ c ∈ a.calls, CallOk c
  callIds : (a.calls.map (·.id)).Nodup

def callBytes (calls : List RetryCall) : ℕ := (calls.map (·.bytes.toNat)).sum

def callCost (calls : List RetryCall) : ℕ := (calls.map (·.cost.toNat)).sum

def attemptBytes (attempts : List RetryAttempt) : ℕ := (attempts.map fun a => callBytes a.calls).sum

def attemptCost (attempts : List RetryAttempt) : ℕ := (attempts.map fun a => callCost a.calls).sum

/-- Every parent is an attempt that came before, or the attempt itself. -/
def ParentsKnown : List String → List RetryAttempt → Prop
  | _, [] => True
  | ids, a :: rest => (a.parent = "" ∨ a.parent ∈ a.id :: ids) ∧ ParentsKnown (a.id :: ids) rest

/-- A journal whose counters are the sums over its calls. -/
structure Ledger (codec : RetryCodec) (j : RetryJournal) : Prop where
  attempts : ∀ a ∈ j.attempts, AttemptOk codec a
  ids : (j.attempts.map (·.id)).Nodup
  parents : ParentsKnown [] j.attempts
  bytes : attemptBytes j.attempts = j.bytes.toNat
  cost : attemptCost j.attempts = j.cost.toNat

/-! ## The load check -/

section Load

variable {codec : RetryCodec}

theorem loadCall_eq_ok {s s' : CallLoad} {c : RetryCall} :
    loadCall s c = .ok s' ↔ CallOk c ∧ c.id ∉ s.ids ∧ s.bytes.toNat + c.bytes.toNat < 2 ^ 64 ∧
      s.cost.toNat + c.cost.toNat < 2 ^ 64 ∧
      s' = { ids := c.id :: s.ids, bytes := s.bytes + c.bytes, cost := s.cost + c.cost } := by
  unfold loadCall
  constructor
  · intro h
    split at h
    · cases h
    · next hok =>
      cases h
      simp only [not_or, UInt64.not_lt, Bool.not_eq_true', Bool.not_eq_false, not_not] at hok
      obtain ⟨hid, hfresh, hpayload, hbytes, hrate, hrange, hcost, hsum, hsum'⟩ := hok
      refine ⟨⟨hid, hpayload, hbytes, hrate, ?_⟩, hfresh, le_maxWord_sub.mp hsum, le_maxWord_sub.mp hsum', rfl⟩
      rw [hcost, toNat_mul_of_lt ((le_maxWord_div hrate).mp hrange)]
  · rintro ⟨hc, hfresh, hbytes, hcost, rfl⟩
    have hrange : c.bytes.toNat * c.rate.toNat < 2 ^ 64 := by
      rw [← hc.cost]
      exact c.cost.toNat_lt
    have hprod : c.cost = c.bytes * c.rate := by
      rw [← UInt64.toNat_inj, toNat_mul_of_lt hrange, hc.cost]
    rw [if_neg]
    simp only [not_or, UInt64.not_lt, Bool.not_eq_true', Bool.not_eq_false, not_not]
    exact ⟨hc.id, hfresh, hc.payload, hc.bytes, hc.rate, (le_maxWord_div hc.rate).mpr hrange, hprod,
      le_maxWord_sub.mpr hbytes, le_maxWord_sub.mpr hcost⟩

/-- What the check of one attempt's calls accepts. -/
theorem loadCalls_ok {calls : List RetryCall} {s s' : CallLoad} (h : calls.foldlM loadCall s = .ok s') :
    (∀ c ∈ calls, CallOk c) ∧ (calls.map (·.id)).Nodup ∧ (∀ c ∈ calls, c.id ∉ s.ids) ∧
      s'.bytes.toNat = s.bytes.toNat + callBytes calls ∧ s'.cost.toNat = s.cost.toNat + callCost calls := by
  induction calls generalizing s with
  | nil =>
    cases h
    simp [callBytes, callCost]
  | cons c rest ih =>
    rw [List.foldlM_cons] at h
    cases hc : loadCall s c with
    | error e =>
      rw [hc] at h
      cases h
    | ok s₁ =>
      rw [hc] at h
      obtain ⟨hok, hfresh, hbytes, hcost, rfl⟩ := loadCall_eq_ok.mp hc
      obtain ⟨hrest, hnodup, hids, hbytes', hcost'⟩ := ih h
      have hne : c.id ∉ rest.map (·.id) := by
        intro hmem
        obtain ⟨c', hc', hid⟩ := List.mem_map.mp hmem
        exact hids c' hc' (hid ▸ List.mem_cons_self)
      refine ⟨List.forall_mem_cons.mpr ⟨hok, hrest⟩, List.nodup_cons.mpr ⟨hne, hnodup⟩, ?_, ?_, ?_⟩
      · exact List.forall_mem_cons.mpr ⟨hfresh, fun c' hc' hmem => hids c' hc' (List.mem_cons_of_mem _ hmem)⟩
      · rw [hbytes', toNat_add_of_le (le_maxWord_sub.mpr hbytes)]
        simp only [callBytes, List.map_cons, List.sum_cons]
        omega
      · rw [hcost', toNat_add_of_le (le_maxWord_sub.mpr hcost)]
        simp only [callCost, List.map_cons, List.sum_cons]
        omega

theorem loadCalls_of {calls : List RetryCall} {s : CallLoad} (hcalls : ∀ c ∈ calls, CallOk c)
    (hnodup : (calls.map (·.id)).Nodup) (hids : ∀ c ∈ calls, c.id ∉ s.ids)
    (hbytes : s.bytes.toNat + callBytes calls < 2 ^ 64) (hcost : s.cost.toNat + callCost calls < 2 ^ 64) :
    ∃ s', calls.foldlM loadCall s = .ok s' ∧ s'.bytes.toNat = s.bytes.toNat + callBytes calls ∧
      s'.cost.toNat = s.cost.toNat + callCost calls := by
  induction calls generalizing s with
  | nil => exact ⟨s, rfl, by simp [callBytes], by simp [callCost]⟩
  | cons c rest ih =>
    obtain ⟨hc, hrest⟩ := List.forall_mem_cons.mp hcalls
    obtain ⟨hfresh, hids⟩ := List.forall_mem_cons.mp hids
    rw [List.map_cons, List.nodup_cons] at hnodup
    simp only [callBytes, List.map_cons, List.sum_cons] at hbytes
    simp only [callCost, List.map_cons, List.sum_cons] at hcost
    have hb : s.bytes.toNat + c.bytes.toNat < 2 ^ 64 := by omega
    have hk : s.cost.toNat + c.cost.toNat < 2 ^ 64 := by omega
    have hstep := loadCall_eq_ok.mpr ⟨hc, hfresh, hb, hk, rfl⟩
    have hb' := toNat_add_of_le (le_maxWord_sub.mpr hb)
    have hk' := toNat_add_of_le (le_maxWord_sub.mpr hk)
    obtain ⟨s', hs', hbytes', hcost'⟩ :=
      ih (s := { ids := c.id :: s.ids, bytes := s.bytes + c.bytes, cost := s.cost + c.cost })
      hrest hnodup.2
      (fun c' hc' hmem => by
        rcases List.mem_cons.mp hmem with hid | hmem
        · exact hnodup.1 (List.mem_map.mpr ⟨c', hc', hid⟩)
        · exact hids c' hc' hmem)
      (by rw [hb']; simp only [callBytes]; omega) (by rw [hk']; simp only [callCost]; omega)
    refine ⟨s', ?_, ?_, ?_⟩
    · rw [List.foldlM_cons, hstep]
      exact hs'
    · rw [hbytes']
      simp only [callBytes, List.map_cons, List.sum_cons]
      omega
    · rw [hcost']
      simp only [callCost, List.map_cons, List.sum_cons]
      omega

theorem loadAttempt_eq_ok {s s' : AttemptLoad} {a : RetryAttempt} (h : loadAttempt codec s a = .ok s') :
    AttemptOk codec a ∧ a.id ∉ s.ids ∧ (a.parent = "" ∨ a.parent ∈ a.id :: s.ids) ∧ s'.ids = a.id :: s.ids ∧
      s'.bytes.toNat = s.bytes.toNat + callBytes a.calls ∧ s'.cost.toNat = s.cost.toNat + callCost a.calls := by
  unfold loadAttempt at h
  split at h
  · cases h
  · next hok =>
    split at h
    · cases h
    · next hparent =>
      cases hcalls : a.calls.foldlM loadCall { bytes := s.bytes, cost := s.cost } with
      | error e =>
        rw [hcalls] at h
        cases h
      | ok calls =>
        rw [hcalls] at h
        cases h
        obtain ⟨hcallOk, hnodup, -, hbytes, hcost⟩ := loadCalls_ok hcalls
        simp only [not_or, not_lt, Bool.not_eq_true', Bool.not_eq_false, not_and, not_not] at hok
        obtain ⟨hid, hfresh, hdigest, hstarted, hstate, hinput, hlength⟩ := hok
        refine ⟨⟨hid, hdigest, hstarted, hstate, ?_, hlength, hcallOk, hnodup⟩, hfresh, ?_, rfl, hbytes, hcost⟩
        · exact Decidable.or_iff_not_imp_left.mpr hinput
        · rw [not_and_or, not_not, not_not] at hparent
          exact hparent

theorem loadAttempt_of {s : AttemptLoad} {a : RetryAttempt} (hok : AttemptOk codec a) (hfresh : a.id ∉ s.ids)
    (hparent : a.parent = "" ∨ a.parent ∈ a.id :: s.ids) (hbytes : s.bytes.toNat + callBytes a.calls < 2 ^ 64)
    (hcost : s.cost.toNat + callCost a.calls < 2 ^ 64) : ∃ s', loadAttempt codec s a = .ok s' := by
  obtain ⟨calls, hcalls, -, -⟩ := loadCalls_of (s := { bytes := s.bytes, cost := s.cost }) hok.calls hok.callIds
    (fun _ _ => List.not_mem_nil) hbytes hcost
  unfold loadAttempt
  rw [if_neg, if_neg, hcalls]
  · exact ⟨_, rfl⟩
  · rw [not_and_or, not_not, not_not]
    exact hparent
  · simp only [not_or, not_lt, Bool.not_eq_true', Bool.not_eq_false, not_and, not_not]
    exact ⟨hok.id, hfresh, hok.inputDigest, hok.started, hok.state,
      Decidable.or_iff_not_imp_left.mp hok.input, hok.length⟩

theorem loadAttempts_ok {attempts : List RetryAttempt} {s s' : AttemptLoad}
    (h : attempts.foldlM (loadAttempt codec) s = .ok s') :
    (∀ a ∈ attempts, AttemptOk codec a) ∧ (attempts.map (·.id)).Nodup ∧ (∀ a ∈ attempts, a.id ∉ s.ids) ∧
      ParentsKnown s.ids attempts ∧ s'.bytes.toNat = s.bytes.toNat + attemptBytes attempts ∧
      s'.cost.toNat = s.cost.toNat + attemptCost attempts := by
  induction attempts generalizing s with
  | nil =>
    cases h
    simp [attemptBytes, attemptCost, ParentsKnown]
  | cons a rest ih =>
    rw [List.foldlM_cons] at h
    cases ha : loadAttempt codec s a with
    | error e =>
      rw [ha] at h
      cases h
    | ok s₁ =>
      rw [ha] at h
      obtain ⟨hok, hfresh, hparent, hids₁, hbytes, hcost⟩ := loadAttempt_eq_ok ha
      obtain ⟨hrest, hnodup, hids, hparents, hbytes', hcost'⟩ := ih h
      rw [hids₁] at hids hparents
      have hne : a.id ∉ rest.map (·.id) := by
        intro hmem
        obtain ⟨a', ha', hid⟩ := List.mem_map.mp hmem
        exact hids a' ha' (hid ▸ List.mem_cons_self)
      refine ⟨List.forall_mem_cons.mpr ⟨hok, hrest⟩, List.nodup_cons.mpr ⟨hne, hnodup⟩, ?_, ⟨hparent, hparents⟩, ?_, ?_⟩
      · exact List.forall_mem_cons.mpr ⟨hfresh, fun a' ha' hmem => hids a' ha' (List.mem_cons_of_mem _ hmem)⟩
      · rw [hbytes']
        simp only [attemptBytes, List.map_cons, List.sum_cons]
        omega
      · rw [hcost']
        simp only [attemptCost, List.map_cons, List.sum_cons]
        omega

theorem loadAttempts_of {attempts : List RetryAttempt} {s : AttemptLoad} (hattempts : ∀ a ∈ attempts, AttemptOk codec a)
    (hnodup : (attempts.map (·.id)).Nodup) (hids : ∀ a ∈ attempts, a.id ∉ s.ids)
    (hparents : ParentsKnown s.ids attempts) (hbytes : s.bytes.toNat + attemptBytes attempts < 2 ^ 64)
    (hcost : s.cost.toNat + attemptCost attempts < 2 ^ 64) : ∃ s', attempts.foldlM (loadAttempt codec) s = .ok s' := by
  induction attempts generalizing s with
  | nil => exact ⟨s, rfl⟩
  | cons a rest ih =>
    obtain ⟨hok, hrest⟩ := List.forall_mem_cons.mp hattempts
    obtain ⟨hfresh, hids⟩ := List.forall_mem_cons.mp hids
    rw [List.map_cons, List.nodup_cons] at hnodup
    simp only [attemptBytes, List.map_cons, List.sum_cons] at hbytes
    simp only [attemptCost, List.map_cons, List.sum_cons] at hcost
    obtain ⟨s₁, hstep⟩ := loadAttempt_of hok hfresh hparents.1 (by omega) (by omega)
    obtain ⟨-, -, -, hids₁, hbytes₁, hcost₁⟩ := loadAttempt_eq_ok hstep
    rw [List.foldlM_cons, hstep]
    refine ih hrest hnodup.2 ?_ ?_ ?_ ?_
    · rw [hids₁]
      intro a' ha' hmem
      rcases List.mem_cons.mp hmem with hid | hmem
      · exact hnodup.1 (List.mem_map.mpr ⟨a', ha', hid⟩)
      · exact hids a' ha' hmem
    · rw [hids₁]
      exact hparents.2
    · simp only [attemptBytes]
      omega
    · simp only [attemptCost]
      omega

theorem ledger_of_load {principal root : String} {raw : Option RetryJournal} {j : RetryJournal}
    (h : retryLoad codec principal root raw = .ok j) :
    Ledger codec j ∧ j.schema = 1 ∧ j.principal = principal ∧ j.root = root ∧ j.attempts.length ≤ maxAttempts := by
  cases raw with
  | none =>
    cases h
    exact ⟨⟨fun _ ha => absurd ha List.not_mem_nil, List.nodup_nil, trivial, rfl, rfl⟩, rfl, rfl, rfl, Nat.zero_le _⟩
  | some j₀ =>
    unfold retryLoad at h
    dsimp only at h
    split at h
    · cases h
    · next hhead =>
      simp only [not_or, not_not, not_lt] at hhead
      split at h
      · cases h
      · next s hs =>
        split at h
        · cases h
        · next hsums =>
          cases h
          simp only [not_or, not_not] at hsums
          obtain ⟨hattempts, hnodup, -, hparents, hbytes, hcost⟩ := loadAttempts_ok hs
          refine ⟨⟨hattempts, hnodup, hparents, ?_, ?_⟩, hhead.2.1, hhead.2.2.1, hhead.2.2.2.1, hhead.2.2.2.2⟩
          · rw [← hsums.1, hbytes]
            simp
          · rw [← hsums.2, hcost]
            simp

theorem load_of_ledger {j : RetryJournal} (h : Ledger codec j) (hschema : j.schema = 1)
    (hlength : j.attempts.length ≤ maxAttempts) (htext : (codec.textLength j).all (· ≤ maxStateBytes) = true) :
    retryLoad codec j.principal j.root (some j) = .ok j := by
  have hbytes := j.bytes.toNat_lt
  have hcost := j.cost.toNat_lt
  obtain ⟨s, hs⟩ := loadAttempts_of (s := {}) h.attempts h.ids (fun _ _ => List.not_mem_nil) h.parents
    (by rw [h.bytes]; simpa using hbytes) (by rw [h.cost]; simpa using hcost)
  obtain ⟨-, -, -, -, hsbytes, hscost⟩ := loadAttempts_ok hs
  have htext' : ¬(codec.textLength j).any (maxStateBytes < ·) = true := by
    cases hlen : codec.textLength j with
    | none => simp
    | some n => simpa [hlen] using htext
  unfold retryLoad
  dsimp only
  rw [if_neg, hs]
  · dsimp only
    rw [if_neg]
    rw [not_or, not_not, not_not, ← UInt64.toNat_inj, ← UInt64.toNat_inj, hsbytes, hscost, h.bytes, h.cost]
    exact ⟨by simp, by simp⟩
  · simp only [not_or, not_not, not_lt]
    exact ⟨htext', hschema, trivial, trivial, hlength⟩

end Load

/-! ## Changed attempts -/

section Change

variable {codec : RetryCodec} {id : String} {f : RetryAttempt → RetryAttempt} {attempts : List RetryAttempt}

theorem map_changeAttempt {β : Type} {g : RetryAttempt → β} (hg : ∀ a, g (f a) = g a) :
    (changeAttempt id f attempts).map g = attempts.map g := by
  induction attempts with
  | nil => rfl
  | cons a rest ih =>
    rw [changeAttempt]
    split
    · rw [List.map_cons, List.map_cons, hg]
    · rw [List.map_cons, List.map_cons, ih]

variable {a : RetryAttempt} {ids : List String} {attempts' : List RetryAttempt}

theorem mem_changeAttempt (h : a ∈ changeAttempt id f attempts) :
    a ∈ attempts ∨ ∃ b, attempts.find? (fun a => a.id = id) = some b ∧ a = f b := by
  induction attempts with
  | nil => cases h
  | cons b rest ih =>
    rw [changeAttempt] at h
    split at h
    · next hid =>
      rcases List.mem_cons.mp h with rfl | h
      · exact .inr ⟨b, List.find?_cons_of_pos (by simpa using hid), rfl⟩
      · exact .inl (List.mem_cons_of_mem _ h)
    · next hid =>
      rcases List.mem_cons.mp h with rfl | h
      · exact .inl List.mem_cons_self
      · refine (ih h).imp (List.mem_cons_of_mem _) ?_
        rintro ⟨c, hc, rfl⟩
        exact ⟨c, by rw [List.find?_cons_of_neg (by simpa using hid)]; exact hc, rfl⟩

theorem changed_mem (h : attempts.find? (fun a => a.id = id) = some a) :
    f a ∈ changeAttempt id f attempts := by
  induction attempts with
  | nil => cases h
  | cons b rest ih =>
    rw [changeAttempt]
    by_cases hid : b.id = id
    · rw [List.find?_cons_of_pos (by simpa using hid)] at h
      cases h
      rw [if_pos hid]
      exact List.mem_cons_self
    · rw [List.find?_cons_of_neg (by simpa using hid)] at h
      rw [if_neg hid]
      exact List.mem_cons_of_mem _ (ih h)

theorem sum_changeAttempt (g : RetryAttempt → ℕ)
    (h : attempts.find? (fun a => a.id = id) = some a) :
    ((changeAttempt id f attempts).map g).sum + g a = (attempts.map g).sum + g (f a) := by
  induction attempts with
  | nil => cases h
  | cons b rest ih =>
    rw [changeAttempt]
    by_cases hid : b.id = id
    · rw [List.find?_cons_of_pos (by simpa using hid)] at h
      cases h
      rw [if_pos hid]
      simp only [List.map_cons, List.sum_cons]
      omega
    · rw [List.find?_cons_of_neg (by simpa using hid)] at h
      rw [if_neg hid]
      have := ih h
      simp only [List.map_cons, List.sum_cons]
      omega

theorem parentsKnown_congr
    (h : attempts'.map (fun a => (a.id, a.parent)) = attempts.map (fun a => (a.id, a.parent)))
    (hparents : ParentsKnown ids attempts) : ParentsKnown ids attempts' := by
  induction attempts generalizing ids attempts' with
  | nil =>
    rw [List.map_nil, List.map_eq_nil_iff] at h
    rw [h]
    trivial
  | cons a rest ih =>
    obtain ⟨a', rest', rfl, ha, hrest⟩ := List.map_eq_cons_iff.mp h
    obtain ⟨hid, hparent⟩ := Prod.mk.inj ha
    rw [ParentsKnown, hid, hparent]
    exact ⟨hparents.1, ih hrest hparents.2⟩

theorem parentsKnown_snoc (hparents : ParentsKnown ids attempts)
    (ha : a.parent = "" ∨ a.parent ∈ ids ∨ a.parent ∈ attempts.map (·.id)) : ParentsKnown ids (attempts ++ [a]) := by
  induction attempts generalizing ids with
  | nil =>
    refine ⟨?_, trivial⟩
    rcases ha with ha | ha | ha
    · exact .inl ha
    · exact .inr (List.mem_cons_of_mem _ ha)
    · cases ha
  | cons b rest ih =>
    refine ⟨hparents.1, ih hparents.2 ?_⟩
    rcases ha with ha | ha | ha
    · exact .inl ha
    · exact .inr (.inl (List.mem_cons_of_mem _ ha))
    · rcases List.mem_cons.mp ha with ha | ha
      · exact .inr (.inl (ha ▸ List.mem_cons_self))
      · exact .inr (.inr ha)

theorem Ledger.congr {j : RetryJournal} (h : Ledger codec j)
    (hok : ∀ a ∈ attempts', AttemptOk codec a)
    (hsame : attempts'.map (fun a => (a.id, a.parent, a.calls)) = j.attempts.map (fun a => (a.id, a.parent, a.calls))) :
    Ledger codec { j with attempts := attempts' } := by
  have hids : attempts'.map (·.id) = j.attempts.map (·.id) := by
    simpa [List.map_map, Function.comp_def] using congrArg (List.map (·.1)) hsame
  have hparents : attempts'.map (fun a => (a.id, a.parent)) = j.attempts.map (fun a => (a.id, a.parent)) := by
    simpa [List.map_map, Function.comp_def] using congrArg (List.map fun e => (e.1, e.2.1)) hsame
  have hcalls : ∀ g : List RetryCall → ℕ, attempts'.map (fun a => g a.calls) = j.attempts.map (fun a => g a.calls) := by
    intro g
    simpa [List.map_map, Function.comp_def] using congrArg (List.map fun e => g e.2.2) hsame
  refine ⟨hok, ?_, parentsKnown_congr hparents h.parents, ?_, ?_⟩
  · rw [hids]
    exact h.ids
  · rw [attemptBytes, hcalls]
    exact h.bytes
  · rw [attemptCost, hcalls]
    exact h.cost

theorem Ledger.expire {j : RetryJournal} (h : Ledger codec j) (now : ℤ) : Ledger codec (j.expire now) := by
  refine h.congr ?_ ?_
  · intro a ha
    obtain ⟨b, hb, rfl⟩ := List.mem_map.mp ha
    have hok := h.attempts b hb
    split
    · exact { hok with input := .inl rfl }
    · exact hok
  · rw [List.map_map]
    refine List.map_congr_left fun a _ => ?_
    simp only [Function.comp_apply]
    split
    · rfl
    · rfl

end Change

/-! ## Operations -/

section Operations

variable {codec : RetryCodec} {args : RetryArgs} {j : RetryJournal} {change : RetryChange}

theorem beginAttempt_ok (h : beginAttempt codec args j = .ok change) :
    args.request.input ≠ "" ∧ j.attempts.any (·.id = (newAttempt codec args).id) = false ∧
      UInt64.ofNat j.attempts.length < args.policy.maxAttempts ∧
      (args.request.previous = "" ∨ args.request.previous ∈ j.attempts.map (·.id)) ∧
      change.journal = { j with started := if j.started = 0 then args.now else j.started
                                attempts := j.attempts ++ [newAttempt codec args] } ∧
      change.attempt = (newAttempt codec args).id := by
  unfold beginAttempt at h
  dsimp only at h
  split at h
  · cases h
  · next hinput =>
    split at h
    · cases h
    · next hfresh =>
      split at h
      · cases h
      · next hroom =>
        split at h
        · cases h
        · cases hsummary : retrySummary codec args j with
          | error e =>
            rw [hsummary] at h
            cases h
          | ok summary =>
            rw [hsummary] at h
            cases h
            simp only [not_or] at hinput
            refine ⟨hinput.2.2.1, by simpa using hfresh, UInt64.not_le.mp hroom, ?_, rfl, rfl⟩
            unfold retrySummary at hsummary
            split at hsummary
            · next hnone => exact .inl hnone
            · split at hsummary
              · cases hsummary
              · next prior hprior =>
                refine .inr (List.mem_map.mpr ⟨prior, List.mem_of_find?_eq_some hprior, ?_⟩)
                simpa using List.find?_some hprior

theorem Ledger.begin (h : Ledger codec j) (hclock : args.now ≠ 0) (hok : beginAttempt codec args j = .ok change) :
    Ledger codec change.journal := by
  obtain ⟨-, hfresh, -, hparent, hjournal, -⟩ := beginAttempt_ok hok
  rw [hjournal]
  have hnew : AttemptOk codec (newAttempt codec args) := by
    refine ⟨codec.attemptId_ne _ _ _, codec.inputDigest_ne _, hclock, rfl, ?_, Nat.zero_le _,
      fun _ hc => absurd hc List.not_mem_nil, List.nodup_nil⟩
    simp only [newAttempt]
    split
    · exact .inr rfl
    · exact .inl rfl
  refine ⟨?_, ?_, parentsKnown_snoc h.parents ?_, ?_, ?_⟩
  · intro a ha
    rcases List.mem_append.mp ha with ha | ha
    · exact h.attempts a ha
    · rw [List.mem_singleton.mp ha]
      exact hnew
  · rw [List.map_append]
    refine List.nodup_append.mpr ⟨h.ids, List.nodup_singleton _, fun id hid id' hid' => ?_⟩
    rw [List.mem_singleton.mp hid']
    obtain ⟨a, ha, rfl⟩ := List.mem_map.mp hid
    simpa using List.any_eq_false.mp hfresh a ha
  · exact hparent.imp_right .inr
  · rw [attemptBytes, List.map_append, List.sum_append]
    exact h.bytes
  · rw [attemptCost, List.map_append, List.sum_append]
    exact h.cost

theorem sendCall_ok (h : sendCall args j = .ok change) :
    ∃ a, j.attempt? args.request.attempt = some a ∧ a.state = .running ∧ args.request.call.id ≠ "" ∧
      args.request.call.bytes ≠ 0 ∧ actionHash args.request.call.payload = true ∧
      a.calls.any (·.id = args.request.call.id) = false ∧ a.calls.length < maxCalls ∧
      j.bytes ≤ args.policy.maxProviderBytes ∧ args.request.call.bytes ≤ args.policy.maxProviderBytes - j.bytes ∧
      args.request.call.bytes ≤ maxWord / args.policy.nanodollarsPerByte ∧ j.cost ≤ args.policy.maxNanodollars ∧
      (priced args.policy args.request.call).cost ≤ args.policy.maxNanodollars - j.cost ∧
      change.journal = { j with
        attempts := changeAttempt a.id (·.addCall (priced args.policy args.request.call)) j.attempts
        bytes := j.bytes + args.request.call.bytes
        cost := j.cost + (priced args.policy args.request.call).cost } ∧ change.attempt = a.id := by
  unfold sendCall at h
  dsimp only at h
  split at h
  · cases h
  · next a ha =>
    obtain ⟨ha, hrunning⟩ := Option.filter_eq_some_iff.mp ha
    split at h
    · cases h
    · split at h
      · cases h
      · next hcall =>
        split at h
        · cases h
        · next hfresh =>
          split at h
          · cases h
          · next hbytes =>
            split at h
            · cases h
            · next hrange =>
              split at h
              · cases h
              · next hcost =>
                cases h
                simp only [not_or, Bool.not_eq_true', Bool.not_eq_false] at hcall
                simp only [not_or, UInt64.not_lt, not_le] at hbytes hcost
                exact ⟨a, ha, of_decide_eq_true hrunning, hcall.1, hcall.2.2.1, hcall.2.2.2.1,
                  by simpa using hfresh, hbytes.1, hbytes.2.1, hbytes.2.2, UInt64.not_lt.mp hrange,
                  hcost.1, hcost.2, rfl, rfl⟩

theorem le_sub_iff {a b c : UInt64} (h : a ≤ c) : b ≤ c - a ↔ a.toNat + b.toNat ≤ c.toNat := by
  rw [UInt64.le_iff_toNat_le, UInt64.toNat_sub_of_le _ _ h]
  have := UInt64.le_iff_toNat_le.mp h
  omega

/-- A sum within a limit does not wrap. -/
theorem toNat_add_of_le_sub {a b c : UInt64} (h : a ≤ c) (hb : b ≤ c - a) : (a + b).toNat = a.toNat + b.toNat := by
  have hle := (le_sub_iff h).mp hb
  have := c.toNat_lt
  rw [UInt64.toNat_add]
  omega

theorem priced_cost {p : RetryPolicy} {c : RetryCall} (hrate : p.nanodollarsPerByte ≠ 0)
    (hrange : c.bytes ≤ maxWord / p.nanodollarsPerByte) :
    (priced p c).cost.toNat = c.bytes.toNat * p.nanodollarsPerByte.toNat :=
  toNat_mul_of_lt ((le_maxWord_div hrate).mp hrange)

theorem Ledger.send (h : Ledger codec j) (hrate : args.policy.nanodollarsPerByte ≠ 0)
    (hok : sendCall args j = .ok change) : Ledger codec change.journal := by
  obtain ⟨a, ha, hrunning, hid, hbytes, hpayload, hfresh, hlength, hb, hb', hrange, hk, hk', hjournal, -⟩ :=
    sendCall_ok hok
  have haid : a.id = args.request.attempt := by simpa using List.find?_some ha
  have hfind : j.attempts.find? (fun b => b.id = a.id) = some a := by rwa [haid]
  have hcall : CallOk (priced args.policy args.request.call) := ⟨hid, hpayload, hbytes, hrate, priced_cost hrate hrange⟩
  rw [hjournal]
  generalize hc : priced args.policy args.request.call = c at *
  have hcid : c.id = args.request.call.id := by rw [← hc]; rfl
  have hcbytes : c.bytes = args.request.call.bytes := by rw [← hc]; rfl
  refine ⟨?_, ?_, parentsKnown_congr (map_changeAttempt fun _ => rfl) h.parents, ?_, ?_⟩
  · intro b hb
    rcases mem_changeAttempt hb with hb | ⟨b', hb', rfl⟩
    · exact h.attempts b hb
    · obtain rfl : a = b' := Option.some.inj (hfind.symm.trans hb')
      have haok := h.attempts a (List.mem_of_find?_eq_some ha)
      refine { haok with length := ?_, calls := ?_, callIds := ?_ }
      · rw [RetryAttempt.addCall, List.length_append]
        exact hlength
      · intro c' hc'
        rcases List.mem_append.mp hc' with hc' | hc'
        · exact haok.calls c' hc'
        · rw [List.mem_singleton.mp hc']
          exact hcall
      · rw [RetryAttempt.addCall, List.map_append, List.map_singleton, hcid]
        refine List.nodup_append.mpr ⟨haok.callIds, List.nodup_singleton _, fun id hid id' hid' => ?_⟩
        rw [List.mem_singleton.mp hid']
        obtain ⟨c', hc', rfl⟩ := List.mem_map.mp hid
        simpa using List.any_eq_false.mp hfresh c' hc'
  · have hids : (changeAttempt a.id (·.addCall c) j.attempts).map (·.id) = j.attempts.map (·.id) :=
      map_changeAttempt fun _ => rfl
    exact hids ▸ h.ids
  · have hsum := sum_changeAttempt (f := (·.addCall c)) (fun a => callBytes a.calls) hfind
    have hgrown : callBytes (a.addCall c).calls = callBytes a.calls + args.request.call.bytes.toNat := by
      simp [callBytes, RetryAttempt.addCall, hcbytes]
    have hadd := toNat_add_of_le_sub hb hb'
    have hold := h.bytes
    unfold attemptBytes at hold ⊢
    change ((changeAttempt a.id (·.addCall c) j.attempts).map fun a => callBytes a.calls).sum =
      (j.bytes + args.request.call.bytes).toNat
    omega
  · have hsum := sum_changeAttempt (f := (·.addCall c)) (fun a => callCost a.calls) hfind
    have hgrown : callCost (a.addCall c).calls = callCost a.calls + c.cost.toNat := by
      simp [callCost, RetryAttempt.addCall]
    have hadd := toNat_add_of_le_sub hk hk'
    have hold := h.cost
    unfold attemptCost at hold ⊢
    change ((changeAttempt a.id (·.addCall c) j.attempts).map fun a => callCost a.calls).sum = (j.cost + c.cost).toNat
    omega

theorem finishAttempt_ok (h : finishAttempt args j = .ok change) :
    ∃ a state, j.attempt? args.request.attempt = some a ∧ args.request.failure.ends = some state ∧
      change.journal = { j with
        attempts := changeAttempt a.id (fun a => { a with state := state, failure := args.request.failure })
          j.attempts } := by
  unfold finishAttempt at h
  split at h
  · cases h
  · cases h
  · next a state ha hstate =>
    split at h
    · cases h
    · cases h
      exact ⟨a, state, ha, hstate, rfl⟩

theorem Ledger.finish (h : Ledger codec j) (hok : finishAttempt args j = .ok change) : Ledger codec change.journal := by
  obtain ⟨a, state, ha, hstate, hjournal⟩ := finishAttempt_ok hok
  have hvalid : validAttemptState state = true := by
    cases hfailure : args.request.failure <;> rw [hfailure] at hstate <;> cases hstate <;> rfl
  rw [hjournal]
  refine h.congr ?_ (map_changeAttempt fun _ => rfl)
  intro b hb
  rcases mem_changeAttempt hb with hb | ⟨b', hb', rfl⟩
  · exact h.attempts b hb
  · exact { h.attempts b' (List.mem_of_find?_eq_some hb') with state := hvalid }

theorem Ledger.inspect (h : Ledger codec j) (hok : inspectAttempt args j = .ok change) :
    Ledger codec change.journal := by
  unfold inspectAttempt at hok
  split at hok
  · cases hok
  · cases hok
    exact h

end Operations

end ExecutionPolicy
