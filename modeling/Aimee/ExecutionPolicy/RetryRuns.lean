-- SUMMARY: What a clean retry spends is what it records, except when the journal is full; the limits over whole histories.
import Aimee.ExecutionPolicy.ActionRuns
import Aimee.ExecutionPolicy.RetryLedger

/-!
# Spending and recording

The decision of a retry is marked as allowed before the length of the new journal is checked, and
the refusal that follows keeps the mark. Everything else a retry allows is in the journal it returns.
-/

namespace ExecutionPolicy

/-! ## One call -/

/-- The attempt or the call is in the journal, and the counters have it. -/
def Spent (codec : RetryCodec) (args : RetryArgs) (j j' : RetryJournal) : Prop :=
  match args.request.operation with
  | .begin_ =>
    (∃ a ∈ j'.attempts, a.id = codec.attemptId args.principal args.root args.request.request ∧
      a.request = args.request.request ∧ a.started = args.now ∧ a.state = .running) ∧
      j'.attempts.length = j.attempts.length + 1 ∧ j'.bytes = j.bytes ∧ j'.cost = j.cost
  | .send =>
    (∃ a ∈ j'.attempts, a.id = args.request.attempt ∧ priced args.policy args.request.call ∈ a.calls) ∧
      j'.bytes.toNat = j.bytes.toNat + args.request.call.bytes.toNat ∧
      j'.cost.toNat = j.cost.toNat + args.request.call.bytes.toNat * args.policy.nanodollarsPerByte.toNat
  | _ => False

/-- A begin or a send is allowed with its record in the journal, or not allowed with the journal as it
    was. -/
def SpendsRecorded (codec : RetryCodec) (raw : Option RetryJournal) (args : RetryArgs) : Prop :=
  ∀ next d, args.request.operation.spends = true → cleanRetry codec raw args = .ok (next, d) →
    (d.allowed = true ∧ ∃ j j', retryLoad codec args.principal args.root raw = .ok j ∧ next = some j' ∧
      Spent codec args j j') ∨ d.allowed = false ∧ next = raw

/-- The journal with the attempt or the call in it. -/
def withRecord (codec : RetryCodec) (args : RetryArgs) (j : RetryJournal) : RetryJournal :=
  match args.request.operation with
  | .begin_ => { j with started := if j.started = 0 then args.now else j.started
                        attempts := j.attempts ++ [newAttempt codec args] }
  | .send => { j with
      attempts := changeAttempt args.request.attempt (·.addCall (priced args.policy args.request.call)) j.attempts
      bytes := j.bytes + args.request.call.bytes
      cost := j.cost + (priced args.policy args.request.call).cost }
  | _ => j

/-- If no other check refuses, the text of the journal with the attempt or the call in it fits. -/
def HasRoom (codec : RetryCodec) (raw : Option RetryJournal) (args : RetryArgs) : Prop :=
  ∀ j, retryLoad codec args.principal args.root raw = .ok j → earlyRefusal args j = none →
    (retryOperation codec args j).isOk = true →
    ∀ length ∈ codec.textLength ((withRecord codec args j).expire args.now), length ≤ maxStateBytes

section Call

variable {codec : RetryCodec} {raw next : Option RetryJournal} {args : RetryArgs} {j : RetryJournal}
  {change : RetryChange} {d : RetryDecision}

/-- A call that answers was refused, or the journal was full, or it wrote the journal. -/
theorem cleanRetry_cases (h : cleanRetry codec raw args = .ok (next, d)) :
    ∃ j, retryLoad codec args.principal args.root raw = .ok j ∧
      (d.allowed = false ∧ next = raw ∨
        ∃ change length, earlyRefusal args j = none ∧ retryOperation codec args j = .ok change ∧
          codec.textLength (change.journal.expire args.now) = some length ∧ d.allowed = true ∧
          (maxStateBytes < length ∧ next = raw ∨
            length ≤ maxStateBytes ∧ next = some (change.journal.expire args.now))) := by
  unfold cleanRetry at h
  split at h
  · cases h
  · next j hload =>
    refine ⟨j, hload, ?_⟩
    split at h
    · cases h
      exact .inl ⟨rfl, rfl⟩
    · next hearly =>
      dsimp only at h
      split at h
      · cases h
        exact .inl ⟨rfl, rfl⟩
      · next change hchange =>
        split at h
        · cases h
        · next length hlength =>
          split at h
          · next hfull =>
            cases h
            exact .inr ⟨change, length, hearly, hchange, hlength, rfl, .inl ⟨hfull, rfl⟩⟩
          · next hroom =>
            cases h
            exact .inr ⟨change, length, hearly, hchange, hlength, rfl, .inr ⟨not_lt.mp hroom, rfl⟩⟩

theorem earlyRefusal_none (h : earlyRefusal args j = none) (hspends : args.request.operation.spends = true) :
    args.policy.nanodollarsPerByte ≠ 0 ∧ args.policy.maxAttempts.toNat ≤ maxAttempts := by
  unfold earlyRefusal at h
  dsimp only at h
  rw [hspends] at h
  split at h
  · cases h
  · split at h
    · cases h
    · next hpolicy =>
      simp only [true_and, not_or, UInt64.not_lt] at hpolicy
      exact ⟨hpolicy.1, UInt64.le_iff_toNat_le.mp hpolicy.2.2⟩

theorem spent_of_change (hspends : args.request.operation.spends = true) (hearly : earlyRefusal args j = none)
    (hchange : retryOperation codec args j = .ok change) : Spent codec args j (change.journal.expire args.now) := by
  obtain ⟨hrate, -⟩ := earlyRefusal_none hearly hspends
  unfold retryOperation at hchange
  unfold Spent
  split at hchange
  · next hop =>
    rw [hop]
    obtain ⟨-, -, -, -, hjournal, -⟩ := beginAttempt_ok hchange
    refine ⟨?_, ?_, ?_, ?_⟩
    · refine ⟨_, List.mem_map.mpr ⟨newAttempt codec args, ?_, rfl⟩, ?_, ?_, ?_, ?_⟩
      · rw [hjournal]
        exact List.mem_append_right _ List.mem_cons_self
      all_goals
        split
        · rfl
        · rfl
    · rw [RetryJournal.expire, hjournal, List.length_map, List.length_append]
      rfl
    · rw [RetryJournal.expire, hjournal]
    · rw [RetryJournal.expire, hjournal]
  · next hop =>
    rw [hop]
    obtain ⟨a, ha, -, -, -, -, -, -, hb, hb', hrange, hk, hk', hjournal, -⟩ := sendCall_ok hchange
    have haid : a.id = args.request.attempt := by simpa using List.find?_some ha
    have hfind : j.attempts.find? (fun b => b.id = a.id) = some a := by rwa [haid]
    refine ⟨?_, ?_, ?_⟩
    · refine ⟨_, List.mem_map.mpr ⟨a.addCall (priced args.policy args.request.call), ?_, rfl⟩, ?_, ?_⟩
      · rw [hjournal]
        exact changed_mem hfind
      · split
        · exact haid
        · exact haid
      · split
        · exact List.mem_append_right _ List.mem_cons_self
        · exact List.mem_append_right _ List.mem_cons_self
    · rw [hjournal]
      exact toNat_add_of_le_sub hb hb'
    · rw [hjournal, ← priced_cost hrate hrange]
      exact toNat_add_of_le_sub hk hk'
  · next hop =>
    rw [hop] at hspends
    cases hspends
  · next hop =>
    rw [hop] at hspends
    cases hspends
  · cases hchange

theorem not_spent_self (hspends : args.request.operation.spends = true)
    (hchange : retryOperation codec args j = .ok change) : ¬Spent codec args j j := by
  intro hspent
  unfold retryOperation at hchange
  unfold Spent at hspent
  split at hchange
  · next hop =>
    rw [hop] at hspent
    exact absurd hspent.2.1 (Nat.succ_ne_self _).symm
  · next hop =>
    rw [hop] at hspent
    obtain ⟨a, -, -, -, hbytes, -⟩ := sendCall_ok hchange
    have hzero : args.request.call.bytes.toNat = 0 := by
      omega
    exact hbytes (UInt64.toNat_inj.mp hzero)
  · next hop =>
    rw [hop] at hspends
    cases hspends
  · next hop =>
    rw [hop] at hspends
    cases hspends
  · cases hchange

theorem load_some {principal root : String} {j j' : RetryJournal}
    (h : retryLoad codec principal root (some j') = .ok j) : j = j' := by
  unfold retryLoad at h
  dsimp only at h
  split at h
  · cases h
  · split at h
    · cases h
    · split at h
      · cases h
      · cases h
        rfl

/-- A begin or a send that finds the journal full is allowed and not recorded. -/
theorem not_spendsRecorded_of_full {length : ℕ} (hspends : args.request.operation.spends = true)
    (hload : retryLoad codec args.principal args.root raw = .ok j) (hearly : earlyRefusal args j = none)
    (hchange : retryOperation codec args j = .ok change)
    (hlength : codec.textLength (change.journal.expire args.now) = some length) (hfull : maxStateBytes < length) :
    ¬SpendsRecorded codec raw args := by
  intro hrecorded
  have hanswer : ∃ d, cleanRetry codec raw args = .ok (raw, d) ∧ d.allowed = true := by
    unfold cleanRetry
    rw [hload]
    dsimp only
    rw [hearly]
    rw [hchange]
    dsimp only
    rw [hlength]
    dsimp only
    rw [if_pos hfull]
    exact ⟨_, rfl, rfl⟩
  obtain ⟨d, hanswer, hallowed⟩ := hanswer
  rcases hrecorded raw d hspends hanswer with ⟨-, j₁, j', hload', rfl, hspent⟩ | ⟨hrefused, -⟩
  · obtain rfl : j₁ = j := Except.ok.inj (hload'.symm.trans hload)
    obtain rfl := load_some hload'
    exact not_spent_self hspends hchange hspent
  · exact absurd (hrefused.symm.trans hallowed) (by decide)

theorem journal_eq_withRecord (hspends : args.request.operation.spends = true)
    (hchange : retryOperation codec args j = .ok change) : change.journal = withRecord codec args j := by
  unfold retryOperation at hchange
  unfold withRecord
  split at hchange
  · next hop =>
    rw [hop]
    obtain ⟨-, -, -, -, hjournal, -⟩ := beginAttempt_ok hchange
    exact hjournal
  · next hop =>
    rw [hop]
    obtain ⟨a, ha, -, -, -, -, -, -, -, -, -, -, -, hjournal, -⟩ := sendCall_ok hchange
    have haid : a.id = args.request.attempt := by simpa using List.find?_some ha
    rw [hjournal, haid]
  · next hop =>
    rw [hop] at hspends
    cases hspends
  · next hop =>
    rw [hop] at hspends
    cases hspends
  · cases hchange

theorem spendsRecorded_iff :
    SpendsRecorded codec raw args ↔ (args.request.operation.spends = true → HasRoom codec raw args) := by
  constructor
  · intro hrecorded hspends j hload hearly hok length hlength
    by_contra hfull
    cases hchange : retryOperation codec args j with
    | error e =>
      rw [hchange] at hok
      cases hok
    | ok change =>
      rw [← journal_eq_withRecord hspends hchange] at hlength
      exact not_spendsRecorded_of_full hspends hload hearly hchange hlength (not_le.mp hfull) hrecorded
  · intro hroom next d hspends hanswer
    obtain ⟨j, hload, ⟨hrefused, hsame⟩ | ⟨change, length, hearly, hchange, hlength, hallowed, hwritten⟩⟩ :=
      cleanRetry_cases hanswer
    · exact .inr ⟨hrefused, hsame⟩
    · rcases hwritten with ⟨hfull, -⟩ | ⟨-, hnext⟩
      · have hok : (retryOperation codec args j).isOk = true := by
          rw [hchange]
          rfl
        rw [journal_eq_withRecord hspends hchange] at hlength
        exact absurd (hroom hspends j hload hearly hok length hlength) (not_le.mpr hfull)
      · exact .inl ⟨hallowed, j, _, hload, hnext, spent_of_change hspends hearly hchange⟩

end Call

/-! ## Histories -/

/-- What is committed after an answer. -/
def retryCommit (raw : Option RetryJournal) : RetryAnswer → Option RetryJournal
  | .ok (next, _) => next
  | .error _ => raw

/-- The journal after calls, each on what the calls before it committed. -/
def retryRun (codec : RetryCodec) (calls : List RetryArgs) : Option RetryJournal :=
  calls.foldl (fun raw args => retryCommit raw (cleanRetry codec raw args)) none

/-- A journal that loads again, with exact counters, within the limits of a policy. -/
structure Accounted (codec : RetryCodec) (p : RetryPolicy) (j : RetryJournal) : Prop where
  loads : retryLoad codec j.principal j.root (some j) = .ok j
  ledger : Ledger codec j
  attempts : j.attempts.length ≤ p.maxAttempts.toNat
  bytes : j.bytes ≤ p.maxProviderBytes
  cost : j.cost ≤ p.maxNanodollars

section Histories

variable {codec : RetryCodec} {args : RetryArgs} {j : RetryJournal} {change : RetryChange}

/-- The journal a call starts from is within the limits. -/
structure WithinLimits (p : RetryPolicy) (j : RetryJournal) : Prop where
  attempts : j.attempts.length ≤ p.maxAttempts.toNat
  bytes : j.bytes ≤ p.maxProviderBytes
  cost : j.cost ≤ p.maxNanodollars

theorem length_changeAttempt {id : String} {f : RetryAttempt → RetryAttempt} (attempts : List RetryAttempt) :
    (changeAttempt id f attempts).length = attempts.length := by
  induction attempts with
  | nil => rfl
  | cons a rest ih =>
    rw [changeAttempt]
    split
    · rfl
    · rw [List.length_cons, List.length_cons, ih]

theorem toNat_ofNat_length (hledger : j.attempts.length ≤ maxAttempts) :
    (UInt64.ofNat j.attempts.length).toNat = j.attempts.length := by
  have hlt : j.attempts.length < 2 ^ 64 := lt_of_le_of_lt hledger (by decide)
  rw [UInt64.toNat_ofNat', Nat.mod_eq_of_lt hlt]

/-- An operation keeps the ledger, the limits and what the load check reads of the header. -/
theorem change_keeps (hledger : Ledger codec j) (hlength : j.attempts.length ≤ maxAttempts)
    (hlimits : WithinLimits args.policy j) (hclock : args.now ≠ 0) (hearly : earlyRefusal args j = none)
    (hchange : retryOperation codec args j = .ok change) :
    Ledger codec change.journal ∧ WithinLimits args.policy change.journal ∧
      change.journal.attempts.length ≤ maxAttempts ∧ change.journal.schema = j.schema ∧
      change.journal.principal = j.principal ∧ change.journal.root = j.root := by
  unfold retryOperation at hchange
  split at hchange
  · next hop =>
    obtain ⟨-, hmax⟩ := earlyRefusal_none hearly (by rw [hop]; rfl)
    have hkept := hledger.begin hclock hchange
    obtain ⟨-, -, hroom, -, hjournal, -⟩ := beginAttempt_ok hchange
    rw [UInt64.lt_iff_toNat_lt, toNat_ofNat_length hlength] at hroom
    have hgrown : change.journal.attempts.length = j.attempts.length + 1 := by
      rw [hjournal, List.length_append, List.length_singleton]
    refine ⟨hkept, ⟨by omega, ?_, ?_⟩, by omega, ?_, ?_, ?_⟩
    · rw [hjournal]
      exact hlimits.bytes
    · rw [hjournal]
      exact hlimits.cost
    all_goals rw [hjournal]
  · next hop =>
    obtain ⟨hrate, -⟩ := earlyRefusal_none hearly (by rw [hop]; rfl)
    have hkept := hledger.send hrate hchange
    obtain ⟨a, -, -, -, -, -, -, -, hb, hb', -, hk, hk', hjournal, -⟩ := sendCall_ok hchange
    have hsame : change.journal.attempts.length = j.attempts.length := by
      rw [hjournal, length_changeAttempt]
    refine ⟨hkept, ⟨hsame ▸ hlimits.attempts, ?_, ?_⟩, hsame ▸ hlength, ?_, ?_, ?_⟩
    · rw [hjournal, UInt64.le_iff_toNat_le, toNat_add_of_le_sub hb hb']
      exact (le_sub_iff hb).mp hb'
    · rw [hjournal, UInt64.le_iff_toNat_le, toNat_add_of_le_sub hk hk']
      exact (le_sub_iff hk).mp hk'
    all_goals rw [hjournal]
  · have hkept := hledger.finish hchange
    obtain ⟨a, state, -, -, hjournal⟩ := finishAttempt_ok hchange
    have hsame : change.journal.attempts.length = j.attempts.length := by
      rw [hjournal, length_changeAttempt]
    refine ⟨hkept, ⟨hsame ▸ hlimits.attempts, ?_, ?_⟩, hsame ▸ hlength, ?_, ?_, ?_⟩
    · rw [hjournal]
      exact hlimits.bytes
    · rw [hjournal]
      exact hlimits.cost
    all_goals rw [hjournal]
  · have hkept := hledger.inspect hchange
    unfold inspectAttempt at hchange
    split at hchange
    · cases hchange
    · cases hchange
      exact ⟨hkept, hlimits, hlength, rfl, rfl, rfl⟩
  · cases hchange

theorem accounted_step {raw : Option RetryJournal} (hraw : ∀ j, raw = some j → Accounted codec args.policy j)
    (hclock : args.now ≠ 0) :
    ∀ j, retryCommit raw (cleanRetry codec raw args) = some j → Accounted codec args.policy j := by
  cases hanswer : cleanRetry codec raw args with
  | error e => exact hraw
  | ok answer =>
    obtain ⟨next, d⟩ := answer
    obtain ⟨j, hload, ⟨-, rfl⟩ | ⟨change, length, hearly, hchange, htext, -, ⟨-, rfl⟩ | ⟨hroom, rfl⟩⟩⟩ :=
      cleanRetry_cases hanswer
    · exact hraw
    · exact hraw
    · obtain ⟨hledger, hschema, -, -, hlength⟩ := ledger_of_load hload
      have hlimits : WithinLimits args.policy j := by
        cases raw with
        | none =>
          cases hload
          exact ⟨Nat.zero_le _, UInt64.zero_le, UInt64.zero_le⟩
        | some j₀ =>
          obtain rfl := load_some hload
          have haccounted := hraw j rfl
          exact ⟨haccounted.attempts, haccounted.bytes, haccounted.cost⟩
      obtain ⟨hledger', hlimits', hlength', hschema', -, -⟩ :=
        change_keeps hledger hlength hlimits hclock hearly hchange
      have hsame : (change.journal.expire args.now).attempts.length = change.journal.attempts.length := by
        rw [RetryJournal.expire, List.length_map]
      rintro j' ⟨⟩
      refine ⟨load_of_ledger (hledger'.expire _) (hschema'.trans hschema) (hsame ▸ hlength') ?_, hledger'.expire _,
        hsame ▸ hlimits'.attempts, hlimits'.bytes, hlimits'.cost⟩
      rw [htext]
      exact decide_eq_true hroom

theorem accounted_run {p : RetryPolicy} {calls : List RetryArgs} (hcalls : ∀ c ∈ calls, c.policy = p ∧ c.now ≠ 0) :
    ∀ j, retryRun codec calls = some j → Accounted codec p j := by
  induction calls using List.reverseRecOn with
  | nil => nofun
  | append_singleton calls c ih =>
    obtain ⟨rfl, hclock⟩ := hcalls c (List.mem_append_right _ List.mem_cons_self)
    have hbefore := ih fun c' hc' => hcalls c' (List.mem_append_left _ hc')
    rw [retryRun, List.foldl_append]
    exact accounted_step hbefore hclock

/-- Seconds that fit a signed word of nanoseconds. -/
theorem duration_exact {seconds : UInt64} :
    duration seconds = seconds.toNat * second ↔ seconds.toNat ≤ 9223372036 := by
  rw [duration, second]
  constructor
  · intro h
    have hlt := Int.bmod_lt (x := seconds.toNat * 1000000000) (m := 2 ^ 64) (by decide)
    omega
  · intro h
    refine Int.bmod_eq_of_le ?_ ?_
    · omega
    · omega

end Histories

/-- What a retry is allowed is recorded exactly when the journal has room for it. Over a history under
    one policy the journal stays within the limits, loads again, and nothing wraps. -/
theorem clean_retry_accounts (codec : RetryCodec) :
    (∀ raw args,
      SpendsRecorded codec raw args ↔ (args.request.operation.spends = true → HasRoom codec raw args)) ∧
    (∀ p calls, (∀ c ∈ calls, c.policy = p ∧ c.now ≠ 0) →
      ∀ j, retryRun codec calls = some j → Accounted codec p j) ∧
    (∀ seconds, duration seconds = seconds.toNat * second ↔ seconds.toNat ≤ 9223372036) := by
  refine ⟨?_, ?_, ?_⟩
  · intro raw args
    exact spendsRecorded_iff
  · intro p calls hcalls
    exact accounted_run hcalls
  · intro seconds
    exact duration_exact

/-! ## A full journal -/

/-- The bytes of a character in a JSON string. -/
def escapedLength (c : Char) : ℕ :=
  if c = '"' ∨ c = '\\' ∨ c = '\n' ∨ c = '\r' ∨ c = '\t' ∨ c.toNat = 8 ∨ c.toNat = 12 then 2
  else if c.toNat < 32 ∨ c = '<' ∨ c = '>' ∨ c = '&' ∨ c.toNat = 0x2028 ∨ c.toNat = 0x2029 then 6
  else c.utf8Size

def stringLength (s : String) : ℕ := (s.toList.map escapedLength).sum + 2

def numberLength (n : UInt64) : ℕ := (toString n.toNat).length

/-- The text of a time of whole seconds, in quotes. -/
def timeLength : ℕ := 22

def fieldLength (name : String) (value : ℕ) : ℕ := stringLength name + 1 + value

/-- A field that is left out when empty. -/
def optionalLength (name value : String) : List ℕ := if value = "" then [] else [fieldLength name (stringLength value)]

def listLength (items : List ℕ) : ℕ := items.sum + (items.length - 1) + 2

def callLength (c : RetryCall) : ℕ :=
  listLength [fieldLength "id" (stringLength c.id), fieldLength "reserved_bytes" (numberLength c.bytes),
    fieldLength "reserved_nanodollars" (numberLength c.cost), fieldLength "nanodollars_per_byte" (numberLength c.rate),
    fieldLength "payload_sha256" (stringLength c.payload), fieldLength "receipt_reference" (stringLength c.receipt),
    fieldLength "source_reference" (stringLength c.sourceHandle)]

/-- No calls are `null`. -/
def callsLength (calls : List RetryCall) : ℕ := if calls = [] then 4 else listLength (calls.map callLength)

/-- The fields of an attempt but its input. -/
def attemptFields (a : RetryAttempt) : List ℕ :=
  [fieldLength "attempt_id" (stringLength a.id), fieldLength "request_id" (stringLength a.request)] ++
    optionalLength "parent_attempt" a.parent ++
    [fieldLength "input_sha256" (stringLength a.inputDigest), fieldLength "input_expires" timeLength,
      fieldLength "policy_generation" (stringLength a.policy), fieldLength "projection_revision"
        (stringLength a.projection),
      fieldLength "renderer_version" (stringLength a.renderer), fieldLength "plan_revision" (stringLength a.plan),
      fieldLength "started" timeLength, fieldLength "state" (stringLength a.state.text)] ++
    optionalLength "failure_class" a.failure.text ++
    [fieldLength "provider_calls" (callsLength a.calls)]

def attemptLength (a : RetryAttempt) : ℕ := listLength (optionalLength "retained_input" a.input ++ attemptFields a)

/-- The length of a journal's text, with times of whole seconds. -/
def journalLength (j : RetryJournal) : ℕ :=
  listLength [fieldLength "schema_version" (toString j.schema).length,
    fieldLength "principal" (stringLength j.principal), fieldLength "root_id" (stringLength j.root),
    fieldLength "started" timeLength, fieldLength "attempts" (listLength (j.attempts.map attemptLength)),
    fieldLength "reserved_bytes" (numberLength j.bytes), fieldLength "reserved_nanodollars" (numberLength j.cost)]

def fullCodec : RetryCodec where
  actions := writeCodec
  inputDigest := fun input =>
    if input = "go" then "cdbca2a1e5e496bb4115ba35d19bfac361e6e4ba638e74c6a0552cd8c80c7795"
    else "12af74b064088b42c4f53f135909101eb94287345b05195acb591ce5b20fe0b4"
  inputDigest_ne := by
    intro input
    split
    · decide
    · decide
  attemptId := fun _ _ _ => "a41007ab9dd4dfab081c966d7325af5645dd432a9c8a1f0beedeac147ee38007"
  attemptId_ne := by
    intro _ _ _
    decide
  textLength := fun j => some (journalLength j)

/-- The first second of 2025, from the year 1. -/
def fullNow : ℤ := 63871286400 * second

def fullId (n : ℕ) : String := "attempt-" ++ String.ofList [Char.ofNat (48 + n / 10), Char.ofNat (48 + n % 10)]

def fullAttempt (input : String) (n : ℕ) : RetryAttempt where
  id := fullId n
  request := fullId n
  parent := ""
  input := input
  inputDigest := "12af74b064088b42c4f53f135909101eb94287345b05195acb591ce5b20fe0b4"
  inputExpires := fullNow + 86400 * second
  policy := "g1"
  projection := "r1"
  renderer := "clean-retry-v1"
  plan := fullId n ++ ":plan:1"
  started := fullNow
  state := .running
  failure := .other ""
  calls := []

def fullJournal (input : String) : RetryJournal where
  schema := 1
  principal := "alice"
  root := "root"
  started := fullNow
  attempts := (List.range 22).map (fullAttempt input)
  bytes := 0
  cost := 0

def fullArgs : RetryArgs where
  principal := "alice"
  root := "root"
  actions := none
  request :=
    { operation := .begin_, request := "retry", attempt := "", previous := "", input := "go", replaceConstraints := true
      projection := "r1", failure := .other "", call := ⟨"", 0, 0, 0, "", "", ""⟩ }
  policy :=
    { enabled := true, maxAttempts := 32, maxRepeatedFailures := 32, maxWallSeconds := 86400, maxProviderBytes := 1000
      nanodollarsPerByte := 1, maxNanodollars := 1000, maxTokens := none, retainInputSeconds := 86400 }
  generation := "g1"
  now := fullNow

/-- A retained input of control characters, six bytes each in the text. -/
def fullInput : String := String.ofList (List.replicate 31707 '\x01')

theorem listLength_cons (item : ℕ) {items : List ℕ} (h : items ≠ []) :
    listLength (item :: items) = item + 1 + listLength items := by
  have hpos := List.length_pos_iff.mpr h
  simp only [listLength, List.sum_cons, List.length_cons]
  omega

theorem stringLength_replicate (n : ℕ) (c : Char) :
    stringLength (String.ofList (List.replicate n c)) = n * escapedLength c + 2 := by
  rw [stringLength, String.toList_ofList, List.map_replicate, List.sum_replicate_nat]

theorem stringLength_fullInput : stringLength fullInput = 190244 :=
  stringLength_replicate _ _

section Full

variable {input : String}

theorem attemptFields_full {n : ℕ} (hn : n < 22) : listLength (attemptFields (fullAttempt "" n)) = 371 := by
  have hids : ∀ n < 22, stringLength (fullId n) = 12 ∧ stringLength (fullId n ++ ":plan:1") = 19 := by
    decide
  obtain ⟨hid, hplan⟩ := hids n hn
  simp only [attemptFields, fullAttempt, hid, hplan]
  decide

theorem attemptLength_full (h : input ≠ "") {n : ℕ} (hn : n < 22) :
    attemptLength (fullAttempt input n) = stringLength input + 389 := by
  have hfields : listLength (attemptFields (fullAttempt input n)) = 371 := attemptFields_full hn
  have hne : attemptFields (fullAttempt input n) ≠ [] := by
    intro hnil
    rw [hnil] at hfields
    cases hfields
  have hinput : optionalLength "retained_input" input = [17 + stringLength input] := by
    rw [optionalLength, if_neg h]
    rfl
  change listLength (optionalLength "retained_input" input ++ _) = _
  rw [hinput, List.singleton_append, listLength_cons _ hne]
  omega

theorem attemptLengths_full (h : input ≠ "") :
    (fullJournal input).attempts.map attemptLength = List.replicate 22 (stringLength input + 389) := by
  rw [List.eq_replicate_iff]
  refine ⟨by simp [fullJournal], fun length hlength => ?_⟩
  obtain ⟨a, ha, rfl⟩ := List.mem_map.mp hlength
  obtain ⟨n, hn, rfl⟩ := List.mem_map.mp ha
  exact attemptLength_full h (List.mem_range.mp hn)

theorem journalLength_attempts (input : String) (attempts : List RetryAttempt) :
    journalLength { fullJournal input with attempts := attempts } = listLength (attempts.map attemptLength) + 146 := by
  have hbefore : fieldLength "schema_version" (toString (1 : ℤ)).length + fieldLength "principal"
      (stringLength "alice") +
      fieldLength "root_id" (stringLength "root") + fieldLength "started" timeLength = 85 := by decide
  have hattempts : ∀ length, fieldLength "attempts" length = 11 + length := fun _ => rfl
  have hafter : fieldLength "reserved_bytes" (numberLength 0) + fieldLength "reserved_nanodollars"
    (numberLength 0) = 42 := by
    decide
  simp only [journalLength, listLength, List.sum_cons, List.sum_nil, List.length_cons, List.length_nil, hattempts,
    fullJournal]
  omega

theorem journalLength_full (h : input ≠ "") :
    journalLength (fullJournal input) = 22 * (stringLength input + 389) + 169 := by
  have hlengths := journalLength_attempts input (fullJournal input).attempts
  rw [attemptLengths_full h, listLength, List.sum_replicate_nat] at hlengths
  exact hlengths

theorem journalLength_more (h : input ≠ "") (a : RetryAttempt) :
    journalLength { fullJournal input with attempts := (fullJournal input).attempts ++ [a] } =
      22 * (stringLength input + 389) + attemptLength a + 170 := by
  rw [journalLength_attempts, List.map_append, attemptLengths_full h, listLength, List.sum_append, List.length_append,
    List.sum_replicate_nat, List.length_replicate, List.map_singleton, List.sum_singleton, List.length_singleton]

theorem parentsKnown_of_none {attempts : List RetryAttempt} (h : ∀ a ∈ attempts, a.parent = "") (ids : List String) :
    ParentsKnown ids attempts := by
  induction attempts generalizing ids with
  | nil => trivial
  | cons a rest ih =>
    obtain ⟨ha, hrest⟩ := List.forall_mem_cons.mp h
    exact ⟨.inl ha, ih hrest _⟩

theorem ledger_full (h : fullCodec.inputDigest input =
    "12af74b064088b42c4f53f135909101eb94287345b05195acb591ce5b20fe0b4") :
    Ledger fullCodec (fullJournal input) := by
  have hcalls : ∀ a ∈ (fullJournal input).attempts, a.calls = [] := by
    intro a ha
    obtain ⟨n, -, rfl⟩ := List.mem_map.mp ha
    rfl
  refine ⟨?_, ?_, ?_, ?_, ?_⟩
  · intro a ha
    obtain ⟨n, -, rfl⟩ := List.mem_map.mp ha
    have hclock : fullNow ≠ 0 := by decide
    have hdigest : "12af74b064088b42c4f53f135909101eb94287345b05195acb591ce5b20fe0b4" ≠ "" := by decide
    exact ⟨by simp [fullAttempt, fullId], hdigest, hclock, rfl, .inr h, Nat.zero_le _,
      fun _ hc => absurd hc List.not_mem_nil, List.nodup_nil⟩
  · have hids : (fullJournal input).attempts.map (·.id) = (List.range 22).map fullId := by
      rfl
    rw [hids]
    decide
  · refine parentsKnown_of_none (fun a ha => ?_) _
    obtain ⟨n, -, rfl⟩ := List.mem_map.mp ha
    rfl
  · rw [attemptBytes, List.sum_eq_zero]
    · rfl
    · intro n hn
      obtain ⟨a, ha, rfl⟩ := List.mem_map.mp hn
      rw [hcalls a ha]
      rfl
  · rw [attemptCost, List.sum_eq_zero]
    · rfl
    · intro n hn
      obtain ⟨a, ha, rfl⟩ := List.mem_map.mp hn
      rw [hcalls a ha]
      rfl

theorem expire_of_retained {j : RetryJournal} {now : ℤ} (h : ∀ a ∈ j.attempts, now < a.inputExpires) :
    j.expire now = j := by
  rw [RetryJournal.expire, List.map_congr_left (g := id), List.map_id]
  intro a ha
  exact if_neg (not_le.mpr (h a ha))

theorem ne_of_stringLength {s : String} (h : stringLength input = 190244) (hs : stringLength s < 190244) :
    input ≠ s := by
  rintro rfl
  exact absurd h hs.ne

theorem load_full (h : stringLength input = 190244) :
    retryLoad fullCodec "alice" "root" (some (fullJournal input)) = .ok (fullJournal input) := by
  refine load_of_ledger (ledger_full (if_neg (ne_of_stringLength h (by decide)))) rfl ?_ ?_
  · rw [fullJournal, List.length_map]
    decide
  · have hfits : journalLength (fullJournal input) ≤ maxStateBytes := by
      rw [journalLength_full (ne_of_stringLength h (by decide)), h]
      decide
    have htext : fullCodec.textLength (fullJournal input) = some (journalLength (fullJournal input)) := rfl
    rw [htext, Option.all_some]
    exact decide_eq_true hfits

theorem begin_full (input : String) : ∃ change, beginAttempt fullCodec fullArgs (fullJournal input) = .ok change := by
  exact ⟨_, rfl⟩

theorem unrecorded_of_full (h : stringLength input = 190244) :
    ¬SpendsRecorded fullCodec (some (fullJournal input)) fullArgs := by
  obtain ⟨change, hchange⟩ := begin_full input
  obtain ⟨-, -, -, -, hjournal, -⟩ := beginAttempt_ok hchange
  have hclock : fullNow ≠ 0 := by decide
  have hstarted : (if (fullJournal input).started = 0 then fullArgs.now else (fullJournal input).started) =
      (fullJournal input).started := if_neg hclock
  rw [hstarted] at hjournal
  have hretained : ∀ a ∈ change.journal.attempts, fullArgs.now < a.inputExpires := by
    intro a ha
    rw [hjournal] at ha
    rcases List.mem_append.mp ha with ha | ha
    · obtain ⟨n, -, rfl⟩ := List.mem_map.mp ha
      change fullNow < fullNow + 86400 * second
      decide
    · rw [List.mem_singleton.mp ha]
      decide
  refine not_spendsRecorded_of_full rfl (load_full h) ?_ hchange rfl ?_
  · have hforward : ¬((fullJournal input).started ≠ 0 ∧ fullArgs.now < (fullJournal input).started) :=
      fun hback => absurd hback.2 (lt_irrefl fullNow)
    unfold earlyRefusal
    rw [if_neg (by decide), if_neg (by decide), if_neg hforward, if_neg (by decide)]
  · rw [expire_of_retained hretained, hjournal, journalLength_more (ne_of_stringLength h (by decide)), h]
    decide

/-- A retry that is allowed and is not in the journal it returns. -/
theorem full_retry_unrecorded : ¬SpendsRecorded fullCodec (some (fullJournal fullInput)) fullArgs :=
  unrecorded_of_full stringLength_fullInput

end Full

/-- A call of a hundred bytes, for the attempt of `fullArgs`. -/
def sentArgs : RetryArgs :=
  { fullArgs with request :=
    { operation := .send, request := "", attempt := fullCodec.attemptId "alice" "root" "retry", previous := ""
      input := "", replaceConstraints := false, projection := "", failure := .other ""
      call := ⟨"call", 100, 0, 0, "cdbca2a1e5e496bb4115ba35d19bfac361e6e4ba638e74c6a0552cd8c80c7795", "", ""⟩ } }

theorem clean_retry_accounts_sent :
    ∃ j, retryRun fullCodec [fullArgs, sentArgs] = some j ∧ j.bytes = 100 ∧ Accounted fullCodec fullArgs.policy j := by
  have hrun : (retryRun fullCodec [fullArgs, sentArgs]).map (·.bytes) = some 100 := by decide
  obtain ⟨j, hj, hbytes⟩ := Option.map_eq_some_iff.mp hrun
  have hclock : fullNow ≠ 0 := by decide
  refine ⟨j, hj, hbytes, (clean_retry_accounts fullCodec).2.1 _ _ ?_ j hj⟩
  intro c hc
  rcases List.mem_cons.mp hc with rfl | hc
  · exact ⟨rfl, hclock⟩
  · rw [List.mem_singleton.mp hc]
    exact ⟨rfl, hclock⟩

end ExecutionPolicy
