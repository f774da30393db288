-- SUMMARY: What a call may record, and that the journal stays one its own validation accepts.
import Aimee.ExecutionPolicy.Actions

/-!
# The replay of the audit

`validate` replays the audit with a transition table of its own. A journal is valid with a replay;
a record whose state may follow the last one extends the replay by one entry.
-/

namespace ExecutionPolicy

namespace ActionJournal

/-! ## Valid journals -/

/-- `validate` accepts the journal, and this is the replay it makes. -/
structure Valid (codec : Codec) (j : ActionJournal) (r : Replay) : Prop where
  schema : j.schemaVersion = 1
  principal : j.principal ≠ ""
  root : j.root ≠ ""
  length : j.audit.length = j.sequence
  bound : ∀ e ∈ j.actions.rows, j.bound codec e = true
  ids : (j.actions.rows.map (·.2.intent.id)).Nodup
  replays : j.replay = some r
  calls : r.calls = j.reservedCalls
  work : r.work = j.reservedWork
  sensitive : r.sensitive = j.sensitiveRead
  elevated : r.elevated = j.privilegeElevated
  settled : ∀ e ∈ j.actions.rows, settled r e.2 = true

variable {codec : Codec} {j : ActionJournal} {r : Replay}

theorem validate_iff : j.validate codec = true ↔ ∃ r, Valid codec j r := by
  constructor
  · intro h
    unfold validate at h
    split at h
    · simp at h
    · next r hr =>
      simp only [Bool.and_eq_true, decide_eq_true_eq, List.all_eq_true] at h
      obtain ⟨⟨⟨⟨⟨⟨hschema, hprincipal⟩, hroot⟩, hlength⟩, hbound⟩, hids⟩,
        ⟨⟨⟨hcalls, hwork⟩, hsens⟩, helev⟩, hsettled⟩ := h
      exact ⟨r, hschema, hprincipal, hroot, hlength, hbound, hids, hr, hcalls, hwork, hsens, helev, hsettled⟩
  · rintro ⟨r, h⟩
    unfold validate
    rw [h.replays]
    simp only [Bool.and_eq_true, decide_eq_true_eq, List.all_eq_true]
    exact ⟨⟨⟨⟨⟨⟨h.schema, h.principal⟩, h.root⟩, h.length⟩, h.bound⟩, h.ids⟩,
      ⟨⟨⟨h.calls, h.work⟩, h.sensitive⟩, h.elevated⟩, h.settled⟩

theorem valid_start {principal root : String} (hprincipal : principal ≠ "") (hroot : root ≠ "") :
    Valid codec (start principal root) {} where
  schema := rfl
  principal := hprincipal
  root := hroot
  length := rfl
  bound := fun _ he => absurd he List.not_mem_nil
  ids := List.nodup_nil
  replays := rfl
  calls := rfl
  work := rfl
  sensitive := rfl
  elevated := rfl
  settled := fun _ he => absurd he List.not_mem_nil

/-! ## Intents by id -/

theorem mem_of_intent? {id : String} {i : ActionIntent} (h : j.intent? id = some i) :
    ∃ e ∈ j.actions.rows, e.2.intent = i ∧ i.id = id := by
  obtain ⟨e, he, rfl⟩ := Option.map_eq_some_iff.mp h
  exact ⟨e, List.mem_of_find?_eq_some he, rfl, by simpa using List.find?_some he⟩

theorem intent?_of_mem (hids : (j.actions.rows.map (·.2.intent.id)).Nodup) {e : String × ActionReceipt}
    (he : e ∈ j.actions.rows) : j.intent? e.2.intent.id = some e.2.intent := by
  have hsome : (j.actions.rows.find? fun e' => e'.2.intent.id = e.2.intent.id).isSome := by
    rw [List.find?_isSome]
    exact ⟨e, he, by simp⟩
  obtain ⟨e', he'⟩ := Option.isSome_iff_exists.mp hsome
  have hid : e'.2.intent.id = e.2.intent.id := by simpa using List.find?_some he'
  have heq : e' = e := List.inj_on_of_nodup_map hids (List.mem_of_find?_eq_some he') he hid
  rw [intent?, he', heq]
  rfl

/-! ## Replays -/

@[simp] theorem Replay.latest_put_self (r : Replay) (event : ActionAuditEntry) :
    (r.put event).latest event.action = some event := Function.update_self ..

theorem Replay.latest_put_of_ne {event : ActionAuditEntry} {id : String} (h : id ≠ event.action) (r : Replay) :
    (r.put event).latest id = r.latest id := Function.update_of_ne h ..

/-- What an entry does to the counters. -/
def Replay.counted (r : Replay) (state : ActionState) (intent : ActionIntent) : Option Replay :=
  if state = .admitted then r.reserve intent else some r

theorem replayStep_of_intent {intent : ActionIntent} {event : ActionAuditEntry} {n : ℕ}
    (hintent : j.intent? event.action = some intent) (hplace : event.sequence = n + 1) (hat : event.at_ ≠ 0)
    (hfollows : follows ((r.latest event.action).map (·.state)) event.state = true) :
    replayStep j r (event, n) = (r.counted event.state intent).map (·.put event) := by
  unfold replayStep Replay.counted
  dsimp only
  rw [hintent]
  dsimp only
  rw [if_neg (by simp [hplace, hat]), if_neg (by simp [hfollows])]
  split
  · rfl
  · rfl

theorem of_replayStep {r' : Replay} {event : ActionAuditEntry} {n : ℕ}
    (h : replayStep j r (event, n) = some r') :
    ∃ intent, j.intent? event.action = some intent ∧ event.sequence = n + 1 ∧ event.at_ ≠ 0 ∧
      follows ((r.latest event.action).map (·.state)) event.state = true := by
  unfold replayStep at h
  dsimp only at h
  split at h
  · cases h
  · next intent hintent =>
    by_cases hplace : event.sequence ≠ n + 1 ∨ event.at_ = 0
    · rw [if_pos hplace] at h
      cases h
    · rw [if_neg hplace] at h
      rw [not_or, not_not] at hplace
      cases hfollows : follows ((r.latest event.action).map (·.state)) event.state with
      | false =>
        rw [hfollows] at h
        cases h
      | true => exact ⟨intent, hintent, hplace.1, hplace.2, rfl⟩

/-- A replay goes the same way in a journal that still has the intents. -/
theorem replay_congr {j' : ActionJournal} (h : ∀ id i, j.intent? id = some i → j'.intent? id = some i)
    {entries : List (ActionAuditEntry × ℕ)} {r' : Replay} (hr : entries.foldlM (replayStep j) r = some r') :
    entries.foldlM (replayStep j') r = some r' := by
  induction entries generalizing r with
  | nil => exact hr
  | cons entry entries ih =>
    obtain ⟨event, n⟩ := entry
    rw [List.foldlM_cons] at hr ⊢
    obtain ⟨r₁, hstep, hrest⟩ := Option.bind_eq_some_iff.mp hr
    obtain ⟨intent, hintent, hplace, hat, hfollows⟩ := of_replayStep hstep
    have hsame : replayStep j' r (event, n) = replayStep j r (event, n) := by
      rw [replayStep_of_intent hintent hplace hat hfollows,
        replayStep_of_intent (h _ _ hintent) hplace hat hfollows]
    rw [hsame, hstep]
    exact ih hrest

theorem Replay.latest_counted {state : ActionState} {intent : ActionIntent} {r₁ : Replay}
    (h : r.counted state intent = some r₁) : r₁.latest = r.latest := by
  unfold Replay.counted Replay.reserve at h
  split at h
  · split at h
    · cases h
    · split at h
      · cases h
      · cases h
        rfl
  · cases h
    rfl

/-- Only the action that is admitted is reserved anew. -/
theorem Replay.reserved_counted {state : ActionState} {intent : ActionIntent} {r₁ : Replay}
    (h : r.counted state intent = some r₁) {id : String} (hid : id ≠ intent.id ∨ state ≠ .admitted) :
    r₁.reserved id = r.reserved id := by
  unfold Replay.counted Replay.reserve at h
  split at h
  · next hadmitted =>
    have hne : id ≠ intent.id := hid.resolve_right (not_not.mpr hadmitted)
    split at h
    · cases h
    · split at h
      · cases h
      · cases h
        exact Function.update_of_ne hne _ _
  · cases h
    rfl

/-- The actions a replay knows of are in the journal. -/
def Replay.Known (j : ActionJournal) (r : Replay) : Prop :=
  ∀ id, (r.latest id).isSome ∨ r.reserved id = true → (j.intent? id).isSome

theorem Replay.Known.step {event : ActionAuditEntry} {n : ℕ} {r' : Replay} (h : r.Known j)
    (hstep : replayStep j r (event, n) = some r') : r'.Known j := by
  obtain ⟨intent, hintent, hplace, hat, hfollows⟩ := of_replayStep hstep
  rw [replayStep_of_intent hintent hplace hat hfollows] at hstep
  obtain ⟨r₁, hcounted, rfl⟩ := Option.map_eq_some_iff.mp hstep
  obtain ⟨e, he, rfl, hid⟩ := mem_of_intent? hintent
  intro id hid'
  by_cases hsame : id = event.action
  · rw [hsame, hintent]
    rfl
  · refine h id ?_
    rcases hid' with hlatest | hreserved
    · left
      rwa [Replay.latest_put_of_ne hsame, Replay.latest_counted hcounted] at hlatest
    · right
      rw [← Replay.reserved_counted hcounted (.inl (hid ▸ hsame))]
      exact hreserved

theorem Replay.Known.foldlM {entries : List (ActionAuditEntry × ℕ)} {r' : Replay} (h : r.Known j)
    (hr : entries.foldlM (replayStep j) r = some r') : r'.Known j := by
  induction entries generalizing r with
  | nil =>
    cases hr
    exact h
  | cons entry entries ih =>
    obtain ⟨r₁, hstep, hrest⟩ := Option.bind_eq_some_iff.mp hr
    exact ih (h.step hstep) hrest

theorem Valid.known (h : Valid codec j r) : r.Known j := by
  have hstart : ({} : Replay).Known j := by
    intro id hid
    simp at hid
  exact hstart.foldlM h.replays

end ActionJournal

/-! ## Records -/

section Record

open ActionJournal

variable {codec : Codec} {call : ActionCall} {j : ActionJournal} {r r₁ : Replay} {receipt : ActionReceipt}
  {evidence : String}

/-- The intent of a call is the one under its key, and its id is under no other key. -/
structure Agrees (call : ActionCall) (j : ActionJournal) : Prop where
  id : ∀ e ∈ j.actions.rows, e.2.intent.id = call.intent.id → e.1 = call.intent.idempotencyKey
  intent : ∀ e ∈ j.actions.rows, e.1 = call.intent.idempotencyKey → e.2.intent = call.intent

/-- A record that the replay follows. -/
structure Extends (codec : Codec) (call : ActionCall) (j : ActionJournal) (r r₁ : Replay)
    (receipt : ActionReceipt) (evidence : String) : Prop where
  clock : call.now ≠ 0
  intent : receipt.intent = call.intent
  bound : j.bound codec (call.intent.idempotencyKey, receipt) = true
  follows : follows ((r.latest call.intent.id).map (·.state)) receipt.state = true
  counted : r.counted receipt.state call.intent = some r₁
  freshness : r₁.reserved call.intent.id = true → receipt.freshness.isSome
  outcome : ∀ o, receipt.outcome = some o → o.state = receipt.state ∧ o.destination = call.intent.destination ∧
    o.payloadDigest = call.intent.payloadDigest ∧ o.evidenceRef = evidence

theorem mem_recorded {e : String × ActionReceipt} :
    e ∈ (recorded call j receipt evidence).actions.rows ↔
      e = (call.intent.idempotencyKey, stamped call j receipt) ∨
        e ∈ j.actions.rows ∧ e.1 ≠ call.intent.idempotencyKey :=
  Table.mem_rows_upsert

theorem nodup_recorded (hids : (j.actions.rows.map (·.2.intent.id)).Nodup) (hagrees : Agrees call j)
    (hintent : receipt.intent = call.intent) :
    ((recorded call j receipt evidence).actions.rows.map (·.2.intent.id)).Nodup := by
  have hrows : (recorded call j receipt evidence).actions.rows.Nodup := List.Nodup.of_map _ (Table.nodup _)
  refine hrows.map_on fun e he e' he' hid => ?_
  rcases mem_recorded.mp he with rfl | ⟨he, hkey⟩
  · rcases mem_recorded.mp he' with rfl | ⟨he', hkey'⟩
    · rfl
    · exact absurd (hagrees.id e' he' (hid.symm.trans (congrArg ActionIntent.id hintent))) hkey'
  · rcases mem_recorded.mp he' with rfl | ⟨he', hkey'⟩
    · exact absurd (hagrees.id e he (hid.trans (congrArg ActionIntent.id hintent))) hkey
    · exact List.inj_on_of_nodup_map hids he he' hid

theorem intent?_recorded (hids : (j.actions.rows.map (·.2.intent.id)).Nodup) (hagrees : Agrees call j)
    (hintent : receipt.intent = call.intent) {id : String} {i : ActionIntent} (h : j.intent? id = some i) :
    (recorded call j receipt evidence).intent? id = some i := by
  have hnodup : ((recorded call j receipt evidence).actions.rows.map (·.2.intent.id)).Nodup :=
    nodup_recorded hids hagrees hintent
  obtain ⟨e, he, rfl, rfl⟩ := mem_of_intent? h
  by_cases hkey : e.1 = call.intent.idempotencyKey
  · have hmem : (call.intent.idempotencyKey, stamped call j receipt) ∈
        (recorded call j receipt evidence).actions.rows := mem_recorded.mpr (.inl rfl)
    have hfound := intent?_of_mem hnodup hmem
    rw [hagrees.intent e he hkey]
    rwa [show (stamped call j receipt).intent = call.intent from hintent] at hfound
  · exact intent?_of_mem hnodup (mem_recorded.mpr (.inr ⟨he, hkey⟩))

/-- The entry a record adds to the audit. -/
def entryOf (call : ActionCall) (j : ActionJournal) (state : ActionState) (evidence : String) : ActionAuditEntry where
  sequence := j.sequence + 1
  action := call.intent.id
  state := state
  at_ := call.now
  evidenceRef := evidence

theorem replay_recorded {j₁ : ActionJournal} (hvalid : Valid codec j r) (hagrees : Agrees call j)
    (hext : Extends codec call j r r₁ receipt evidence) (hactions : j₁.actions = j.actions)
    (haudit : j₁.audit = j.audit) (hsequence : j₁.sequence = j.sequence) :
    (recorded call j₁ receipt evidence).replay = some (r₁.put (entryOf call j receipt.state evidence)) := by
  have hagrees₁ : Agrees call j₁ := ⟨hactions ▸ hagrees.id, hactions ▸ hagrees.intent⟩
  have hids₁ : (j₁.actions.rows.map (·.2.intent.id)).Nodup := hactions ▸ hvalid.ids
  have hintents : ∀ id i, j.intent? id = some i → (recorded call j₁ receipt evidence).intent? id = some i := by
    intro id i hi
    refine intent?_recorded hids₁ hagrees₁ hext.intent ?_
    rwa [intent?, hactions]
  have hold : j.audit.zipIdx.foldlM (replayStep (recorded call j₁ receipt evidence)) {} = some r :=
    replay_congr hintents hvalid.replays
  have hmem : (call.intent.idempotencyKey, stamped call j₁ receipt) ∈
      (recorded call j₁ receipt evidence).actions.rows := mem_recorded.mpr (.inl rfl)
  have hfound := intent?_of_mem (nodup_recorded hids₁ hagrees₁ hext.intent) hmem
  rw [show (stamped call j₁ receipt).intent = call.intent from hext.intent] at hfound
  have hstep : replayStep (recorded call j₁ receipt evidence) r (entryOf call j receipt.state evidence,
      j.audit.length) =
      some (r₁.put (entryOf call j receipt.state evidence)) := by
    rw [replayStep_of_intent hfound (by rw [hvalid.length]; rfl) hext.clock hext.follows]
    exact congrArg (Option.map _) hext.counted
  have hentries : (recorded call j₁ receipt evidence).audit = j.audit ++ [entryOf call j receipt.state evidence] := by
    rw [recorded, entryOf, haudit, hsequence]
  rw [replay, hentries, List.zipIdx_append, List.foldlM_append, hold]
  simpa using hstep

theorem settled_of_ne {receipt' : ActionReceipt} {event : ActionAuditEntry} {state : ActionState}
    {intent : ActionIntent} (hcounted : r.counted state intent = some r₁) (hid : event.action = intent.id)
    (hne : receipt'.intent.id ≠ intent.id) (h : settled r receipt' = true) :
    settled (r₁.put event) receipt' = true := by
  have hlatest : (r₁.put event).latest receipt'.intent.id = r.latest receipt'.intent.id := by
    rw [Replay.latest_put_of_ne (hid ▸ hne), Replay.latest_counted hcounted]
  have hreserved : (r₁.put event).reserved receipt'.intent.id = r.reserved receipt'.intent.id :=
    Replay.reserved_counted hcounted (.inl hne)
  unfold settled at h ⊢
  rwa [hlatest, hreserved]

theorem settled_stamped (hext : Extends codec call j r r₁ receipt evidence) :
    settled (r₁.put (entryOf call j receipt.state evidence)) (stamped call j receipt) = true := by
  have hid : (stamped call j receipt).intent.id = (entryOf call j receipt.state evidence).action :=
    congrArg ActionIntent.id hext.intent
  have hfresh : (!(r₁.put (entryOf call j receipt.state evidence)).reserved
      (entryOf call j receipt.state evidence).action ||
      (stamped call j receipt).freshness.isSome) = true := by
    cases hreserved : r₁.reserved call.intent.id with
    | false =>
      change (!r₁.reserved call.intent.id || _) = true
      rw [hreserved]
      rfl
    | true =>
      change (_ || receipt.freshness.isSome) = true
      rw [hext.freshness hreserved, Bool.or_true]
  unfold settled
  rw [hid, Replay.latest_put_self]
  rw [hfresh]
  simp only [Bool.and_eq_true, decide_eq_true_eq, Option.all_eq_true]
  refine ⟨⟨⟨⟨rfl, rfl⟩, rfl⟩, trivial⟩, fun o ho => ?_⟩
  obtain ⟨hstate, hdest, hpayload, hevidence⟩ := hext.outcome o ho
  rw [show (stamped call j receipt).intent = call.intent from hext.intent]
  exact ⟨⟨⟨hstate, hdest⟩, hpayload⟩, hevidence⟩

/-- A record keeps the journal valid; the counters may have moved with it. -/
theorem ActionJournal.Valid.recorded {j₁ : ActionJournal} (hvalid : Valid codec j r) (hagrees : Agrees call j)
    (hext : Extends codec call j r r₁ receipt evidence)
    (hj₁ : j₁ = { j with reservedCalls := r₁.calls, reservedWork := r₁.work, sensitiveRead := r₁.sensitive
                         privilegeElevated := r₁.elevated }) :
    Valid codec (recorded call j₁ receipt evidence) (r₁.put (entryOf call j receipt.state evidence)) := by
  subst hj₁
  refine
    { schema := hvalid.schema, principal := hvalid.principal, root := hvalid.root, length := ?_, bound := ?_
      ids := nodup_recorded hvalid.ids ⟨hagrees.id, hagrees.intent⟩ hext.intent
      replays := replay_recorded hvalid hagrees hext rfl rfl rfl, calls := rfl, work := rfl,
        sensitive := rfl, elevated := rfl, settled := ?_ }
  · have hlength := hvalid.length
    simp [ExecutionPolicy.recorded, hlength]
  · intro e he
    rcases mem_recorded.mp he with rfl | ⟨he, -⟩
    · exact hext.bound
    · exact hvalid.bound e he
  · intro e he
    rcases mem_recorded.mp he with rfl | ⟨he, hkey⟩
    · exact settled_stamped hext
    · refine settled_of_ne hext.counted rfl (fun hid => hkey (hagrees.id e he hid)) (hvalid.settled e he)

end Record

end ExecutionPolicy
