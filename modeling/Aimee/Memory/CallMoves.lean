-- SUMMARY: Each call of the memory owner as a sequence of elementary writes, and the one start that is not.
import Aimee.Memory.Moves

/-!
# Calls as writes

Every call but a start is a sequence of elementary writes. A start writes its record through a
pointer to a receipt that making room may have evicted.
-/

namespace SourceRelease

variable {Ref : Type} {P : Platform Ref} {tokens : List String}

/-- The attempt that is drawn is one of the tokens, and no receipt has it. -/
def NewAttempt (s : State Ref) (draws : Draws) (tokens : List String) : Prop :=
  ∀ attempt, draws.attempt = some attempt → attempt ∈ tokens ∧ s.receipts.get? attempt = none

/-- No token of a list is a key of the state. -/
structure Unused (s : State Ref) (tokens : List String) : Prop where
  entries : ∀ t ∈ tokens, s.entries.get? t = none
  forks : ∀ t ∈ tokens, s.forks.get? t = none
  receipts : ∀ t ∈ tokens, s.receipts.get? t = none

variable {s : State Ref} {draws : Draws} {now : Time} {args : Args} {r : Receipt} {assembly : Assembly Ref}

theorem Unused.expire (h : Unused s tokens) (now : Time) : Unused (expire P s now) tokens where
  entries t ht := get?_live_none (h.entries t ht)
  forks t ht := get?_live_none (h.forks t ht)
  receipts t ht := get?_live_none (h.receipts t ht)

theorem Unused.newAttempt (h : Unused s draws.tokens) (hdrawn : ∀ t ∈ draws.tokens, t ∈ tokens) :
    NewAttempt s draws tokens := by
  intro attempt hattempt
  have hmem : attempt ∈ draws.tokens := by simp [Draws.tokens, hattempt]
  exact ⟨hdrawn attempt hmem, h.receipts attempt hmem⟩

theorem moves_expire (s : State Ref) (now : Time) : Moves P tokens s (expire P s now) := (Move.expire s now).moves

theorem moves_entry (slot : Slot) {f : Entry Ref → Entry Ref} (hf : KeepsEntry f) :
    Moves P tokens s (s.alter slot f) :=
  (Move.entry s slot f hf).moves

/-! ## Receipts -/

theorem moves_linkAttempt (s : State Ref) (slot : Option Slot) (attempt : String) :
    Moves P tokens s (linkAttempt s slot attempt) := by
  cases slot with
  | none => exact .refl
  | some slot => exact moves_entry slot fun e => ⟨rfl, rfl, rfl, rfl⟩

variable {slot : Option Slot} {entry : Entry Ref} {id : String} {prior : Option (Entry Ref)} {refs : List Ref}
     {replaceNative : Bool} {parentToken newId binding : String} {parent : Entry Ref}

theorem moves_receiptCommit {attempt : String}
    {binding : ReceiptBinding} (hdrawn : attempt ∈ tokens) (hfresh : s.receipts.get? attempt = none) :
    Moves P tokens s (receiptCommit P s args slot entry now attempt binding).1 := by
  unfold receiptCommit
  dsimp only
  split
  · exact .refl
  split
  · exact .refl
  have hmade := receiptRoom_made P tokens s 1
    ((newReceipt P entry now attempt binding).prepared.length +
      (newReceipt P entry now attempt binding).admitted.length)
  have habsent := makeRoom_absent (s.receipts.size + 1) s 1
    ((newReceipt P entry now attempt binding).prepared.length +
      (newReceipt P entry now attempt binding).admitted.length) hfresh
  rw [← receiptRoom] at habsent
  split
  · next s' hroom =>
    rw [hroom] at hmade
    exact hmade.moves
  · next s' hroom =>
    rw [hroom] at hmade habsent
    have hadd : ∀ handle, Moves P tokens s'
        (addReceipt s' attempt { newReceipt P entry now attempt binding with healthTurnHandle := handle }) := by
      intro handle
      exact (Move.addReceipt s' attempt { newReceipt P entry now attempt binding with
        healthTurnHandle := handle } hdrawn
        habsent (hmade.size rfl) (hmade.fits rfl) rfl rfl rfl).moves
    split <;> exact (hmade.moves.trans (hadd _)).trans (moves_linkAttempt _ _ _)

theorem moves_receiptPrepare {check coverage : String} (hnew : NewAttempt s draws tokens) :
    Moves P tokens s (receiptPrepare P s args slot entry check coverage now draws).1 := by
  unfold receiptPrepare
  dsimp only
  split
  · exact .refl
  split
  · exact .refl
  next attempt hattempt =>
    obtain ⟨hdrawn, hfresh⟩ := hnew attempt hattempt
    split
    · exact .refl
    next producer _ =>
      have hproducer : Moves P tokens s { s with receiptProducer := producer } := (Move.producer s producer).moves
      split
      · exact hproducer
      split
      · exact hproducer
      · exact hproducer.trans (moves_receiptCommit hdrawn hfresh)

theorem moves_receiptPlan {held : Option (Slot × Entry Ref)}
    (hnew : NewAttempt s draws tokens) : Moves P tokens s (receiptPlan P s args held now draws).1 := by
  cases held with
  | none => exact moves_receiptPrepare hnew
  | some held =>
    obtain ⟨slot, entry⟩ := held
    have htake : Moves P tokens s (s.alter slot Entry.take) :=
      moves_entry slot fun e => ⟨rfl, rfl, rfl, rfl⟩
    simp only [receiptPlan]
    split
    · exact htake
    · refine htake.trans (moves_receiptPrepare ?_)
      cases slot <;> exact hnew

/-- A receipt whose observation is stored has one. -/
def StoredObserved (s : State Ref) : Prop :=
  ∀ id r, s.receipts.get? id = some r → r.persistedAt.isSome → r.observation.isSome

theorem StoredObserved.pending (h : StoredObserved s) (hr : s.receipts.get? id = some r)
    (hobservation : r.observation = none) : r.persistedAt = none := by
  cases hp : r.persistedAt with
  | none => rfl
  | some t =>
    have hsome := h id r hr (by rw [hp]; rfl)
    rw [hobservation] at hsome
    cases hsome

theorem moves_receiptObservation (hstored : StoredObserved s) (args : Args) (now : Time) :
    Moves P tokens s (receiptObservation P s args now).1 := by
  unfold receiptObservation
  dsimp only
  split
  · exact .refl
  next r hr =>
  split
  · exact .refl
  split
  · exact .refl
  next status _ =>
  split
  · exact .refl
  split
  · exact .refl
  split
  · exact .refl
  split
  · split <;> exact .refl
  next hobservation =>
  split
  · exact .refl
  have hmade := receiptRoom_made P tokens s 0
    (observationEvent P r now status (args.responseSha256.orElse "") (args.responseBytes.orElse "")
      (args.responseRepresentation.orElse "host_buffered_response_string")).length
  -- The receipt has no observation, so it is not stored and making room keeps it.
  have hkept := makeRoom_keeps_pending (hstored.pending hr hobservation) (s.receipts.size + 1) s 0
    (observationEvent P r now status (args.responseSha256.orElse "") (args.responseBytes.orElse "")
      (args.responseRepresentation.orElse "host_buffered_response_string")).length hr
  rw [← receiptRoom] at hkept
  split
  · next s' hroom =>
    rw [hroom] at hmade
    exact hmade.moves
  · next s' hroom =>
    rw [hroom] at hmade hkept
    refine hmade.moves.trans (Move.detail s' (args.attemptId.orElse "") r _ _ hkept ?_ (hmade.fits rfl)
      fun _ => rfl).moves
    simp only [Receipt.size, hobservation, Option.map_some, Option.map_none, Option.getD_some, Option.getD_none]
    omega

theorem moves_receiptStored (s : State Ref) (args : Args) (now : Time) :
    Moves P tokens s (receiptStored P s args now).1 := by
  unfold receiptStored
  dsimp only
  split
  · exact .refl
  next r hr =>
  split
  · exact .refl
  next event hobservation =>
  split
  · exact .refl
  split
  · exact (Move.store s (args.attemptId.orElse "") r now hr (by rw [hobservation]; rfl)).moves
  · exact .refl

/-! ## Starts -/

/-- The record a start makes room for first. -/
def startRecord (P : Platform Ref) (r : Receipt) (now : Time) : ReceiptEvent :=
  if receiptEventJSON (startedEvent P r now r.healthRelease) then startedEvent P r now r.healthRelease
  else startedEvent P r now none

/-- Whether a start evicts the receipt it is about and still accounts for a record of it: its
    observation is stored, the receipts stored before it do not free enough, and all stored ones do. -/
def StartEvicts (P : Platform Ref) (s : State Ref) (args : Args) (now : Time) : Prop :=
  ∃ r t, s.receipts.get? (args.attemptId.orElse "") = some r ∧ r.binding = P.releaseBinding args ∧ r.started = none ∧
    r.persistedAt = some t ∧
    sourceReleaseMaxBytes + bytesBefore s.receipts t (args.attemptId.orElse "") < s.receiptBytes +
      (startRecord P r now).length ∧
    ∃ e, (e = startRecord P r now ∨ e = startedEvent P r now none) ∧ receiptEventJSON e ∧
      s.receiptBytes + e.length ≤ sourceReleaseMaxBytes + storedBytes s.receipts

theorem moves_recordStarted {event : ReceiptEvent} (hstarted : r.started = none)
    (hstored : r.persistedAt.isSome → r.observation.isSome)
    (hkept : (receiptRoom s 0 event.length).2 = true → (receiptRoom s 0 event.length).1.receipts.get? id = some r) :
    Moves P tokens s (recordStarted s id event).1 := by
  have hmade := receiptRoom_made P tokens s 0 event.length
  unfold recordStarted
  split
  · exact .refl
  split
  · next s' hroom =>
    rw [hroom] at hmade
    exact hmade.moves
  · next s' hroom =>
    rw [hroom] at hmade hkept
    refine hmade.moves.trans (Move.detail s' id r _ _ (hkept rfl) ?_ (hmade.fits rfl) hstored).moves
    simp only [Receipt.size, hstarted, Option.map_some, Option.map_none, Option.getD_some, Option.getD_none]
    omega

theorem startRecord_of_fits (h : receiptEventJSON (startedEvent P r now r.healthRelease) = true) :
    startRecord P r now = startedEvent P r now r.healthRelease :=
  if_pos h

theorem startRecord_of_not_fits (h : ¬ receiptEventJSON (startedEvent P r now r.healthRelease) = true) :
    startRecord P r now = startedEvent P r now none :=
  if_neg h

/-- A start that does not evict its own receipt is a sequence of writes. -/
theorem moves_receiptStarted (hstored : StoredObserved s)
    (hsize : s.receipts.size ≤ sourceReleaseMaxEntries) (hstart : ¬ StartEvicts P s args now) :
    Moves P tokens s (receiptStarted P s args now).1 := by
  unfold receiptStarted
  dsimp only
  split
  · exact .refl
  next r hr =>
  split
  · exact .refl
  next hbinding =>
  split
  · exact .refl
  next hstarted =>
  -- A record that is tried keeps the receipt, or no stored receipts make room for it.
  have hspares : ∀ t, r.persistedAt = some t →
      sourceReleaseMaxBytes + bytesBefore s.receipts t (args.attemptId.orElse "") <
      s.receiptBytes + (startRecord P r now).length →
      ∀ e, (e = startRecord P r now ∨ e = startedEvent P r now none) → receiptEventJSON e = true →
        sourceReleaseMaxBytes + storedBytes s.receipts < s.receiptBytes + e.length := by
    intro t ht hbefore e he hjson
    by_contra hfits
    exact hstart ⟨r, t, hr, not_not.mp hbinding, hstarted, ht, hbefore, e, he, hjson, not_lt.mp hfits⟩
  have hstored' := hstored _ r hr
  have hplain : startRecord P r now = startedEvent P r now none →
      Moves P tokens s (recordStarted s (args.attemptId.orElse "") (startedEvent P r now none)).1 := by
    intro hrecord
    by_cases hjson : receiptEventJSON (startedEvent P r now none) = true
    · refine moves_recordStarted hstarted hstored' (receiptRoom_keeps _ hr hsize fun t ht hbefore => ?_)
      exact hspares t ht (by rwa [hrecord]) _ (.inr rfl) hjson
    · rw [recordStarted, if_pos (by simpa using hjson)]
  split
  · split
    · next hjson => exact hplain (startRecord_of_not_fits (by simpa using hjson))
    · next hjson =>
      have hjson' : receiptEventJSON (startedEvent P r now r.healthRelease) = true := by simpa using hjson
      have hrecord := startRecord_of_fits hjson'
      have hmade := receiptRoom_made P tokens s 0 (startedEvent P r now r.healthRelease).length
      have hkeeps := receiptRoom_keeps (startedEvent P r now r.healthRelease).length hr hsize
        fun t ht hbefore => hspares t ht (by rwa [hrecord]) _ (.inl hrecord.symm) hjson'
      split
      · next s' hroom =>
        -- The record with health found no room: the one without it is tried in what is left.
        rw [hroom] at hmade
        refine hmade.moves.trans ?_
        cases hp : r.persistedAt with
        | none =>
          have hkept := makeRoom_keeps_pending hp (s.receipts.size + 1) s 0
            (startedEvent P r now r.healthRelease).length hr
          rw [← receiptRoom, hroom] at hkept
          exact moves_recordStarted hstarted hstored' fun _ => makeRoom_keeps_pending hp _ s' 0 _ hkept
        | some t =>
          by_cases hjson'' : receiptEventJSON (startedEvent P r now none) = true
          · have hbefore : sourceReleaseMaxBytes + bytesBefore s.receipts t (args.attemptId.orElse "") <
                s.receiptBytes + (startedEvent P r now r.healthRelease).length := by
              by_contra hle
              have htrue := (makeRoom_keeps_stored hp (s.receipts.size + 1) s _ hr hsize (Nat.lt_succ_self _)
                (not_lt.mp hle)).2
              rw [← receiptRoom, hroom] at htrue
              cases htrue
            have hfull := hspares t hp (by rwa [hrecord]) _ (.inr rfl) hjson''
            have hfree := makeRoom_unstored (s.receipts.size + 1) s 0 (startedEvent P r now r.healthRelease).length
            rw [← receiptRoom, hroom] at hfree
            refine moves_recordStarted hstarted hstored' fun htrue => ?_
            rw [receiptRoom, makeRoom_refused _ s' 0 _ (by dsimp only at hfree; omega)] at htrue
            cases htrue
          · rw [recordStarted, if_pos (by simpa using hjson'')]
      · next s' hroom =>
        rw [hroom] at hmade hkeeps
        refine hmade.moves.trans (moves_recordStarted hstarted hstored' fun _ => ?_)
        rw [receiptRoom_of_room (hmade.size rfl) (hmade.fits rfl)]
        exact hkeeps rfl
  · next hnone =>
    have hnone' : r.healthRelease = none := by simpa using hnone
    rw [hnone']
    refine hplain ?_
    unfold startRecord
    rw [hnone', ite_self]

/-! ## The release handler -/

theorem healthMetadata_fits
    {assemblyDigest : String} {parts : List Part} (h : s.healthBytes ≤ sourceReleaseHealthMaxBytes) :
    s.healthBytes + (len (healthMetadata P s prior assembly refs assemblyDigest parts) : ℤ) ≤
      sourceReleaseHealthMaxBytes := by
  have hempty : s.healthBytes + (len "" : ℤ) ≤ sourceReleaseHealthMaxBytes := by
    rw [len, String.utf8ByteSize_empty]
    omega
  unfold healthMetadata
  generalize (if P.healthEnabled = true then P.healthFields prior assembly refs else []) = fields
  dsimp only
  split
  · exact hempty
  · split
    · exact hempty
    · next hfits =>
      rw [not_or, not_lt, not_lt] at hfits
      exact hfits.2

theorem moves_retain {grades : String} {token previous workspace project binding : String} (hdrawn : token ∈ tokens)
    (hentry : s.entries.get? token = none) (hfork : s.forks.get? token = none)
    (hhealth : s.healthBytes ≤ sourceReleaseHealthMaxBytes) :
    Moves P tokens s (retain P s assembly prior refs grades replaceNative token previous workspace project
      binding now).1 := by
  have hcommit : ∀ part kept, Moves P tokens s
      (retain.commit P s assembly prior refs grades token previous workspace project binding now part kept).1 := by
    intro part kept
    unfold retain.commit
    split
    · exact .refl
    dsimp only
    split
    · exact .refl
    next hroom =>
      rw [not_or, not_or, not_le, gt_iff_lt, not_lt] at hroom
      refine (Move.addEntry s token _ hdrawn hentry hfork hroom.1 hroom.2.1 ?_).moves
      exact healthMetadata_fits hhealth
  unfold retain
  dsimp only
  split
  · split
    · exact .refl
    · exact hcommit _ _
  · exact hcommit _ _

theorem total_live_le {α : Type} (expires : α → Time) (now : Time) (m : KeyMap String α) {f : α → ℤ}
    (hf : ∀ a, 0 ≤ f a) :
    0 ≤ (lapsed expires now m).total f :=
  KeyMap.total_nonneg _ hf

theorem Entry.healthSize_nonneg (e : Entry Ref) : 0 ≤ e.healthSize := Int.natCast_nonneg _

theorem sourceReleaseBytes_nonneg (e : Entry Ref) : 0 ≤ P.sourceReleaseBytes e := by
  unfold Platform.sourceReleaseBytes
  omega

theorem healthBytes_expire_le (s : State Ref) (now : Time) : (expire P s now).healthBytes ≤ s.healthBytes := by
  have hforks := total_live_le (fun k : Fork Ref => k.entry.expires) now s.forks (f := fun k => k.entry.healthSize)
    fun k => k.entry.healthSize_nonneg
  have hentries := total_live_le Entry.expires now s.entries (f := Entry.healthSize) Entry.healthSize_nonneg
  change s.healthBytes - (lapsed _ now s.forks).total _ - (lapsed Entry.expires now s.entries).total
    Entry.healthSize ≤ _
  omega

theorem moves_prepareLocked {token : String} (hdrawn : token ∈ tokens)
    (hentry : s.entries.get? token = none) (hfork : s.forks.get? token = none)
    (hhealth : s.healthBytes ≤ sourceReleaseHealthMaxBytes) :
    Moves P tokens s (prepareLocked P s args assembly replaceNative token now).1 := by
  unfold prepareLocked
  dsimp only
  generalize (if args.sourceReleaseTicket.orElse "" = "" then none
    else s.entries.get? (args.sourceReleaseTicket.orElse "")) = prior
  split
  · exact .refl
  split
  · exact .refl
  next refs grades _ =>
  split
  · exact .refl
  split
  · exact .refl
  exact moves_retain hdrawn hentry hfork hhealth

theorem moves_prepare (hdrawn : ∀ t ∈ draws.tokens, t ∈ tokens) (hfresh : Unused s draws.tokens)
    (hhealth : s.healthBytes ≤ sourceReleaseHealthMaxBytes) :
    Moves P tokens s (prepare P s args assembly now draws).1 := by
  unfold prepare
  dsimp only
  split
  · exact .refl
  split
  · exact .refl
  next token htoken =>
  split
  · exact .refl
  have hmem : token ∈ draws.tokens := by simp [Draws.tokens, htoken]
  have hfresh' := hfresh.expire (P := P) now
  exact (moves_expire s now).trans (moves_prepareLocked (hdrawn token hmem) (hfresh'.entries token hmem)
    (hfresh'.forks token hmem) ((healthBytes_expire_le s now).trans hhealth))

theorem moves_forgetHealthRelease (s : State Ref) (attempt : String) :
    Moves P tokens s (forgetHealthRelease s attempt) := by
  refine (Move.receipt s attempt _ fun r => ?_).moves
  split <;> exact ⟨rfl, rfl, rfl⟩

theorem moves_reachFence (s : State Ref) (slot : Slot) (entry : Entry Ref) :
    Moves P tokens s (reachFence P s slot entry) := by
  have hforget : Moves P tokens s (forgetHealthRelease s entry.healthAttempt) := moves_forgetHealthRelease s _
  have hclear := hforget.trans (moves_entry slot (f := Entry.unadmit) fun e => ⟨rfl, rfl, rfl, rfl⟩)
  exact (hclear.trans (moves_drop _ _ _ _)).trans (moves_entry slot fun e => ⟨rfl, rfl, rfl, rfl⟩)

theorem moves_sourceReleasePlan (s : State Ref) (args : Args) (slot : Slot) (entry : Entry Ref) (draws : Draws) :
    Moves P tokens s (sourceReleasePlan P s args slot entry draws).1 := by
  have hfence : Moves P tokens s (reachFence P s slot entry) := moves_reachFence s slot entry
  unfold sourceReleasePlan
  dsimp only
  split
  · exact hfence
  next check _ =>
  have hask := hfence.trans (moves_entry slot (f := fun e => e.ask check) fun e => ⟨rfl, rfl, rfl, rfl⟩)
  split
  · exact hask
  have hguard := hask.trans (moves_entry slot (f := fun e => e.askGuard (args.sendGuard.orElse false))
    fun e => ⟨rfl, rfl, rfl, rfl⟩)
  split
  · exact hguard
  · exact hguard.trans (moves_entry slot fun e => ⟨rfl, rfl, rfl, rfl⟩)

theorem moves_healthGuardObserved (s : State Ref) (entry : Entry Ref) (check : String) (now : Time) :
    Moves P tokens s (healthGuardObserved P s entry check now) := by
  unfold healthGuardObserved
  split
  · exact .refl
  · refine (Move.receipt s entry.healthAttempt _ fun r => ?_).moves
    unfold observeGuard
    split
    · exact ⟨rfl, rfl, rfl⟩
    · split <;> exact ⟨rfl, rfl, rfl⟩

theorem moves_sourceReleaseResult (s : State Ref) (args : Args) (slot : Slot) (entry : Entry Ref) (now : Time) :
    Moves P tokens s (sourceReleaseResult P s args slot entry now).1 := by
  have hclear : Moves P tokens s (s.alter slot Entry.answered) := moves_entry slot fun e => ⟨rfl, rfl, rfl, rfl⟩
  unfold sourceReleaseResult
  split
  · exact hclear
  · exact hclear
  · have hgranted := hclear.trans (moves_entry slot (f := fun e => e.setAdmitted entry.pending) fun e =>
      ⟨rfl, rfl, rfl, rfl⟩)
    unfold admitAnswer
    split
    · exact (hgranted.trans (moves_entry slot (f := fun e => e.guard entry.pending now) fun e =>
        ⟨rfl, rfl, rfl, rfl⟩)).trans
        (moves_healthGuardObserved _ _ _ _)
    · exact hgranted

theorem moves_handleTicket {slot : Slot}
    (hnew : NewAttempt s draws tokens) :
    Moves P tokens s (handleTicket P s args slot now draws).1 := by
  unfold handleTicket
  dsimp only
  split
  · exact moves_drop _ _ _ _
  split
  · exact moves_drop _ _ _ _
  split
  · exact .refl
  split
  · exact .refl
  unfold handleEntry
  split
  · exact .refl
  · exact .refl
  · exact moves_receiptPlan hnew
  · exact moves_sourceReleasePlan _ _ _ _ _
  · exact moves_sourceReleaseResult _ _ _ _ _

theorem moves_handleSourceReleaseLocked {candidate : Option Slot}
    (hstored : StoredObserved s) (hsize : s.receipts.size ≤ sourceReleaseMaxEntries)
    (hstart : args.operation = .providerReceiptStarted → ¬ StartEvicts P s args now)
    (hnew : NewAttempt s draws tokens) :
    Moves P tokens s (handleSourceReleaseLocked P s args candidate now draws).1 := by
  unfold handleSourceReleaseLocked
  dsimp only
  split
  · split <;> exact .refl
  · exact .refl
  · next hop => exact moves_receiptStarted hstored hsize (hstart hop)
  · exact moves_receiptObservation hstored _ _
  · exact moves_receiptStored _ _ _
  · split
    · split
      · exact .refl
      · exact moves_receiptPlan hnew
    · exact moves_handleTicket hnew
  · exact moves_handleTicket hnew

/-! ## Forks -/

theorem moves_forkPlan (hstored : StoredObserved s) (hsize : s.receipts.size ≤ sourceReleaseMaxEntries)
    (hdrawn : ∀ t ∈ draws.tokens, t ∈ tokens) (hfresh : Unused s draws.tokens) :
    Moves P tokens s (forkPlan P s args parentToken parent newId binding now draws).1 := by
  unfold forkPlan
  split
  · exact .refl
  split
  · exact .refl
  split
  · exact .refl
  next hfits =>
  split
  · exact .refl
  next token htoken =>
  have hmem : token ∈ draws.tokens := by simp [Draws.tokens, htoken]
  simp only [forkFits, Bool.not_eq_true', Bool.and_eq_false_iff, decide_eq_false_iff_not, not_or, not_not] at hfits
  have hopen : Moves P tokens s (openFork P s token
      { parent := parentToken, oldBinding := parent.binding, newRequest := newId, binding,
        entry := forkCandidate parent binding }) :=
    (Move.addFork s token
      { parent := parentToken, oldBinding := parent.binding, newRequest := newId, binding,
        entry := forkCandidate parent binding }
      (hdrawn token hmem) (hfresh.entries token hmem) (hfresh.forks token hmem) hfits.1.1.1 hfits.1.2 hfits.2).moves
  have hhandle : Moves P tokens s (handleSourceReleaseLocked P _ (sourceForkArgs args newId token .sourceReleasePlan)
      (some (.fork token)) now draws).1 :=
    hopen.trans (moves_handleSourceReleaseLocked hstored hsize (fun hop => by cases hop) (hfresh.newAttempt hdrawn))
  dsimp only
  split
  · next s' c hresult =>
    rw [hresult] at hhandle
    exact hhandle
  · next s' reply _ hresult =>
    rw [hresult] at hhandle
    exact hhandle.trans (Move.dropFork s' token).moves

theorem moves_forkResult (hstored : StoredObserved s) (hsize : s.receipts.size ≤ sourceReleaseMaxEntries)
    (hnew : NewAttempt s draws tokens) :
    Moves P tokens s (forkResult P s args parentToken parent newId binding now draws).1 := by
  unfold forkResult
  dsimp only
  split
  · exact .refl
  split
  · exact .refl
  have hhandle : Moves P tokens s (handleSourceReleaseLocked P s
      (sourceForkArgs args newId (args.forkTicket.orElse "") .sourceReleaseResult)
        (some (.fork (args.forkTicket.orElse ""))) now
      draws).1 :=
    moves_handleSourceReleaseLocked hstored hsize (fun hop => nomatch hop) hnew
  split
  · next s' hresult =>
    rw [hresult] at hhandle
    exact hhandle.trans (Move.promoteFork s' _).moves
  · next s' reply _ hresult =>
    rw [hresult] at hhandle
    exact hhandle.trans (Move.dropFork s' _).moves

theorem moves_handleSourceReleaseFork
    (hstored : StoredObserved (expire P s now)) (hsize : (expire P s now).receipts.size ≤ sourceReleaseMaxEntries)
    (hdrawn : ∀ t ∈ draws.tokens, t ∈ tokens) (hfresh : Unused s draws.tokens) :
    Moves P tokens s (handleSourceReleaseFork P s args now draws).1 := by
  have hexpire : Moves P tokens s (expire P s now) := moves_expire s now
  have hfresh' := hfresh.expire (P := P) now
  unfold handleSourceReleaseFork
  dsimp only
  split
  · exact hexpire
  split
  · split
    · exact hexpire
    split
    · exact hexpire.trans (moves_forkPlan hstored hsize hdrawn hfresh')
    · exact hexpire.trans (moves_forkResult hstored hsize (hfresh'.newAttempt hdrawn))
  · exact hexpire

/-! ## Calls -/

/-- Whether a call starts an attempt and evicts the receipt of the attempt for the record of it. -/
def StartDrifts (P : Platform Ref) (s : State Ref) (st : Step Ref) : Prop :=
  ∃ args, st.call = .release args ∧ args.operation = .providerReceiptStarted ∧
    StartEvicts P (expire P s st.now) args st.now

theorem StoredObserved.expire (h : StoredObserved s) (now : Time) : StoredObserved (expire P s now) := by
  intro id r hr
  have hlive : (live Receipt.expires now s.receipts).get? id = some r := hr
  rw [get?_live, Option.filter_eq_some_iff] at hlive
  exact h id r hlive.1

/-- A call that does not drift is a sequence of writes. -/
theorem moves_next {st : Step Ref} (hstored : StoredObserved s) (hsize : s.receipts.size ≤ sourceReleaseMaxEntries)
    (hhealth : s.healthBytes ≤ sourceReleaseHealthMaxBytes) (hstart : ¬ StartDrifts P s st)
    (hdrawn : ∀ t ∈ st.draws.tokens, t ∈ tokens) (hfresh : Unused s st.draws.tokens) :
    Moves P tokens s (next P s st) := by
  have hstored' := hstored.expire (P := P) st.now
  have hsize' : (expire P s st.now).receipts.size ≤ sourceReleaseMaxEntries := (KeyMap.size_keep_le _ _).trans hsize
  unfold next
  split
  · exact moves_prepare hdrawn hfresh hhealth
  · next args hcall =>
    refine (moves_expire s st.now).trans (moves_handleSourceReleaseLocked hstored' hsize' ?_ ?_)
    · exact fun hop hevicts => hstart ⟨args, hcall, hop, hevicts⟩
    · exact (hfresh.expire st.now).newAttempt hdrawn
  · exact moves_handleSourceReleaseFork hstored' hsize' hdrawn hfresh
  · unfold explorationOffer
    split
    · exact .refl
    · split
      · exact (Move.producer s _).moves
      · exact .refl
  · exact moves_expire s st.now

end SourceRelease
