-- SUMMARY: A start that evicts its own receipt leaves the receipt counter too high, and a full cache that reaches one.
import Aimee.Memory.Accounting

/-!
# A start under pressure

Making room for the record of a start may evict the receipt of that start. The record is then
written to a receipt the cache no longer holds, and the counter is raised all the same.
-/

namespace SourceRelease

open GoText

variable {Ref : Type} {P : Platform Ref}

/-! ## Evicted receipts -/

theorem bytesBefore_nonneg (receipts : KeyMap String Receipt) (at_ : Time) (id : String) :
    0 ≤ bytesBefore receipts at_ id := by
  refine receipts.sumBy_nonneg fun row _ => ?_
  split
  · exact row.2.size_nonneg
  · exact le_rfl

variable {receipts : KeyMap String Receipt} {r : Receipt} {id : String} {used : List String}
    {event : ReceiptEvent} {now : Time} {args : Args} {draws : Draws} {slot : Option Slot} {entry : Entry Ref}

theorem storedBytes_of_none (h : oldestStored receipts = none) : storedBytes receipts = 0 := by
  refine List.sum_eq_zero fun x hx => ?_
  obtain ⟨row, hrow, rfl⟩ := List.mem_map.mp hx
  cases hp : row.2.persistedAt with
  | none => simp [hp]
  | some t => exact absurd h (oldestStored_ne_none (KeyMap.get?_eq_some_iff.mpr hrow) (by simp [hp]))

theorem size_le_storedBytes (hr : receipts.get? id = some r)
    (hp : r.persistedAt.isSome) : r.size ≤ storedBytes receipts := by
  have hrest : 0 ≤ storedBytes (receipts.erase id) := by
    refine KeyMap.total_nonneg _ fun r' => ?_
    split
    · exact r'.size_nonneg
    · exact le_rfl
  rw [storedBytes, KeyMap.total_erase _ hr, if_pos hp] at hrest
  rw [storedBytes]
  omega

/-- Making room that needs a stored receipt evicts it. -/
theorem makeRoom_evicts {at_ : Time} (hp : r.persistedAt = some at_) (rounds : ℕ) (s : State Ref)
    (bytes : ℕ) (h : s.receipts.get? id = some r)
    (hneeds : sourceReleaseMaxBytes + bytesBefore s.receipts at_ id < s.receiptBytes + bytes)
    (hroom : (makeRoom rounds s 0 bytes).2 = true) : (makeRoom rounds s 0 bytes).1.receipts.get? id = none := by
  induction rounds generalizing s with
  | zero => cases hroom
  | succ rounds ih =>
    have hpos := bytesBefore_nonneg s.receipts at_ id
    unfold makeRoom at hroom ⊢
    rw [if_pos (.inr (by omega))] at hroom ⊢
    split at hroom
    · cases hroom
    next oldest hold =>
    obtain ⟨r', t, hr', hat, hmin⟩ := oldestStored_spec hold
    simp only [hr'] at hroom ⊢
    by_cases hid : oldest = id
    · -- The receipt itself is the oldest one.
      refine makeRoom_absent rounds (evict s oldest r') 0 bytes ?_
      rw [evict, KeyMap.get?_erase, if_pos hid]
    · refine ih _ ?_ ?_ hroom
      · rw [evict, KeyMap.get?_erase, if_neg hid, h]
      · rw [bytesBefore_evict hr' (storedBefore_oldest h hp hat hmin hid)]
        change _ < s.receiptBytes - r'.size + bytes
        omega

theorem makeRoom_succeeds (rounds : ℕ) (s : State Ref) (bytes : ℕ) (hsize : s.receipts.size ≤ sourceReleaseMaxEntries)
    (hrounds : s.receipts.size < rounds)
    (hfits : s.receiptBytes + bytes ≤ sourceReleaseMaxBytes + storedBytes s.receipts) :
    (makeRoom rounds s 0 bytes).2 = true := by
  induction rounds generalizing s with
  | zero => exact absurd hrounds (Nat.not_lt_zero _)
  | succ rounds ih =>
    unfold makeRoom
    split
    · next hfull =>
      split
      · next hnone =>
        rw [storedBytes_of_none hnone] at hfits
        omega
      · next oldest hold =>
        obtain ⟨r', t, hr', hat, -⟩ := oldestStored_spec hold
        rw [hr']
        have hlt := KeyMap.size_erase_lt hr'
        refine ih _ (hlt.le.trans hsize) (lt_of_lt_of_le hlt (Nat.lt_succ_iff.mp hrounds)) ?_
        change s.receiptBytes - r'.size + bytes ≤ _ + storedBytes (s.receipts.erase oldest)
        rw [storedBytes, KeyMap.total_erase _ hr', hat]
        change _ ≤ _ + (storedBytes s.receipts - r'.size)
        omega
    · rfl

theorem makeRoom_get? (id : String) (rounds : ℕ) (s : State Ref) (entries bytes : ℕ)
    (h : (makeRoom rounds s entries bytes).1.receipts.get? id = some r) : s.receipts.get? id = some r := by
  induction rounds generalizing s with
  | zero => exact h
  | succ rounds ih =>
    unfold makeRoom at h
    split at h
    · split at h
      · exact h
      · split at h
        · exact h
        · next oldest _ r' _ =>
          have hevicted := ih _ h
          rw [evict, KeyMap.get?_erase] at hevicted
          split at hevicted
          · cases hevicted
          · exact hevicted
    · exact h

theorem makeRoom_failed (id : String) (hp : r.persistedAt ≠ none) (rounds : ℕ) (s : State Ref) (bytes : ℕ)
    (hrounds : s.receipts.size < rounds) (hfailed : (makeRoom rounds s 0 bytes).2 = false) :
    (makeRoom rounds s 0 bytes).1.receipts.get? id ≠ some r := by
  induction rounds generalizing s with
  | zero => exact absurd hrounds (Nat.not_lt_zero _)
  | succ rounds ih =>
    unfold makeRoom at hfailed ⊢
    split at hfailed
    · next hfull =>
      rw [if_pos hfull]
      split at hfailed
      · next hnone =>
        exact fun hr => oldestStored_ne_none hr hp hnone
      · next oldest hold =>
        obtain ⟨r', t, hr', -, -⟩ := oldestStored_spec hold
        simp only [hr'] at hfailed ⊢
        have hlt := KeyMap.size_erase_lt hr'
        exact ih _ (lt_of_lt_of_le hlt (Nat.lt_succ_iff.mp hrounds)) hfailed
    · cases hfailed

/-! ## The drift -/

theorem ReceiptEvent.length_pos (e : ReceiptEvent) : 0 < e.length := by
  rw [ReceiptEvent.length, ReceiptEvent.json, marshal, len_append, len_append]
  have h : len "\x7b" = 1 := by decide
  omega

/-- A record that is written to an evicted receipt is counted for nothing. -/
theorem not_accounted_of_absent {s : State Ref} (h : Kept P used s)
    (hjson : receiptEventJSON event = true) (hroom : (receiptRoom s 0 event.length).2 = true)
    (habsent : (receiptRoom s 0 event.length).1.receipts.get? id = none) :
    ¬ Accounted P (recordStarted s id event).1 := by
  have hmade := receiptRoom_made P used s 0 event.length
  have hkept := kept_moves (fun t ht => ht) hmade.moves h
  intro haccounted
  have hbytes := haccounted.receiptBytes
  unfold recordStarted at hbytes
  rw [if_neg (by simp [hjson])] at hbytes
  split at hbytes
  · next s' hresult =>
    rw [hresult] at hroom
    cases hroom
  · next s' hresult =>
    rw [hresult] at hkept habsent
    dsimp only at hbytes
    rw [KeyMap.alter_of_none _ habsent, hkept.accounted.receiptBytes] at hbytes
    have hpos := event.length_pos
    omega

/-- A start that evicts its own receipt leaves the counters wrong. -/
theorem not_accounted_of_startDrifts {s : State Ref} {st : Step Ref} (h : Kept P used s)
    (hdrift : StartDrifts P s st) : ¬ Accounted P (next P s st) := by
  obtain ⟨args, hcall, hop, r, t, hr, hbinding, hstarted, hp, hneeds, e, he, hjson, hfits⟩ := hdrift
  have hkept := kept_expire h st.now
  have hnext : next P s st = (receiptStarted P (expire P s st.now) args st.now).1 := by
    rw [next, hcall]
    change (handleSourceRelease P s args st.now st.draws).1 = _
    rw [handleSourceRelease, handleSourceReleaseLocked, hop]
  rw [hnext]
  generalize expire P s st.now = s' at hr hneeds hfits hkept
  have hsize := hkept.accounted.receipts_le
  -- The record that is tried first evicts the receipt, once there is room for it.
  have hfirst : receiptEventJSON (startRecord P r st.now) = true → s'.receiptBytes + (startRecord P r st.now).length ≤
      sourceReleaseMaxBytes + storedBytes s'.receipts →
      ¬ Accounted P (recordStarted s' (args.attemptId.orElse "") (startRecord P r st.now)).1 := by
    intro hjson' hfits'
    have hroom := makeRoom_succeeds (s'.receipts.size + 1) s' _ hsize (Nat.lt_succ_self _) hfits'
    exact not_accounted_of_absent hkept hjson' hroom (makeRoom_evicts hp _ _ _ hr hneeds hroom)
  unfold receiptStarted
  simp only [hr, hbinding, ne_eq, not_true_eq_false, if_false, hstarted]
  split
  · split
    · next hlong =>
      have hrecord : startRecord P r st.now = startedEvent P r st.now none :=
        startRecord_of_not_fits (by simpa using hlong)
      have he' : e = startRecord P r st.now := he.elim id fun he => he.trans hrecord.symm
      subst he'
      rw [← hrecord]
      exact hfirst hjson hfits
    · next hshort =>
      have hshort' : receiptEventJSON (startedEvent P r st.now r.healthRelease) = true := by simpa using hshort
      have hrecord := startRecord_of_fits hshort'
      have hmade := receiptRoom_made P used s' 0 (startedEvent P r st.now r.healthRelease).length
      have hkept' := kept_moves (fun t ht => ht) hmade.moves hkept
      split
      · next s'' hroom =>
        -- The record with health found no room and evicted everything; the other record is made.
        have hfailed : (receiptRoom s' 0 (startedEvent P r st.now r.healthRelease).length).2 = false := by rw [hroom]
        have hfree := makeRoom_unstored (s'.receipts.size + 1) s' 0 (startedEvent P r st.now r.healthRelease).length
        have hgone := makeRoom_failed (args.attemptId.orElse "") (r := r) (by simp [hp]) (s'.receipts.size + 1) s'
          (startedEvent P r st.now r.healthRelease).length (Nat.lt_succ_self _) hfailed
        have hsub := fun r' => makeRoom_get? (args.attemptId.orElse "") (r := r') (s'.receipts.size + 1) s' 0
          (startedEvent P r st.now r.healthRelease).length
        rw [← receiptRoom, hroom] at hfree hgone hsub
        rw [hroom] at hkept'
        have habsent : s''.receipts.get? (args.attemptId.orElse "") = none := by
          cases hr' : s''.receipts.get? (args.attemptId.orElse "") with
          | none => rfl
          | some r' =>
            have hsame := hsub r' hr'
            rw [hr] at hsame
            exact absurd (hsame ▸ hr') hgone
        have he' : e = startedEvent P r st.now none := by
          refine he.resolve_left fun he => ?_
          rw [he, hrecord] at hfits
          have htrue := makeRoom_succeeds (s'.receipts.size + 1) s' _ hsize (Nat.lt_succ_self _) hfits
          rw [← receiptRoom, hfailed] at htrue
          cases htrue
        subst he'
        have hroom' := makeRoom_succeeds (s''.receipts.size + 1) s'' (startedEvent P r st.now none).length
          hkept'.accounted.receipts_le (Nat.lt_succ_self _) (by dsimp only at hfree; omega)
        exact not_accounted_of_absent hkept' hjson hroom' (makeRoom_absent _ _ _ _ habsent)
      · next s'' hroom =>
        have htrue : (receiptRoom s' 0 (startedEvent P r st.now r.healthRelease).length).2 = true := by rw [hroom]
        have habsent := makeRoom_evicts hp _ _ _ hr (by rwa [hrecord] at hneeds) htrue
        rw [← receiptRoom, hroom] at habsent
        rw [hroom] at hkept' hmade
        have hagain := receiptRoom_of_room (hmade.size rfl) (hmade.fits rfl)
        refine not_accounted_of_absent hkept' hshort' ?_ ?_
        · rw [hagain]
        · rw [hagain]
          exact habsent
  · next hnone =>
    have hnone' : r.healthRelease = none := by simpa using hnone
    have hrecord : startRecord P r st.now = startedEvent P r st.now none := by
      unfold startRecord
      rw [hnone', ite_self]
    have he' : e = startRecord P r st.now := he.elim id fun he => he.trans hrecord.symm
    subst he'
    rw [hnone', ← hrecord]
    exact hfirst hjson hfits

/-! ## A cache full of observed receipts -/

def brackets (n : ℕ) : String := String.ofList (List.replicate n '<')

def sampleDigest : String := hexText (List.replicate 32 0xaa)

/-- A request whose names are chosen so that an observed receipt takes a 1024th of the limit. -/
def sampleRequest : Args where
  requestId := .value (brackets 145 ++ "request-1")
  principal := .value "uid:1001"

def planRequest : Args :=
  { sampleRequest with
    operation := .providerReceiptPlan
    payloadSha256 := .value sampleDigest
    payloadBytes := .value "0"
    route := .value "openai_chat"
    provider := .value (brackets 1024)
    model := .value (brackets 1024)
    turnId := .value (brackets 128)
    producerBuild := .value (brackets 128)
    callerLimitsSha256 := .value sampleDigest
    operatorLimitsSha256 := .value sampleDigest }

/-- What a receipt plan without a handle binds. -/
def noEntry : Entry SampleRef where
  binding := samplePlatform.releaseBinding planRequest
  digest := samplePlatform.releaseDigest (samplePlatform.refsJson [])

def plannedReceipt (attempt : String) : Receipt :=
  newReceipt samplePlatform noEntry sampleTime attempt
    (baseBinding samplePlatform planRequest noEntry "" "no_versioned_source_handle" attempt (tokenOf 0))

def sampleObservation (attempt : String) : ReceiptEvent :=
  observationEvent samplePlatform (plannedReceipt attempt) sampleTime 200 sampleDigest "0"
    "host_buffered_response_string"

def observedReceipt (attempt : String) : Receipt :=
  { plannedReceipt attempt with
    observation := some (sampleObservation attempt)
    observationInput := samplePlatform.releaseDigest
      (.arr [.num 200, .str sampleDigest, .str "0", .str "host_buffered_response_string"]) }

def observeRequest (attempt : String) : Args :=
  { sampleRequest with
    operation := .providerReceiptObserve
    attemptId := .value attempt
    httpStatus := some 200
    responseSha256 := .value sampleDigest
    responseBytes := .value "0" }

def storeRequest (attempt : String) : Args :=
  { sampleRequest with
    operation := .providerReceiptStored
    attemptId := .value attempt
    observationSha256 := .value (samplePlatform.releaseDigest (sampleObservation attempt).json) }

def startRequest (attempt : String) : Args :=
  { sampleRequest with operation := .providerReceiptStarted, attemptId := .value attempt }

/-! ### The texts -/

theorem len_quote_append (s t : String) : len (quote (s ++ t)) + 2 = len (quote s) + len (quote t) := by
  have h := fun r : String => len_quote_ofList r.toList
  simp only [String.ofList_toList] at h
  rw [h, h, h, String.toList_append, List.flatMap_append, String.utf8Len_append]
  omega

theorem len_quote_brackets (n : ℕ) : len (quote (brackets n)) = 6 * n + 2 := len_quote_replicate n

theorem len_quote_sampleDigest : len (quote sampleDigest) = 66 := len_quote_hexText _

theorem len_quote_releaseBinding (args : Args) : len (quote (samplePlatform.releaseBinding args)) = 66 :=
  len_quote_releaseDigest samplePlatform _

theorem len_quote_requestId : len (quote (brackets 145 ++ "request-1")) = 881 := by
  have happend := len_quote_append (brackets 145) "request-1"
  have hbrackets := len_quote_brackets 145
  have hplain : len (quote "request-1") = 11 := by decide
  omega

theorem length_prepared (n : ℕ) : (plannedReceipt (tokenOf n)).prepared.length = 15791 := by
  simp only [ReceiptEvent.length, ReceiptEvent.json, plannedReceipt, newReceipt, baseBinding,
    ReceiptBinding.json, marshal,
    marshalMembers, len_append, omitempty, Option.toList_none, Option.toList_some, List.map_nil,
      List.map_cons, List.nil_append,
    List.append_nil, List.cons_append, if_true, noEntry, planRequest, sampleRequest, Arg.orElse, Arg.value?,
      Option.getD_some,
    Platform.sourcesText, Platform.refsJson, marshalItems]
  simp only [len_quote_tokenOf, len_quote_releaseDigest, len_quote_releaseBinding, len_quote_brackets,
    len_quote_sampleDigest, len_quote_requestId]
  decide

theorem length_newReceipt_admitted (n : ℕ) (e : Entry SampleRef) (b : ReceiptBinding) :
    (newReceipt samplePlatform e sampleTime (tokenOf n) b).admitted.length = 208 := by
  simp only [ReceiptEvent.length, ReceiptEvent.json, newReceipt, marshal, marshalMembers, len_append,
    omitempty, Option.toList_none, List.map_nil, List.nil_append, List.append_nil, if_true]
  simp only [len_quote_tokenOf, len_quote_releaseDigest]
  decide

theorem length_admitted (n : ℕ) : (plannedReceipt (tokenOf n)).admitted.length = 208 := length_newReceipt_admitted n _ _

theorem length_observation (n : ℕ) : (sampleObservation (tokenOf n)).length = 385 := by
  have hdigest : sampleDigest ≠ "" := by decide
  simp only [ReceiptEvent.length, ReceiptEvent.json, sampleObservation, observationEvent, plannedReceipt,
    newReceipt, marshal,
    marshalMembers, len_append, omitempty, Option.toList_none, List.map_nil, List.nil_append,
      List.append_nil, if_true, if_false,
    List.cons_append, String.reduceEq, Int.reduceEq, Int.reduceNeg, hdigest]
  simp only [len_quote_tokenOf, len_quote_releaseDigest, len_quote_sampleDigest]
  decide

theorem length_started (n : ℕ) (r : Receipt) (hattempt : r.attempt = tokenOf n) (hdigest : len (quote r.digest) = 66) :
    (startedEvent samplePlatform r sampleTime none).length = 241 := by
  simp only [ReceiptEvent.length, ReceiptEvent.json, startedEvent, marshal, marshalMembers, len_append, omitempty,
    Option.toList_none, List.map_nil, List.nil_append, List.append_nil, if_true, if_false, List.cons_append,
      String.reduceEq]
  simp only [hattempt, hdigest, len_quote_tokenOf]
  decide

/-! ### The steps -/

/-- Nothing expires while everything that is held is live. -/
theorem expire_eq_self {s : State Ref} (hentries : ∀ row ∈ s.entries.rows, now < row.2.expires)
    (hforks : s.forks = KeyMap.empty) (hbindings : ∀ row ∈ s.forkBindings.rows, now < row.2)
    (hreceipts : ∀ row ∈ s.receipts.rows, now < row.2.expires) : expire P s now = s := by
  have hkeep : ∀ {α : Type} (expires : α → Time) (m : KeyMap String α), (∀ row ∈ m.rows, now < expires row.2) →
      live expires now m = m ∧ lapsed expires now m = KeyMap.empty := by
    intro α expires m h
    exact ⟨KeyMap.keep_eq_self fun row hrow => decide_eq_true (h row hrow),
      KeyMap.keep_eq_empty fun row hrow => by simp [h row hrow]⟩
  obtain ⟨hlive, hlapsed⟩ := hkeep Receipt.expires s.receipts hreceipts
  obtain ⟨hlive', hlapsed'⟩ := hkeep Entry.expires s.entries hentries
  have hbound := (hkeep id s.forkBindings hbindings).1
  obtain ⟨entries, forks, forkBindings, bytes, healthBytes, receipts, receiptBytes, producer⟩ := s
  subst hforks
  unfold expire expireForks
  dsimp only at hlive hlapsed hlive' hlapsed' hbound ⊢
  rw [hlive, hlapsed, hlive', hlapsed', hbound]
  change State.mk entries KeyMap.empty forkBindings (bytes - 0 - 0) (healthBytes - 0 - 0) receipts
    (receiptBytes - 0) producer = _
  simp

theorem receiptRoom_of_fits {s : State Ref} {entries bytes : ℕ}
    (hsize : s.receipts.size + entries ≤ sourceReleaseMaxEntries)
    (hbytes : s.receiptBytes + bytes ≤ sourceReleaseMaxBytes) : receiptRoom s entries bytes = (s, true) := by
  exact if_neg (by omega)

theorem handleSourceReleaseLocked_noTicket {s : State Ref} {candidate : Option Slot}
    (hop : args.operation = .providerReceiptPlan) (hticket : args.sourceReleaseTicket = .absent) :
    handleSourceReleaseLocked P s args candidate now draws = receiptPlan P s args none now draws := by
  unfold handleSourceReleaseLocked
  rw [hop, hticket]
  rfl

theorem receiptPrepare_of_bound {s : State Ref}
    {check coverage attempt producer : String} {b b' : ReceiptBinding}
    (hvalid : receiptArgsValid args = true) (hattempt : draws.attempt = some attempt)
    (hproducer : (if s.receiptProducer = "" then draws.producer else some s.receiptProducer) = some producer)
    (howned : ownedBinding P args entry (baseBinding P args entry check
      (if entry.executionGrades = "" then coverage else "retained_inputs_with_configured_tests") attempt
        producer) = some b)
    (hretained : retainedBinding P args now b = .ok b') :
    receiptPrepare P s args slot entry check coverage now draws =
      receiptCommit P { s with receiptProducer := producer } args slot entry now attempt b' := by
  unfold receiptPrepare
  simp [hvalid, hattempt, hproducer, howned, hretained]

/-- A receipt that fits is added, whether or not its assembly events fit. -/
theorem receiptCommit_of_room {s s' : State Ref} {attempt : String}
    {b : ReceiptBinding} (hprepared : receiptEventJSON (newReceipt P entry now attempt b).prepared = true)
    (hadmitted : receiptEventJSON (newReceipt P entry now attempt b).admitted = true)
    (hroom : receiptRoom s 1 ((newReceipt P entry now attempt b).prepared.length +
      (newReceipt P entry now attempt b).admitted.length) =
      (s', true)) :
    (receiptCommit P s args slot entry now attempt b).1 =
      linkAttempt (addReceipt s' attempt
        { newReceipt P entry now attempt b with
          healthTurnHandle := (P.receiptMetadata { entry with healthAttempt := attempt } args b
            (newReceipt P entry now attempt b).digest now).2 })
        slot attempt := by
  unfold receiptCommit
  simp only [hprepared, hadmitted, hroom, Bool.not_true, Bool.false_eq_true, if_false]
  split <;> rfl

/-- A first observation that names no representation. -/
theorem receiptObservation_of_room {s : State Ref} {id digest count : String} {status : ℤ}
    (hid : args.attemptId.orElse "" = id) (hr : s.receipts.get? id = some r)
    (hbinding : r.binding = P.releaseBinding args) (hpending : r.observation = none)
    (hstatus : args.httpStatus = some status)
    (hrange : 100 ≤ status ∧ status ≤ 599) (hdigest : args.responseSha256.orElse "" = digest)
    (hcount : args.responseBytes.orElse "" = count) (hrepresentation : args.responseRepresentation = .absent)
    (hvalid : receiptDigestValid digest = true ∧ receiptByteCount count = true)
    (hevent : observationEvent P r now status digest count "host_buffered_response_string" = event)
    (hfits : receiptEventJSON event = true) (hroom : receiptRoom s 0 event.length = (s, true)) :
    (receiptObservation P s args now).1 =
      { s with
        receipts := s.receipts.alter id fun r =>
          { r with
            observation := some event
            observationInput :=
              P.releaseDigest (.arr [.num status, .str digest, .str count, .str "host_buffered_response_string"]) }
        receiptBytes := s.receiptBytes + event.length } := by
  have hinside : ¬ (status ≠ -1 ∧ (status < 100 ∨ 599 < status)) := by omega
  have hnamed : (Arg.absent : Arg String).orElse "host_buffered_response_string" =
    "host_buffered_response_string" := rfl
  have habsent : (Arg.absent : Arg String).present = false := rfl
  unfold receiptObservation
  simp [hid, hr, hbinding, hstatus, hdigest, hcount, hrepresentation, hnamed, habsent, hvalid, hpending,
    if_neg hinside, hevent, hfits, hroom]

/-- The tokens of the first attempt and of the producer are drawn in one call. -/
def planStep (n : ℕ) : Step SampleRef where
  call := .release planRequest
  now := sampleTime
  draws := { attempt := some (tokenOf (n + 1)), producer := if n = 0 then some (tokenOf 0) else none }

def observeStep (n : ℕ) : Step SampleRef where
  call := .release (observeRequest (tokenOf (n + 1)))
  now := sampleTime

def fill (n : ℕ) : List (Step SampleRef) := (List.range n).flatMap fun i => [planStep i, observeStep i]

/-- A cache that holds the observed receipts of the first attempts, and nothing else. -/
structure Filled (n : ℕ) (s : State SampleRef) : Prop where
  entries : s.entries = KeyMap.empty
  forks : s.forks = KeyMap.empty
  forkBindings : s.forkBindings = KeyMap.empty
  receiptBytes : s.receiptBytes = 16384 * n
  producer : s.receiptProducer = if n = 0 then "" else tokenOf 0
  size : s.receipts.size = n
  receipts : ∀ id r, s.receipts.get? id = some r ↔ ∃ i < n, id = tokenOf (i + 1) ∧ r = observedReceipt (tokenOf (i + 1))

theorem filled_zero : Filled 0 {} where
  entries := rfl
  forks := rfl
  forkBindings := rfl
  receiptBytes := rfl
  producer := rfl
  size := rfl
  receipts _ _ := by
    constructor
    · intro h
      cases h
    · rintro ⟨i, hi, -⟩
      exact absurd hi (Nat.not_lt_zero i)

namespace Filled

variable {n : ℕ} {s : State SampleRef}

theorem live (h : Filled n s) : ∀ row ∈ s.receipts.rows, sampleTime < row.2.expires := by
  intro row hrow
  obtain ⟨i, -, -, hr⟩ := (h.receipts row.1 row.2).mp (KeyMap.get?_eq_some_iff.mpr hrow)
  rw [hr]
  have hlater : sampleTime < sampleTime + sourceReleaseTTL := by decide
  exact hlater

theorem expire_eq (h : Filled n s) : expire samplePlatform s sampleTime = s :=
  expire_eq_self (by rw [h.entries]; exact fun row hrow => by cases hrow) h.forks
    (by rw [h.forkBindings]; exact fun row hrow => by cases hrow) h.live

theorem next_plan (h : Filled n s) (hn : n < 1024) : next samplePlatform s (planStep n) =
    addReceipt { s with receiptProducer := tokenOf 0 } (tokenOf (n + 1)) (plannedReceipt (tokenOf (n + 1))) := by
  have hvalid : receiptArgsValid planRequest = true := by decide +kernel
  have hproducer : (if s.receiptProducer = "" then (planStep n).draws.producer else some s.receiptProducer) =
      some (tokenOf 0) := by
    have hname : tokenOf 0 ≠ "" := by decide
    rw [h.producer]
    by_cases hzero : n = 0
    · rw [if_pos hzero]
      exact if_pos hzero
    · rw [if_neg hzero, if_neg hname]
  have howned : ∀ b, ownedBinding samplePlatform planRequest noEntry b = some b := by
    intro b
    unfold ownedBinding
    exact if_pos rfl
  have hretained : ∀ b, retainedBinding samplePlatform planRequest sampleTime b = .ok b := by
    intro b
    unfold retainedBinding
    rw [if_neg, if_neg]
    · decide
    · decide
  have hroom : receiptRoom { s with receiptProducer := tokenOf 0 } 1
      ((plannedReceipt (tokenOf (n + 1))).prepared.length + (plannedReceipt (tokenOf (n + 1))).admitted.length) =
      ({ s with receiptProducer := tokenOf 0 }, true) := by
    have hsize := h.size
    have hbytes := h.receiptBytes
    refine receiptRoom_of_fits ?_ ?_
    · change s.receipts.size + 1 ≤ 1024
      omega
    · rw [length_prepared, length_admitted]
      change s.receiptBytes + 15999 ≤ 16777216
      omega
  have hfits : receiptEventJSON (plannedReceipt (tokenOf (n + 1))).prepared = true := by
    rw [receiptEventJSON, length_prepared]
    rfl
  have hfits' : receiptEventJSON (plannedReceipt (tokenOf (n + 1))).admitted = true := by
    rw [receiptEventJSON, length_admitted]
    rfl
  change (handleSourceReleaseLocked samplePlatform (expire samplePlatform s sampleTime) planRequest none sampleTime
    (planStep n).draws).1 = _
  rw [h.expire_eq]
  have hprepare : receiptPrepare samplePlatform s planRequest none noEntry "" "no_versioned_source_handle"
      sampleTime (planStep n).draws =
      receiptCommit samplePlatform { s with receiptProducer := tokenOf 0 } planRequest none noEntry
        sampleTime (tokenOf (n + 1))
        (baseBinding samplePlatform planRequest noEntry "" "no_versioned_source_handle" (tokenOf (n + 1))
          (tokenOf 0)) :=
    receiptPrepare_of_bound hvalid rfl hproducer (howned _) (hretained _)
  rw [handleSourceReleaseLocked_noTicket rfl rfl]
  exact (congrArg Prod.fst hprepare).trans (receiptCommit_of_room hfits hfits' hroom)

theorem next_absent (h : Filled n s) (hn : n < 1024) : s.receipts.get? (tokenOf (n + 1)) = none := by
  cases hr : s.receipts.get? (tokenOf (n + 1)) with
  | none => rfl
  | some r =>
    obtain ⟨i, hi, hid, -⟩ := (h.receipts _ r).mp hr
    have hsame := tokenOf_inj (by omega) (by omega) hid
    omega

theorem next_observe (h : Filled n s) (hn : n < 1024) :
    Filled (n + 1) (next samplePlatform (next samplePlatform s (planStep n)) (observeStep n)) := by
  have habsent := h.next_absent hn
  rw [h.next_plan hn]
  generalize hs' : addReceipt { s with receiptProducer := tokenOf 0 } (tokenOf (n + 1))
    (plannedReceipt (tokenOf (n + 1))) = s'
  have hreceipts : s'.receipts = s.receipts.put (tokenOf (n + 1)) (plannedReceipt (tokenOf (n + 1))) := by
    rw [← hs', addReceipt]
  have hbytes : s'.receiptBytes = 16384 * n + 15999 := by
    rw [← hs', addReceipt, length_prepared, length_admitted]
    exact congrArg (· + 15999) h.receiptBytes
  have hsize : s'.receipts.size = n + 1 := by rw [hreceipts, KeyMap.size_put_of_none _ habsent, h.size]
  have hplanned : s'.receipts.get? (tokenOf (n + 1)) = some (plannedReceipt (tokenOf (n + 1))) := by
    rw [hreceipts, KeyMap.get?_put_self]
  have hexpire : expire samplePlatform s' sampleTime = s' := by
    have hentries : s'.entries = KeyMap.empty := by
      rw [← hs']
      exact h.entries
    have hbindings : s'.forkBindings = KeyMap.empty := by
      rw [← hs']
      exact h.forkBindings
    refine expire_eq_self (by rw [hentries]; exact fun row hrow => by cases hrow) (by rw [← hs']; exact h.forks)
      (by rw [hbindings]; exact fun row hrow => by cases hrow) ?_
    intro row hrow
    have hrow' := KeyMap.get?_eq_some_iff.mpr (show (row.1, row.2) ∈ s'.receipts.rows from hrow)
    rw [hreceipts, KeyMap.get?_put] at hrow'
    split at hrow'
    · rw [← Option.some_inj.mp hrow']
      have hlater : sampleTime < sampleTime + sourceReleaseTTL := by decide
      exact hlater
    · exact h.live _ (KeyMap.get?_eq_some_iff.mp hrow')
  have hfits : receiptEventJSON (sampleObservation (tokenOf (n + 1))) = true := by
    rw [receiptEventJSON, length_observation]
    rfl
  have hroom : receiptRoom s' 0 (sampleObservation (tokenOf (n + 1))).length = (s', true) := by
    refine receiptRoom_of_fits ?_ ?_
    · change s'.receipts.size + 0 ≤ 1024
      omega
    · rw [length_observation, hbytes]
      change (16384 * n + 15999 : ℤ) + 385 ≤ 16777216
      omega
  have hvalid : receiptDigestValid sampleDigest = true ∧ receiptByteCount "0" = true := by decide
  have hnext : next samplePlatform s' (observeStep n) = (receiptObservation samplePlatform s'
      (observeRequest (tokenOf (n + 1))) sampleTime).1 := by
    change (handleSourceReleaseLocked samplePlatform (expire samplePlatform s' sampleTime) _ none sampleTime {}).1 = _
    rw [hexpire]
    rfl
  have hobserve : (receiptObservation samplePlatform s' (observeRequest (tokenOf (n + 1))) sampleTime).1 =
      { s' with
        receipts := s'.receipts.alter (tokenOf (n + 1)) fun r =>
          { r with
            observation := some (sampleObservation (tokenOf (n + 1)))
            observationInput := (observedReceipt (tokenOf (n + 1))).observationInput }
        receiptBytes := s'.receiptBytes + (sampleObservation (tokenOf (n + 1))).length } := by
    refine receiptObservation_of_room rfl hplanned ?_ ?_ ?_ ?_ ?_ ?_ ?_ hvalid ?_ hfits hroom
    · rfl
    · rfl
    · rfl
    · decide
    · rfl
    · rfl
    · rfl
    · rfl
  rw [hnext, hobserve]
  refine ⟨by rw [← hs']; exact h.entries, by rw [← hs']; exact h.forks, by rw [← hs']; exact h.forkBindings,
    ?_, ?_, ?_, ?_⟩
  · rw [length_observation]
    push_cast
    omega
  · rw [← hs']
    exact (if_neg (Nat.succ_ne_zero n)).symm
  · exact (KeyMap.size_alter _ _ _).trans hsize
  · intro id r
    rw [KeyMap.get?_alter, hreceipts, KeyMap.get?_put]
    by_cases hid : tokenOf (n + 1) = id
    · subst hid
      rw [if_pos rfl, Option.map_some, if_pos rfl, Option.some_inj]
      constructor
      · rintro rfl
        exact ⟨n, Nat.lt_succ_self n, rfl, rfl⟩
      · rintro ⟨i, hi, hid, rfl⟩
        rw [← hid]
        rfl
    · simp only [if_neg hid, Option.map_id']
      rw [h.receipts]
      constructor
      · rintro ⟨i, hi, hi'⟩
        exact ⟨i, Nat.lt_succ_of_lt hi, hi'⟩
      · rintro ⟨i, hi, rfl, hr⟩
        have hne : i ≠ n := by
          rintro rfl
          exact hid rfl
        exact ⟨i, by omega, rfl, hr⟩

end Filled

theorem fill_succ (n : ℕ) : fill (n + 1) = fill n ++ [planStep n] ++ [observeStep n] := by
  rw [fill, List.range_succ, List.flatMap_append, List.append_assoc]
  rfl

theorem filled_fill {n : ℕ} (hn : n ≤ 1024) : Filled n (run samplePlatform (fill n)) := by
  induction n with
  | zero => exact filled_zero
  | succ n ih =>
    rw [fill_succ, run_concat, run_concat]
    exact (ih (Nat.le_of_succ_le hn)).next_observe hn

/-! ### The drift -/

def storeStep : Step SampleRef where
  call := .release (storeRequest (tokenOf 1))
  now := sampleTime

def startStep : Step SampleRef where
  call := .release (startRequest (tokenOf 1))
  now := sampleTime

/-- A full cache whose first receipt is stored and then started. -/
def driftRun : List (Step SampleRef) := fill 1024 ++ [storeStep] ++ [startStep]

theorem mem_drawn_fill {n : ℕ} {t : String} (h : t ∈ drawn (fill n)) : ∃ i ≤ n, t = tokenOf i := by
  induction n with
  | zero => cases h
  | succ n ih =>
    rw [fill_succ, drawn_concat, drawn_concat] at h
    rcases List.mem_append.mp h with h | h
    · rcases List.mem_append.mp h with h | h
      · obtain ⟨i, hi, ht⟩ := ih h
        exact ⟨i, Nat.le_succ_of_le hi, ht⟩
      · by_cases hzero : n = 0
        · subst hzero
          rcases List.mem_cons.mp h with rfl | h
          · exact ⟨1, le_rfl, rfl⟩
          · exact ⟨0, Nat.zero_le _, List.mem_singleton.mp h⟩
        · simp only [planStep, if_neg hzero, Draws.tokens, Option.toList_none, Option.toList_some, List.nil_append,
            List.append_nil, List.mem_singleton] at h
          exact ⟨n + 1, le_rfl, h⟩
    · cases h

theorem fresh_fill {n : ℕ} (hn : n ≤ 1024) : Fresh (fill n) := by
  induction n with
  | zero => exact ⟨fun t ht => (by cases ht), List.nodup_nil⟩
  | succ n ih =>
    have hfill := ih (Nat.le_of_succ_le hn)
    have hplan : Fresh (fill n ++ [planStep n]) := by
      by_cases hzero : n = 0
      · subst hzero
        refine hfill.concat ?_ ?_ fun t _ ht => by cases ht
        · intro t ht
          rcases List.mem_pair.mp ht with rfl | rfl <;> exact releaseTokenValid_tokenOf _
        · refine List.nodup_cons.mpr ⟨fun hsame => ?_, List.nodup_singleton _⟩
          have hzero := tokenOf_inj (by decide) (by decide) (List.mem_singleton.mp hsame)
          cases hzero
      · have htokens : (planStep n).draws.tokens = [tokenOf (n + 1)] := by
          simp [planStep, if_neg hzero, Draws.tokens]
        refine hfill.concat ?_ ?_ ?_
        · rw [htokens]
          intro t ht
          rw [List.mem_singleton.mp ht]
          exact releaseTokenValid_tokenOf _
        · rw [htokens]
          exact List.nodup_singleton _
        · rw [htokens]
          intro t ht hold
          obtain ⟨i, hi, hsame⟩ := mem_drawn_fill hold
          rw [List.mem_singleton.mp ht] at hsame
          have hindex := tokenOf_inj (by omega) (by omega) hsame
          omega
    rw [fill_succ]
    exact hplan.concat (fun t ht => by cases ht) List.nodup_nil fun t ht => by cases ht

theorem noDrift_fill (n : ℕ) : NoDrift samplePlatform (fill n ++ [storeStep]) := by
  refine noDrift_of_no_start fun st hst args hcall => ?_
  rcases List.mem_append.mp hst with hst | hst
  · obtain ⟨i, -, hst⟩ := List.mem_flatMap.mp hst
    rcases List.mem_pair.mp hst with rfl | rfl <;> cases hcall <;> exact fun hop => by cases hop
  · obtain rfl := List.mem_singleton.mp hst
    cases hcall
    exact fun hop => by cases hop

def storedReceipt : Receipt := { observedReceipt (tokenOf 1) with persistedAt := some sampleTime }

/-- The first receipt of a cache is stored. -/
def store (s : State SampleRef) : State SampleRef :=
  { s with receipts := s.receipts.alter (tokenOf 1) fun r => { r with persistedAt := some sampleTime } }

namespace Filled

variable {n : ℕ} {s : State SampleRef}

theorem next_store (h : Filled n s) (hn : 0 < n) : next samplePlatform s storeStep = store s := by
  have hr : s.receipts.get? (tokenOf 1) = some (observedReceipt (tokenOf 1)) := (h.receipts _ _).mpr ⟨0, hn, rfl, rfl⟩
  have hid : (storeRequest (tokenOf 1)).attemptId.orElse "" = tokenOf 1 := rfl
  have hobservation : (observedReceipt (tokenOf 1)).observation = some (sampleObservation (tokenOf 1)) := rfl
  have hbinding : (observedReceipt (tokenOf 1)).binding =
    samplePlatform.releaseBinding (storeRequest (tokenOf 1)) := rfl
  have hdigest : (storeRequest (tokenOf 1)).observationSha256.orElse "" =
      samplePlatform.releaseDigest (sampleObservation (tokenOf 1)).json := rfl
  have hpending : (observedReceipt (tokenOf 1)).persistedAt = none := rfl
  change (handleSourceReleaseLocked samplePlatform (expire samplePlatform s sampleTime) _ none sampleTime {}).1 = _
  rw [h.expire_eq]
  change (receiptStored samplePlatform s (storeRequest (tokenOf 1)) sampleTime).1 = _
  unfold receiptStored
  simp [hid, hr, hobservation, hbinding, hdigest, hpending, receiptDigestValid_releaseDigest, store]

theorem get?_store (h : Filled n s) (hn : 0 < n) : (store s).receipts.get? (tokenOf 1) = some storedReceipt := by
  have hget : (store s).receipts.get? (tokenOf 1) = _ := KeyMap.get?_alter _ _ _ _
  rw [hget, (h.receipts _ _).mpr ⟨0, hn, rfl, rfl⟩]
  rfl

theorem rows_store (h : Filled n s) (hn : 0 < n) : ∀ row ∈ (store s).receipts.rows,
    row.2.expires = sampleTime + sourceReleaseTTL ∧ (row.2.persistedAt = none ∨ row = (tokenOf 1, storedReceipt)) := by
  intro row hrow
  have hrow' := KeyMap.get?_eq_some_iff.mpr (show (row.1, row.2) ∈ (store s).receipts.rows from hrow)
  by_cases hid : tokenOf 1 = row.1
  · rw [← hid, h.get?_store hn, Option.some_inj] at hrow'
    exact ⟨by rw [← hrow']; rfl, .inr (Prod.ext hid.symm hrow'.symm)⟩
  · have hget : (store s).receipts.get? row.1 = _ := KeyMap.get?_alter _ _ _ _
    rw [hget] at hrow'
    simp only [if_neg hid, Option.map_id'] at hrow'
    obtain ⟨i, -, -, hr⟩ := (h.receipts _ _).mp hrow'
    rw [hr]
    exact ⟨rfl, .inl rfl⟩

theorem expire_store (h : Filled n s) (hn : 0 < n) : expire samplePlatform (store s) sampleTime = store s := by
  refine expire_eq_self ?_ h.forks ?_ ?_
  · change ∀ row ∈ s.entries.rows, _
    rw [h.entries]
    exact fun row hrow => by cases hrow
  · change ∀ row ∈ s.forkBindings.rows, _
    rw [h.forkBindings]
    exact fun row hrow => by cases hrow
  · intro row hmem
    rw [(h.rows_store hn row hmem).1]
    decide

theorem length_startRecord : (startRecord samplePlatform storedReceipt sampleTime).length = 241 := by
  have hrecord : startRecord samplePlatform storedReceipt sampleTime =
    startedEvent samplePlatform storedReceipt sampleTime none :=
    ite_self _
  rw [hrecord]
  exact length_started 1 storedReceipt rfl (len_quote_releaseDigest samplePlatform _)

/-- A start that finds room evicts nothing. -/
theorem not_startDrifts (h : Filled n s) (hn : 0 < n) (hroom : n < 1024) :
    ¬ StartDrifts samplePlatform (store s) startStep := by
  rintro ⟨args, hcall, -, r, t, hr, -, -, -, hneeds, -⟩
  obtain rfl : startRequest (tokenOf 1) = args := Call.release.inj hcall
  change KeyMap.get? (expire samplePlatform (store s) sampleTime).receipts (tokenOf 1) = _ at hr
  change _ < (expire samplePlatform (store s) sampleTime).receiptBytes +
    (startRecord samplePlatform r sampleTime).length at hneeds
  have hbytes : (store s).receiptBytes = 16384 * n := h.receiptBytes
  have hlimit : sourceReleaseMaxBytes = 16777216 := rfl
  rw [h.expire_store hn, h.get?_store hn, Option.some_inj] at hr
  rw [← hr, length_startRecord, h.expire_store hn, hbytes] at hneeds
  have hbefore := bytesBefore_nonneg (expire samplePlatform (store s) startStep.now).receipts t
    ((startRequest (tokenOf 1)).attemptId.orElse "")
  omega

/-- The receipt that was stored is the first and only one a start can evict. -/
theorem startDrifts (h : Filled 1024 s) : StartDrifts samplePlatform (store s) startStep := by
  have hfull : 0 < 1024 := by decide
  have hrow := h.rows_store hfull
  have hstored := h.get?_store hfull
  have hbytes : (store s).receiptBytes = 16777216 := h.receiptBytes
  have hlimit : sourceReleaseMaxBytes = 16777216 := rfl
  have hbefore : bytesBefore (store s).receipts sampleTime (tokenOf 1) = 0 := by
    refine List.sum_eq_zero fun x hx => ?_
    obtain ⟨row, hmem, rfl⟩ := List.mem_map.mp hx
    refine if_neg ?_
    rcases (hrow row hmem).2 with hpending | rfl
    · simp [storedBefore, hpending]
    · simp [storedBefore, storedReceipt]
  have hfreed : 16384 ≤ storedBytes (store s).receipts := by
    have hsize : storedReceipt.size = 16384 := by
      have hobserved : storedReceipt.observation = some (sampleObservation (tokenOf 1)) := rfl
      have hpending : storedReceipt.started = none := rfl
      have hprepared : storedReceipt.prepared = (plannedReceipt (tokenOf 1)).prepared := rfl
      have hadmitted : storedReceipt.admitted = (plannedReceipt (tokenOf 1)).admitted := rfl
      rw [Receipt.size, hobserved, hpending, hprepared, hadmitted, length_prepared, length_admitted, Option.map_some,
        Option.getD_some, length_observation]
      rfl
    have hle := size_le_storedBytes hstored rfl
    omega
  refine ⟨startRequest (tokenOf 1), rfl, rfl, ?_⟩
  change StartEvicts samplePlatform (expire samplePlatform (store s) sampleTime) _ sampleTime
  rw [h.expire_store hfull]
  refine ⟨storedReceipt, sampleTime, hstored, rfl, rfl, rfl, ?_, startRecord samplePlatform storedReceipt
    sampleTime, .inl rfl, ?_, ?_⟩
  · change _ + bytesBefore (store s).receipts sampleTime (tokenOf 1) < _
    rw [hbefore, length_startRecord, hbytes]
    decide
  · rw [receiptEventJSON, length_startRecord]
    rfl
  · rw [length_startRecord, hlimit]
    omega

end Filled

/-- A cache fills up with observed receipts; the first one is stored, and its start evicts it. -/
theorem source_release_drifts : Fresh driftRun ∧ ¬ Accounted samplePlatform (run samplePlatform driftRun) := by
  have hstored : Fresh (fill 1024 ++ [storeStep]) :=
    (fresh_fill le_rfl).concat (fun t ht => by cases ht) List.nodup_nil fun t ht => by cases ht
  refine ⟨hstored.concat (fun t ht => by cases ht) List.nodup_nil fun t ht => (by cases ht), ?_⟩
  have hkept := kept_run hstored (noDrift_fill 1024)
  have hfilled : Filled 1024 (run samplePlatform (fill 1024)) := filled_fill le_rfl
  rw [driftRun, run_concat]
  refine not_accounted_of_startDrifts hkept ?_
  rw [run_concat, hfilled.next_store (by decide)]
  exact hfilled.startDrifts

/-! ## A release, a fork of it and its receipt -/

def sampleRefs : List SampleRef := [⟨"record", "memory_record"⟩]

/-- The arguments of a release, and of a fork of it. -/
def releaseArgs (operation : Operation) : Args where
  operation := operation
  requestId := .value "request"
  principal := .value "uid:1001"
  callerSubject := .value ""
  sourceReleaseTicket := .value (tokenOf 11)
  newRequestId := .value "request-2"
  forkTicket := .value (tokenOf 13)

/-- The answer of the owner of the reference to a check. -/
def sampleAnswer (check : String) : OwnerReply where
  status := "ok"
  eligible := true
  checkId := check
  sourcesDigest := samplePlatform.releaseDigest (samplePlatform.refsJson sampleRefs)

/-- A release of one reference and a fork of it, both answered for. -/
def forkedRun : List (Step SampleRef) :=
  [{ call := .prepare { releaseArgs .other with sourceReleaseTicket := .absent } { factsProjection := some sampleRefs }
     now := sampleTime
     draws := { ticket := some (tokenOf 11) } },
   { call := .release (releaseArgs .sourceReleasePlan)
     now := sampleTime
     draws := { check := some (tokenOf 12) } },
   { call := .release { releaseArgs .sourceReleaseResult with ownerResponse := some (sampleAnswer (tokenOf 12)) }
     now := sampleTime },
   { call := .fork (releaseArgs .sourceReleaseForkPlan)
     now := sampleTime
     draws := { ticket := some (tokenOf 13), check := some (tokenOf 14) } },
   { call := .fork { releaseArgs .sourceReleaseForkResult with ownerResponse := some (sampleAnswer (tokenOf 14)) }
     now := sampleTime }]

def receiptArgs : Args :=
  { releaseArgs .providerReceiptPlan with
    payloadSha256 := .value sampleDigest
    payloadBytes := .value "0"
    route := .value "openai_chat"
    callerLimitsSha256 := .value sampleDigest
    operatorLimitsSha256 := .value sampleDigest }

/-- A receipt of the release. -/
def receiptStep : Step SampleRef where
  call := .release receiptArgs
  now := sampleTime
  draws := { attempt := some (tokenOf 15), producer := some (tokenOf 16) }

def sampleRun : List (Step SampleRef) := forkedRun ++ [receiptStep]

/-- The receipt of an attempt is stored before the attempt starts, and a release follows. -/
theorem source_release_accounts_sampleRun :
    Accounted samplePlatform (run samplePlatform (fill 1 ++ [storeStep] ++ [startStep] ++ sampleRun)) := by
  refine source_release_accounts samplePlatform _ ⟨?_, ?_⟩ (.append (.concat (noDrift_fill 1) ?_) ?_)
  · decide
  · decide
  · have hfilled : Filled 1 (run samplePlatform (fill 1)) := filled_fill (by decide)
    rw [run_concat, hfilled.next_store one_pos]
    exact hfilled.not_startDrifts one_pos (by decide)
  · intro st hst args hcall
    simp only [sampleRun, forkedRun, List.cons_append, List.nil_append, List.mem_cons, List.not_mem_nil,
      or_false] at hst
    rcases hst with rfl | rfl | rfl | rfl | rfl | rfl <;> cases hcall <;> exact fun hop => by cases hop

end SourceRelease
