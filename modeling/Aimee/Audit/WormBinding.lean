-- SUMMARY: What the last row hash of an accepted WORM store says about its rows.
import Aimee.Audit.Worm
import Aimee.Lib.HashChain

/-!
# What the head of a WORM store binds

Two stores that `worm_verify_db` accepts under one chain key and that end in the same
row hash have the same number of rows and hash the same bytes for each of them. The row
hash has one slot for two columns, `event_id` and `key_id`, so equal bytes do not always
mean equal columns. `AuditEvent.Pinned` says of a row when they do.
-/

namespace AuditWorm

variable {H : HashFn} {ckey : Option ChainKey}

/-! ## What the verifier checks -/

variable {r : AuditEvent} {prev : CString} {expect : Int} {rows : Store}

theorem verifyRow_ok_iff :
    verifyRow H ckey prev expect r = .ok () ↔
      r.seq = expect ∧ r.prevHash = prev ∧ r.rowHash = hex32 (H (r.preimage prev)) ∧
        (r.action = checkpointAction → verifyCheckpoint H ckey prev r = .ok ()) := by
  unfold verifyRow
  split
  · rename_i h
    simp [h]
  split
  · rename_i h
    simp [h]
  split
  · rename_i h
    simp [Ne.symm h]
  rename_i hseq hprev hhash
  simp only [ne_eq, not_not] at hseq hprev hhash
  split
  · rename_i haction
    simp [hseq, hprev, hhash.symm, haction]
  · rename_i haction
    simp [hseq, hprev, hhash.symm, haction]

theorem verifyRows_cons_ok_iff :
    verifyRows H ckey prev expect (r :: rows) = .ok () ↔
      verifyRow H ckey prev expect r = .ok () ∧
        verifyRows H ckey (r.rowHash.truncate 64) (r.seq + 1) rows = .ok () := by
  rw [verifyRows]
  cases verifyRow H ckey prev expect r with
  | error e => simp
  | ok u => simp

/-- A checkpoint row that is accepted carries the identifier of the chain key. -/
theorem verifyCheckpoint_keyId
    (h : verifyCheckpoint H ckey prev r = .ok ()) : ∃ ck, ckey = some ck ∧ r.keyId = ck.keyId := by
  unfold verifyCheckpoint at h
  split at h
  · cases h
  · rename_i ck
    split at h
    · cases h
    · rename_i hkey
      exact ⟨ck, rfl, not_not.mp hkey⟩

/-! ## The chain of an accepted store -/

/-- Rows are linked by `row_hash` and `prev_hash` and numbered by `seq`. -/
def links : HashChain.Links AuditEvent CString where
  digest := AuditEvent.rowHash
  pred := AuditEvent.prevHash
  position r := r.seq.toNat

/-- What an accepted row satisfies by itself. -/
structure AuditEvent.Sealed (H : HashFn) (ckey : Option ChainKey) (r : AuditEvent) : Prop where
  hash : r.rowHash = hex32 (H (r.preimage r.prevHash))
  prevLength : r.prevHash.val.length = 64
  checkpoint : r.action = checkpointAction → ∃ ck, ckey = some ck ∧ r.keyId = ck.keyId

theorem verifyRow_sealed (hprev : prev.val.length = 64) (h : verifyRow H ckey prev expect r = .ok ()) :
    r.Sealed H ckey := by
  obtain ⟨-, rfl, hhash, hcheckpoint⟩ := verifyRow_ok_iff.mp h
  exact ⟨hhash, hprev, fun haction => verifyCheckpoint_keyId (hcheckpoint haction)⟩

/-- The next row is checked against the full hash of this one. -/
theorem AuditEvent.Sealed.truncate_rowHash (h : r.Sealed H ckey) :
    r.rowHash.truncate 64 = r.rowHash :=
  CString.truncate_of_length_le (by rw [h.hash, length_hex32])

theorem AuditEvent.Sealed.length_rowHash (h : r.Sealed H ckey) :
    r.rowHash.val.length = 64 := by
  rw [h.hash, length_hex32]

theorem verifyRows_sealed (hprev : prev.val.length = 64) (h : verifyRows H ckey prev expect rows = .ok ()) :
    ∀ r ∈ rows, r.Sealed H ckey := by
  induction rows generalizing prev expect with
  | nil => simp
  | cons r rows ih =>
    obtain ⟨hrow, hrest⟩ := verifyRows_cons_ok_iff.mp h
    have hr := verifyRow_sealed hprev hrow
    rw [hr.truncate_rowHash] at hrest
    intro x hx
    rcases List.mem_cons.mp hx with rfl | hx
    · exact hr
    · exact ih hr.length_rowHash hrest x hx

private theorem verifyRows_isChain (hprev : prev.val.length = 64) (hexpect : 0 ≤ expect)
    (h : verifyRows H ckey prev expect rows = .ok ()) :
    rows.IsChain links.Follows ∧ ∀ r ∈ rows.head?, r.seq = expect ∧ r.prevHash = prev := by
  induction rows generalizing prev expect with
  | nil => simp
  | cons r rows ih =>
    obtain ⟨hrow, hrest⟩ := verifyRows_cons_ok_iff.mp h
    have hr := verifyRow_sealed hprev hrow
    obtain ⟨hseq, hp, -, -⟩ := verifyRow_ok_iff.mp hrow
    rw [hr.truncate_rowHash] at hrest
    obtain ⟨hchain, hfirst⟩ := ih hr.length_rowHash (by omega) hrest
    refine ⟨?_, fun x hx => ?_⟩
    · rw [List.isChain_cons]
      refine ⟨fun b hb => ?_, hchain⟩
      obtain ⟨hbseq, hbprev⟩ := hfirst b hb
      exact ⟨by simp only [links, hbseq, hseq]; omega, hbprev⟩
    · obtain rfl : r = x := by simpa using hx
      exact ⟨hseq, hp⟩

theorem length_genesisPrev : genesisPrev.val.length = 64 := by decide

theorem wormVerifyDb_sealed (h : wormVerifyDb H ckey rows = .ok ()) :
    ∀ r ∈ rows, r.Sealed H ckey :=
  verifyRows_sealed length_genesisPrev h

theorem wormVerifyDb_isChain (h : wormVerifyDb H ckey rows = .ok ()) :
    links.IsChain rows := by
  obtain ⟨hchain, hfirst⟩ := verifyRows_isChain length_genesisPrev (by omega) h
  exact ⟨hchain, fun r hr => by simp [links, (hfirst r hr).1]⟩

/-! ## Columns -/

/-- Two rows agree on every evidence column. -/
structure SameColumns (a b : AuditEvent) : Prop where
  seq : a.seq = b.seq
  ts : a.ts = b.ts
  actorRole : a.actorRole = b.actorRole
  actorPrincipal : a.actorPrincipal = b.actorPrincipal
  actorIssuer : a.actorIssuer = b.actorIssuer
  actorSubject : a.actorSubject = b.actorSubject
  transportCn : a.transportCn = b.transportCn
  teamId : a.teamId = b.teamId
  selectedDefaultFrom : a.selectedDefaultFrom = b.selectedDefaultFrom
  action : a.action = b.action
  subject : a.subject = b.subject
  verdict : a.verdict = b.verdict
  keyId : a.keyId = b.keyId
  eventId : a.eventId = b.eventId
  detail : a.detail = b.detail
  prevHash : a.prevHash = b.prevHash

/-- The two versions hash under domains that differ, and both put `seq` and the
    predecessor into the preimage. -/
theorem preimage_inj {a b : AuditEvent} (ha : a.prevHash.val.length = 64)
    (hb : b.prevHash.val.length = 64) (h : a.preimage a.prevHash = b.preimage b.prevHash) :
    (a.hashVersion = fullVersion ↔ b.hashVersion = fullVersion) ∧ a.seq = b.seq ∧
      a.prevHash = b.prevHash := by
  have hlen : a.prevHash.val.length = b.prevHash.val.length := by rw [ha, hb]
  have hdomains : domain ≠ domainV2 := by decide
  unfold AuditEvent.preimage at h
  split at h <;> split at h
  · obtain ⟨-, hprev, hfields⟩ := canonical_inj rfl hlen h
    have hseq := hfields rfl
    simp only [List.cons.injEq] at hseq
    exact ⟨by simp_all, Wire.decimalInt_inj hseq.2.1, Subtype.ext hprev⟩
  · exact absurd (canonical_inj (by decide) hlen h).1.symm hdomains
  · exact absurd (canonical_inj (by decide) hlen h).1 hdomains
  · obtain ⟨-, hprev, hfields⟩ := canonical_inj rfl hlen h
    have hseq := hfields rfl
    simp only [List.cons.injEq] at hseq
    exact ⟨by simp_all, Wire.decimalInt_inj hseq.1, Subtype.ext hprev⟩

/-- Two full rows with equal preimages agree on every column but the two that share
    the binding slot, and on the value of that slot. -/
theorem preimage_columns {a b : AuditEvent} (ha : a.prevHash.val.length = 64)
    (hb : b.prevHash.val.length = 64) (hv : a.hashVersion = fullVersion)
    (h : a.preimage a.prevHash = b.preimage b.prevHash) :
    a.binding = b.binding ∧
      (a.eventId = b.eventId → a.keyId = b.keyId → SameColumns a b) ∧ a.action = b.action := by
  obtain ⟨hversion, hseq, hprev⟩ := preimage_inj ha hb h
  unfold AuditEvent.preimage at h
  rw [if_pos hv, if_pos (hversion.mp hv)] at h
  have hfields := (canonical_inj rfl (by rw [ha, hb]) h).2.2 rfl
  simp only [List.cons.injEq, and_true, true_and, Subtype.ext_iff.symm] at hfields
  obtain ⟨-, hts, hrole, hprincipal, hissuer, hasubject, hcn, hteam, hdefault, haction, hsubject,
    hverdict, hbinding, hdetail⟩ := hfields
  exact ⟨hbinding, fun hevent hkey =>
    { seq := hseq, ts := hts, actorRole := hrole, actorPrincipal := hprincipal,
      actorIssuer := hissuer, actorSubject := hasubject, transportCn := hcn,
      teamId := Wire.decimalInt_inj hteam, selectedDefaultFrom := hdefault, action := haction,
      subject := hsubject, verdict := hverdict, keyId := hkey, eventId := hevent,
      detail := hdetail, prevHash := hprev }, haction⟩

/-! ## Pinned rows -/

/-- The binding slot of the row leaves no choice for `event_id` and `key_id`: either both
    are empty, or the row is a checkpoint, whose `key_id` the MAC check fixes, with an
    event ID that is not that `key_id`. -/
def AuditEvent.Pinned (r : AuditEvent) : Prop :=
  (r.eventId = .empty ∧ r.keyId = .empty) ∨
    (r.action = checkpointAction ∧ r.eventId ≠ .empty ∧ r.eventId ≠ r.keyId)

instance (r : AuditEvent) : Decidable r.Pinned := inferInstanceAs (Decidable (_ ∨ _))

theorem AuditEvent.Pinned.columns_eq {a b : AuditEvent} (h : a.Pinned)
    (hbinding : a.binding = b.binding) (haction : a.action = b.action)
    (ha : a.Sealed H ckey) (hb : b.Sealed H ckey) :
    a.eventId = b.eventId ∧ a.keyId = b.keyId := by
  unfold AuditEvent.binding at hbinding
  rcases h with ⟨hevent, hkey⟩ | ⟨hck, hevent, hne⟩
  · rw [if_neg (by simp [hevent]), hkey] at hbinding
    split at hbinding
    · rename_i hb'
      exact absurd hbinding.symm hb'
    · rename_i hb'
      rw [not_not] at hb'
      exact ⟨hevent.trans hb'.symm, hkey.trans hbinding⟩
  · have hkeys : a.keyId = b.keyId := by
      obtain ⟨ck, hck₁, hka⟩ := ha.checkpoint hck
      obtain ⟨ck', hck₂, hkb⟩ := hb.checkpoint (haction ▸ hck)
      rw [hka, hkb, Option.some.inj (hck₁.symm.trans hck₂)]
    rw [if_pos hevent] at hbinding
    split at hbinding
    · exact ⟨hbinding, hkeys⟩
    · exact absurd (hbinding.trans hkeys.symm) hne

/-! ## Rewriting a row that is not pinned -/

/-- Another row with the same preimage: the value of the binding slot moves between its
    two columns, or the column the slot does not show is changed. -/
def AuditEvent.rewrite (r : AuditEvent) : AuditEvent :=
  if r.eventId = .empty then { r with eventId := r.keyId }
  else if r.action = checkpointAction then { r with eventId := .empty }
  else { r with keyId := if r.keyId = .empty then .ofAscii "0" else .empty }

theorem AuditEvent.rewrite_changes (h : ¬ r.Pinned) :
    ¬ (r.eventId = r.rewrite.eventId ∧ r.keyId = r.rewrite.keyId) := by
  simp only [AuditEvent.Pinned, not_or, not_and, ne_eq, not_not] at h
  obtain ⟨hempty, hcheckpoint⟩ := h
  rintro ⟨hevent, hkey⟩
  unfold AuditEvent.rewrite at hevent hkey
  split at hevent
  · rename_i he
    exact hempty he (by simpa [he] using hevent.symm)
  · rename_i he
    rw [if_neg he] at hkey
    split at hevent
    · exact he hevent
    · rename_i hact
      rw [if_neg hact] at hkey
      have hzero : CString.ofAscii "0" ≠ .empty := by decide
      by_cases hk : r.keyId = .empty
      · rw [if_pos hk] at hkey
        exact hzero (hkey.symm.trans hk)
      · rw [if_neg hk] at hkey
        exact hk hkey

theorem AuditEvent.rewrite_verifies (h : ¬ r.Pinned) :
    r.rewrite.rowHash = r.rowHash ∧ r.rewrite.seq = r.seq ∧ r.rewrite.prevHash = r.prevHash ∧
      (∀ prev, r.rewrite.preimage prev = r.preimage prev) ∧ r.rewrite.action = r.action ∧
      r.rewrite.detail = r.detail ∧
      (r.action = checkpointAction → r.rewrite.keyId = r.keyId) := by
  simp only [AuditEvent.Pinned, not_or, not_and, ne_eq, not_not] at h
  obtain ⟨-, hcheckpoint⟩ := h
  unfold AuditEvent.rewrite
  split
  · rename_i he
    refine ⟨rfl, rfl, rfl, fun prev => ?_, rfl, rfl, fun _ => rfl⟩
    have hb : ({ r with eventId := r.keyId } : AuditEvent).binding = r.binding := by
      simp [AuditEvent.binding, he]
    simp only [AuditEvent.preimage, hb]
  split
  · rename_i he hact
    refine ⟨rfl, rfl, rfl, fun prev => ?_, rfl, rfl, fun _ => rfl⟩
    have hb : ({ r with eventId := .empty } : AuditEvent).binding = r.binding := by
      simp [AuditEvent.binding, hcheckpoint hact he]
    simp only [AuditEvent.preimage, hb]
  · rename_i he hact
    refine ⟨rfl, rfl, rfl, fun prev => ?_, rfl, rfl, fun h => absurd h hact⟩
    simp only [AuditEvent.preimage, AuditEvent.binding, if_pos he]

theorem verifyRow_rewrite (h : ¬ r.Pinned) (prev : CString) (expect : Int) :
    verifyRow H ckey prev expect r.rewrite = verifyRow H ckey prev expect r := by
  obtain ⟨hhash, hseq, hprev, hpre, hact, hdetail, hkey⟩ := r.rewrite_verifies h
  simp only [verifyRow, hseq, hprev, hpre, hhash, hact]
  by_cases hck : r.action = checkpointAction
  · simp only [verifyCheckpoint, hkey hck, hseq, hdetail]
  · simp [hck]

theorem verifyRows_rewrite (h : ¬ r.Pinned) (before after : Store)
    (prev : CString) (expect : Int) :
    verifyRows H ckey prev expect (before ++ r.rewrite :: after)
      = verifyRows H ckey prev expect (before ++ r :: after) := by
  obtain ⟨hhash, hseq, -⟩ := r.rewrite_verifies h
  induction before generalizing prev expect with
  | nil => simp only [List.nil_append, verifyRows, verifyRow_rewrite h, hhash, hseq]
  | cons x before ih => simp only [List.cons_append, verifyRows, ih]

/-! ## The head of a store -/

/-- The byte strings the verifier hashes for the rows of a store. -/
def preimages (rows : Store) : List (List UInt8) :=
  rows.map fun r => r.preimage r.prevHash

/-- The `row_hash` of the last row. -/
def headHash (rows : Store) : Option CString := rows.getLast?.map AuditEvent.rowHash

/-- The rows of a pair that are marked as fully hashed agree on every evidence column. -/
def FullRowsAgree (a b : AuditEvent) : Prop :=
  a.hashVersion = fullVersion ∨ b.hashVersion = fullVersion → SameColumns a b

/-- No store with the same head hides a change to a fully hashed row: every accepted
    store that ends in the same row hash has as many rows, and they agree one by one. -/
def HeadBinds (H : HashFn) (ckey : Option ChainKey) (rows : Store) : Prop :=
  ∀ rows', wormVerifyDb H ckey rows' = .ok () → headHash rows = headHash rows' →
    CollisionFree H (preimages rows ++ preimages rows') → List.Forall₂ FullRowsAgree rows rows'

theorem headBinds_of_pinned (hok : wormVerifyDb H ckey rows = .ok ())
    (hpinned : ∀ r ∈ rows, r.hashVersion = fullVersion → r.Pinned) : HeadBinds H ckey rows := by
  intro rows' hok' hhead hcf
  -- The relation the chain carries: equal preimages of two rows of accepted stores.
  let R (a b : AuditEvent) : Prop :=
    a ∈ rows ∧ b ∈ rows' ∧ a.preimage a.prevHash = b.preimage b.prevHash
  have hseal := wormVerifyDb_sealed hok
  have hseal' := wormVerifyDb_sealed hok'
  have hinj : ∀ a b, R a b → (a.hashVersion = fullVersion ↔ b.hashVersion = fullVersion) ∧
      a.seq = b.seq ∧ a.prevHash = b.prevHash := fun a b ⟨ha, hb, h⟩ =>
    preimage_inj (hseal a ha).prevLength (hseal' b hb).prevLength h
  have hR : List.Forall₂ R rows rows' := by
    refine (wormVerifyDb_isChain hok).forall₂_of_getLast (wormVerifyDb_isChain hok') ?_
      (fun a b h => (hinj a b h).2.2) (fun a b h => by simp only [links, (hinj a b h).2.1]) hhead
    intro a ha b hb hdigest
    refine ⟨ha, hb, hcf _ (List.mem_append_left _ (List.mem_map_of_mem ha)) _
      (List.mem_append_right _ (List.mem_map_of_mem hb)) (hex32_inj ?_)⟩
    rw [← (hseal a ha).hash, ← (hseal' b hb).hash]
    exact hdigest
  refine hR.imp fun a b hab hfull => ?_
  obtain ⟨ha, hb, hpre⟩ := hab
  have hv : a.hashVersion = fullVersion := hfull.elim id (hinj a b ⟨ha, hb, hpre⟩).1.mpr
  obtain ⟨hbinding, hsame, haction⟩ :=
    preimage_columns (hseal a ha).prevLength (hseal' b hb).prevLength hv hpre
  obtain ⟨hevent, hkey⟩ :=
    (hpinned a ha hv).columns_eq hbinding haction (hseal a ha) (hseal' b hb)
  exact hsame hevent hkey

theorem not_headBinds_of_not_pinned (hok : wormVerifyDb H ckey rows = .ok ())
    (hcf : CollisionFree H (preimages rows)) (hr : r ∈ rows)
    (hv : r.hashVersion = fullVersion) (hp : ¬ r.Pinned) : ¬ HeadBinds H ckey rows := by
  intro hbinds
  obtain ⟨before, after, rfl⟩ := List.append_of_mem hr
  obtain ⟨hhash, -, hprev, hpre, -⟩ := r.rewrite_verifies hp
  have hok' : wormVerifyDb H ckey (before ++ r.rewrite :: after) = .ok () := by
    rw [wormVerifyDb, verifyRows_rewrite hp]
    exact hok
  have hhead : headHash (before ++ r :: after) = headHash (before ++ r.rewrite :: after) := by
    simp only [headHash, ← List.getLast?_map, List.map_append, List.map_cons, hhash]
  have hpres : preimages (before ++ r.rewrite :: after) = preimages (before ++ r :: after) := by
    simp [preimages, hprev, hpre]
  have hagree := hbinds _ hok' hhead (by rw [hpres]; exact hcf.mono (by simp))
  have hrow : FullRowsAgree r r.rewrite := by
    have := List.Forall₂.get hagree (i := before.length) (by simp) (by simp)
    simpa using this
  have hsame := hrow (.inl hv)
  exact r.rewrite_changes hp ⟨hsame.eventId, hsame.keyId⟩

/-- The head of an accepted store binds the store exactly when each fully hashed row is
    pinned. -/
theorem headBinds_iff_pinned {rows : Store} (hok : wormVerifyDb H ckey rows = .ok ())
    (hcf : CollisionFree H (preimages rows)) :
    HeadBinds H ckey rows ↔ ∀ r ∈ rows, r.hashVersion = fullVersion → r.Pinned := by
  constructor
  · intro hbinds r hr hv
    by_contra hp
    exact not_headBinds_of_not_pinned hok hcf hr hv hp hbinds
  · exact headBinds_of_pinned hok

/-- A chain key and a clock reading. -/
def sampleKeyBytes : Block 32 := ⟨List.replicate 32 0x11, by decide⟩

def sampleKey : ChainKey := chainKey sha256 sampleKeyBytes

def sampleClock : CString := .ofAscii "2026-08-26T01:02:03Z"

/-- The row as it was hashed before the hash took in every column. -/
def AuditEvent.legacy (r : AuditEvent) : AuditEvent :=
  let row := { r with hashVersion := .ofAscii "v1-partial" }
  { row with rowHash := hex32 (sha256 (row.preimage row.prevHash)) }

/-- An append, a legacy checkpoint and a metric snapshot. -/
def plainStore : Store :=
  let appended := (auditWormAppend sha256 {} sampleClock (some (.ofAscii "primary")) (some (.ofAscii "u1"))
    (some (.ofAscii "tool.read")) (some (.ofAscii "v1-abc")) (some (.ofAscii "allow"))
    (some (.ofAscii "\x7b\x7d")) []).2
  let checked := (auditWormCheckpoint sha256 (some sampleKey) {} sampleClock appended).2.map fun r =>
    if r.action = checkpointAction then r.legacy else r
  (auditWormMetricSnapshot sha256 {} sampleClock checked).2

theorem plainStore_headBinds :
    wormVerifyDb sha256 (some sampleKey) plainStore = .ok () ∧
      plainStore.map (fun r => decide (r.hashVersion = fullVersion)) = [true, false, true] ∧
      HeadBinds sha256 (some sampleKey) plainStore := by
  have hok : wormVerifyDb sha256 (some sampleKey) plainStore = .ok () := by decide +kernel
  exact ⟨hok, by decide +kernel, (headBinds_iff_pinned hok (by decide +kernel)).mpr (by decide +kernel)⟩

/-- A store with one row of `audit_worm_append_idempotent`, and the same store with the
    event ID moved to the `key_id` column. -/
def outboxStore : Store :=
  (auditWormAppendIdempotent sha256 {} sampleClock
    { eventId := some (.ofAscii "kb:41"), ts := some sampleClock, actorRole := some (.ofAscii "kb"),
      actorPrincipal := some (.ofAscii "worker"), action := some (.ofAscii "kb.query"),
      subject := some (.ofAscii "q1"), verdict := some (.ofAscii "ok"),
      detail := some (.ofAscii "\x7b\x7d") } []).2

def movedStore : Store :=
  outboxStore.map fun r => { r with eventId := .empty, keyId := r.eventId }

theorem outboxStore_eventId_rewritable :
    wormVerifyDb sha256 (some sampleKey) outboxStore = .ok () ∧
      wormVerifyDb sha256 (some sampleKey) movedStore = .ok () ∧
      headHash outboxStore = headHash movedStore ∧
      CollisionFree sha256 (preimages outboxStore ++ preimages movedStore) ∧
      ¬ List.Forall₂ FullRowsAgree outboxStore movedStore := by
  refine ⟨by decide +kernel, by decide +kernel, by decide +kernel, by decide +kernel, fun h => ?_⟩
  have hrow := List.Forall₂.get h (i := 0) (by decide) (by decide)
  have hcolumns := hrow (.inl (by decide))
  exact absurd hcolumns.eventId (by decide)

end AuditWorm
