-- SUMMARY: Runs of the WORM store: what each operation can write, and when a run of the writers verifies.
import Aimee.Audit.WormBinding

/-!
# Runs of the WORM store

A run is a sequence of calls on the store, each with the faults and the clock it met.
`Op.run_cases` says once what a call can do: it leaves the table as it is, or it puts one
row behind the last. Every invariant of a run is derived from it.
-/

namespace AuditWorm

variable {H : HashFn} {ckey : Option ChainKey}

/-! ## Operations and runs -/

/-- A call on the store, with the faults SQLite reported and the clock it read. -/
inductive Op where
  | append (fx : Faults) (now : CString)
      (actorRole actorPrincipal action subject verdict detail : Option CString)
  | appendIdempotent (fx : Faults) (now : CString) (args : AppendArgs)
  | checkpoint (fx : Faults) (now : CString)
  | metricSnapshot (fx : Faults) (now : CString)

/-- The reply of a call and the table behind it. -/
def Op.run (H : HashFn) (ckey : Option ChainKey) (rows : Store) : Op → Option Int × Store
  | .append fx now actorRole actorPrincipal action subject verdict detail =>
    auditWormAppend H fx now actorRole actorPrincipal action subject verdict detail rows
  | .appendIdempotent fx now args => auditWormAppendIdempotent H fx now args rows
  | .checkpoint fx now => auditWormCheckpoint H ckey fx now rows
  | .metricSnapshot fx now => auditWormMetricSnapshot H fx now rows

/-- The table behind a sequence of calls. -/
def runOps (H : HashFn) (ckey : Option ChainKey) : Store → List Op → Store
  | rows, [] => rows
  | rows, op :: ops => runOps H ckey (op.run H ckey rows).2 ops

/-- Every call of the sequence reports success. -/
def Succeeds (H : HashFn) (ckey : Option ChainKey) : Store → List Op → Prop
  | _, [] => True
  | rows, op :: ops => (op.run H ckey rows).1.isSome ∧ Succeeds H ckey (op.run H ckey rows).2 ops

instance decidableSucceeds (H : HashFn) (ckey : Option ChainKey) :
    ∀ (rows : Store) (ops : List Op), Decidable (Succeeds H ckey rows ops)
  | _, [] => .isTrue trivial
  | rows, op :: ops =>
    have := decidableSucceeds H ckey (op.run H ckey rows).2 ops
    inferInstanceAs (Decidable (_ ∧ _))

variable {rows : Store} {r : AuditEvent} {now : CString} {args : AppendArgs} {op : Op}
     {out : Option Int × Store} {key : Block 32}

theorem runOps_append {ops ops' : List Op} :
    runOps H ckey rows (ops ++ ops') = runOps H ckey (runOps H ckey rows ops) ops' := by
  induction ops generalizing rows with
  | nil => rfl
  | cons op ops ih => exact ih

/-! ## The next row -/

/-- The rows carry the sequence numbers `1, 2, ...` in order. -/
def Numbered (rows : Store) : Prop :=
  rows.map (·.seq) = (List.range rows.length).map fun i : Nat => (i : Int) + 1

theorem Numbered.mem_seq (h : Numbered rows) (hr : r ∈ rows) :
    1 ≤ r.seq ∧ r.seq ≤ rows.length := by
  have hmem : r.seq ∈ (List.range rows.length).map fun i : Nat => (i : Int) + 1 :=
    h ▸ List.mem_map_of_mem hr
  obtain ⟨i, hi, heq⟩ := List.mem_map.mp hmem
  have := List.mem_range.mp hi
  omega

theorem Numbered.append (h : Numbered rows)
    (hr : r.seq = rows.length + 1) : Numbered (rows ++ [r]) := by
  simp only [Numbered, List.map_append, List.length_append, List.length_singleton,
    List.range_succ, List.map_cons, List.map_nil, hr]
  rw [h]

theorem Numbered.nextLink_seq (h : Numbered rows) :
    (nextLink false rows).1 = rows.length + 1 := by
  have hlast : (rows.map (·.seq)).getLast? =
      ((List.range rows.length).map fun i : Nat => (i : Int) + 1).getLast? := by rw [h]
  rw [List.getLast?_map, List.getLast?_map] at hlast
  cases hrows : rows.getLast? with
  | none =>
    rw [List.getLast?_eq_none_iff] at hrows
    simp [hrows, nextLink]
  | some last =>
    obtain ⟨n, hn⟩ : ∃ n, rows.length = n + 1 :=
      Nat.exists_eq_succ_of_ne_zero fun h0 => by simp [List.length_eq_zero_iff.mp h0] at hrows
    rw [hrows, hn, List.range_succ] at hlast
    simp only [Option.map_some, List.getLast?_append, List.getLast?_singleton, Option.some_or,
      Option.some.injEq] at hlast
    simp [nextLink, hrows, hlast, hn]

/-- The insertion of the next row: it is refused, or the row goes behind the last. A head
    query that failed on a table with rows does not go unnoticed, because the primary key
    refuses a second row 1. -/
theorem commitRow_cases (hn : Numbered rows) {fx : Faults} {row : AuditEvent}
    (hseq : row.seq = (nextLink fx.readHead rows).1) :
    commitRow fx rows row = (none, rows) ∨
      (commitRow fx rows row = (some row.seq, rows ++ [row]) ∧
        nextLink fx.readHead rows = nextLink false rows ∧
        (row.eventId ≠ .empty → ∀ r ∈ rows, r.eventId ≠ row.eventId)) := by
  unfold commitRow
  split
  · exact .inl rfl
  unfold insertRow
  split
  · rename_i heq
    exact .inl rfl
  rename_i rows' heq
  split at heq
  · cases heq
  rename_i hkey
  split at heq
  · cases heq
  rename_i hevent
  cases heq
  split
  · exact .inl rfl
  right
  have hlink : nextLink fx.readHead rows = nextLink false rows := by
    cases hread : fx.readHead with
    | false => rfl
    | true =>
      cases rows with
      | nil => rfl
      | cons r rest =>
        refine absurd ?_ hkey
        have hr : r.seq = 1 := by
          have := congrArg List.head? hn
          simpa [List.range_succ_eq_map] using this
        simp [hseq, hread, nextLink, hr]
  have hpos : rows.orderedInsert (fun a b => a.seq ≤ b.seq) row = rows ++ [row] := by
    have hlt : ∀ r ∈ rows, ¬ row.seq ≤ r.seq := by
      intro r hr
      have := (hn.mem_seq hr).2
      rw [hseq, hlink, hn.nextLink_seq]
      omega
    clear * - hlt
    induction rows with
    | nil => rfl
    | cons r rest ih =>
      rw [List.orderedInsert_cons, if_neg (hlt r (by simp)), ih fun x hx => hlt x (by simp [hx])]
      rfl
  refine ⟨by rw [hpos], hlink, fun hne r hr heq => hevent ⟨hne, ?_⟩⟩
  exact List.any_eq_true.mpr ⟨r, hr, by simpa using heq⟩

/-- The row `worm_append` writes for its arguments behind a link. -/
def AppendArgs.row (H : HashFn) (args : AppendArgs) (now : CString) (link : Int × CString) :
    Option AuditEvent := do
  let action ← args.action
  let subject ← args.subject
  let verdict ← args.verdict
  return appendRow H link
    (if args.ts.getD .empty = .empty then now else args.ts.getD .empty) (args.eventId.getD .empty)
    (args.actorRole.getD .empty) (args.actorPrincipal.getD .empty) action subject verdict
    (capDetail (args.detail.getD .empty))

/-- The row of an event that is stored already carries the arguments of the call. -/
def AppendArgs.Matches (args : AppendArgs) (row : AuditEvent) : Prop :=
  row.ts = args.ts.getD .empty ∧ row.actorRole = args.actorRole.getD .empty ∧
    row.actorPrincipal = args.actorPrincipal.getD .empty ∧ some row.action = args.action ∧
    some row.subject = args.subject ∧ some row.verdict = args.verdict ∧
    row.detail = capDetail (args.detail.getD .empty)

/-- What `worm_append` can do: refuse the call, find the event stored, or write the next
    row. -/
inductive Appended (H : HashFn) (now : CString) (args : AppendArgs) (rows : Store) :
    Option Int × Store → Prop where
  | refused : Appended H now args rows (none, rows)
  | found {row : AuditEvent} (hevent : args.eventId.getD .empty ≠ .empty)
      (hfind : rows.find? (·.eventId = args.eventId.getD .empty) = some row)
      (hmatch : args.Matches row) : Appended H now args rows (some row.seq, rows)
  | written {row : AuditEvent} (hrow : args.row H now (nextLink false rows) = some row)
      (hfresh : row.eventId ≠ .empty → ∀ r ∈ rows, r.eventId ≠ row.eventId) :
      Appended H now args rows (some row.seq, rows ++ [row])

theorem AppendArgs.row_eq {link : Int × CString}
    {row : AuditEvent} (h : args.row H now link = some row) :
    ∃ action subject verdict, args.action = some action ∧ args.subject = some subject ∧
      args.verdict = some verdict ∧
      row = appendRow H link
        (if args.ts.getD .empty = .empty then now else args.ts.getD .empty)
        (args.eventId.getD .empty) (args.actorRole.getD .empty) (args.actorPrincipal.getD .empty)
        action subject verdict (capDetail (args.detail.getD .empty)) := by
  simp only [AppendArgs.row, Option.bind_eq_bind, Option.bind_eq_some_iff, Option.pure_def,
    Option.some.injEq] at h
  obtain ⟨action, haction, subject, hsubject, verdict, hverdict, hrow⟩ := h
  exact ⟨action, subject, verdict, haction, hsubject, hverdict, hrow.symm⟩

theorem wormAppend_appended (hn : Numbered rows) {fx : Faults} :
    Appended H now args rows (wormAppend H fx now args rows) := by
  have hinsert : ∀ row, args.row H now (nextLink fx.readHead rows) = some row →
      Appended H now args rows (commitRow fx rows row) := by
    intro row hrow
    have hseq : row.seq = (nextLink fx.readHead rows).1 := by
      obtain ⟨action, subject, verdict, -, -, -, rfl⟩ := AppendArgs.row_eq hrow
      rfl
    rcases commitRow_cases hn hseq with h | ⟨h, hlink, hfresh⟩
    · rw [h]
      exact .refused
    · rw [h]
      exact .written (hlink ▸ hrow) hfresh
  unfold wormAppend
  split
  · rename_i action subject verdict haction hsubject hverdict
    have hrow : args.row H now (nextLink fx.readHead rows) = some (appendRow H
        (nextLink fx.readHead rows)
        (if args.ts.getD .empty = .empty then now else args.ts.getD .empty)
        (args.eventId.getD .empty) (args.actorRole.getD .empty) (args.actorPrincipal.getD .empty)
        action subject verdict (capDetail (args.detail.getD .empty))) := by
      simp [AppendArgs.row, haction, hsubject, hverdict]
    simp only
    split
    · exact .refused
    split
    · rename_i hevent
      split
      · exact .refused
      split
      · rename_i row hfind
        split
        · rename_i hsame
          refine .found hevent hfind ?_
          simpa [AppendArgs.Matches, sameEvidence, haction, hsubject, hverdict] using hsame
        · exact .refused
      · exact hinsert _ hrow
    · exact hinsert _ hrow
  · exact .refused

/-- The action a call hands to `worm_append`. -/
def Op.action? : Op → Option CString
  | .append _ _ _ _ action _ _ _ => action
  | .appendIdempotent _ _ args => args.action
  | .checkpoint _ _ => none
  | .metricSnapshot _ _ => some (.ofAscii "metric.snapshot")

/-- What a call can do to the table: nothing, or one row behind the last. -/
inductive Op.Effect (H : HashFn) (ckey : Option ChainKey) (op : Op) (rows : Store) :
    Option Int × Store → Prop where
  | refused : Effect H ckey op rows (none, rows)
  | found {row : AuditEvent} (hrow : row ∈ rows) (hevent : row.eventId ≠ .empty)
      (haction : op.action? = some row.action) : Effect H ckey op rows (some row.seq, rows)
  | evidence {args : AppendArgs} {now : CString} {row : AuditEvent}
      (hrow : args.row H now (nextLink false rows) = some row)
      (haction : op.action? = some row.action)
      (hfresh : row.eventId ≠ .empty → ∀ r ∈ rows, r.eventId ≠ row.eventId) :
      Effect H ckey op rows (some row.seq, rows ++ [row])
  | checkpoint {ck : ChainKey} {now : CString} {row : AuditEvent} (hkey : ckey = some ck)
      (hop : op.action? = none) (hrow : row = checkpointRow H ck (nextLink false rows) now) :
      Effect H ckey op rows (some row.seq, rows ++ [row])

theorem Appended.effect (h : Appended H now args rows out)
    (haction : op.action? = args.action) : op.Effect H ckey rows out := by
  cases h with
  | refused => exact .refused
  | found hevent hfind hmatch =>
    have hid := List.find?_some hfind
    rw [decide_eq_true_eq] at hid
    exact .found (List.mem_of_find?_eq_some hfind) (hid ▸ hevent)
      (haction.trans hmatch.2.2.2.1.symm)
  | written hrow hfresh =>
    obtain ⟨action, subject, verdict, hargs, -, -, rfl⟩ := AppendArgs.row_eq hrow
    exact .evidence hrow (haction.trans hargs) hfresh

/-- A step of the store. -/
theorem Op.run_effect (hn : Numbered rows) (op : Op) :
    op.Effect H ckey rows (op.run H ckey rows) := by
  cases op with
  | append fx now actorRole actorPrincipal action subject verdict detail =>
    exact (wormAppend_appended hn).effect rfl
  | appendIdempotent fx now args =>
    simp only [run, auditWormAppendIdempotent]
    split
    · exact .refused
    · exact (wormAppend_appended hn).effect rfl
  | checkpoint fx now =>
    simp only [run, auditWormCheckpoint]
    split
    · exact .refused
    rename_i ck
    split
    · exact .refused
    have hseq : (checkpointRow H ck (nextLink fx.readHead rows) now).seq =
        (nextLink fx.readHead rows).1 := rfl
    rcases commitRow_cases hn hseq with h | ⟨h, hlink, -⟩
    · rw [h]
      exact .refused
    · rw [h]
      exact .checkpoint rfl rfl (by rw [hlink])
  | metricSnapshot fx now =>
    simp only [run, auditWormMetricSnapshot]
    split
    · exact .refused
    · exact (wormAppend_appended hn).effect rfl

/-- The sequence number and the predecessor of the row a step writes. -/
theorem Op.Effect.numbered (hn : Numbered rows) (h : op.Effect H ckey rows out) : Numbered out.2 := by
  cases h with
  | refused => exact hn
  | found => exact hn
  | evidence hrow =>
    obtain ⟨action, subject, verdict, -, -, -, rfl⟩ := AppendArgs.row_eq hrow
    exact hn.append hn.nextLink_seq
  | checkpoint _ _ hrow =>
    subst hrow
    exact hn.append hn.nextLink_seq

/-- An invariant of every step from a numbered table is an invariant of every run. -/
theorem runOps_invariant {P : Store → Prop} {ops : List Op}
    (step : ∀ rows op, op ∈ ops → Numbered rows → P rows → P (op.run H ckey rows).2) (hn : Numbered rows)
    (h : P rows) : P (runOps H ckey rows ops) := by
  induction ops generalizing rows with
  | nil => exact h
  | cons op ops ih =>
    refine ih (fun rows op hop => step rows op (by simp [hop])) ?_ (step rows op (by simp) hn h)
    exact (op.run_effect hn).numbered hn

theorem numbered_nil : Numbered [] := rfl

theorem runOps_numbered (hn : Numbered rows) (ops : List Op) :
    Numbered (runOps H ckey rows ops) :=
  runOps_invariant (fun _ op _ hn _ => (op.run_effect hn).numbered hn) hn hn

theorem Op.Effect.keeps (h : op.Effect H ckey rows out) : rows <+: out.2 := by
  cases h with
  | refused => exact List.prefix_rfl
  | found => exact List.prefix_rfl
  | evidence => exact List.prefix_append _ _
  | checkpoint => exact List.prefix_append _ _

theorem runOps_keeps (hn : Numbered rows) (ops : List Op) :
    rows <+: runOps H ckey rows ops := by
  refine runOps_invariant ?_ hn List.prefix_rfl
  intro rows' op _ hn' h
  have heffect : op.Effect H ckey rows' (op.run H ckey rows') := op.run_effect hn'
  exact h.trans heffect.keeps

/-! ## Verification of what was written -/

/-- The row behind an accepted table is checked against the link the writers read. -/
theorem verifyRows_append_ok_iff {prev : CString} {expect : Int} :
    verifyRows H ckey prev expect (rows ++ [r]) = .ok () ↔
      verifyRows H ckey prev expect rows = .ok () ∧
        verifyRow H ckey (rows.getLast?.elim prev fun last => last.rowHash.truncate 64)
          (rows.getLast?.elim expect fun last => last.seq + 1) r = .ok () := by
  induction rows generalizing prev expect with
  | nil =>
    rw [List.nil_append, verifyRows_cons_ok_iff]
    exact and_comm
  | cons a rows ih =>
    have hlast : (a :: rows).getLast? = some (rows.getLast?.getD a) := List.getLast?_cons
    rw [List.cons_append, verifyRows_cons_ok_iff, verifyRows_cons_ok_iff, ih, hlast, and_assoc]
    cases rows.getLast? with
    | none => rfl
    | some last => rfl

theorem wormVerifyDb_append_ok_iff :
    wormVerifyDb H ckey (rows ++ [r]) = .ok () ↔
      wormVerifyDb H ckey rows = .ok () ∧
        verifyRow H ckey (nextLink false rows).2 (nextLink false rows).1 r = .ok () := by
  rw [wormVerifyDb, verifyRows_append_ok_iff, nextLink]
  cases rows.getLast? with
  | none => rfl
  | some last => rfl

theorem wormVerifyDb_of_extends {rows' : Store} (hext : rows <+: rows') (h : wormVerifyDb H ckey rows' = .ok ()) :
    wormVerifyDb H ckey rows = .ok () := by
  obtain ⟨more, rfl⟩ := hext
  induction more using List.reverseRecOn with
  | nil => rwa [List.append_nil] at h
  | append_singleton more r ih =>
    rw [← List.append_assoc, wormVerifyDb_append_ok_iff] at h
    exact ih h.1

/-- A numbered table that does not verify under a key never does, whatever is written to it later and under
    whichever key. -/
theorem runOps_keeps_failure {writer : Option ChainKey} (hn : Numbered rows)
    (h : wormVerifyDb H ckey rows ≠ .ok ()) (ops : List Op) :
    wormVerifyDb H ckey (runOps H writer rows ops) ≠ .ok () :=
  fun hok => h (wormVerifyDb_of_extends (runOps_keeps hn ops) hok)

/-- A row that is not chained to the start. -/
def strayRow : AuditEvent := appendRow sha256 (1, .empty) .empty .empty .empty .empty .empty .empty .empty .empty

theorem strayRow_keeps_failure :
    wormVerifyDb sha256 none (runOps sha256 none [strayRow] [.metricSnapshot {} .empty]) ≠ .ok () :=
  runOps_keeps_failure (show Numbered [strayRow] from rfl) (by decide) [.metricSnapshot {} .empty]

/-- The verifier reads the MAC of a checkpoint back from the JSON text that the writer
    made. -/
theorem ckptExtractMac_checkpointDetail {d : Digest} :
    ckptExtractMac (checkpointDetail (chainKey H key).keyId (hex32 d)) (chainKey H key).keyId =
      some (hex32 d) := by
  have hlen : (chainKey H key).keyId.val.length = 16 := length_chainKey_keyId key
  have hkey : ∀ c ∈ (chainKey H key).keyId.val, CJson.Plain c := fun c => chainKey_keyId_plain
  have hmac : ∀ c ∈ (hex32 d).val, CJson.Plain c := fun c => hex32_plain
  have hplain : ∀ (name : CString), name = .ofAscii "key_id" ∨ name = .ofAscii "mac" →
      ∀ c ∈ name.val, CJson.Plain c := by
    rintro name (rfl | rfl)
    · exact CJson.plain_of_all (by decide)
    · exact CJson.plain_of_all (by decide)
  generalize (chainKey H key).keyId = keyId at *
  have hpieces : (CString.concat [.ofAscii "\x7b\"key_id\":\"", keyId, .ofAscii "\",\"mac\":\"", hex32 d,
      .ofAscii "\"\x7d"]).val = 123 :: (34 :: (CString.ofAscii "key_id").val ++ 34 :: 58 :: 34 ::
        keyId.val ++ 34 :: 44 :: (34 :: (CString.ofAscii "mac").val ++ 34 :: 58 :: 34 ::
        (hex32 d).val ++ [34, 125])) := by
    have h₁ : (CString.ofAscii "\x7b\"key_id\":\"").val =
        123 :: 34 :: (CString.ofAscii "key_id").val ++ [34, 58, 34] := by decide
    have h₂ : (CString.ofAscii "\",\"mac\":\"").val =
        34 :: 44 :: 34 :: (CString.ofAscii "mac").val ++ [34, 58, 34] := by decide
    have h₃ : (CString.ofAscii "\"\x7d").val = [34, 125] := by decide
    simp [CString.concat, h₁, h₂, h₃]
  have htext : (checkpointDetail keyId (hex32 d)) = CString.concat [.ofAscii "\x7b\"key_id\":\"", keyId,
      .ofAscii "\",\"mac\":\"", hex32 d, .ofAscii "\"\x7d"] := by
    refine CString.truncate_of_length_le ?_
    have hmacLen : (CString.ofAscii "mac").val.length = 3 := by decide
    have hkeyLen : (CString.ofAscii "key_id").val.length = 6 := by decide
    rw [hpieces]
    simp [hlen, length_hex32, hmacLen, hkeyLen]
  have hparse := CJson.parse_two_plain_members (hplain _ (.inl rfl)) hkey (hplain _ (.inr rfl)) hmac
    hpieces
  have hne : CString.ofAscii "key_id" ≠ .ofAscii "mac" := by decide
  rw [htext, ckptExtractMac, hparse]
  simp [CJson.getObjectItemCaseSensitive, CJson.stringValue?, hne,
    CString.truncate_of_length_le (Nat.le_of_eq (length_hex32 d))]

/-- The binding slot of evidence is the event ID, also where that is empty. -/
theorem AuditEvent.preimage_of_evidence (hversion : r.hashVersion = fullVersion)
    (hkey : r.keyId = .empty) (prev : CString) :
    r.preimage prev = rowPreimageV2 r.seq r.ts r.actorRole r.actorPrincipal r.actorIssuer
      r.actorSubject r.transportCn r.teamId r.selectedDefaultFrom r.action r.subject r.verdict
      r.eventId r.detail prev := by
  have hbinding : r.binding = r.eventId := by
    rw [binding, hkey]
    by_cases hevent : r.eventId = .empty <;> simp [hevent]
  rw [preimage, if_pos hversion, hbinding]

theorem verifyRow_evidence {link : Int × CString}
    {row : AuditEvent} (hrow : args.row H now link = some row)
    (haction : row.action ≠ checkpointAction) :
    verifyRow H ckey link.2 link.1 row = .ok () := by
  obtain ⟨action, subject, verdict, -, -, -, rfl⟩ := AppendArgs.row_eq hrow
  refine verifyRow_ok_iff.mpr ⟨rfl, rfl, ?_, fun h => absurd h haction⟩
  rw [AuditEvent.preimage_of_evidence rfl rfl]
  rfl

theorem verifyRow_checkpoint {link : Int × CString} :
    verifyRow H (some (chainKey H key)) link.2 link.1
      (checkpointRow H (chainKey H key) link now) = .ok () := by
  refine verifyRow_ok_iff.mpr ⟨rfl, rfl, rfl, fun _ => ?_⟩
  simp [verifyCheckpoint, checkpointRow, ckptMac, ckptExtractMac_checkpointDetail]

/-- A step that does not append under the checkpoint action keeps the table verifiable. -/
theorem Op.Effect.verifies (h : op.Effect H (some (chainKey H key)) rows out)
    (haction : op.action? ≠ some checkpointAction)
    (hok : wormVerifyDb H (some (chainKey H key)) rows = .ok ()) :
    wormVerifyDb H (some (chainKey H key)) out.2 = .ok () := by
  cases h with
  | refused => exact hok
  | found => exact hok
  | evidence hrow hop =>
    refine wormVerifyDb_append_ok_iff.mpr ⟨hok, verifyRow_evidence hrow ?_⟩
    intro hrowAction
    exact haction (hrowAction ▸ hop)
  | checkpoint hkey _ hrow =>
    cases hkey
    subst hrow
    exact wormVerifyDb_append_ok_iff.mpr ⟨hok, verifyRow_checkpoint⟩

/-! ## Evidence under the checkpoint action -/

/-- Rows with an event ID are evidence, and evidence has no key ID. -/
def EventsUnkeyed (rows : Store) : Prop := ∀ r ∈ rows, r.eventId ≠ .empty → r.keyId = .empty

theorem Op.Effect.eventsUnkeyed
    (h : op.Effect H ckey rows out) (hrows : EventsUnkeyed rows) : EventsUnkeyed out.2 := by
  have hlast : ∀ row : AuditEvent, (row.eventId ≠ .empty → row.keyId = .empty) →
      EventsUnkeyed (rows ++ [row]) := by
    intro row hrow r hr
    rcases List.mem_append.mp hr with hr | hr
    · exact hrows r hr
    · exact List.mem_singleton.mp hr ▸ hrow
  cases h with
  | refused => exact hrows
  | found => exact hrows
  | evidence hrow =>
    obtain ⟨action, subject, verdict, -, -, -, rfl⟩ := AppendArgs.row_eq hrow
    exact hlast _ fun _ => rfl
  | checkpoint _ _ hrow =>
    subst hrow
    exact hlast _ fun h => absurd rfl h

/-- A row the verifier takes for a checkpoint and no checkpoint call wrote. -/
def AuditEvent.Forged (r : AuditEvent) : Prop := r.action = checkpointAction ∧ r.keyId = .empty

/-- An append under the checkpoint action that succeeds leaves a forged row. -/
theorem Op.Effect.forged (h : op.Effect H ckey rows out) (hrows : EventsUnkeyed rows) (hsome : out.1.isSome)
    (haction : op.action? = some checkpointAction) : ∃ r ∈ out.2, r.Forged := by
  cases h with
  | refused => simp at hsome
  | found hrow hevent hop =>
    rw [haction] at hop
    exact ⟨_, hrow, (Option.some.inj hop).symm, hrows _ hrow hevent⟩
  | evidence hrow hop =>
    rw [haction] at hop
    refine ⟨_, List.mem_append_right _ (by simp), (Option.some.inj hop).symm, ?_⟩
    obtain ⟨action, subject, verdict, -, -, -, rfl⟩ := AppendArgs.row_eq hrow
    rfl
  | checkpoint _ hop => simp [haction] at hop

theorem runOps_forged (hn : Numbered rows) (hrows : EventsUnkeyed rows)
    {ops : List Op} (hok : Succeeds H ckey rows ops)
    (haction : ∃ op ∈ ops, op.action? = some checkpointAction) :
    ∃ r ∈ runOps H ckey rows ops, r.Forged := by
  induction ops generalizing rows with
  | nil => simp at haction
  | cons op ops ih =>
    have heffect : op.Effect H ckey rows (op.run H ckey rows) := op.run_effect hn
    obtain ⟨hsome, hrest⟩ := hok
    obtain ⟨op', hop', haction'⟩ := haction
    rcases List.mem_cons.mp hop' with rfl | hop'
    · obtain ⟨r, hr, hforged⟩ := heffect.forged hrows hsome haction'
      exact ⟨r, (runOps_keeps (heffect.numbered hn) ops).subset hr, hforged⟩
    · exact ih (heffect.numbered hn) (heffect.eventsUnkeyed hrows) hrest ⟨op', hop', haction'⟩

/-- A chain key always has an identifier, so a forged row is refused for ever. -/
theorem wormVerifyDb_of_forged (hr : r ∈ rows)
    (hforged : r.Forged) : wormVerifyDb H (some (chainKey H key)) rows ≠ .ok () := by
  intro hok
  obtain ⟨ck, hck, hkey⟩ := (wormVerifyDb_sealed hok r hr).checkpoint hforged.1
  cases hck
  have hlen : (chainKey H key).keyId.val.length = 16 := length_chainKey_keyId key
  rw [← hkey, hforged.2] at hlen
  simp at hlen

/-- A run of successful calls from the empty store leaves a table that verifies exactly
    when no append of the run was made under the action the verifier takes for a
    checkpoint. -/
theorem runOps_verifies_iff {key : Block 32} {ops : List Op}
    (hok : Succeeds H (some (chainKey H key)) [] ops) :
    wormVerifyDb H (some (chainKey H key)) (runOps H (some (chainKey H key)) [] ops) = .ok () ↔
      ∀ op ∈ ops, op.action? ≠ some checkpointAction := by
  constructor
  · intro hverify op hop haction
    obtain ⟨r, hr, hforged⟩ := runOps_forged numbered_nil (by simp [EventsUnkeyed]) hok
      ⟨op, hop, haction⟩
    exact wormVerifyDb_of_forged hr hforged hverify
  · intro haction
    have hstep : ∀ rows op, op ∈ ops → Numbered rows →
        wormVerifyDb H (some (chainKey H key)) rows = .ok () →
        wormVerifyDb H (some (chainKey H key)) (op.run H (some (chainKey H key)) rows).2 = .ok () :=
      fun rows op hop hn hrows => (op.run_effect hn).verifies (haction op hop) hrows
    exact runOps_invariant hstep numbered_nil rfl

/-- One call of each kind. -/
def sampleRun : List Op :=
  [.append {} sampleClock (some (.ofAscii "primary")) none (some (.ofAscii "tool.read"))
      (some (.ofAscii "v1-abc")) (some (.ofAscii "allow")) none,
    .checkpoint {} sampleClock,
    .appendIdempotent {} sampleClock
      { eventId := some (.ofAscii "kb:41"), ts := some sampleClock,
        actorRole := some (.ofAscii "kb"), actorPrincipal := none,
        action := some (.ofAscii "kb.query"), subject := some (.ofAscii "q1"),
        verdict := some (.ofAscii "ok"), detail := none },
    .metricSnapshot {} sampleClock]

theorem sampleRun_verifies :
    wormVerifyDb sha256 (some (chainKey sha256 sampleKeyBytes))
      (runOps sha256 (some (chainKey sha256 sampleKeyBytes)) [] sampleRun) = .ok () :=
  (runOps_verifies_iff (by decide)).mpr (by decide)

/-- One successful append under the action `chain.checkpoint`. -/
def forgingRun : List Op :=
  [.append {} sampleClock (some (.ofAscii "primary")) none (some (.ofAscii "chain.checkpoint"))
    (some .empty) (some (.ofAscii "ok")) none]

theorem forgingRun_not_verifies :
    Succeeds sha256 (some (chainKey sha256 sampleKeyBytes)) [] forgingRun ∧
      wormVerifyDb sha256 (some (chainKey sha256 sampleKeyBytes))
        (runOps sha256 (some (chainKey sha256 sampleKeyBytes)) [] forgingRun) ≠ .ok () := by
  decide +kernel

end AuditWorm
