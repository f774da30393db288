-- SUMMARY: Repeated events in the WORM store: one row per event ID, and which retries are told apart.
import Aimee.Audit.WormRuns

/-!
# Repeated events

`audit_worm_append_idempotent` compares a repeated event with the row that is stored. The
`detail` column of that row went through `capDetail`, so two long details may meet in one
stored text. `capDetail_eq_iff` says which ones do.
-/

namespace AuditWorm

variable {H : HashFn} {ckey : Option ChainKey}

/-! ## One row per event -/

/-- No two rows carry the same non-empty event ID. -/
def EventIdsUnique (rows : Store) : Prop :=
  rows.Pairwise fun a b => a.eventId ≠ .empty → a.eventId ≠ b.eventId

theorem EventIdsUnique.find? {rows : Store} (h : EventIdsUnique rows) {row : AuditEvent}
    (hrow : row ∈ rows) (hevent : row.eventId ≠ .empty) :
    rows.find? (·.eventId = row.eventId) = some row := by
  induction rows with
  | nil => cases hrow
  | cons r rows ih =>
    obtain ⟨hr, hrows⟩ := List.pairwise_cons.mp h
    rcases List.mem_cons.mp hrow with rfl | hmem
    · simp
    · have hne : r.eventId ≠ row.eventId := fun heq => hr row hmem (heq ▸ hevent) heq
      rw [List.find?_cons_of_neg (by simpa using hne)]
      exact ih hrows hmem

theorem Op.Effect.eventIdsUnique {rows : Store} {op : Op} {out : Option Int × Store}
    (h : op.Effect H ckey rows out) (hrows : EventIdsUnique rows) : EventIdsUnique out.2 := by
  have hlast : ∀ row : AuditEvent, (row.eventId ≠ .empty → ∀ r ∈ rows, r.eventId ≠ row.eventId) →
      EventIdsUnique (rows ++ [row]) := by
    intro row hfresh
    refine List.pairwise_append.mpr ⟨hrows, List.pairwise_singleton _ _, ?_⟩
    intro a ha b hb hevent heq
    obtain rfl := List.mem_singleton.mp hb
    exact hfresh (heq ▸ hevent) a ha heq
  cases h with
  | refused => exact hrows
  | found => exact hrows
  | evidence _ _ hfresh => exact hlast _ hfresh
  | checkpoint _ _ hrow =>
    subst hrow
    exact hlast _ fun h => absurd rfl h

theorem runOps_eventIdsUnique (ops : List Op) : EventIdsUnique (runOps H ckey [] ops) := by
  have hstep : ∀ rows op, op ∈ ops → Numbered rows → EventIdsUnique rows →
      EventIdsUnique (op.run H ckey rows).2 := by
    intro rows op _ hn h
    have heffect : op.Effect H ckey rows (op.run H ckey rows) := op.run_effect hn
    exact heffect.eventIdsUnique h
  exact runOps_invariant hstep numbered_nil List.Pairwise.nil

/-! ## The stored detail -/

variable {d : CString} {args : AppendArgs} {now : CString}

theorem capDetail_of_le (h : d.val.length ≤ detailMax) : capDetail d = d :=
  if_neg (Nat.not_lt.mpr h)

theorem capDetail_of_lt (h : detailMax < d.val.length) :
    (capDetail d).val = (d.truncate detailMax).val ++ ((CString.ofAscii "\"[worm-truncated ").val ++
      (Wire.decimal (d.val.length - detailMax) ++ (CString.ofAscii " bytes]\"").val)) := by
  rw [capDetail, if_pos h]
  simp [CString.concat, CString.decimal]

theorem length_truncate_detailMax (h : detailMax < d.val.length) :
    (d.truncate detailMax).val.length = detailMax := by
  rw [CString.truncate, List.length_take]
  exact Nat.min_eq_left (Nat.le_of_lt h)

/-- The marker makes a text that was cut longer than any text that was not. -/
theorem length_capDetail (h : detailMax < d.val.length) :
    detailMax < (capDetail d).val.length := by
  have hmarker : 0 < (CString.ofAscii "\"[worm-truncated ").val.length := by decide
  rw [capDetail_of_lt h, List.length_append, List.length_append, length_truncate_detailMax h]
  omega

/-- Two details are told apart by their stored texts, unless both are over the cap, have
    the same length and agree on the bytes that are kept. -/
theorem capDetail_eq_iff {a b : CString} :
    capDetail a = capDetail b ↔
      a = b ∨ (detailMax < a.val.length ∧ a.val.length = b.val.length ∧
        a.truncate detailMax = b.truncate detailMax) := by
  constructor
  · intro h
    by_cases ha : detailMax < a.val.length
    · by_cases hb : detailMax < b.val.length
      · have hval := congrArg Subtype.val h
        rw [capDetail_of_lt ha, capDetail_of_lt hb] at hval
        obtain ⟨hkept, hrest⟩ := List.append_inj hval
          (by rw [length_truncate_detailMax ha, length_truncate_detailMax hb])
        have hcount := Wire.decimal_inj (List.append_cancel_right (List.append_cancel_left hrest))
        exact .inr ⟨ha, by omega, Subtype.ext hkept⟩
      · have hlen := length_capDetail ha
        rw [h, capDetail_of_le (Nat.not_lt.mp hb)] at hlen
        exact absurd hlen hb
    · by_cases hb : detailMax < b.val.length
      · have hlen := length_capDetail hb
        rw [← h, capDetail_of_le (Nat.not_lt.mp ha)] at hlen
        exact absurd hlen ha
      · rw [capDetail_of_le (Nat.not_lt.mp ha), capDetail_of_le (Nat.not_lt.mp hb)] at h
        exact .inl h
  · rintro (rfl | ⟨ha, hlen, hkept⟩)
    · rfl
    · apply Subtype.ext
      rw [capDetail_of_lt ha, capDetail_of_lt (hlen ▸ ha), hlen, hkept]

/-! ## Retries -/

/-- Two calls agree on every compared value but the detail. In the columns where
    `worm_append` reads a null pointer as the empty string the two are one value. -/
structure SameHeader (a b : AppendArgs) : Prop where
  ts : a.ts = b.ts
  actorRole : a.actorRole.getD .empty = b.actorRole.getD .empty
  actorPrincipal : a.actorPrincipal.getD .empty = b.actorPrincipal.getD .empty
  action : a.action = b.action
  subject : a.subject = b.subject
  verdict : a.verdict = b.verdict

def SameEvidence (a b : AppendArgs) : Prop :=
  SameHeader a b ∧ a.detail.getD .empty = b.detail.getD .empty

/-- The details differ, and only behind the bytes that are stored. -/
def TruncationHides (a b : AppendArgs) : Prop :=
  SameHeader a b ∧ a.detail.getD .empty ≠ b.detail.getD .empty ∧
    detailMax < (a.detail.getD .empty).val.length ∧
    (a.detail.getD .empty).val.length = (b.detail.getD .empty).val.length ∧
    (a.detail.getD .empty).truncate detailMax = (b.detail.getD .empty).truncate detailMax

/-- What a retry `second` of the call `first` does on the table: it never changes it, with
    the same evidence it reports the sequence number `seq` unless SQLite fails, and with any
    other evidence it is refused. -/
structure RepeatLaw (H : HashFn) (first second : AppendArgs) (seq : Int) (rows : Store) : Prop where
  unchanged : ∀ fx now, (auditWormAppendIdempotent H fx now second rows).2 = rows
  accepted : SameEvidence first second →
    ∀ now, (auditWormAppendIdempotent H {} now second rows).1 = some seq
  reply : SameEvidence first second → ∀ fx now,
    (auditWormAppendIdempotent H fx now second rows).1 = none ∨
      (auditWormAppendIdempotent H fx now second rows).1 = some seq
  refused : ¬ SameEvidence first second →
    ∀ fx now, (auditWormAppendIdempotent H fx now second rows).1 = none

/-- A call that was accepted left, or found, a row with its evidence. -/
theorem auditWormAppendIdempotent_stored {rows : Store} (hn : Numbered rows) {fx : Faults} {seq : Int}
    (h : (auditWormAppendIdempotent H fx now args rows).1 = some seq) :
    args.eventId.getD .empty ≠ .empty ∧ args.ts.getD .empty ≠ .empty ∧
      ∃ row ∈ (auditWormAppendIdempotent H fx now args rows).2,
        row.eventId = args.eventId.getD .empty ∧ row.seq = seq ∧ args.Matches row := by
  unfold auditWormAppendIdempotent at h ⊢
  split at h
  · cases h
  rename_i hguard
  obtain ⟨hevent, hts⟩ := not_or.mp hguard
  rw [if_neg hguard]
  refine ⟨hevent, hts, ?_⟩
  have happended : Appended H now args rows (wormAppend H fx now args rows) :=
    wormAppend_appended hn
  generalize wormAppend H fx now args rows = out at h happended ⊢
  cases happended with
  | refused => cases h
  | @found row _ hfind hmatch =>
    exact ⟨row, List.mem_of_find?_eq_some hfind, by simpa using List.find?_some hfind,
      Option.some.inj h, hmatch⟩
  | @written row hrow _ =>
    obtain ⟨action, subject, verdict, haction, hsubject, hverdict, rfl⟩ :=
      AppendArgs.row_eq hrow
    rw [if_neg hts] at h ⊢
    exact ⟨_, List.mem_append_right _ (by simp), rfl, Option.some.inj h, rfl, rfl, rfl,
      haction.symm, hsubject.symm, hverdict.symm, rfl⟩

/-- A call for an event that is stored changes nothing. It can only report the row of the
    event, and does so for the evidence of that row. -/
theorem auditWormAppendIdempotent_of_find? {rows : Store} (hn : Numbered rows)
    {row : AuditEvent} (hevent : args.eventId.getD .empty ≠ .empty)
    (hfind : rows.find? (·.eventId = args.eventId.getD .empty) = some row) (fx : Faults)
    (now : CString) :
    auditWormAppendIdempotent H fx now args rows = (none, rows) ∨
      (auditWormAppendIdempotent H fx now args rows = (some row.seq, rows) ∧
        args.ts.getD .empty ≠ .empty ∧ args.Matches row) := by
  unfold auditWormAppendIdempotent
  split
  · exact .inl rfl
  rename_i hguard
  have happended : Appended H now args rows (wormAppend H fx now args rows) :=
    wormAppend_appended hn
  generalize wormAppend H fx now args rows = out at happended ⊢
  cases happended with
  | refused => exact .inl rfl
  | found _ hfind' hmatch =>
    obtain rfl := Option.some.inj (hfind.symm.trans hfind')
    exact .inr ⟨rfl, (not_or.mp hguard).2, hmatch⟩
  | written hrow hfresh =>
    obtain ⟨action, subject, verdict, -, -, -, rfl⟩ := AppendArgs.row_eq hrow
    have hid : row.eventId = args.eventId.getD .empty := by simpa using List.find?_some hfind
    exact absurd hid (hfresh hevent row (List.mem_of_find?_eq_some hfind))

theorem auditWormAppendIdempotent_of_matches {rows : Store} {row : AuditEvent}
    (hevent : args.eventId.getD .empty ≠ .empty) (hts : args.ts.getD .empty ≠ .empty)
    (hfind : rows.find? (·.eventId = args.eventId.getD .empty) = some row)
    (hmatch : args.Matches row) (now : CString) :
    auditWormAppendIdempotent H {} now args rows = (some row.seq, rows) := by
  obtain ⟨hrowTs, hrole, hprincipal, haction, hsubject, hverdict, hdetail⟩ := hmatch
  have hsame : sameEvidence row args.ts (args.actorRole.getD .empty)
      (args.actorPrincipal.getD .empty) row.action row.subject row.verdict
      (capDetail (args.detail.getD .empty)) = true := by
    simp [sameEvidence, hrowTs, hrole, hprincipal, hdetail]
  rw [auditWormAppendIdempotent, if_neg (by simp [hevent, hts]), wormAppend, ← haction, ← hsubject,
    ← hverdict]
  simp only [hevent, ne_eq, not_false_eq_true, if_true, hfind, hsame]
  rfl

/-- Two calls match one row exactly when they agree on everything that is stored. -/
theorem matches_iff_of_matches {first : AppendArgs} {row : AuditEvent} (second : AppendArgs)
    (hts : first.ts.getD .empty ≠ .empty) (hfirst : first.Matches row) :
    (second.ts.getD .empty ≠ .empty ∧ second.Matches row) ↔
      SameHeader first second ∧
        capDetail (first.detail.getD .empty) = capDetail (second.detail.getD .empty) := by
  obtain ⟨hrowTs, hrole, hprincipal, haction, hsubject, hverdict, hdetail⟩ := hfirst
  have hsome : ∀ args : AppendArgs, args.ts.getD .empty ≠ .empty →
      args.ts = some (args.ts.getD .empty) := by
    intro args h
    cases hargs : args.ts with
    | none => simp [hargs] at h
    | some ts => rfl
  constructor
  · rintro ⟨hts', hrowTs', hrole', hprincipal', haction', hsubject', hverdict', hdetail'⟩
    refine ⟨⟨?_, hrole.symm.trans hrole', hprincipal.symm.trans hprincipal',
      haction.symm.trans haction', hsubject.symm.trans hsubject', hverdict.symm.trans hverdict'⟩,
      hdetail.symm.trans hdetail'⟩
    rw [hsome first hts, hsome second hts', ← hrowTs, ← hrowTs']
  · rintro ⟨hsame, hcap⟩
    refine ⟨hsame.ts ▸ hts, hsame.ts ▸ hrowTs, hrole.trans hsame.actorRole,
      hprincipal.trans hsame.actorPrincipal, haction.trans hsame.action,
      hsubject.trans hsame.subject, hverdict.trans hsame.verdict, hdetail.trans hcap⟩

theorem capDetail_eq_iff_of_sameHeader {a b : AppendArgs} (h : SameHeader a b) :
    capDetail (a.detail.getD .empty) = capDetail (b.detail.getD .empty) ↔
      SameEvidence a b ∨ TruncationHides a b := by
  rw [capDetail_eq_iff]
  by_cases hdetail : a.detail.getD .empty = b.detail.getD .empty
  · simp [SameEvidence, TruncationHides, h, hdetail]
  · simp [SameEvidence, TruncationHides, h, hdetail]

/-- The row of an accepted call stays the one row of its event, whatever is called later. -/
theorem runOps_find? {pre : List Op} (mid : List Op) {fx : Faults}
    {first : AppendArgs} {seq : Int}
    (haccepted : (auditWormAppendIdempotent H fx now first (runOps H ckey [] pre)).1 = some seq) :
    first.eventId.getD .empty ≠ .empty ∧ first.ts.getD .empty ≠ .empty ∧
      ∃ row, (runOps H ckey [] (pre ++ .appendIdempotent fx now first :: mid)).find?
          (·.eventId = first.eventId.getD .empty) = some row ∧ row.seq = seq ∧
        first.Matches row := by
  have hn : Numbered (runOps H ckey [] pre) := runOps_numbered numbered_nil pre
  obtain ⟨hevent, hts, row, hrow, hid, hseq, hmatch⟩ :=
    auditWormAppendIdempotent_stored hn haccepted
  refine ⟨hevent, hts, row, ?_, hseq, hmatch⟩
  have hmem : row ∈ runOps H ckey [] (pre ++ .appendIdempotent fx now first :: mid) := by
    rw [runOps_append]
    have hfirst : Numbered ((Op.appendIdempotent fx now first).run H ckey (runOps H ckey [] pre)).2 :=
      (Op.run_effect hn _).numbered hn
    exact (runOps_keeps hfirst mid).subset hrow
  rw [← hid]
  exact (runOps_eventIdsUnique _).find? hmem (hid ▸ hevent)

section Retry

variable {first second : AppendArgs} {seq : Int} {rows : Store} {row : AuditEvent}

theorem repeatLaw_of_not_hides (hn : Numbered rows) (hsecond : second.eventId = first.eventId)
    (hevent : first.eventId.getD .empty ≠ .empty) (hts : first.ts.getD .empty ≠ .empty)
    (hfind : rows.find? (·.eventId = first.eventId.getD .empty) = some row)
    (hmatch : first.Matches row) (hnot : ¬ TruncationHides first second) :
    RepeatLaw H first second row.seq rows := by
  rw [← hsecond] at hevent hfind
  have hcases : ∀ fx now, _ := auditWormAppendIdempotent_of_find? (H := H) hn hevent hfind
  have hstored := matches_iff_of_matches second hts hmatch
  refine ⟨fun fx now => ?_, fun hsame now => ?_, fun hsame fx now => ?_, fun hdiff fx now => ?_⟩
  · rcases hcases fx now with h | ⟨h, -⟩ <;> rw [h]
  · have hcap := (capDetail_eq_iff_of_sameHeader hsame.1).mpr (.inl hsame)
    obtain ⟨hts', hmatch'⟩ := hstored.mpr ⟨hsame.1, hcap⟩
    rw [auditWormAppendIdempotent_of_matches hevent hts' hfind hmatch' now]
  · rcases hcases fx now with h | ⟨h, -⟩
    · exact .inl (by rw [h])
    · exact .inr (by rw [h])
  · rcases hcases fx now with h | ⟨-, hmatch'⟩
    · rw [h]
    · obtain ⟨hheader, hcap⟩ := hstored.mp hmatch'
      rcases (capDetail_eq_iff_of_sameHeader hheader).mp hcap with hsame | hhides
      · exact absurd hsame hdiff
      · exact absurd hhides hnot

/-- A difference that truncation hides is not refused. -/
theorem not_repeatLaw_of_hides (hsecond : second.eventId = first.eventId)
    (hevent : first.eventId.getD .empty ≠ .empty) (hts : first.ts.getD .empty ≠ .empty)
    (hfind : rows.find? (·.eventId = first.eventId.getD .empty) = some row)
    (hmatch : first.Matches row) (hhides : TruncationHides first second) :
    ¬ RepeatLaw H first second seq rows := by
  intro hlaw
  rw [← hsecond] at hevent hfind
  have hcap := (capDetail_eq_iff_of_sameHeader hhides.1).mpr (.inr hhides)
  obtain ⟨hts', hmatch'⟩ := (matches_iff_of_matches second hts hmatch).mpr ⟨hhides.1, hcap⟩
  have hrefused := hlaw.refused (fun hsame => hhides.2.1 hsame.2) {} .empty
  rw [auditWormAppendIdempotent_of_matches hevent hts' hfind hmatch' .empty] at hrefused
  cases hrefused

end Retry

/-- On every run there is one row per event, and the retry of an accepted call keeps the
    law of retries exactly when truncation does not hide a difference of the details. -/
theorem runOps_repeatLaw (H : HashFn) (ckey : Option ChainKey) :
    (∀ ops, EventIdsUnique (runOps H ckey [] ops)) ∧
      ∀ pre mid fx now first second seq,
        (auditWormAppendIdempotent H fx now first (runOps H ckey [] pre)).1 = some seq →
        second.eventId = first.eventId →
        (RepeatLaw H first second seq
            (runOps H ckey [] (pre ++ .appendIdempotent fx now first :: mid)) ↔
          ¬ TruncationHides first second) := by
  refine ⟨runOps_eventIdsUnique, ?_⟩
  intro pre mid fx now first second seq haccepted hsecond
  obtain ⟨hevent, hts, row, hfind, rfl, hmatch⟩ := runOps_find? mid haccepted
  constructor
  · intro hlaw hhides
    exact not_repeatLaw_of_hides hsecond hevent hts hfind hmatch hhides hlaw
  · exact repeatLaw_of_not_hides (runOps_numbered numbered_nil _) hsecond hevent hts hfind hmatch

/-- An outbox event with the given detail. -/
def outboxEvent (detail : CString) : AppendArgs :=
  { eventId := some (.ofAscii "kb:41"), ts := some sampleClock, actorRole := some (.ofAscii "kb"),
    actorPrincipal := some (.ofAscii "worker"), action := some (.ofAscii "kb.query"),
    subject := some (.ofAscii "q1"), verdict := some (.ofAscii "ok"), detail := some detail }

theorem outboxEvent_repeatLaw :
    RepeatLaw sha256 (outboxEvent .empty) (outboxEvent .empty) 1
      (runOps sha256 none [] [.appendIdempotent {} sampleClock (outboxEvent .empty)]) :=
  ((runOps_repeatLaw sha256 none).2 [] [] {} sampleClock (outboxEvent .empty) (outboxEvent .empty) 1
    (by decide) rfl).mpr fun h => h.2.1 rfl

/-- A detail of one byte over the cap that ends in the given byte. -/
def longDetail (last : UInt8) (h : last ≠ 0) : CString :=
  ⟨List.replicate detailMax 97 ++ [last], by simp [List.mem_replicate, h.symm]⟩

theorem outboxEvent_accepted (detail : CString) :
    (auditWormAppendIdempotent sha256 {} sampleClock (outboxEvent detail)
      (runOps sha256 none [] [])).1 = some 1 := by
  rfl

theorem outboxEvent_eventId (d e : CString) : (outboxEvent d).eventId = (outboxEvent e).eventId :=
  rfl

theorem outboxEvent_sameHeader (d e : CString) : SameHeader (outboxEvent d) (outboxEvent e) :=
  ⟨rfl, rfl, rfl, rfl, rfl, rfl⟩

theorem outboxEvent_not_repeatLaw {d e : CString}
    (hhides : TruncationHides (outboxEvent d) (outboxEvent e)) :
    ¬ RepeatLaw sha256 (outboxEvent d) (outboxEvent e) 1
      (runOps sha256 none [] [.appendIdempotent {} sampleClock (outboxEvent d)]) := by
  obtain ⟨hevent, hts, row, hfind, -, hmatch⟩ := runOps_find? [] (outboxEvent_accepted d)
  exact not_repeatLaw_of_hides rfl hevent hts hfind hmatch hhides

theorem longDetail_hides :
    TruncationHides (outboxEvent (longDetail 98 (by decide)))
      (outboxEvent (longDetail 99 (by decide))) := by
  refine ⟨outboxEvent_sameHeader _ _, ?_, ?_, ?_, ?_⟩
  · intro h
    have hval : List.replicate detailMax 97 ++ [98] = List.replicate detailMax 97 ++ [(99 : UInt8)] :=
      congrArg Subtype.val h
    simp at hval
  · simp [outboxEvent, longDetail]
  · simp [outboxEvent, longDetail]
  · simp [outboxEvent, longDetail, CString.truncate]

theorem longDetail_not_repeatLaw :
    (auditWormAppendIdempotent sha256 {} sampleClock (outboxEvent (longDetail 98 (by decide)))
        (runOps sha256 none [] [])).1 = some 1 ∧
      (outboxEvent (longDetail 99 (by decide))).eventId =
        (outboxEvent (longDetail 98 (by decide))).eventId ∧
      ¬ RepeatLaw sha256 (outboxEvent (longDetail 98 (by decide)))
        (outboxEvent (longDetail 99 (by decide))) 1
        (runOps sha256 none []
          [.appendIdempotent {} sampleClock (outboxEvent (longDetail 98 (by decide)))]) :=
  ⟨outboxEvent_accepted _, outboxEvent_eventId _ _, outboxEvent_not_repeatLaw longDetail_hides⟩

end AuditWorm
