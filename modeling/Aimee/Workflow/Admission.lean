-- SUMMARY: The statements of a create under the lifecycle lock, in any interleaving with other transactions: the admission cap.
import Aimee.Lib.ExclusiveSessions
import Aimee.Workflow.Rows

/-!
# Admission

`wfeCreateWorkItem` as the script of its statements: the count of the active roots, the insert and the create
event are statements of one transaction. `Begin` takes the lifecycle lock for every writer of the family. The
statements of the other writers are taken as one.
-/

namespace Workflow

/-! ## Transactions -/

inductive LifecycleStmt where
  /-- `Begin`, with `TransactionLockSQL`. -/
  | begin_
  /-- `wfeActiveRootCountSQL`. -/
  | activeRootCount
  /-- `wfeCreateRootSQL` and `wfeCreateChildSQL`. -/
  | createRoot (row : WorkItem)
  | createChild (row : WorkItem)
  /-- `wfeEventSQL`. -/
  | event (workItemId stage kind actor detail contentHash : String) (cost : ℚ)
  | body (now : Time) (op : Op)

inductive LifecycleReply where
  | failed
  | done
  | count (rows : ℕ)
  | affected (rows : ℕ)

/-- Whether a transaction holds the lifecycle lock, and what its uncommitted writes do to a store. -/
structure LifecycleWrites where
  locked : Bool := false
  apply : Store → Store := id

def LifecycleWrites.then (w : LifecycleWrites) (f : Store → Store) : LifecycleWrites :=
  { w with apply := fun s => f (w.apply s) }

namespace Store

def activeRoots (s : Store) : ℕ := s.items.matched fun w => w.parentId = "" && w.state = "active"

/-- An insert that the constraints of the table allow. -/
def withItem (row : WorkItem) (s : Store) : Store := (s.insertItem row).getD s

end Store

/-- An insert of a transaction, unless the constraints refuse it. -/
def insertStmt (store : Store) (w : LifecycleWrites) (row : WorkItem) : LifecycleWrites × LifecycleReply :=
  if ((w.apply store).insertItem row).isSome then (w.then (·.withItem row), .affected 1) else (w, .failed)

def lifecycleExec (store : Store) (others : List LifecycleWrites) (w : LifecycleWrites) :
    LifecycleStmt → Option (LifecycleWrites × LifecycleReply)
  | .begin_ => if others.any (·.locked) then none else some ({ w with locked := true }, .done)
  | .activeRootCount => some (w, .count (w.apply store).activeRoots)
  | .createRoot row => some (insertStmt store w row)
  | .createChild row =>
    if (w.apply store).items.matched (fun p => p.workItemId = row.parentId && p.state = "active") ≠ 1 then
      some (w, .affected 0)
    else some (insertStmt store w row)
  | .event id stage kind actor detail hash cost =>
    some (w.then (·.addEvent id stage kind actor detail hash cost), .done)
  | .body now op => some (w.then (op.apply now), .done)

/-- READ COMMITTED, with the advisory lock. -/
def lifecycleEngine : Engine LifecycleStmt LifecycleReply Store LifecycleWrites where
  fresh := {}
  exec := lifecycleExec
  failed := .failed
  commit store w := w.apply store

inductive LifecycleAnswer where
  | reply (r : Reply CreateOutcome)
  | error
  | ended
  deriving DecidableEq

abbrev LifecycleScript := Script LifecycleStmt LifecycleReply LifecycleAnswer

def commitThen (a : LifecycleAnswer) : LifecycleScript :=
  .commit fun
    | true => .answer a
    | false => .answer .error

def createStmt (now : Time) (r : CreateRequest) : LifecycleStmt :=
  if r.parentId = "" then .createRoot (r.row now) else .createChild (r.row now)

/-- What follows the insert of `wfeCreateWorkItem`. -/
def afterInsert (r : CreateRequest) : LifecycleReply → LifecycleScript
  | .affected 1 =>
    .exec (.event r.workItemId r.startStage "create" "go-wfe" r.workflowName "" 0) fun
      | .done => commitThen (.reply (.ok .created))
      | _ => .answer .error
  | .affected _ => .answer (.reply (if r.parentId ≠ "" then .ok .parentNotActive else .failed))
  | _ => .answer .error

def insertScript (now : Time) (r : CreateRequest) : LifecycleScript := .exec (createStmt now r) (afterInsert r)

def createScript (now : Time) (r : CreateRequest) : LifecycleScript :=
  if r.workItemId = "" ∨ r.proposalPath = "" ∨ r.workflowName = "" ∨ r.startStage = "" ∨
      ¬costIsSane r.maxCostUsd then .answer (.reply .invalid)
  else
    .exec .begin_ fun
    | .done =>
      if 0 < r.rootCap ∧ r.parentId = "" then
        .exec .activeRootCount fun
          | .count activeRoots =>
            if r.rootCap ≤ activeRoots then commitThen (.reply (.ok .admissionFull)) else insertScript now r
          | _ => .answer .error
      else insertScript now r
    | _ => .answer .error

/-- The transaction of another writer. -/
def bodyScript (now : Time) (op : Op) : LifecycleScript :=
  .exec .begin_ fun
  | .done =>
    .exec (.body now op) fun
      | .done => commitThen .ended
      | _ => .answer .error
  | _ => .answer .error

/-- The writers the cap is about: creates with the cap `n`, and what finishes, stops or abandons runs. -/
def Op.admitted (n : ℤ) : Op → Bool
  | .wfeCreateWorkItem r => r.rootCap = n
  | .wfeFinish .. => true
  | .wfeRejectGate .. => true
  | .workItemSetTerminal _ state => state ≠ "active"
  | .workItemRecordOutcome _ (.terminal state _) .. => state ≠ "active"
  | .wfeStopTree .. => true
  | .wfeReconcileOrphans .. => true
  | .wfeAbandonExhaustedWallCaps .. => true
  | .workItemAbandonChildren .. => true
  | .workItemReapStaleParks .. => true
  | _ => false

/-- A call of an admitted writer, with the reading of the clock of its transaction. -/
structure AdmittedCall (n : ℤ) where
  now : Time
  op : Op
  admitted : op.admitted n

def lifecycleProgram (n : ℤ) (call : AdmittedCall n) : LifecycleScript :=
  match call.op with
  | .wfeCreateWorkItem r => createScript call.now r
  | op => bodyScript call.now op

/-! ## The transactions under the lock -/

/-- The transaction holds the lifecycle lock. -/
def LifecycleWrites.Holds (w : LifecycleWrites) : Prop := w.locked = true

theorem locked_insertStmt (store : Store) (w : LifecycleWrites) (row : WorkItem) :
    (insertStmt store w row).1.locked = w.locked := by
  unfold insertStmt
  split
  · rfl
  · rfl

/-- What a statement does to the lock, and that the other transactions only make it wait. -/
theorem lifecycleExec_lock {store : Store} {others : List LifecycleWrites} {w : LifecycleWrites} {stmt : LifecycleStmt}
    {r : LifecycleWrites × LifecycleReply} (h : lifecycleExec store others w stmt = some r) :
    lifecycleExec store [] w stmt = some r ∧
      (r.1.locked = w.locked ∨ stmt = .begin_ ∧ r.1.locked = true ∧ ∀ o ∈ others, ¬o.Holds) := by
  cases stmt with
  | begin_ =>
    rw [lifecycleExec] at h
    split at h
    case isTrue => cases h
    case isFalse hfree =>
      obtain rfl := Option.some.inj h
      refine ⟨rfl, .inr ⟨rfl, rfl, fun o ho hholds => hfree ?_⟩⟩
      exact List.any_eq_true.mpr ⟨o, ho, hholds⟩
  | activeRootCount =>
    obtain rfl := Option.some.inj h
    exact ⟨rfl, .inl rfl⟩
  | createRoot row =>
    obtain rfl := Option.some.inj h
    exact ⟨rfl, .inl (locked_insertStmt store w row)⟩
  | createChild row =>
    refine ⟨h, .inl ?_⟩
    rw [lifecycleExec] at h
    split at h
    · obtain rfl := Option.some.inj h
      rfl
    · obtain rfl := Option.some.inj h
      exact locked_insertStmt store w row
  | event =>
    obtain rfl := Option.some.inj h
    exact ⟨rfl, .inl rfl⟩
  | body =>
    obtain rfl := Option.some.inj h
    exact ⟨rfl, .inl rfl⟩

theorem transaction_commitThen (a : LifecycleAnswer) : (commitThen a).Transaction LifecycleReply.failed .error :=
  .commit a rfl rfl

theorem transaction_insertScript (now : Time) (r : CreateRequest) :
    (insertScript now r).Transaction LifecycleReply.failed .error := by
  refine .exec rfl fun reply => ?_
  unfold afterInsert
  split
  · refine .exec rfl fun reply => ?_
    split
    · exact transaction_commitThen _
    · exact .answer _
  · exact .answer _
  · exact .answer _

theorem transaction_createScript (now : Time) (r : CreateRequest) :
    (createScript now r).Transaction LifecycleReply.failed .error := by
  unfold createScript
  split
  · exact .answer _
  · refine .exec rfl fun reply => ?_
    split
    · split
      · refine .exec rfl fun reply => ?_
        split
        · split
          · exact transaction_commitThen _
          · exact transaction_insertScript now r
        · exact .answer _
      · exact transaction_insertScript now r
    · exact .answer _

theorem transaction_bodyScript (now : Time) (op : Op) :
    (bodyScript now op).Transaction LifecycleReply.failed .error := by
  refine .exec rfl fun reply => ?_
  split
  · refine .exec rfl fun reply => ?_
    split
    · exact transaction_commitThen _
    · exact .answer _
  · exact .answer _

theorem lifecycleProgram_cases {n : ℤ} (call : AdmittedCall n) :
    (∃ a, lifecycleProgram n call = .answer a) ∨ ∃ next, lifecycleProgram n call = .exec .begin_ next := by
  unfold lifecycleProgram
  split
  · unfold createScript
    split
    · exact .inl ⟨_, rfl⟩
    · exact .inr ⟨_, rfl⟩
  · exact .inr ⟨_, rfl⟩

theorem lifecycle_exclusive (n : ℤ) :
    lifecycleEngine.Exclusive (lifecycleProgram n) LifecycleWrites.Holds .error where
  fresh h := nomatch h
  others _ _ _ _ _ h := (lifecycleExec_lock h).1
  takes store others w stmt r h hholds := by
    rcases (lifecycleExec_lock h).2 with hsame | ⟨-, -, hfree⟩
    · exact .inl (hsame.symm.trans hholds)
    · exact .inr hfree
  keeps store others w stmt r hholds h := by
    rcases (lifecycleExec_lock h).2 with hsame | ⟨-, hlocked, -⟩
    · exact hsame.trans hholds
    · exact hlocked
  first call stmt next hprogram store others r h := by
    rcases lifecycleProgram_cases call with ⟨a, ha⟩ | ⟨next', hnext⟩
    · rw [ha] at hprogram
      cases hprogram
    · rw [hnext] at hprogram
      cases hprogram
      simp only [lifecycleEngine, lifecycleExec] at h
      split at h
      · cases h
      · obtain rfl := Option.some.inj h
        rfl
  begins call next hprogram := by
    rcases lifecycleProgram_cases call with ⟨a, ha⟩ | ⟨next', hnext⟩
    · rw [ha] at hprogram
      cases hprogram
    · rw [hnext] at hprogram
      cases hprogram
  transaction call := by
    unfold lifecycleProgram
    split
    · exact transaction_createScript _ _
    · exact transaction_bodyScript _ _

/-! ## The scripts by themselves -/

/-- The answer of a create, where a statement that the database refused is an error. -/
def answerOf : Reply CreateOutcome → LifecycleAnswer
  | .error => .error
  | r => .reply r

section

variable {now : Time} {r : CreateRequest} {s : Store} {w : LifecycleWrites}

/-- The row of a create, with its event. -/
def created (r : CreateRequest) (t : Store) : Store :=
  t.addEvent r.workItemId r.startStage "create" "go-wfe" r.workflowName "" 0

theorem alone_insertScript_insert (hw : w.apply s = s)
    (hstmt : lifecycleExec s [] w (createStmt now r) = some (insertStmt s w (r.row now))) :
    lifecycleEngine.alone (insertScript now r) s w =
      match s.insertItem (r.row now) with
      | none => some (s, .error)
      | some t => some (created r t, .reply (.ok .created)) := by
  rw [insertScript, Engine.alone, show lifecycleEngine.exec s [] w (createStmt now r) = _ from hstmt, insertStmt, hw]
  cases hrow : s.insertItem (r.row now) with
  | none => rfl
  | some t =>
    simp only [Option.isSome_some, if_true, afterInsert, Engine.alone, lifecycleEngine, lifecycleExec,
      Option.bind_some, commitThen,
      LifecycleWrites.then, Store.withItem, hw, hrow, Option.getD_some, created]

/-- The insert of a transaction that has not written, and what follows it. -/
theorem alone_insertScript (hw : w.apply s = s) :
    lifecycleEngine.alone (insertScript now r) s w =
      if r.parentId ≠ "" ∧ s.items.matched (fun p => p.workItemId = r.parentId && p.state = "active") ≠ 1 then
        some (s, .reply (.ok .parentNotActive))
      else match s.insertItem (r.row now) with
        | none => some (s, .error)
        | some t => some (created r t, .reply (.ok .created)) := by
  by_cases hparent : r.parentId = ""
  · rw [if_neg fun h : r.parentId ≠ "" ∧ _ => h.1 hparent]
    refine alone_insertScript_insert hw ?_
    rw [createStmt, if_pos hparent, lifecycleExec]
  · have hexec : lifecycleExec s [] w (createStmt now r) =
        if s.items.matched (fun p => p.workItemId = r.parentId && p.state = "active") ≠ 1 then some (w, .affected 0)
        else some (insertStmt s w (r.row now)) := by
      rw [createStmt, if_neg hparent, lifecycleExec, hw]
      rfl
    split
    case isTrue h =>
      rw [if_pos h.2] at hexec
      rw [insertScript, Engine.alone, show lifecycleEngine.exec s [] w (createStmt now r) = _ from hexec,
        Option.bind_some, afterInsert]
      · rw [if_pos hparent, Engine.alone]
      · intro h
        cases h
    case isFalse h => exact alone_insertScript_insert hw (hexec.trans (if_neg fun hmatched => h ⟨hparent, hmatched⟩))

/-- By itself, the script of a create is the create. -/
theorem alone_createScript (now : Time) (r : CreateRequest) (s : Store) :
    lifecycleEngine.alone (createScript now r) s lifecycleEngine.fresh =
      some ((wfeCreateWorkItem now r s).1, answerOf (wfeCreateWorkItem now r s).2) := by
  unfold createScript wfeCreateWorkItem
  split
  case isTrue => rfl
  case isFalse =>
    have hbegin : ∀ next : LifecycleReply → LifecycleScript, lifecycleEngine.alone (.exec .begin_ next) s
        lifecycleEngine.fresh =
        lifecycleEngine.alone (next .done) s ⟨true, id⟩ := fun _ => rfl
    rw [hbegin]
    by_cases hcap : 0 < r.rootCap ∧ r.parentId = ""
    · have hcount : ∀ next : LifecycleReply → LifecycleScript,
          lifecycleEngine.alone (.exec .activeRootCount next) s ⟨true, id⟩ =
          lifecycleEngine.alone (next (.count s.activeRoots)) s ⟨true, id⟩ := fun _ => rfl
      rw [if_pos hcap, hcount]
      dsimp only
      by_cases hfull : r.rootCap ≤ s.activeRoots
      · rw [if_pos hfull, if_pos ⟨hcap.1, hcap.2, hfull⟩]
        rfl
      · rw [if_neg hfull]
        unfold Store.activeRoots at hfull
        rw [if_neg fun h : _ ∧ _ ∧ _ => hfull h.2.2, alone_insertScript rfl]
        split
        · rfl
        · cases s.insertItem (r.row now) with
          | none => rfl
          | some t => rfl
    · rw [if_neg hcap, if_neg fun h : _ ∧ _ ∧ _ => hcap ⟨h.1, h.2.1⟩, alone_insertScript rfl]
      split
      · rfl
      · cases s.insertItem (r.row now) with
        | none => rfl
        | some t => rfl

theorem alone_bodyScript (now : Time) (op : Op) (s : Store) :
    lifecycleEngine.alone (bodyScript now op) s lifecycleEngine.fresh = some (op.apply now s, .ended) := rfl

end

/-! ## What the admitted writers do to the roots -/

/-- The writer inserts no row, moves none under another parent and activates none. -/
def Quiet (s t : Store) : Prop :=
  List.Forall₂ (fun w w' => w'.workItemId = w.workItemId ∧ w'.parentId = w.parentId ∧ (w'.state = "active" →
    w.state = "active"))
    s.items.rows t.items.rows

section

variable {s t u : Store}

theorem Quiet.refl (s : Store) : Quiet s s := List.forall₂_same.mpr fun _ _ => ⟨rfl, rfl, id⟩

theorem Quiet.of_items (h : t.items = s.items) : Quiet s t := by
  unfold Quiet
  rw [h]
  exact Quiet.refl s

theorem Quiet.congr (h : Quiet s t) (hitems : u.items = t.items) : Quiet s u := by
  unfold Quiet
  rw [hitems]
  exact h

theorem Quiet.update {p : WorkItem → Bool} {f : WorkItem → WorkItem} (h : Quiet s t)
    (hrows : u.items.rows = t.items.rows.map fun w => if p w then f w else w)
    (hid : ∀ w, (f w).workItemId = w.workItemId) (hparent : ∀ w, (f w).parentId = w.parentId)
    (hstate : ∀ w, p w = true → (f w).state = "active" → w.state = "active") : Quiet s u := by
  unfold Quiet
  rw [hrows]
  refine List.forall₂_map_right_iff.mpr (List.Forall₂.imp (fun w w' hw => ?_) h)
  split
  case isTrue hp => exact ⟨(hid w').trans hw.1, (hparent w').trans hw.2.1, fun hactive => hw.2.2 (hstate w' hp hactive)⟩
  case isFalse => exact hw

theorem Quiet.ends {p : WorkItem → Bool} {f : WorkItem → WorkItem} {state : String} (h : Quiet s t)
    (hne : state ≠ "active") (hrows : u.items.rows = t.items.rows.map fun w => if p w then f w else w)
    (hid : ∀ w, (f w).workItemId = w.workItemId) (hparent : ∀ w, (f w).parentId = w.parentId)
    (hstate : ∀ w, (f w).state = state) : Quiet s u :=
  h.update hrows hid hparent fun w _ hactive => absurd ((hstate w).symm.trans hactive) hne

theorem Quiet.activeRoots_le (h : Quiet s t) : t.activeRoots ≤ s.activeRoots := by
  unfold Store.activeRoots Table.matched
  unfold Quiet at h
  generalize s.items.rows = rows at h ⊢
  generalize t.items.rows = rows' at h ⊢
  induction h with
  | nil => exact le_rfl
  | @cons w w' _ _ hw _ ih =>
    obtain ⟨-, hparent, hstate⟩ := hw
    rw [List.countP_cons, List.countP_cons]
    refine Nat.add_le_add ih ?_
    split
    case isTrue hroot =>
      simp only [Bool.and_eq_true, decide_eq_true_eq] at hroot ⊢
      rw [if_pos ⟨hparent ▸ hroot.1, hstate hroot.2⟩]
    case isFalse => exact Nat.zero_le _

/-- A run of the later store was one before. -/
theorem Quiet.item? (h : Quiet s t) {w : WorkItem} (hw : w ∈ t.items.rows) : s.item? w.workItemId ≠ none := by
  obtain ⟨v, hv, hid, -⟩ := Table.exists_mem_of_forall₂ h hw
  have hfind : s.item? v.workItemId = some v := Table.find?_of_mem hv
  rw [hid, hfind]
  exact Option.some_ne_none v

variable {now : Time}

theorem quiet_endActiveSet (ids : List String) (detail : String) : Quiet s (endActiveSet now ids detail s).1 := by
  unfold endActiveSet
  dsimp only
  split
  · exact .refl s
  · have hlogged : Quiet s (s.addTerminalEvents (s.activeIn ids) detail) :=
      .of_items (rows_addTerminalEvents s _ detail)
    exact hlogged.ends (show "stopped" ≠ "active" by decide) rfl (fun _ => rfl) (fun _ => rfl) fun _ => rfl

theorem quiet_abandonChildren (h : Quiet s t) (parentId : String) : Quiet s (abandonChildren now parentId t) :=
  h.ends (show "abandoned" ≠ "active" by decide) rfl (fun _ => rfl) (fun _ => rfl) fun _ => rfl

theorem quiet_apply {n : ℤ} {op : Op} (h : op.admitted n) (hcreate : ∀ r, op ≠ .wfeCreateWorkItem r)
    (now : Time) (s : Store) :
    Quiet s (op.apply now s) := by
  have habandoned : "abandoned" ≠ "active" := by decide
  cases op with
  | wfeCreateWorkItem r => exact absurd rfl (hcreate r)
  | wfeFinish id stage state detail hash cost =>
    simp only [Op.apply, wfeFinish]
    split
    · exact .refl s
    · split
      · exact .refl s
      · refine .update (.refl s) rfl (fun _ => rfl) (fun _ => rfl) fun w hp _ => ?_
        simp only [Bool.and_eq_true, decide_eq_true_eq] at hp
        exact hp.2.2
  | wfeRejectGate id stage hash =>
    simp only [Op.apply, wfeRejectGate]
    split
    · exact .refl s
    · split
      · exact .refl s
      · exact .ends (.refl s) (show "rejected" ≠ "active" by decide) rfl (fun _ => rfl) (fun _ => rfl) fun _ => rfl
  | workItemSetTerminal id state =>
    have hstate : state ≠ "active" := of_decide_eq_true h
    simp only [Op.apply, workItemSetTerminal, setField]
    split
    · exact .refl s
    · exact .ends (.refl s) hstate rfl (fun _ => rfl) (fun _ => rfl) fun _ => rfl
  | workItemRecordOutcome id disposition cost nodeId kind detail hash =>
    cases disposition with
    | pause => cases h
    | advance => cases h
    | terminal state abandon =>
      have hstate : state ≠ "active" := of_decide_eq_true h
      simp only [Op.apply, workItemRecordOutcome]
      split
      · exact .refl s
      · have hcost : Quiet s (if 0 < cost then s.updateItems (fun w => decide (w.workItemId = id))
            (fun w => { w with cumCostUsd := w.cumCostUsd + cost.toNNRat, updatedAt := now })
              (fun _ => rfl) else s) := by
          split
          · exact .update (.refl s) rfl (fun _ => rfl) (fun _ => rfl) fun _ _ hactive => hactive
          · exact .refl s
        have hended : ∀ t, Quiet s t → Quiet s (t.updateItems (fun w => decide (w.workItemId = id))
            (fun w => { w with state := state, pauseReason := "", pausedState := "", updatedAt := now })
              fun _ => rfl) :=
          fun t ht => ht.ends hstate rfl (fun _ => rfl) (fun _ => rfl) fun _ => rfl
        split
        · exact Quiet.congr (quiet_abandonChildren (hended _ hcost) id) rfl
        · exact Quiet.congr (hended _ hcost) rfl
  | wfeStopTree id limit =>
    simp only [Op.apply, wfeStopTree]
    split
    · exact .refl s
    · exact quiet_endActiveSet (s.tree id) "operator_stop"
  | wfeReconcileOrphans limit =>
    simp only [Op.apply, wfeReconcileOrphans]
    split
    · exact .refl s
    · exact quiet_endActiveSet s.orphans "ancestor_terminal"
  | wfeAbandonExhaustedWallCaps maxResumes graceSecs =>
    simp only [Op.apply, wfeAbandonExhaustedWallCaps]
    split
    · exact .refl s
    · exact .ends (.refl s) habandoned rfl (fun _ => rfl) (fun _ => rfl) fun _ => rfl
  | workItemAbandonChildren id =>
    simp only [Op.apply, workItemAbandonChildren]
    split
    · exact .refl s
    · exact quiet_abandonChildren (.refl s) id
  | workItemReapStaleParks graceSecs =>
    simp only [Op.apply, workItemReapStaleParks]
    split
    · exact .refl s
    · exact .ends (.refl s) habandoned rfl (fun _ => rfl) (fun _ => rfl) fun _ => rfl
  | _ => cases h

/-- What a create does: nothing, or one row within the cap or under an active parent. -/
theorem wfeCreateWorkItem_admits (now : Time) (r : CreateRequest) (s : Store) :
    (wfeCreateWorkItem now r s).1 = s ∨
      (wfeCreateWorkItem now r s).2 = .ok .created ∧
        (wfeCreateWorkItem now r s).1.items.rows = s.items.rows ++ [r.row now] ∧
        (r.parentId = "" → 0 < r.rootCap → (s.activeRoots : ℤ) < r.rootCap) ∧
        (r.parentId ≠ "" → ∃ p, s.item? r.parentId = some p ∧ p.state = "active") := by
  unfold wfeCreateWorkItem
  split
  · exact .inl rfl
  · split
    · exact .inl rfl
    · next hcap =>
      split
      · exact .inl rfl
      · next hparent =>
        split
        · exact .inl rfl
        · next t ht =>
          refine .inr ⟨rfl, (Store.items_of_insertItem ht).1, fun hroot hpos => ?_, fun hchild => ?_⟩
          · by_contra hfull
            exact hcap ⟨hpos, hroot, not_lt.mp hfull⟩
          · have hmatched : s.items.matched (fun w => decide (w.workItemId = r.parentId) &&
              decide (w.state = "active")) = 1 := by
              by_contra hne
              exact hparent ⟨hchild, hne⟩
            obtain ⟨p, hp, hactive⟩ :=
              (Table.matched_key_eq_one_iff s.items r.parentId fun w => decide (w.state = "active")).mp hmatched
            exact ⟨p, hp, of_decide_eq_true hactive⟩

/-- What an admitted writer may do to a store. -/
structure Admits (n : ℤ) (s t : Store) : Prop where
  roots : (t.activeRoots : ℤ) ≤ max n s.activeRoots
  children : ∀ w ∈ t.items.rows, s.item? w.workItemId = none → w.parentId ≠ "" →
    ∃ p, s.item? w.parentId = some p ∧ p.state = "active"

theorem Admits.refl (n : ℤ) (s : Store) : Admits n s s where
  roots := le_max_right _ _
  children w hw hnone := by
    have hfind : s.item? w.workItemId = some w := Table.find?_of_mem hw
    rw [hnone] at hfind
    cases hfind

theorem admits_apply {n : ℤ} {op : Op} (hn : 0 < n) (h : op.admitted n) (now : Time) (s : Store) :
    Admits n s (op.apply now s) := by
  by_cases hcreate : ∃ r, op = .wfeCreateWorkItem r
  · obtain ⟨r, rfl⟩ := hcreate
    have hcap : r.rootCap = n := of_decide_eq_true h
    rcases wfeCreateWorkItem_admits now r s with hsame | ⟨-, hrows, hroot, hchild⟩
    · rw [Op.apply, hsame]
      exact .refl n s
    · constructor
      · have hcount : ((Op.wfeCreateWorkItem r).apply now s).activeRoots = s.activeRoots + if r.parentId =
          "" then 1 else 0 := by
          unfold Store.activeRoots Table.matched
          rw [Op.apply, hrows, List.countP_append, List.countP_singleton]
          have hrow : (decide ((r.row now).parentId = "") && decide ((r.row now).state = "active")) =
            decide (r.parentId = "") :=
            Bool.and_true _
          rw [hrow]
          simp
        rw [hcount]
        split
        case isTrue hparent =>
          have hlt := hroot hparent (hcap ▸ hn)
          exact le_max_of_le_left (by omega)
        case isFalse => exact le_max_right _ _
      · intro w hw hnone hparent
        rw [Op.apply, hrows] at hw
        rcases List.mem_append.mp hw with hw | hw
        · exact (Admits.refl n s).children w hw hnone hparent
        · obtain rfl := List.mem_singleton.mp hw
          exact hchild hparent
  · have hquiet := quiet_apply h (fun r hr => hcreate ⟨r, hr⟩) now s
    constructor
    · exact le_max_of_le_right (by exact_mod_cast hquiet.activeRoots_le)
    · exact fun w hw hnone => absurd hnone (hquiet.item? hw)

end

/-! ## Interleavings -/

section

variable {n : ℤ}

/-- By itself, the script of a call does what the call does. -/
theorem alone_lifecycleProgram (call : AdmittedCall n) (s : Store) :
    ∃ a, lifecycleEngine.alone (lifecycleProgram n call) s lifecycleEngine.fresh = some (call.op.apply call.now s, a) ∧
      ∀ r, call.op = .wfeCreateWorkItem r → a = answerOf (wfeCreateWorkItem call.now r s).2 := by
  unfold lifecycleProgram
  split
  case h_1 r hop =>
    refine ⟨answerOf (wfeCreateWorkItem call.now r s).2, (alone_createScript call.now r s).trans ?_, fun r' hop' => ?_⟩
    · rw [hop]
      rfl
    · rw [hop] at hop'
      cases hop'
      rfl
  case h_2 hop => exact ⟨.ended, alone_bodyScript call.now call.op s, fun r hr => absurd hr (hop r)⟩

/-- A step that changes the store is the commit of one call, which has done what it does by itself. A create
    that it is of has not been refused. -/
theorem changes_of_serialStep
    {s s' : Engine.State (AdmittedCall n) LifecycleStmt LifecycleReply LifecycleAnswer Store LifecycleWrites}
    (h : Engine.SerialStep lifecycleEngine (lifecycleProgram n) .error s s') (hchanged : s'.store ≠ s.store) :
    ∃ call a w, s'.log = .answered call a :: .committed call w :: s.log ∧ s'.store = call.op.apply call.now s.store ∧
      ∀ r, call.op = .wfeCreateWorkItem r → a = .reply (.ok .created) ∨ a = .error := by
  cases h with
  | silent hstore => exact absurd hstore hchanged
  | answers _ _ hstore => exact absurd hstore hchanged
  | commits call a b w hlog halone hb =>
    obtain ⟨a', halone', hcreate⟩ := alone_lifecycleProgram call s.store
    obtain ⟨hstore, rfl⟩ := Prod.mk.inj (Option.some.inj (halone.symm.trans halone'))
    refine ⟨call, b, w, hlog, hstore, fun r hop => ?_⟩
    rcases hb with rfl | rfl
    · exact .inr rfl
    · left
      rw [hcreate r hop]
      rcases wfeCreateWorkItem_admits call.now r s.store with hsame | ⟨hcreated, -⟩
      · rw [hop, Op.apply, hsame] at hstore
        exact absurd hstore hchanged
      · rw [hcreated]
        rfl

/-- In every interleaving of admitted calls the active roots stay within the cap or what they were, a create that is
    refused changes nothing, and no child is inserted but under a parent that is active then. -/
theorem admission_cap (hn : 0 < n) {store : Store} {actions : List (Engine.Action (AdmittedCall n))}
    {s : Engine.State (AdmittedCall n) LifecycleStmt LifecycleReply LifecycleAnswer Store LifecycleWrites}
    (h : lifecycleEngine.run (lifecycleProgram n) { store } actions = some s) :
    (s.store.activeRoots : ℤ) ≤ max n store.activeRoots ∧
      ∀ action s', lifecycleEngine.step (lifecycleProgram n) s action = some s' →
        (∀ w ∈ s'.store.items.rows, s.store.item? w.workItemId = none → w.parentId ≠ "" →
          ∃ p, s.store.item? w.parentId = some p ∧ p.state = "active") ∧
        (s'.store ≠ s.store → ∃ call a w, s'.log = .answered call a :: .committed call w :: s.log ∧
          ∀ r, call.op = .wfeCreateWorkItem r → a = .reply (.ok .created) ∨ a = .error) := by
  have hstep : ∀ actions s action s', lifecycleEngine.run (lifecycleProgram n) { store } actions = some s →
      lifecycleEngine.step (lifecycleProgram n) s action = some s' →
        Engine.SerialStep lifecycleEngine (lifecycleProgram n) .error s s' := by
    intro actions s action s' hrun hstep
    obtain ⟨hapart, hpending⟩ := (lifecycle_exclusive n).run hrun
    exact ((lifecycle_exclusive n).step hapart hpending hstep).2
  have hadmits : ∀ s s', Engine.SerialStep lifecycleEngine (lifecycleProgram n) .error s s' →
    Admits n s.store s'.store := by
    intro s s' hserial
    by_cases hsame : s'.store = s.store
    · rw [hsame]
      exact .refl n s.store
    · obtain ⟨call, _, _, _, hstore, _⟩ := changes_of_serialStep hserial hsame
      rw [hstore]
      exact admits_apply hn call.admitted call.now s.store
  constructor
  · induction actions using List.reverseRecOn generalizing s with
    | nil =>
      obtain rfl := Option.some.inj h
      exact le_max_right _ _
    | append_singleton actions action ih =>
      rw [Engine.run_append] at h
      obtain ⟨s₀, hs₀, hlast⟩ := Option.bind_eq_some_iff.mp h
      obtain ⟨s₁, hs₁, hlast⟩ := Option.bind_eq_some_iff.mp hlast
      obtain rfl := Option.some.inj hlast
      have hroots := (hadmits _ _ (hstep _ _ _ _ hs₀ hs₁)).roots
      exact hroots.trans (max_le (le_max_left _ _) (ih hs₀))
  · intro action s' haction
    have hserial := hstep _ _ _ _ h haction
    refine ⟨(hadmits _ _ hserial).children, fun hchanged => ?_⟩
    obtain ⟨call, a, w, hlog, -, hcreate⟩ := changes_of_serialStep hserial hchanged
    exact ⟨call, a, w, hlog, hcreate⟩

/-- A call that creates a root with a cap of one. -/
def rootCall (id : String) : AdmittedCall 1 where
  now := 0
  op := .wfeCreateWorkItem { sampleRequest with workItemId := id, proposalPath := id, rootCap := 1 }
  admitted := rfl

/-- Two creates race for the only place: the second one waits for the lock, and is refused. -/
def racingActions : List (Engine.Action (AdmittedCall 1)) :=
  [.start (rootCall "first"), .start (rootCall "second"), .run 0 .done, .run 0 .done, .run 0 .done,
    .run 0 .done, .run 0 .done, .run 1 .done, .run 1 .done, .run 1 .done]

theorem admission_cap_racing :
    ∃ s, lifecycleEngine.run (lifecycleProgram 1) { store := .empty } racingActions = some s ∧
      (s.store.activeRoots : ℤ) ≤ max 1 Store.empty.activeRoots := by
  cases h : lifecycleEngine.run (lifecycleProgram 1) { store := .empty } racingActions with
  | some s => exact ⟨s, rfl, (admission_cap (by decide) h).1⟩
  | none =>
    have hsome : (lifecycleEngine.run (lifecycleProgram 1) { store := .empty } racingActions).isSome = true := by decide
    rw [h] at hsome
    cases hsome

end

end Workflow
