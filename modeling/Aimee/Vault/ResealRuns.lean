-- SUMMARY: However its runs are cut off, the reseal orchestrator leaves the secrets readable under the key custody can recover.
import Aimee.Vault.FileOps
import Aimee.Vault.ResealStates

/-!
# The reseal never strands the vault

Each call of the driver keeps `Good`, so the driver does, wherever it is cut off, and so does any sequence
of its runs. Within an iteration `Seen` says what the snapshot has shown and where custody stands.
-/

namespace VaultReseal

open VaultStore (Kek Dek WrappedDek Crypto kekCheckSentinel)
open Prog (wp)

section

variable (C : Crypto) (inv : Inventory)

/-- The row is the one of the last snapshot, and custody stands at this artifact. -/
structure Seen (s : Row) (a : Artifact) (w : World) : Prop where
  row : w.db.row = some s
  artifact : w.custody.artifact = a
  good : Good C inv w
  last : w.log.getLast? = some (.snapshot s.state)

/-- The key in the workspace is the one that was prepared. -/
def KeyOf (newKek : Option Kek) (a : Artifact) : Prop := ∀ kek b, newKek = some kek → a = .prepared b → b.kek = kek

/-- What an iteration leaves. -/
structure Sound (newKek : Option Kek) (w : World) : Prop where
  good : Good C inv w
  key : KeyOf newKek w.custody.artifact

/-- A piece of a transaction: it leaves the world alone, and what it gives satisfies `P`. -/
def Leaves {α : Type} (w : World) (body : Tx α) (P : α → Prop) : Prop :=
  wp (Good C inv) body.run (fun r w' => w' = w ∧ ∀ a, r = .ok a → P a) w

end

variable {status : ResealStatus} {expected total : ℕ}

section

variable {C : Crypto} {inv : Inventory} {w : World} {s : Row} {a : Artifact} {newKek : Option Kek}

/-! ## Transactions -/

section

variable {α β : Type} {P : α → Prop} {Q : β → Prop}

theorem Leaves.pure {x : α} (h : P x) : Leaves C inv w (pure x) P :=
  wp.ok ⟨rfl, fun _ hx => by cases hx; exact h⟩

theorem Leaves.bind {m : Tx α} {f : α → Tx β} (h : Leaves C inv w m P) (hf : ∀ x, P x → Leaves C inv w (f x) Q) :
    Leaves C inv w (m >>= f) Q := by
  refine wp.exceptBind (wp.mono ?_ h)
  rintro r w' ⟨rfl, hP⟩
  cases r with
  | error e => exact ⟨rfl, nofun⟩
  | ok x => exact hf x (hP x rfl)

theorem Leaves.throw {e : RewrapResult} : Leaves C inv w (throw e : Tx α) P := wp.throw ⟨rfl, nofun⟩

theorem Leaves.unless {p : Prop} [Decidable p] {e : RewrapResult} {k : PUnit → Tx α} {m : Tx α} (h : ¬p →
    Leaves C inv w m P) :
    Leaves C inv w (if p then MonadExcept.throw e >>= k else m) P := by
  split
  case isTrue => exact Leaves.bind (P := fun _ => False) Leaves.throw fun _ hfalse => hfalse.elim
  case isFalse hp => exact h hp

section

variable (hw : Good C inv w)
include hw

theorem Leaves.txBegin : Leaves C inv w txBegin (fun tx => tx = w.db) := by
  refine wp.call hw fun fate => ?_
  dsimp only
  split
  case isTrue => exact ⟨rfl, fun _ h => by cases h; rfl⟩
  case isFalse => exact ⟨rfl, nofun⟩

theorem Leaves.txCall {f : Db → Option α} {tx : Db} : Leaves C inv w (txCall f tx) (fun x => f tx = some x) := by
  refine wp.call hw fun fate => ?_
  dsimp only
  split
  case isFalse => exact ⟨rfl, nofun⟩
  case isTrue =>
    cases hf : f tx with
    | none => exact ⟨rfl, nofun⟩
    | some x => exact ⟨rfl, fun _ h => by cases h; rfl⟩

theorem wp_ask : wp (Good C inv) ask (fun _ w' => w' = w) w := wp.call hw fun _ => rfl

theorem Leaves.txAsk {refusal : RewrapResult} : Leaves C inv w (txAsk refusal) (fun _ => True) := by
  refine wp.exceptBind (wp.lift (wp.mono ?_ (wp_ask hw)))
  rintro yes w' rfl
  change Leaves C inv w' _ _
  split
  case isTrue => exact Leaves.throw
  case isFalse => exact Leaves.pure trivial

theorem Leaves.iterate {body : β → Tx (β ⊕ α)} (L : β → Prop) {b : β} (h : L b)
    (hbody : ∀ b, L b → Leaves C inv w (body b) (Sum.elim L P)) : Leaves C inv w (Prog.iterateExcept body b) P := by
  refine wp.iterateExcept (fun b w' => w' = w ∧ L b) ⟨rfl, h⟩ (fun _ _ h => h.1 ▸ hw) ?_
  rintro b w' ⟨rfl, hL⟩
  refine wp.mono ?_ (hbody b hL)
  rintro r w'' ⟨rfl, hr⟩
  match r, hr with
  | .error e, _ => exact ⟨rfl, nofun⟩
  | .ok (.inl b'), hr => exact ⟨rfl, hr _ rfl⟩
  | .ok (.inr x), hr => exact ⟨rfl, fun _ h => by cases h; exact hr _ rfl⟩

end

end

/-- A transaction that is committed, or not, or nobody knows. -/
theorem wp_txFinish (hw : Good C inv w) {body : Tx Db} (h : Leaves C inv w body fun tx => Holds C inv tx w.custody) :
    wp (Good C inv) (txFinish body) (fun _ w' => Good C inv w' ∧ w'.custody = w.custody) w := by
  refine wp.bind (wp.mono ?_ h)
  rintro r w' ⟨rfl, htx⟩
  cases r with
  | error e => exact wp.pure ⟨hw, rfl⟩
  | ok tx =>
    refine wp.bind (wp.call hw fun fate => ?_)
    split
    case isTrue => exact wp.pure ⟨⟨htx tx rfl, hw.log⟩, rfl⟩
    case isFalse => exact wp.pure ⟨hw, rfl⟩

variable {f : Db → Option Db} {failure : String} {result : Result}

section

variable (hw : Good C inv w)
include hw

theorem leaves_edge (hf : ∀ db', f w.db = some db' → Holds C inv db' w.custody) :
    Leaves C inv w (do let tx ← txBegin; txCall f tx) (fun tx => Holds C inv tx w.custody) := by
  refine (Leaves.txBegin hw).bind fun tx htx => ?_
  subst htx
  exact wp.mono (fun r w' h => ⟨h.1, fun x hx => hf x (h.2 x hx)⟩) (Leaves.txCall hw)

theorem wp_simpleEdge (hf : ∀ db', f w.db = some db' → Holds C inv db' w.custody) :
    wp (Good C inv) (simpleEdge f) (fun _ w' => Good C inv w' ∧ w'.custody = w.custody) w :=
  wp_txFinish hw (leaves_edge hw hf)

theorem wp_terminalEdge {aborting : Bool} :
    wp (Good C inv) (terminalEdge failure aborting) (fun _ w' => Good C inv w' ∧ w'.custody = w.custody) w := by
  refine wp_simpleEdge hw fun db' he => ?_
  cases aborting with
  | true => exact hw.holds.abort he
  | false => exact hw.holds.recoveryRequired he

theorem wp_orRecovery :
    wp (Good C inv) (orRecovery failure result) (fun _ w' => Good C inv w' ∧ w'.custody = w.custody) w := by
  unfold orRecovery
  split
  case isTrue => exact wp_terminalEdge hw
  case isFalse => exact wp.pure ⟨hw, rfl⟩

theorem wp_integrityRecovery :
    wp (Good C inv) (integrityRecovery failure result) (fun _ w' => Good C inv w' ∧ w'.custody = w.custody) w := by
  unfold integrityRecovery
  split
  case isTrue => exact wp_terminalEdge hw
  case isFalse => exact wp.pure ⟨hw, rfl⟩

theorem wp_beginEdge {oldGeneration newGeneration : UInt64} :
    wp (Good C inv) (beginEdge oldGeneration newGeneration) (fun _ w' => Good C inv w' ∧ w'.custody = w.custody) w := by
  refine wp.bind (wp.mono ?_ (leaves_edge hw fun db' he => hw.holds.begin he))
  rintro r w' ⟨rfl, htx⟩
  cases r with
  | error e => exact wp.pure ⟨hw, rfl⟩
  | ok tx =>
    refine wp.bind (wp.call hw fun fate => ?_)
    split
    case isTrue => exact wp.pure ⟨⟨htx tx rfl, hw.log⟩, rfl⟩
    case isFalse => exact wp.pure ⟨hw, rfl⟩

end

/-! ## The two callbacks -/

section

variable {kek oldKek : Kek} {db : Db}

theorem leaves_stageSecrets (hC : C.Correct) (hw : Good C inv w) (hold : OpensAll C inv oldKek db.secrets db.checks)
    (rows : List SecretRow) : ∀ done : ℤ × ℕ × Db, Staging C inv kek db done.2.2 →
      Leaves C inv w (stageSecrets C oldKek kek expected rows done) (fun done => Staging C inv kek db done.2.2) := by
  induction rows with
  | nil => exact fun done h => Leaves.pure h
  | cons row rest ih =>
    rintro ⟨after, seen, tx⟩ h
    refine Leaves.unless fun _ => ?_
    cases hdek : C.unwrap oldKek row.wrappedDek with
    | none => exact Leaves.throw
    | some dek =>
      refine (Leaves.txAsk hw).bind fun _ _ => (Leaves.txCall hw).bind fun tx' he => ?_
      have htx' := h.stageDek hC hold hdek he
      exact Leaves.unless fun _ => (Leaves.txAsk hw).bind fun _ _ => ih (row.sourceId, seen + 1, tx') htx'

theorem leaves_stageChecks (hC : C.Correct) (hw : Good C inv w) (hold : OpensAll C inv oldKek db.secrets db.checks)
    (rows : List CheckRow) : ∀ done : ℕ × Db, Staging C inv kek db done.2 →
      Leaves C inv w (stageChecks C oldKek kek expected rows done) (fun done => Staging C inv kek db done.2) := by
  induction rows with
  | nil => exact fun done h => Leaves.pure h
  | cons row rest ih =>
    rintro ⟨seen, tx⟩ h
    refine Leaves.unless fun hverified => ?_
    refine (Leaves.txAsk hw).bind fun _ _ => (Leaves.txCall hw).bind fun tx' he => ?_
    have htx' := h.stageCheck hC hold (not_not.mp hverified) he
    exact Leaves.unless fun _ => (Leaves.txAsk hw).bind fun _ _ => ih (seen + 1, tx') htx'

theorem leaves_stageSecretPages (hC : C.Correct) (hw : Good C inv w) (hold : OpensAll C inv oldKek db.secrets db.checks)
    {start : ℤ × ℕ × Db} (h : Staging C inv kek db start.2.2) :
    Leaves C inv w (stageSecretPages C oldKek kek expected start) (fun done => Staging C inv kek db done.2) := by
  refine Leaves.iterate hw (fun done => Staging C inv kek db done.2.2) h ?_
  rintro ⟨after, seen, tx⟩ h
  refine (Leaves.txCall hw).bind fun page _ => ?_
  split
  case isTrue => exact Leaves.pure h
  case isFalse =>
    exact (leaves_stageSecrets hC hw hold page (after, seen, tx) h).bind fun done hdone => Leaves.pure hdone

theorem leaves_stageCheckPages (hC : C.Correct) (hw : Good C inv w) (hold : OpensAll C inv oldKek db.secrets db.checks)
    {start : List UInt8 × ℕ × Db} (h : Staging C inv kek db start.2.2) :
    Leaves C inv w (stageCheckPages C oldKek kek expected start) (fun done => Staging C inv kek db done.2) := by
  refine Leaves.iterate hw (fun done => Staging C inv kek db done.2.2) h ?_
  rintro ⟨cursor, seen, tx⟩ h
  refine (Leaves.txCall hw).bind ?_
  rintro ⟨page, next⟩ _
  dsimp only
  split
  case isTrue => exact Leaves.pure h
  case isFalse =>
    refine Leaves.unless fun _ => ?_
    exact (leaves_stageChecks hC hw hold page (seen, tx) h).bind fun done hdone => Leaves.pure hdone

end

/-- `stage_callback`, under the key custody holds and for the key it has prepared. -/
theorem wp_stageCallback (hC : C.Correct) (hw : Good C inv w) (hstate : w.db.At .custodyPrepared) {b : Bundle}
    (ha : w.custody.artifact = .prepared b) :
    wp (Good C inv) (stageCallback C b.kek w.custody.oldKek) (fun _ w' => Good C inv w' ∧
      w'.custody = w.custody) w := by
  obtain ⟨_, hold, hdek, hcheck⟩ := hw.holds.at hstate
  refine wp_txFinish hw ?_
  refine (Leaves.txAsk hw).bind fun _ _ => (Leaves.txBegin hw).bind ?_
  rintro tx rfl
  have hstart : Staging C inv b.kek w.db w.db := Staging.start hdek hcheck
  refine (Leaves.txCall hw).bind fun inventory _ => (Leaves.txAsk hw).bind fun _ _ => ?_
  refine (leaves_stageSecretPages hC hw hold hstart).bind ?_
  rintro ⟨seenSecrets, tx⟩ hsecrets
  refine (leaves_stageCheckPages hC hw hold hsecrets).bind ?_
  rintro ⟨seenChecks, tx'⟩ hchecks
  refine Leaves.unless fun _ => (Leaves.txCall hw).bind fun tx' he => ?_
  exact (Leaves.txAsk hw).bind fun _ _ => Leaves.pure (hchecks.finish ha hold he)

/-! ## Calls -/

theorem Holds.opened {db : Db} {c : Custody} (h : Holds C inv db c) (k : Option Kek) :
    Holds C inv db { c with opened := k } := h

theorem Good.opened (h : Good C inv w) (k : Option Kek) :
    Good C inv { w with custody := { w.custody with opened := k } } :=
  ⟨h.holds.opened k, h.log⟩

/-- Custody may open or seal; that is all most of its calls do. -/
theorem Seen.opened (h : Seen C inv s a w) (k : Option Kek) :
    Seen C inv s a { w with custody := { w.custody with opened := k } } :=
  ⟨h.row, h.artifact, h.good.opened k, h.last⟩

theorem Seen.at (h : Seen C inv s a w) : w.db.At s.state := by
  rw [Db.At, h.row]
  rfl

theorem wp_guardCall (hw : Good C inv w) : wp (Good C inv) guardCall (fun _ w' => w' = w) w :=
  wp.call hw fun _ => rfl

theorem wp_guardSeal (hw : Good C inv w) :
    wp (Good C inv) guardSeal (fun _ w' => w' = w ∨ w' = w.withCustody id) w := by
  refine wp.call hw fun fate => ?_
  split
  case isTrue => exact .inr rfl
  case isFalse => exact .inl rfl

/-- Unsealed, custody holds the key of the blob on disk. -/
theorem wp_guardUnseal (h : Seen C inv s a w) :
    wp (Good C inv) guardUnseal (fun r w' => Seen C inv s a w' ∧ (r = .ok →
      w'.custody.opened = w'.custody.unsealed)) w := by
  refine wp.call h.good fun fate => ?_
  split
  case isTrue hfate => exact ⟨h, fun hok => absurd hok hfate⟩
  case isFalse =>
    split
    case h_1 => exact ⟨h, nofun⟩
    case h_2 kek hkek => exact ⟨h.opened (some kek), fun _ => hkek.symm⟩

theorem wp_custodyNvGeneration (hw : Good C inv w) : wp (Good C inv) custodyNvGeneration (fun _ w' => w' = w) w := by
  refine wp.call hw fun fate => ?_
  split
  case isTrue => rfl
  case isFalse => rfl

theorem wp_custodyDiscover (h : Seen C inv s a w) (operationId : Block 16) (oldGeneration : UInt64) :
    wp (Good C inv) (custodyDiscover operationId oldGeneration)
      (fun r w' => Seen C inv s a w' ∧ (r.1 = .ok → r.2.1 = Custody.statusOf a)) w := by
  refine wp.call h.good fun fate => ⟨h.opened none, ?_⟩
  split
  case isTrue =>
    intro hok
    rw [Custody.discover_ok hok, h.artifact]
  case isFalse hfate => exact fun hok => absurd hok hfate

theorem wp_custodyStatus (h : Seen C inv s a w) (receipt : Receipt) :
    wp (Good C inv) (custodyStatus receipt) (fun r w' => Seen C inv s a w' ∧ (r.1 = .ok →
      r.2 = Custody.statusOf a)) w := by
  refine wp.call h.good fun fate => ⟨h.opened none, ?_⟩
  split
  case isTrue =>
    intro hok
    rw [Custody.status_ok hok, h.artifact]
  case isFalse hfate => exact fun hok => absurd hok hfate

/-- What is answered of the state custody is in is so. -/
theorem wp_custodyFor (h : Seen C inv s a w) (r : Request) :
    wp (Good C inv) (custodyFor r s) (fun x w' => Seen C inv s a w' ∧ (x.1 = .ok → x.2.1 = Custody.statusOf a)) w := by
  unfold custodyFor
  split
  case isTrue => exact wp.bind (wp.mono (fun _ _ hx => wp.pure hx) (wp_custodyDiscover h r.operationId s.oldGeneration))
  case isFalse =>
    split
    case h_1 receipt _ => exact wp.bind (wp.mono (fun _ _ hx => wp.pure hx) (wp_custodyStatus h receipt))
    case h_2 => exact wp.pure ⟨h, nofun⟩

theorem wp_custodyRecoverKek (h : Seen C inv s a w) (receipt : Receipt) :
    wp (Good C inv) (custodyRecoverKek receipt) (fun r w' => Seen C inv s a w' ∧ ∀ kek, r = .ok kek →
      KeyOf (some kek) a) w := by
  refine wp.call h.good fun fate => ⟨h.opened none, ?_⟩
  intro kek hok
  split at hok
  case isFalse => cases hok
  case isTrue =>
    obtain ⟨b, hb, rfl⟩ := Custody.recoverKek_ok hok
    rw [← h.artifact, hb]
    rintro _ _ ⟨⟩ ⟨⟩
    rfl

/-- With nothing prepared, what is prepared then has the key that was drawn. -/
theorem wp_custodyPrepare (h : Seen C inv s .absent w) (hstate : s.state = .preparing)
    (operationId : Block 16) (oldGeneration : UInt64) (kek : Kek) :
    wp (Good C inv) (custodyPrepare operationId oldGeneration kek) (fun _ w' => ∃ a', Seen C inv s a' w' ∧
      KeyOf (some kek) a') w := by
  have hsame : ∃ a', Seen C inv s a' (w.withCustody id) ∧ KeyOf (some kek) a' := ⟨.absent, h.opened none, nofun⟩
  refine wp.call h.good fun fate => ?_
  rw [Custody.prepare, h.artifact]
  dsimp only
  split
  case h_1 => exact hsame
  case h_2 receipt artifact hprepare =>
    split at hprepare
    case isFalse => cases hprepare
    case isTrue =>
      cases hprepare
      have hat : w.db.At .preparing := hstate ▸ h.at
      have htook : ∀ b : Bundle, b.kek = kek →
        ∃ a', Seen C inv s a' (w.withCustody fun c => { c with artifact := .prepared b }) ∧ KeyOf (some kek) a' := by
        intro b hb
        refine ⟨.prepared b, ⟨h.row, rfl, ⟨(h.good.holds.prepared hat b).opened none, h.good.log⟩, h.last⟩, ?_⟩
        rintro _ _ ⟨⟩ ⟨⟩
        exact hb
      split
      case isTrue => exact htook _ rfl
      case isFalse =>
        cases fate.took with
        | true => exact htook _ rfl
        | false => exact hsame

theorem CommitsFollowIntent.append {log : List Event} (h : CommitsFollowIntent log)
    (hlast : log.getLast? = some (.snapshot .resealCommitting)) :
    CommitsFollowIntent (log ++ [.custodyCommit]) := by
  intro before after heq
  rcases List.eq_nil_or_concat after with rfl | ⟨after, e, rfl⟩
  · obtain ⟨rfl, _⟩ := List.append_inj' heq rfl
    exact hlast
  · rw [List.concat_eq_append, ← List.cons_append, ← List.append_assoc] at heq
    exact h before after (List.append_inj' heq rfl).1

theorem wp_custodyCommit (h : Seen C inv s a w) (hstate : s.state = .resealCommitting)
    (hkey : KeyOf newKek a) (receipt : Receipt) :
    wp (Good C inv) (custodyCommit receipt)
      (fun r w' => Sound C inv newKek w' ∧ (r.1 = .ok → r.2 = .installed → w'.custody.Installed)) w := by
  refine wp.call h.good fun fate => ?_
  dsimp only
  set reach := if fate.custody = .ok then Custody.Reach.installed else fate.reach
  have hat : w.db.At .resealCommitting := hstate ▸ h.at
  refine ⟨⟨⟨(h.good.holds.committed hat reach receipt).opened none, h.good.log.append (hstate ▸ h.last)⟩, ?_⟩, ?_⟩
  · intro kek b hkek hb
    have hprepared : w.custody.artifact = .prepared b := Custody.prepared_of_commit hb
    exact hkey kek b hkek (h.artifact ▸ hprepared)
  · intro hok hinstalled
    split at hok
    case isFalse hfate => exact absurd hok hfate
    case isTrue hfate =>
      rw [if_pos hfate, Custody.status_ok hok] at hinstalled
      unfold Custody.Installed
      generalize (World.withCustody { w with log := w.log ++ [.custodyCommit] } fun c =>
        { c with artifact := c.commit reach receipt }).custody.artifact = a' at hinstalled
      cases a' with
      | absent => cases hinstalled
      | prepared b => cases hinstalled
      | nvAdvanced b => cases hinstalled
      | installed b => exact ⟨b, rfl⟩

theorem wp_custodyAbort (h : Seen C inv s a w)
    (hstate : s.state = .custodyPrepared ∨ s.state = .wrapsStaged) (hkey : KeyOf newKek a)
    (receipt : Receipt) :
    wp (Good C inv) (custodyAbort receipt) (fun _ w' => ∃ a', Seen C inv s a' w' ∧ KeyOf newKek a') w := by
  have hsame : ∃ a', Seen C inv s a' (w.withCustody id) ∧ KeyOf newKek a' := ⟨a, h.opened none, hkey⟩
  refine wp.call h.good fun fate => ?_
  split
  case h_1 => exact hsame
  case h_2 artifact hok =>
    obtain rfl := Custody.abort_ok hok
    have hat : w.db.At .custodyPrepared ∨ w.db.At .wrapsStaged := by
      rcases hstate with hs | hs
      · exact .inl (hs ▸ h.at)
      · exact .inr (hs ▸ h.at)
    by_cases htook : fate.custody = .ok ∨ fate.took
    · simp only [htook, if_true]
      exact ⟨.absent, ⟨h.row, rfl, ⟨(h.good.holds.withdrawn hat).opened none, h.good.log⟩, h.last⟩, nofun⟩
    · simp only [htook, if_false]
      exact hsame

/-! ## The states -/

theorem KeyOf.none : KeyOf none a := nofun

theorem Seen.sound (h : Seen C inv s a w) (hkey : KeyOf newKek a) : Sound C inv newKek w := ⟨h.good, h.artifact ▸ hkey⟩

theorem Sound.keep (h : Sound C inv newKek w) {w' : World} (h' : Good C inv w' ∧ w'.custody = w.custody) :
    Sound C inv newKek w' :=
  ⟨h'.1, h'.2 ▸ h.key⟩

theorem wp_recoverInto (h : Seen C inv s a w) (receipt : Receipt) :
    wp (Good C inv) (recoverInto receipt) (fun r w' => Sound C inv r.1 w') w := by
  refine wp.seq (wp_custodyRecoverKek h receipt) fun r w' hr => ?_
  cases r with
  | error cr => exact wp.pure (hr.1.sound KeyOf.none)
  | ok kek => exact wp.pure (hr.1.sound (hr.2 kek rfl))

theorem wp_rediscover (h : Seen C inv s a w) {kek : Kek} (hkey : KeyOf (some kek) a) (r : Request) (cr : ResealResult) :
    wp (Good C inv) (rediscover r s kek cr) (fun x w' => Sound C inv x.1 w') w := by
  refine wp.seq (wp_custodyDiscover h r.operationId s.oldGeneration) fun found w' hfound => ?_
  have hsound := hfound.1.sound hkey
  dsimp only
  split
  case isTrue => exact wp.pure hsound
  case isFalse =>
    split
    case isTrue => exact wp_recoverInto hfound.1 _
    case isFalse =>
      split
      case isTrue => exact wp.pure hsound
      case isFalse => exact wp.seq (wp_terminalEdge hsound.good) fun _ _ h' => wp.pure (hsound.keep h')

theorem wp_acquire (h : Seen C inv s a w) (hkey : KeyOf newKek a) (hstate : s.state = .preparing) (r : Request)
    (hstatus : status = Custody.statusOf a) (habsent : status = .absent ∨ status = .prepared) (receipt : Receipt) :
    wp (Good C inv) (acquire r s status receipt newKek) (fun x w' => Sound C inv x.1 w') w := by
  unfold acquire
  split
  case isTrue => exact wp_recoverInto h receipt
  case isFalse hprepared =>
    have ha : a = .absent := by
      have hst : Custody.statusOf a = .absent := hstatus.symm.trans (habsent.resolve_right hprepared)
      cases a with
      | absent => rfl
      | prepared b => cases hst
      | nvAdvanced b => cases hst
      | installed b => cases hst
    subst ha
    refine wp.bind (wp.call h.good fun fate => ?_)
    cases (if fate.yes then some fate.kek else none : Option Kek) with
    | none => exact wp.pure (h.sound hkey)
    | some kek =>
      refine wp.seq (wp_custodyPrepare h hstate r.operationId s.oldGeneration kek) fun prepared w' hw' => ?_
      obtain ⟨a', hseen, hkey'⟩ := hw'
      cases prepared with
      | ok receipt => exact wp.pure (hseen.sound hkey')
      | error cr => exact wp_rediscover hseen hkey' r cr

theorem wp_record (h : Sound C inv newKek w) (acquired : Acquired) :
    wp (Good C inv) (record acquired) (fun _ w' => Sound C inv newKek w') w := by
  cases acquired with
  | settled result => exact wp.pure h
  | failed result => exact wp.mono (fun _ _ h' => h.keep h') (wp_orRecovery h.good)
  | receipt receipt =>
    rw [record]
    cases receiptEncode receipt with
    | none =>
      refine wp.seq (wp_terminalEdge h.good) fun _ w' hw' => ?_
      have hsound := h.keep hw'
      exact wp.mono (fun _ _ h' => hsound.keep h') (wp_orRecovery hsound.good)
    | some wire =>
      refine wp.seq (wp_simpleEdge h.good fun db' he => h.good.holds.recordPrepared he) fun _ w' hw' => ?_
      have hsound := h.keep hw'
      exact wp.mono (fun _ _ h' => hsound.keep h') (wp_orRecovery hsound.good)

theorem wp_prepareState (h : Seen C inv s a w) (hkey : KeyOf newKek a) (hstate : s.state = .preparing) (r : Request)
    (hstatus : status = Custody.statusOf a) (habsent : status = .absent ∨ status = .prepared) (receipt : Receipt) :
    wp (Good C inv) (prepareState r s status receipt newKek) (fun x w' => Sound C inv x.1 w') w := by
  refine wp.seq (wp_acquire h hkey hstate r hstatus habsent receipt) ?_
  rintro ⟨newKek', acquired⟩ w' hw'
  exact wp.seq (wp_record hw' acquired) fun _ _ h' => wp.pure h'

theorem wp_guardWithActiveKek (h : Seen C inv s a w) {callback : Kek → Run Result}
    (hcallback : ∀ kek, w.custody.opened = some kek →
      wp (Good C inv) (callback kek) (fun _ w' => Good C inv w' ∧ w'.custody = w.custody) w) :
    wp (Good C inv) (guardWithActiveKek callback) (fun _ w' => Good C inv w' ∧ w'.custody = w.custody) w := by
  refine wp.bind (wp.call h.good fun fate => ?_)
  by_cases hfate : fate.maintenance = .ok
  · simp only [hfate, if_true]
    cases hopened : w.custody.opened with
    | none => exact wp.pure ⟨h.good, rfl⟩
    | some kek => exact wp.seq (hcallback kek hopened) fun _ _ hw' => wp.pure hw'
  · simp only [hfate, if_false]
    exact wp.pure ⟨h.good, rfl⟩

theorem wp_stageUnder (hC : C.Correct) {b : Bundle} (h : Seen C inv s (.prepared b) w)
    (hstate : s.state = .custodyPrepared) :
    wp (Good C inv) (stageUnder C b.kek) (fun _ w' => Sound C inv (some b.kek) w') w := by
  have hkey : KeyOf (some b.kek) (.prepared b) := by
    rintro _ _ ⟨⟩ ⟨⟩
    rfl
  refine wp.seq (wp_guardUnseal h) ?_
  rintro unsealed w' ⟨hw', hopened⟩
  split
  case isTrue => exact wp.pure (hw'.sound hkey)
  case isFalse hok =>
    have hsound := hw'.sound hkey
    have hold : w'.custody.opened = some w'.custody.oldKek := by
      rw [hopened (not_not.mp hok), Custody.unsealed, hw'.artifact]
    refine wp.seq (wp_guardWithActiveKek hw' ?_) fun _ w'' hw'' => ?_
    · intro kek hkek
      obtain rfl : w'.custody.oldKek = kek := Option.some.inj (hold.symm.trans hkek)
      exact wp_stageCallback hC hw'.good (hstate ▸ hw'.at) hw'.artifact
    · have hsound' := hsound.keep hw''
      exact wp.mono (fun _ _ h' => hsound'.keep h') (wp_integrityRecovery hsound'.good)

theorem wp_stageState (hC : C.Correct) (h : Seen C inv s a w) (hkey : KeyOf newKek a)
    (hstate : s.state = .custodyPrepared) (hstatus : Custody.statusOf a = .prepared) (receipt : Receipt) :
    wp (Good C inv) (stageState C receipt newKek) (fun x w' => Sound C inv x.1 w') w := by
  obtain ⟨b, rfl⟩ : ∃ b, a = .prepared b := by
    cases a with
    | absent => cases hstatus
    | prepared b => exact ⟨b, rfl⟩
    | nvAdvanced b => cases hstatus
    | installed b => cases hstatus
  cases newKek with
  | some kek =>
    obtain rfl : b.kek = kek := hkey kek b rfl rfl
    exact wp.seq (wp_stageUnder hC h hstate) fun _ _ h' => wp.pure h'
  | none =>
    refine wp.seq (wp_custodyRecoverKek h receipt) ?_
    rintro recovered w' ⟨hw', hrecovered⟩
    cases recovered with
    | error cr => exact wp.seq (wp_integrityRecovery hw'.good) fun _ _ h' => wp.pure ((hw'.sound KeyOf.none).keep h')
    | ok kek =>
      obtain rfl : b.kek = kek := hrecovered kek rfl kek b rfl rfl
      exact wp.seq (wp_stageUnder hC hw' hstate) fun _ _ h' => wp.pure h'

theorem wp_abandonState (h : Seen C inv s a w) (hkey : KeyOf newKek a)
    (hstate : s.state = .custodyPrepared ∨ s.state = .wrapsStaged)
    (r : Request) (receipt : Receipt) :
    wp (Good C inv) (abandonState r s receipt) (fun _ w' => Sound C inv newKek w') w := by
  refine wp.seq (wp_custodyAbort h hstate hkey receipt) ?_
  rintro ar w₁ ⟨a', h₁, hkey₁⟩
  split
  case isTrue => exact wp.pure (h₁.sound hkey₁)
  case isFalse =>
    refine wp.seq (wp_custodyDiscover h₁ r.operationId s.oldGeneration) ?_
    rintro ⟨dr, afterAbort, found⟩ w₂ ⟨h₂, _⟩
    have hsound := h₂.sound hkey₁
    dsimp only
    split
    case isTrue =>
      refine wp.seq (wp_custodyNvGeneration h₂.good) ?_
      rintro gen _ rfl
      cases gen with
      | error nr => exact wp.pure hsound
      | ok gen =>
        dsimp only
        split
        case isTrue => exact wp.mono (fun _ _ h' => hsound.keep h') (wp_terminalEdge hsound.good)
        case isFalse => exact wp.mono (fun _ _ h' => hsound.keep h') (wp_terminalEdge hsound.good)
    case isFalse =>
      split
      case isTrue => exact wp.mono (fun _ _ h' => hsound.keep h') (wp_terminalEdge hsound.good)
      case isFalse => exact wp.pure hsound

theorem wp_commitState (h : Seen C inv s a w) (hkey : KeyOf newKek a) (hstate : s.state = .resealCommitting)
    (receipt : Receipt) :
    wp (Good C inv) (commitState receipt) (fun _ w' => Sound C inv newKek w') w := by
  refine wp.seq (wp_custodyCommit h hstate hkey receipt) ?_
  rintro ⟨cr, reached⟩ w' ⟨hw', hinstalled⟩
  dsimp only
  split
  case isTrue => exact wp.mono (fun _ _ h' => hw'.keep h') (wp_integrityRecovery hw'.good)
  case isFalse hcr =>
    split
    case isTrue => exact wp.mono (fun _ _ h' => hw'.keep h') (wp_terminalEdge hw'.good)
    case isFalse hreached =>
      have hc := hinstalled (not_not.mp hcr) (not_not.mp hreached)
      refine wp.seq (wp_simpleEdge hw'.good fun db' he => hw'.good.holds.markResealed hc he) fun _ w'' hw'' => ?_
      have hsound := hw'.keep hw''
      exact wp.mono (fun _ _ h' => hsound.keep h') (wp_orRecovery hsound.good)

theorem leaves_verifySecrets (kek : Kek) (rows : List SecretRow) :
    ∀ after, Leaves C inv w (verifySecrets C kek rows after) (fun _ => True) := by
  induction rows with
  | nil => exact fun after => Leaves.pure trivial
  | cons row rest ih =>
    intro after
    exact Leaves.unless fun _ => ih row.sourceId

theorem leaves_verifySecretPages (hw : Good C inv w) {kek : Kek} {tx : Db} {start : ℤ × ℕ} :
    Leaves C inv w (verifySecretPages C kek total tx start) (fun _ => True) := by
  refine Leaves.iterate hw (fun _ => True) trivial ?_
  rintro ⟨after, seen⟩ -
  dsimp only
  split
  case isTrue => exact Leaves.pure trivial
  case isFalse =>
    refine (Leaves.txCall hw).bind fun page _ => Leaves.unless fun _ => ?_
    refine (leaves_verifySecrets kek page after).bind fun after' _ => ?_
    exact (Leaves.txAsk hw).bind fun _ _ => Leaves.pure trivial

theorem leaves_verifyCheckPages (hw : Good C inv w) {kek : Kek} {tx : Db} {start : List UInt8 × ℕ} :
    Leaves C inv w (verifyCheckPages C kek total tx start) (fun _ => True) := by
  refine Leaves.iterate hw (fun _ => True) trivial ?_
  rintro ⟨cursor, seen⟩ -
  dsimp only
  split
  case isTrue => exact Leaves.pure trivial
  case isFalse =>
    refine (Leaves.txCall hw).bind ?_
    rintro ⟨page, next⟩ -
    refine Leaves.unless fun _ => Leaves.unless fun _ => ?_
    exact (Leaves.txAsk hw).bind fun _ _ => Leaves.pure trivial

/-- `verify_callback` reads, and completes the operation. -/
theorem wp_verifyCallback (hw : Good C inv w) (kek : Kek) :
    wp (Good C inv) (verifyCallback C kek) (fun _ w' => Good C inv w' ∧ w'.custody = w.custody) w := by
  refine wp_txFinish hw ?_
  refine (Leaves.txAsk hw).bind fun _ _ => (Leaves.txBegin hw).bind ?_
  rintro tx rfl
  refine (Leaves.txCall hw).bind fun sum _ => (Leaves.txAsk hw).bind fun _ _ => ?_
  refine (leaves_verifySecretPages hw).bind fun after _ => (Leaves.txCall hw).bind fun page _ =>
    Leaves.unless fun _ => ?_
  refine (leaves_verifyCheckPages hw).bind fun cursor _ => (Leaves.txCall hw).bind ?_
  rintro ⟨page', next⟩ -
  refine Leaves.unless fun _ => (Leaves.txCall hw).bind ?_
  rintro tx ⟨⟩
  refine (Leaves.txCall hw).bind fun tx he => (Leaves.txAsk hw).bind fun _ _ => ?_
  exact Leaves.pure (hw.holds.complete he)

theorem wp_verifyState (h : Seen C inv s a w) (hkey : KeyOf newKek a) :
    wp (Good C inv) (verifyState C) (fun _ w' => Sound C inv newKek w') w := by
  refine wp.seq (wp_guardSeal h.good) fun closed w₁ hw₁ => ?_
  have h₁ : Seen C inv s a w₁ := by
    rcases hw₁ with rfl | rfl
    · exact h
    · exact h.opened none
  split
  case isTrue => exact wp.pure (h₁.sound hkey)
  case isFalse =>
    refine wp.seq (wp_guardUnseal h₁) ?_
    rintro unsealed w₂ ⟨h₂, _⟩
    have hsound := h₂.sound hkey
    split
    case isTrue => exact wp.pure hsound
    case isFalse =>
      refine wp.seq (wp_guardWithActiveKek h₂ fun kek _ => wp_verifyCallback h₂.good kek) fun _ w₃ h₃ => ?_
      have hsound := hsound.keep h₃
      exact wp.mono (fun _ _ h' => hsound.keep h') (wp_integrityRecovery hsound.good)

/-! ## The driver -/

theorem wp_keep {run : Run Result} (h : wp (Good C inv) run (fun _ w' => Sound C inv newKek w') w) :
    wp (Good C inv) (do let result ← run; return (newKek, result)) (fun x w' => Sound C inv x.1 w') w :=
  wp.seq h fun _ _ h' => wp.pure h'

/-- An edge, and the row's own way out where it fails. -/
theorem wp_edgeOrRecovery (h : Sound C inv newKek w) {f : Db → Option Db} {failure : String}
    (hf : ∀ db', f w.db = some db' → Holds C inv db' w.custody) :
    wp (Good C inv) (do let result ← simpleEdge f; orRecovery failure result) (fun _ w' =>
      Sound C inv newKek w') w := by
  refine wp.seq (wp_simpleEdge h.good hf) fun _ w' hw' => ?_
  have hsound := h.keep hw'
  exact wp.mono (fun _ _ h' => hsound.keep h') (wp_orRecovery hsound.good)

/-- Each state of the row, with what custody said of its own. -/
theorem wp_advance (hC : C.Correct) (h : Seen C inv s a w) (hkey : KeyOf newKek a) (r : Request)
    (hstatus : status = Custody.statusOf a) (receipt : Receipt) :
    wp (Good C inv) (advance C r s status receipt newKek) (fun x w' => Sound C inv x.1 w') w := by
  have hsound := h.sound hkey
  unfold advance
  split
  case h_1 => exact wp.pure hsound
  case h_2 => exact wp.pure hsound
  case h_3 hstate => exact wp_prepareState h hkey hstate r hstatus (.inl rfl) receipt
  case h_4 hstate => exact wp_prepareState h hkey hstate r hstatus (.inr rfl) receipt
  case h_5 hstate => exact wp_stageState hC h hkey hstate hstatus.symm receipt
  case h_6 hstate => exact wp_keep (wp_abandonState h hkey (.inl hstate) r receipt)
  case h_7 hstate => exact wp_keep (wp_abandonState h hkey (.inr hstate) r receipt)
  case h_8 => exact wp_keep (wp_edgeOrRecovery hsound fun db' he => h.good.holds.markCommitting he)
  case h_9 hstate => exact wp_keep (wp_commitState h hkey hstate receipt)
  case h_10 hstate => exact wp_keep (wp_commitState h hkey hstate receipt)
  case h_11 hstate => exact wp_keep (wp_commitState h hkey hstate receipt)
  case h_12 => exact wp_keep (wp_edgeOrRecovery hsound fun db' he => h.good.holds.promote he)
  case h_13 => exact wp_keep (wp_verifyState h hkey)
  case h_14 => exact wp_keep (wp.mono (fun _ _ h' => hsound.keep h') (wp_terminalEdge hsound.good))

theorem wp_syncEpoch (h : Seen C inv s a w) : wp (Good C inv) (syncEpoch s) (fun _ w' => Seen C inv s a w') w := by
  unfold syncEpoch
  split
  case isTrue => exact wp.pure h
  case isFalse =>
    refine wp.mono ?_ (wp_guardCall h.good)
    rintro _ _ rfl
    exact h

theorem wp_custodyFailed (h : Sound C inv newKek w) (cr : ResealResult) :
    wp (Good C inv) (custodyFailed s cr) (fun _ w' => Sound C inv newKek w') w := by
  unfold custodyFailed
  split
  case isTrue => exact wp.pure h
  case isFalse => exact wp.mono (fun _ _ h' => h.keep h') (wp_integrityRecovery h.good)

theorem wp_drive (hC : C.Correct) (h : Seen C inv s a w) (r : Request) {l : Loop} (hkey : KeyOf l.newKek a) :
    wp (Good C inv) (drive C r s l) (fun x w' => Sound C inv x.2.newKek w') w := by
  unfold drive
  dsimp only
  split
  case isTrue => exact wp.pure (h.sound hkey)
  case isFalse =>
    refine wp.seq (wp_syncEpoch h) fun synced w₁ h₁ => ?_
    split
    case isTrue => exact wp.pure (h₁.sound hkey)
    case isFalse =>
      refine wp.seq (wp_custodyFor h₁ r) ?_
      rintro ⟨cr, status, receipt⟩ w₂ ⟨h₂, hstatus⟩
      split
      case isTrue =>
        refine wp.seq (wp_custodyFailed (h₂.sound hkey) cr) fun result w₃ h₃ => ?_
        split
        case isTrue => exact wp.pure h₃
        case isFalse => exact wp.pure h₃
      case isFalse hcr =>
        refine wp.seq (wp_advance hC h₂ hkey r (hstatus (not_not.mp hcr)) receipt) ?_
        rintro ⟨newKek, result⟩ w₃ h₃
        split
        case isTrue => exact wp.pure h₃
        case isFalse => exact wp.pure h₃

theorem CommitsFollowIntent.snapshot {log : List Event} (h : CommitsFollowIntent log) (state : RewrapState) :
    CommitsFollowIntent (log ++ [.snapshot state]) := by
  intro before after heq
  rcases List.eq_nil_or_concat after with rfl | ⟨after, e, rfl⟩
  · cases (List.append_inj' heq rfl).2
  · rw [List.concat_eq_append, ← List.cons_append, ← List.append_assoc] at heq
    exact h before after (List.append_inj' heq rfl).1

/-- A snapshot shows the row as it is, and the log has it. -/
theorem wp_snapshot (hw : Good C inv w) :
    wp (Good C inv) snapshot (fun r w' => Good C inv w' ∧ w'.custody = w.custody ∧ ∀ s, r = .ok s →
      Seen C inv s w.custody.artifact w') w := by
  refine wp.call hw fun fate => ?_
  split
  case h_1 s _ hrow =>
    have hlogged : Good C inv { w with log := w.log ++ [.snapshot s.state] } := ⟨hw.holds, hw.log.snapshot s.state⟩
    refine ⟨hlogged, rfl, ?_⟩
    rintro _ ⟨⟩
    exact ⟨hrow, rfl, hlogged, List.getLast?_concat⟩
  case h_2 => exact ⟨hw, rfl, nofun⟩
  case h_3 => exact ⟨hw, rfl, nofun⟩

theorem wp_bindInventory (hw : Good C inv w) (s : Row) : wp (Good C inv) (bindInventory s) (fun _ w' => w' = w) w := by
  unfold bindInventory
  split
  case isTrue => exact wp_ask hw
  case isFalse => exact wp.pure rfl

theorem wp_budgetAdvance (hw : Good C inv w) (lastState : Option RewrapState) (s : Row) :
    wp (Good C inv) (budgetAdvance lastState s) (fun _ w' => w' = w) w := by
  unfold budgetAdvance
  split
  case isTrue => exact wp.pure rfl
  case isFalse => exact wp_ask hw

theorem wp_iteration (hC : C.Correct) (r : Request) {l : Loop} (h : Sound C inv l.newKek w) :
    wp (Good C inv) (iteration C r l) (fun x w' => Sound C inv x.2.newKek w') w := by
  refine wp.seq (wp_snapshot h.good) ?_
  rintro row w₁ ⟨hgood, hcustody, hseen⟩
  have h₁ := h.keep ⟨hgood, hcustody⟩
  cases row with
  | error e =>
    dsimp only
    split
    case isTrue =>
      refine wp.seq (wp_custodyNvGeneration hgood) ?_
      rintro gen _ rfl
      cases gen with
      | error cr => exact wp.pure h₁
      | ok gen =>
        dsimp only
        split
        case isTrue => exact wp.pure h₁
        case isFalse => exact wp.seq (wp_beginEdge hgood) fun _ _ h' => wp.pure (h₁.keep h')
    case isFalse => exact wp.pure h₁
  | ok s =>
    dsimp only
    refine wp.seq (wp_bindInventory hgood s) ?_
    rintro bound _ rfl
    split
    case isTrue => exact wp.pure h₁
    case isFalse =>
      refine wp.seq (wp_budgetAdvance hgood l.lastState s) ?_
      rintro advanced _ rfl
      split
      case isTrue => exact wp.pure h₁
      case isFalse =>
        split
        case isTrue => exact wp.seq (wp_beginEdge hgood) fun _ _ h' => wp.pure (h₁.keep h')
        case isFalse => exact wp_drive hC (hseen s rfl) r h.key

theorem wp_loop (hC : C.Correct) (r : Request) (edges : ℕ) : ∀ {l : Loop} {w : World}, Sound C inv l.newKek w →
    wp (Good C inv) (loop C r edges l) (fun l' w' => Sound C inv l'.newKek w') w := by
  induction edges with
  | zero => exact fun h => wp.pure h
  | succ edges ih =>
    intro l w h
    refine wp.seq (wp_iteration hC r h) ?_
    rintro ⟨more, l'⟩ w' h'
    dsimp only
    split
    case isTrue => exact ih h'
    case isFalse => exact wp.pure h'

theorem wp_underGuard (hC : C.Correct) (hw : Good C inv w) (r : Request) :
    wp (Good C inv) (underGuard C r) (fun _ w' => Good C inv w') w := by
  refine wp.seq (wp_loop hC r edgeMax ⟨hw, KeyOf.none⟩) fun l w₁ h₁ => ?_
  refine wp.seq (wp_ask h₁.good) ?_
  rintro cleaning _ rfl
  refine wp.seq (wp_guardSeal h₁.good) fun closed w₂ hw₂ => ?_
  have h₂ : Good C inv w₂ := by
    rcases hw₂ with rfl | rfl
    · exact h₁.good
    · exact h₁.good.opened none
  exact wp.seq (wp_guardCall h₂) fun _ _ hw' => wp.pure (hw' ▸ h₂)

theorem wp_vaultResealOrchestratorRun (hC : C.Correct) (hw : Good C inv w) (r : Request) :
    wp (Good C inv) (vaultResealOrchestratorRun C r) (fun _ w' => Good C inv w') w := by
  unfold vaultResealOrchestratorRun
  split
  case isTrue => exact wp.pure hw
  case isFalse =>
    refine wp.seq (wp_ask hw) ?_
    rintro supported _ rfl
    split
    case isTrue => exact wp.pure hw
    case isFalse =>
      refine wp.seq (wp_ask hw) ?_
      rintro entered _ rfl
      split
      case isTrue => exact wp.pure hw
      case isFalse =>
        refine wp.seq ?_ fun _ _ h' => wp.seq (wp_ask h') fun _ _ hw' => wp.pure (hw' ▸ h')
        refine wp.seq (wp_ask hw) ?_
        rintro arenas _ rfl
        split
        case isTrue => exact wp.pure hw
        case isFalse =>
          refine wp.seq (wp_guardCall hw) ?_
          rintro guarded _ rfl
          split
          case isTrue => exact wp.pure hw
          case isFalse => exact wp_underGuard hC hw r

end

/-! ## Sequences of runs -/

/-- The runs of the operation one after the other, each with the fates of its calls: a run that is short of
    them is cut off there. -/
def resealRuns (C : Crypto) (runs : List (Request × List Fate)) (w : World) : World :=
  runs.foldl (fun w run => (vaultResealOrchestratorRun C run.1).final run.2 w) w

/-- Before the operation. Custody may have a bundle from a run whose row was lost. -/
structure Start (C : Crypto) (inv : Inventory) (w : World) : Prop where
  row : w.db.row = none
  custody : w.custody.Waiting
  active : OldInUse C inv w.db w.custody
  dekStage : w.db.dekStage = Table.empty
  checkStage : w.db.checkStage = Table.empty
  log : w.log = []

section

variable {C : Crypto} {inv : Inventory} {w : World}

theorem Start.good (h : Start C inv w) : Good C inv w := by
  refine ⟨?_, ?_⟩
  · rw [Holds, h.row]
    exact ⟨h.custody, h.active, h.dekStage, h.checkStage⟩
  · intro before after heq
    rw [h.log] at heq
    simp at heq

theorem Good.runs (hC : C.Correct) (runs : List (Request × List Fate)) : ∀ {w : World}, Good C inv w →
    Good C inv (resealRuns C runs w) := by
  induction runs with
  | nil => exact fun h => h
  | cons run rest ih => exact fun h => ih ((wp_vaultResealOrchestratorRun hC h run.1).final run.2)

/-- Whatever the runs and wherever they are cut off, the wraps in use or a complete set of staged ones open
    under the key custody can recover as the active one, and custody commits only on the recorded intent. -/
theorem safe_resealRuns (hC : C.Correct) (h : Start C inv w) (runs : List (Request × List Fate)) :
    Safe C inv (resealRuns C runs w) ∧ CommitsFollowIntent (resealRuns C runs w).log :=
  ⟨(h.good.runs hC runs).safe, (h.good.runs hC runs).log⟩

end

/-! A vault with one secret and one check. -/

def sampleVault : World where
  db :=
    { row := none
      secrets := ⟨[⟨1, VaultStore.sampleCrypto.wrap VaultStore.sampleKek VaultStore.sampleDraw.dek⟩], by decide⟩
      checks := ⟨[⟨[7], some (VaultStore.sampleCrypto.wrap VaultStore.sampleKek kekCheckSentinel)⟩], by decide⟩
      dekStage := Table.empty
      checkStage := Table.empty }
  custody := ⟨5, VaultStore.sampleKek, .absent, none⟩
  log := []

def sampleInventory : Inventory where
  dek id := if id = 1 then some VaultStore.sampleDraw.dek else none
  check p := if p = [7] then some true else none

theorem start_sampleVault : Start VaultStore.sampleCrypto sampleInventory sampleVault := by
  refine ⟨rfl, fun _ => ⟨nofun, nofun⟩, ⟨fun id => ?_, fun p => ?_⟩, rfl, rfl, rfl⟩
  · by_cases hid : id = 1
    · subst hid
      exact congrArg some (VaultStore.sampleCrypto_correct.unwrap_wrap VaultStore.sampleKek VaultStore.sampleDraw.dek)
    · have hid' : ¬(1 : ℤ) = id := fun h => hid h.symm
      simp [sampleVault, sampleInventory, Table.find?, hid, hid']
  · by_cases hp : p = [7]
    · subst hp
      have hopens := VaultStore.sampleCrypto_correct.unwrap_wrap VaultStore.sampleKek kekCheckSentinel
      exact congrArg (fun x => some (some x)) hopens
    · have hp' : ¬[7] = p := fun h => hp h.symm
      simp [sampleVault, sampleInventory, Table.find?, hp, hp']

/-- A call that goes well. -/
def sampleFate : Fate := ⟨.ok, .ok, .ok, false, .nothing, true, ⟨List.replicate 32 9, by simp⟩, noReceipt⟩

def sampleRequest (mode : Mode) : Request := ⟨mode, zeroBlock 16, ⟨[1], by decide⟩, ⟨[1], by decide⟩, [1]⟩

/-- A start that is cut off while it stages, and a resume. -/
theorem safe_resealRuns_cutOff :
    let runs := [(sampleRequest .start, List.replicate 30 sampleFate),
      (sampleRequest .resume, List.replicate 200 sampleFate)]
    Safe VaultStore.sampleCrypto sampleInventory (resealRuns VaultStore.sampleCrypto runs sampleVault) ∧
      CommitsFollowIntent (resealRuns VaultStore.sampleCrypto runs sampleVault).log :=
  safe_resealRuns VaultStore.sampleCrypto_correct start_sampleVault _

end VaultReseal
