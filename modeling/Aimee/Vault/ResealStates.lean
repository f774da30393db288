-- SUMMARY: What holds of the wraps and of custody in each state of the rewrap row, and that every edge keeps it.
import Aimee.Vault.Reseal

/-!
# The states of a reseal

The wraps of the vault are in one of two places: in use, or staged. What has to hold of them follows from
the state of the row, `Holds`, and each edge of the database keeps it.
-/

namespace VaultReseal

open VaultStore (Kek Dek WrappedDek Crypto kekCheckSentinel)

/-- The secrets of the vault by their wraps' ids, and the principals with whether each has a check. -/
structure Inventory where
  dek : ℤ → Option Dek
  check : List UInt8 → Option Bool

/-- What a check opens to. -/
def openedCheck (has : Bool) : Option (Option Dek) := if has then some (some kekCheckSentinel) else none

section

variable (C : Crypto) (inv : Inventory)

/-- There is one wrap for every secret and one row for every check, and each opens under the key. -/
structure OpensAll (kek : Kek) (secrets : Secrets) (checks : Checks) : Prop where
  secret : ∀ id, (secrets.find? id).map (fun s => C.unwrap kek s.wrappedDek) = (inv.dek id).map some
  check : ∀ p, (checks.find? p).map (fun s => s.kekCheck.map (C.unwrap kek)) = (inv.check p).map openedCheck

/-- The wraps in use, or those that were staged, open under the key custody can recover as the active one. -/
def Safe (w : World) : Prop :=
  OpensAll C inv w.custody.currentKek w.db.secrets w.db.checks ∨
    OpensAll C inv w.custody.currentKek w.db.dekStage w.db.checkStage

/-- Each commit of custody follows a snapshot that showed the intent to commit. -/
def CommitsFollowIntent (log : List Event) : Prop :=
  ∀ before after, log = before ++ .custodyCommit :: after → before.getLast? = some (.snapshot .resealCommitting)

/-! ## What holds in each state of the row -/

/-- Custody has not gone past a prepared bundle. -/
def Custody.Waiting (c : Custody) : Prop := ∀ b, c.artifact ≠ .nvAdvanced b ∧ c.artifact ≠ .installed b

/-- The wraps in use are the old ones. -/
def OldInUse (db : Db) (c : Custody) : Prop := OpensAll C inv c.oldKek db.secrets db.checks

/-- What is staged is for the key of the bundle. -/
def StagedForBundle (db : Db) (c : Custody) : Prop := ∀ b, Custody.bundle c.artifact = some b →
    OpensAll C inv b.kek db.dekStage db.checkStage

def Custody.Installed (c : Custody) : Prop := ∃ b, c.artifact = .installed b

/-- The wraps open under the key that was installed. -/
def InstalledOpens (c : Custody) (secrets : Secrets) (checks : Checks) :
    Prop := ∃ b, c.artifact = .installed b ∧ OpensAll C inv b.kek secrets checks

def HoldsIn (state : Option RewrapState) (db : Db) (c : Custody) : Prop :=
  match state with
  | some .wrapsStaged => c.Waiting ∧ OldInUse C inv db c ∧ StagedForBundle C inv db c
  | some .resealCommitting => OldInUse C inv db c ∧ StagedForBundle C inv db c
  | some .resealed => InstalledOpens C inv c db.dekStage db.checkStage
  | some .promoted => InstalledOpens C inv c db.secrets db.checks
  | some .completed => InstalledOpens C inv c db.secrets db.checks
  | some .recoveryRequired =>
    OpensAll C inv c.currentKek db.secrets db.checks ∨ OpensAll C inv c.currentKek db.dekStage db.checkStage
  | _ => c.Waiting ∧ OldInUse C inv db c ∧ db.dekStage = Table.empty ∧ db.checkStage = Table.empty

def Holds (db : Db) (c : Custody) : Prop := HoldsIn C inv (db.row.map Row.state) db c

structure Good (w : World) : Prop where
  holds : Holds C inv w.db w.custody
  log : CommitsFollowIntent w.log

end

section

variable {C : Crypto} {inv : Inventory} {db db' : Db} {c : Custody}

theorem Custody.Waiting.currentKek (h : c.Waiting) : c.currentKek = c.oldKek := by
  unfold Custody.currentKek
  split
  case h_1 => rfl
  case h_2 => rfl
  case h_3 b heq => exact absurd heq (h b).1
  case h_4 b heq => exact absurd heq (h b).2

theorem OldInUse.safe (h : OldInUse C inv db c) (hw : c.Waiting) :
    OpensAll C inv c.currentKek db.secrets db.checks := by
  rw [hw.currentKek]
  exact h

theorem InstalledOpens.current {secrets : Secrets} {checks : Checks} (h : InstalledOpens C inv c secrets checks) :
    OpensAll C inv c.currentKek secrets checks := by
  obtain ⟨b, hb, h⟩ := h
  rw [Custody.currentKek, hb]
  exact h

/-- While custody commits, the key is the old one or that of the bundle. -/
theorem safe_of_committing (hold : OldInUse C inv db c) (hstaged : StagedForBundle C inv db c) :
    OpensAll C inv c.currentKek db.secrets db.checks ∨ OpensAll C inv c.currentKek db.dekStage db.checkStage := by
  unfold Custody.currentKek
  cases hart : c.artifact with
  | absent => exact .inl hold
  | prepared b => exact .inl hold
  | nvAdvanced b => exact .inr (hstaged b (by rw [hart]; rfl))
  | installed b => exact .inr (hstaged b (by rw [hart]; rfl))

theorem Holds.safe (h : Holds C inv db c) :
    OpensAll C inv c.currentKek db.secrets db.checks ∨ OpensAll C inv c.currentKek db.dekStage db.checkStage := by
  unfold Holds HoldsIn at h
  split at h
  case h_1 => exact .inl (h.2.1.safe h.1)
  case h_2 => exact safe_of_committing h.1 h.2
  case h_3 => exact .inr h.current
  case h_4 => exact .inl h.current
  case h_5 => exact .inl h.current
  case h_6 => exact h
  case h_7 => exact .inl (h.2.1.safe h.1)

theorem Good.safe {w : World} (h : Good C inv w) : Safe C inv w := h.holds.safe

/-! ## Edges -/

theorem Holds.at {state : RewrapState} (h : Holds C inv db c) (hat : db.At state) :
    HoldsIn C inv (some state) db c := hat ▸ h

theorem holds_setRow {state : RewrapState} {f : Row → Row} (hrow : db.row.isSome) (hf : ∀ r, (f r).state = state)
    (h : HoldsIn C inv (some state) db c) : Holds C inv (db.setRow f) c := by
  obtain ⟨r, hr⟩ := Option.isSome_iff_exists.mp hrow
  have hstate : (db.setRow f).row.map Row.state = some state := by
    rw [Db.setRow, hr]
    exact congrArg some (hf r)
  rw [Holds, hstate]
  exact h

theorem Db.At.isSome {state : RewrapState} (h : db.At state) : db.row.isSome := by
  unfold Db.At at h
  cases hr : db.row with
  | none => simp [hr] at h
  | some r => rfl

theorem Holds.begin {oldGeneration newGeneration : UInt64} (h : Holds C inv db c)
    (he : db.begin oldGeneration newGeneration = some db') :
    Holds C inv db' c := by
  unfold Db.begin at he
  split at he
  case h_1 hrow =>
    cases he
    have hnone : HoldsIn C inv none db c := by
      rw [Holds, hrow] at h
      exact h
    exact hnone
  case h_2 =>
    obtain ⟨_, ⟨⟩⟩ := Option.ite_none_right_eq_some.mp he
    exact h

theorem Holds.recordPrepared {wire : List UInt8} (h : Holds C inv db c)
    (he : db.recordPrepared wire = some db') : Holds C inv db' c := by
  unfold Db.recordPrepared at he
  split at he
  case isTrue hat =>
    cases he
    have hin : HoldsIn C inv (some .preparing) db c := h.at hat
    exact holds_setRow hat.isSome (fun _ => rfl) hin
  case isFalse =>
    obtain ⟨_, ⟨⟩⟩ := Option.ite_none_right_eq_some.mp he
    exact h

theorem Holds.markCommitting (h : Holds C inv db c) (he : db.markCommitting = some db') : Holds C inv db' c := by
  obtain ⟨hat, ⟨⟩⟩ := Option.ite_none_right_eq_some.mp he
  exact holds_setRow hat.isSome (fun _ => rfl) (h.at hat).2

/-- Custody has installed the bundle, and only then is the row told. -/
theorem Holds.markResealed (h : Holds C inv db c) (hc : c.Installed) (he : db.markResealed = some db') :
    Holds C inv db' c := by
  obtain ⟨hat, ⟨⟩⟩ := Option.ite_none_right_eq_some.mp he
  obtain ⟨b, hb⟩ := hc
  refine holds_setRow hat.isSome (fun _ => rfl) ⟨b, hb, (h.at hat).2 b ?_⟩
  rw [hb]
  rfl

/-- The staged wraps in the place of those in use. -/
theorem OpensAll.promote {kek : Kek} (h : OpensAll C inv kek db.dekStage db.checkStage) (hfull : db.FullyStaged) :
    OpensAll C inv kek (db.secrets.update (fun _ => true) (Db.promoteSecret db.dekStage)
      (Db.sourceId_promoteSecret db.dekStage))
      (db.checks.update (fun _ => true) (Db.promoteCheck db.checkStage) (Db.principal_promoteCheck db.checkStage)) := by
  obtain ⟨hsecret, hsecret', hcheck, hcheck'⟩ := hfull
  refine ⟨fun id => ?_, fun p => ?_⟩
  · rw [Table.find?_update, ← h.secret id]
    cases hs : db.secrets.find? id with
    | none =>
      cases hx : db.dekStage.find? id with
      | none => rfl
      | some x =>
        have hsome := hsecret' x (Table.mem_of_find? hx)
        rw [Table.key_of_find? hx, hs] at hsome
        cases hsome
    | some s =>
      have hkey := Table.key_of_find? hs
      obtain ⟨x, hx⟩ := Option.isSome_iff_exists.mp (hsecret s (Table.mem_of_find? hs))
      have hpromoted : Db.promoteSecret db.dekStage s = { s with wrappedDek := x.wrappedDek } := by
        rw [Db.promoteSecret, hx]
      rw [hkey] at hx
      simp [hx, hpromoted]
  · rw [Table.find?_update, ← h.check p]
    cases hs : db.checks.find? p with
    | none =>
      cases hx : db.checkStage.find? p with
      | none => rfl
      | some x =>
        have hsome := hcheck' x (Table.mem_of_find? hx)
        rw [Table.key_of_find? hx, hs] at hsome
        cases hsome
    | some s =>
      have hkey := Table.key_of_find? hs
      have hany := hcheck s (Table.mem_of_find? hs)
      rw [hkey] at hany
      cases hx : db.checkStage.find? p with
      | none => simp [hx] at hany
      | some x =>
        have hpromoted : Db.promoteCheck db.checkStage s = { s with kekCheck := x.kekCheck } := by
          rw [Db.promoteCheck, hkey, hx]
        simp [hpromoted]

theorem Holds.promote (h : Holds C inv db c) (he : db.promote = some db') : Holds C inv db' c := by
  obtain ⟨⟨hat, hfull⟩, ⟨⟩⟩ := Option.ite_none_right_eq_some.mp he
  obtain ⟨b, hb, hopens⟩ := h.at hat
  have hstate : (db.move .promoted).row.map Row.state = some .promoted := by
    obtain ⟨r, hr⟩ := Option.isSome_iff_exists.mp hat.isSome
    rw [Db.move, Db.setRow, hr]
    rfl
  rw [Holds]
  rw [hstate]
  exact ⟨b, hb, hopens.promote hfull⟩

theorem Holds.complete (h : Holds C inv db c) (he : db.complete = some db') : Holds C inv db' c := by
  unfold Db.complete at he
  split at he
  case isTrue =>
    cases he
    exact h
  case isFalse =>
    obtain ⟨hat, ⟨⟩⟩ := Option.ite_none_right_eq_some.mp he
    have hin : HoldsIn C inv (some .promoted) db c := h.at hat
    exact holds_setRow hat.isSome (fun _ => rfl) hin

theorem Holds.abort {failure : String} (h : Holds C inv db c) (he : db.abort failure = some db') :
    Holds C inv db' c := by
  unfold Db.abort at he
  split at he
  case isTrue hat =>
    cases he
    have hold : c.Waiting ∧ OldInUse C inv db c := by
      rcases hat with hat | hat | hat
      · exact ⟨(h.at hat).1, (h.at hat).2.1⟩
      · exact ⟨(h.at hat).1, (h.at hat).2.1⟩
      · exact ⟨(h.at hat).1, (h.at hat).2.1⟩
    have hrow : db.row.isSome := by
      rcases hat with hat | hat | hat
      · exact hat.isSome
      · exact hat.isSome
      · exact hat.isSome
    have hempty : HoldsIn C inv (some .aborted) { db with dekStage := Table.empty, checkStage := Table.empty } c :=
      ⟨hold.1, hold.2, rfl, rfl⟩
    have hset : Holds C inv (Db.setRow { db with dekStage := Table.empty, checkStage := Table.empty }
        fun r => { r with state := .aborted, failureClass := failure }) c := holds_setRow hrow (fun _ => rfl) hempty
    exact hset
  case isFalse =>
    obtain ⟨_, ⟨⟩⟩ := Option.ite_none_right_eq_some.mp he
    exact h

theorem Holds.recoveryRequired {failure : String} (h : Holds C inv db c) (he : db.recoveryRequired failure = some db') :
    Holds C inv db' c := by
  unfold Db.recoveryRequired at he
  split at he
  case isTrue => cases he
  case isFalse =>
    split at he
    case isTrue =>
      obtain ⟨_, ⟨⟩⟩ := Option.ite_none_right_eq_some.mp he
      exact h
    case isFalse =>
      cases he
      cases hrow : db.row with
      | none =>
        have hnone : HoldsIn C inv none db c := by
          rw [Holds, hrow] at h
          exact h
        have hstate : (db.setRow fun r => { r with
            state := .recoveryRequired, failureClass := failure }).row.map Row.state = none := by
          rw [Db.setRow, hrow]
          rfl
        rw [Holds, hstate]
        exact hnone
      | some r => exact holds_setRow (by rw [hrow]; rfl) (fun _ => rfl) h.safe

end

/-! ## Custody -/

section

variable {C : Crypto} {inv : Inventory} {db : Db} {c : Custody}

variable {a : Artifact} {receipt : Receipt}

theorem Custody.eq_absent_of_bundle (h : Custody.bundle a = none) : a = .absent := by
  cases a with
  | absent => rfl
  | prepared b => cases h
  | nvAdvanced b => cases h
  | installed b => cases h

theorem Custody.status_ok (h : (c.status receipt).1 = .ok) : (c.status receipt).2 = Custody.statusOf c.artifact := by
  unfold Custody.status at h ⊢
  cases hb : Custody.bundle c.artifact with
  | none =>
    rw [hb] at h
    dsimp only at h ⊢
    rw [Custody.eq_absent_of_bundle hb]
    split at h
    case isTrue hgen => rw [if_pos hgen]; rfl
    case isFalse => cases h
  | some b =>
    rw [hb] at h
    by_cases hr : receipt = b.receipt
    · simp [hr]
    · simp [hr] at h

theorem Custody.discover_ok {operationId : Block 16} {oldGeneration : UInt64}
    (h : (c.discover operationId oldGeneration).1 = .ok) :
    (c.discover operationId oldGeneration).2.1 = Custody.statusOf c.artifact := by
  unfold Custody.discover at h ⊢
  cases hb : Custody.bundle c.artifact with
  | none => rw [Custody.eq_absent_of_bundle hb]; rfl
  | some b =>
    rw [hb] at h
    dsimp only at h ⊢
    split at h
    case isTrue hr => rw [if_pos hr]
    case isFalse => cases h

theorem Custody.recoverKek_ok {kek : Kek} (h : c.recoverKek receipt = .ok kek) :
    ∃ b, c.artifact = .prepared b ∧ b.kek = kek := by
  unfold Custody.recoverKek at h
  split at h
  case h_1 b hb =>
    split at h
    case isTrue =>
      cases h
      exact ⟨b, hb, rfl⟩
    case isFalse => cases h
  case h_2 => cases h

theorem Custody.bundle_commit (reach : Custody.Reach) (receipt : Receipt) :
    Custody.bundle (c.commit reach receipt) = Custody.bundle c.artifact := by
  unfold Custody.commit
  cases c.artifact with
  | absent => rfl
  | prepared b =>
    dsimp only
    split
    case isTrue => rfl
    case isFalse => cases reach with
      | nothing => rfl
      | nvAdvanced => rfl
      | installed => rfl
  | nvAdvanced b =>
    dsimp only
    split
    case isTrue => rfl
    case isFalse => rfl
  | installed b => rfl

theorem Custody.prepared_of_commit {reach : Custody.Reach} {b : Bundle} (h : c.commit reach receipt = .prepared b) :
    c.artifact = .prepared b := by
  have hb : Custody.bundle c.artifact = some b := by rw [← Custody.bundle_commit reach receipt, h]; rfl
  unfold Custody.commit at h
  cases ha : c.artifact with
  | absent => simp [ha] at h
  | prepared b' =>
    rw [ha] at hb
    cases hb
    rfl
  | nvAdvanced b' =>
    rw [ha] at h
    dsimp only at h
    split at h
    case isTrue => cases h
    case isFalse => cases h
  | installed b' => simp [ha] at h

theorem Custody.abort_ok (h : c.abort receipt = .ok a) : a = .absent := by
  unfold Custody.abort at h
  split at h
  case h_1 => cases h; rfl
  case h_2 =>
    split at h
    case isTrue => cases h; rfl
    case isFalse => cases h
  case h_3 => cases h
  case h_4 => cases h

theorem Holds.prepared (h : Holds C inv db c) (hat : db.At .preparing) (b : Bundle) :
    Holds C inv db { c with artifact := .prepared b } := by
  obtain ⟨_, hold, hstages⟩ := h.at hat
  have hin : HoldsIn C inv (some .preparing) db { c with artifact := .prepared b } :=
    ⟨fun _ => ⟨nofun, nofun⟩, hold, hstages⟩
  rw [Holds, show db.row.map Row.state = some .preparing from hat]
  exact hin

theorem Holds.committed (h : Holds C inv db c) (hat : db.At .resealCommitting) (reach : Custody.Reach)
    (receipt : Receipt) :
    Holds C inv db { c with artifact := c.commit reach receipt } := by
  obtain ⟨hold, hstaged⟩ := h.at hat
  have hin : HoldsIn C inv (some .resealCommitting) db { c with artifact := c.commit reach receipt } := by
    refine ⟨hold, fun b hb => hstaged b ?_⟩
    rw [← Custody.bundle_commit reach receipt]
    exact hb
  rw [Holds, show db.row.map Row.state = some .resealCommitting from hat]
  exact hin

theorem Holds.withdrawn (h : Holds C inv db c) (hat : db.At .custodyPrepared ∨ db.At .wrapsStaged) :
    Holds C inv db { c with artifact := .absent } := by
  rcases hat with hat | hat
  · obtain ⟨_, hold, hstages⟩ := h.at hat
    have hin : HoldsIn C inv (some .custodyPrepared) db { c with artifact := .absent } :=
      ⟨fun _ => ⟨nofun, nofun⟩, hold, hstages⟩
    rw [Holds, show db.row.map Row.state = some .custodyPrepared from hat]
    exact hin
  · obtain ⟨_, hold, _⟩ := h.at hat
    have hin : HoldsIn C inv (some .wrapsStaged) db { c with artifact := .absent } :=
      ⟨fun _ => ⟨nofun, nofun⟩, hold, nofun⟩
    rw [Holds, show db.row.map Row.state = some .wrapsStaged from hat]
    exact hin

end

/-! ## Staging -/

section

variable (C : Crypto) (inv : Inventory)

/-- A transaction that stages for a key: the wraps in use are left alone, and what it staged opens to what
    they open to. -/
structure Staging (newKek : Kek) (db tx : Db) : Prop where
  row : tx.row = db.row
  secrets : tx.secrets = db.secrets
  checks : tx.checks = db.checks
  dek : ∀ x ∈ tx.dekStage.rows, some (C.unwrap newKek x.wrappedDek) = (inv.dek x.sourceId).map some
  check : ∀ x ∈ tx.checkStage.rows, some (x.kekCheck.map (C.unwrap newKek)) = (inv.check x.principal).map openedCheck

end

section

variable {C : Crypto} {inv : Inventory} {db tx tx' : Db} {oldKek newKek : Kek}

theorem Staging.start (hdek : db.dekStage = Table.empty) (hcheck : db.checkStage = Table.empty) :
    Staging C inv newKek db db := by
  refine ⟨rfl, rfl, rfl, ?_, ?_⟩
  · rw [hdek]
    exact fun x hx => absurd hx List.not_mem_nil
  · rw [hcheck]
    exact fun x hx => absurd hx List.not_mem_nil

theorem Staging.stageDek (hC : C.Correct) (h : Staging C inv newKek db tx)
    (hold : OpensAll C inv oldKek db.secrets db.checks)
    {source : SecretRow} {dek : Dek} (hdek : C.unwrap oldKek source.wrappedDek = some dek)
    (he : tx.stageDek source (C.wrap newKek dek) = some tx') : Staging C inv newKek db tx' := by
  unfold Db.stageDek at he
  split at he
  case h_1 =>
    obtain ⟨_, ⟨⟩⟩ := Option.ite_none_right_eq_some.mp he
    exact h
  case h_2 =>
    obtain ⟨⟨_, hany⟩, hinsert⟩ := Option.ite_none_right_eq_some.mp he
    obtain ⟨t, ht, rfl⟩ := Option.map_eq_some_iff.mp hinsert
    refine ⟨h.row, h.secrets, h.checks, ?_, h.check⟩
    intro x hx
    rw [(Table.rows_of_insert ht).1] at hx
    rcases List.mem_append.mp hx with hx | hx
    · exact h.dek x hx
    · obtain rfl := List.mem_singleton.mp hx
      cases hs : tx.secrets.find? source.sourceId with
      | none => simp [hs] at hany
      | some s =>
        simp only [hs, Option.any_some, decide_eq_true_eq] at hany
        have hactive := hold.secret source.sourceId
        rw [← h.secrets, hs, Option.map_some, hany.1, hdek] at hactive
        rw [hC.unwrap_wrap]
        exact hactive

theorem Staging.stageCheck (hC : C.Correct) (h : Staging C inv newKek db tx)
    (hold : OpensAll C inv oldKek db.secrets db.checks)
    {source : CheckRow} (hverified : source.kekCheck.all (checkVerify C oldKek))
    (he : tx.stageCheck source (source.kekCheck.map fun _ => C.wrap newKek kekCheckSentinel) = some tx') :
    Staging C inv newKek db tx' := by
  unfold Db.stageCheck at he
  split at he
  case h_1 =>
    obtain ⟨_, ⟨⟩⟩ := Option.ite_none_right_eq_some.mp he
    exact h
  case h_2 =>
    obtain ⟨⟨_, hany⟩, hinsert⟩ := Option.ite_none_right_eq_some.mp he
    obtain ⟨t, ht, rfl⟩ := Option.map_eq_some_iff.mp hinsert
    refine ⟨h.row, h.secrets, h.checks, h.dek, ?_⟩
    intro x hx
    rw [(Table.rows_of_insert ht).1] at hx
    rcases List.mem_append.mp hx with hx | hx
    · exact h.check x hx
    · obtain rfl := List.mem_singleton.mp hx
      cases hs : tx.checks.find? source.principal with
      | none => simp [hs] at hany
      | some s =>
        simp only [hs, Option.any_some, decide_eq_true_eq] at hany
        have hactive := hold.check source.principal
        rw [← h.checks, hs, Option.map_some, hany.1] at hactive
        rw [← hactive]
        cases hkek : source.kekCheck with
        | none => rfl
        | some check =>
          rw [hkek] at hverified
          have hopens : C.unwrap oldKek check = some kekCheckSentinel := by simpa [checkVerify] using hverified
          simp [hopens, hC.unwrap_wrap]

/-- Staged completely, the wraps are those of the whole inventory. -/
theorem Staging.opensAll (h : Staging C inv newKek db tx)
    (hold : OpensAll C inv oldKek db.secrets db.checks) (hfull : tx.FullyStaged) :
    OpensAll C inv newKek tx.dekStage tx.checkStage := by
  obtain ⟨hsecret, hsecret', hcheck, hcheck'⟩ := hfull
  refine ⟨fun id => ?_, fun p => ?_⟩
  · cases hx : tx.dekStage.find? id with
    | some x =>
      have hdek := h.dek x (Table.mem_of_find? hx)
      rw [Table.key_of_find? hx] at hdek
      exact hdek
    | none =>
      have hactive := hold.secret id
      rw [← h.secrets] at hactive
      cases hs : tx.secrets.find? id with
      | none =>
        rw [hs] at hactive
        exact hactive
      | some s =>
        have hsome := hsecret s (Table.mem_of_find? hs)
        rw [Table.key_of_find? hs, hx] at hsome
        cases hsome
  · cases hx : tx.checkStage.find? p with
    | some x =>
      have hkek := h.check x (Table.mem_of_find? hx)
      rw [Table.key_of_find? hx] at hkek
      exact hkek
    | none =>
      have hactive := hold.check p
      rw [← h.checks] at hactive
      cases hs : tx.checks.find? p with
      | none =>
        rw [hs] at hactive
        exact hactive
      | some s =>
        have hany := hcheck s (Table.mem_of_find? hs)
        rw [Table.key_of_find? hs, hx] at hany
        cases hany

theorem Staging.finish {c : Custody} {b : Bundle} {expected : ℕ × ℕ} (h : Staging C inv b.kek db tx)
    (hc : c.artifact = .prepared b)
    (hold : OldInUse C inv db c) (he : tx.stageFinish expected = some tx') : Holds C inv tx' c := by
  obtain ⟨⟨hat, hfull, _⟩, ⟨⟩⟩ := Option.ite_none_right_eq_some.mp he
  refine holds_setRow hat.isSome (fun _ => rfl) ⟨?_, ?_, ?_⟩
  · intro b'
    rw [hc]
    exact ⟨nofun, nofun⟩
  · rw [OldInUse, h.secrets, h.checks]
    exact hold
  · intro b' hb'
    rw [hc] at hb'
    cases hb'
    exact h.opensAll hold hfull

end

end VaultReseal
