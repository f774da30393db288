-- SUMMARY: Interleavings of challenge operations: one OK for each issue, a mark that never falls, and when generations keep their order.
import Aimee.Families.MgmtNonce

/-!
# Interleavings of challenge operations

A consume reads the mark in one statement and raises it in the next, and only the second locks the
row. The mark never falls, but a consume may find it raised above its generation in between.
-/

namespace Families

open Engine

/-! ## Row locks -/

def NonceStore.keys (store : NonceStore) : List (List UInt8) := store.rows.map (·.nonce)

/-- A transaction deletes committed rows, inserts where no row is left, and raises the mark. -/
structure NonceFits (store : NonceStore) (w : NonceWrites) : Prop where
  deleted : ∀ n ∈ w.deleted, n ∈ store.keys
  inserted : ∀ r ∈ w.inserted, r.nonce ∈ store.keys → r.nonce ∈ w.deleted
  mark : ∀ m, w.mark = some m → store.mark ≤ m

/-- Two transactions write different rows. -/
structure NonceApart (w w' : NonceWrites) : Prop where
  locks : ∀ n ∈ w.locks, n ∉ w'.locks
  mark : w.mark = none ∨ w'.mark = none

variable {p : NonceRow → Bool}

section Locks

variable {store : NonceStore} {others : List NonceWrites} {w w' : NonceWrites} {reply : NonceReply}

theorem mem_kept {r : NonceRow} : r ∈ w.kept store ↔ r ∈ store.rows ∧ r.nonce ∉ w.deleted := by
  simp [NonceWrites.kept]

theorem le_viewMark (h : NonceFits store w) : store.mark ≤ w.viewMark store := by
  rw [NonceWrites.viewMark]
  cases hmark : w.mark with
  | none => exact le_rfl
  | some m => exact h.mark m hmark

theorem deleteWhere_some (h : deleteWhere store others w p = some (w', reply)) :
    (∀ r ∈ (w.kept store).filter p, ∀ o ∈ others, r.nonce ∉ o.locks) ∧
      w' = { w with
        deleted := ((w.kept store).filter p).map (·.nonce) ++ w.deleted
        inserted := w.inserted.filter fun r => !p r } ∧
      reply = .affected (((w.kept store).filter p).length + (w.inserted.filter p).length) := by
  unfold deleteWhere at h
  dsimp only at h
  split at h
  · cases h
  · next hfree =>
    cases h
    refine ⟨fun r hr o ho hlock => hfree ?_, rfl, rfl⟩
    exact List.any_eq_true.mpr ⟨r, hr, List.any_eq_true.mpr ⟨o, ho, decide_eq_true hlock⟩⟩

section

variable (hfits : NonceFits store w)
include hfits

theorem deleteWhere_locking (hapart : ∀ o ∈ others, NonceApart w o)
    (h : deleteWhere store others w p = some (w', reply)) :
    NonceFits store w' ∧ ∀ o ∈ others, NonceApart w' o := by
  obtain ⟨hfree, rfl, -⟩ := deleteWhere_some h
  refine ⟨⟨?_, ?_, hfits.mark⟩, fun o ho => ⟨?_, (hapart o ho).mark⟩⟩
  · intro n hn
    rcases List.mem_append.mp hn with hn | hn
    · obtain ⟨r, hr, rfl⟩ := List.mem_map.mp hn
      exact List.mem_map_of_mem (mem_kept.mp (List.mem_of_mem_filter hr)).1
    · exact hfits.deleted n hn
  · intro r hr hmem
    exact List.mem_append_right _ (hfits.inserted r (List.mem_of_mem_filter hr) hmem)
  · intro n hn
    rcases List.mem_append.mp hn with hn | hn
    · rcases List.mem_append.mp hn with hn | hn
      · obtain ⟨r, hr, rfl⟩ := List.mem_map.mp hn
        exact hfree r hr o ho
      · exact (hapart o ho).locks n (List.mem_append_left _ hn)
    · obtain ⟨r, hr, rfl⟩ := List.mem_map.mp hn
      exact (hapart o ho).locks _ (List.mem_append_right _ (List.mem_map_of_mem (List.mem_of_mem_filter hr)))

theorem insert_locking {row : NonceRow} (hapart : ∀ o ∈ others, NonceApart w o)
    (hfree : ¬(others.any fun o => row.nonce ∈ o.locks) = true)
    (hnew : ¬((w.view store).any fun r => r.nonce = row.nonce) = true) :
    NonceFits store { w with inserted := row :: w.inserted } ∧
      ∀ o ∈ others, NonceApart { w with inserted := row :: w.inserted } o := by
  refine ⟨⟨hfits.deleted, ?_, hfits.mark⟩, fun o ho => ⟨?_, (hapart o ho).mark⟩⟩
  · intro r hr hmem
    rcases List.mem_cons.mp hr with rfl | hr
    · by_contra hkept
      obtain ⟨r', hr', hnonce⟩ := List.mem_map.mp hmem
      refine hnew (List.any_eq_true.mpr ⟨r', List.mem_append_left _ (mem_kept.mpr ⟨hr', ?_⟩), decide_eq_true hnonce⟩)
      rw [hnonce]
      exact hkept
    · exact hfits.inserted r hr hmem
  · intro n hn
    rcases List.mem_append.mp hn with hn | hn
    · exact (hapart o ho).locks n (List.mem_append_left _ hn)
    · rcases List.mem_cons.mp hn with rfl | hn
      · exact fun hlock => hfree (List.any_eq_true.mpr ⟨o, ho, decide_eq_true hlock⟩)
      · exact (hapart o ho).locks n (List.mem_append_right _ hn)

theorem mark_locking {m : ℤ} (hapart : ∀ o ∈ others, NonceApart w o)
    (hfree : ¬(others.any (·.mark.isSome)) = true) (hm : store.mark ≤ m) :
    NonceFits store { w with mark := some m } ∧ ∀ o ∈ others, NonceApart { w with mark := some m } o := by
  refine ⟨⟨hfits.deleted, hfits.inserted, ?_⟩, fun o ho => ⟨(hapart o ho).locks, .inr ?_⟩⟩
  · rintro m' ⟨⟩
    exact hm
  · rw [← Option.not_isSome_iff_eq_none]
    exact fun hsome => hfree (List.any_eq_true.mpr ⟨o, ho, hsome⟩)

theorem nonceExec_locking {stmt : NonceStmt} (hapart : ∀ o ∈ others, NonceApart w o)
    (h : nonceExec store others w stmt = some (w', reply)) :
    NonceFits store w' ∧ ∀ o ∈ others, NonceApart w' o := by
  cases stmt with
  | begin_ =>
    cases h
    exact ⟨hfits, hapart⟩
  | sweep now => exact deleteWhere_locking hfits hapart h
  | count =>
    cases h
    exact ⟨hfits, hapart⟩
  | insert row =>
    unfold nonceExec at h
    dsimp only at h
    split at h
    · cases h
    · next hfree =>
      split at h
      · cases h
        exact ⟨hfits, hapart⟩
      · next hnew =>
        cases h
        exact insert_locking hfits hapart hfree hnew
  | lookup nonce =>
    unfold nonceExec at h
    dsimp only at h
    split at h
    · cases h
      exact ⟨hfits, hapart⟩
    · cases h
      exact ⟨hfits, hapart⟩
  | delete nonce => exact deleteWhere_locking hfits hapart h
  | clear => exact deleteWhere_locking hfits hapart h
  | hwmRead =>
    cases h
    exact ⟨hfits, hapart⟩
  | hwmBump generation =>
    unfold nonceExec at h
    dsimp only at h
    split at h
    · cases h
    · next hfree =>
      cases h
      exact mark_locking hfits hapart hfree ((le_viewMark hfits).trans (le_max_left _ _))
  | hwmSet generation =>
    unfold nonceExec at h
    dsimp only at h
    split at h
    · cases h
      exact ⟨hfits, hapart⟩
    · next hforward =>
      split at h
      · cases h
      · next hfree =>
        cases h
        exact mark_locking hfits hapart hfree ((le_viewMark hfits).trans (not_lt.mp hforward))

end

theorem nonceCommit_locking (hfits' : NonceFits store w') (hapart : NonceApart w w') :
    NonceFits (nonceCommit store w) w' := by
  refine ⟨?_, ?_, ?_⟩
  · intro n hn
    obtain ⟨r, hr, rfl⟩ := List.mem_map.mp (hfits'.deleted n hn)
    refine List.mem_map_of_mem (List.mem_append_left _ (mem_kept.mpr ⟨hr, fun hdeleted => ?_⟩))
    exact hapart.locks _ (List.mem_append_left _ hdeleted) (List.mem_append_left _ hn)
  · intro r hr hmem
    obtain ⟨r', hr', hnonce⟩ := List.mem_map.mp hmem
    rcases List.mem_append.mp hr' with hr' | hr'
    · exact hfits'.inserted r hr (hnonce ▸ List.mem_map_of_mem (mem_kept.mp hr').1)
    · refine absurd (List.mem_append_right _ (List.mem_map_of_mem hr)) (hapart.locks r.nonce ?_)
      exact List.mem_append_right _ (hnonce ▸ List.mem_map_of_mem hr')
  · intro m hm
    have hnone : w.mark = none := hapart.mark.resolve_right (by rw [hm]; nofun)
    change w.mark.getD store.mark ≤ m
    rw [hnone]
    exact hfits'.mark m hm

theorem nonceEngine_locking : nonceEngine.Locking NonceFits NonceApart where
  fresh _ := ⟨fun _ hn => absurd hn List.not_mem_nil, fun _ hr => absurd hr List.not_mem_nil, fun _ hm => by cases hm⟩
  fresh_apart _ := ⟨fun _ hn => absurd hn List.not_mem_nil, .inl rfl⟩
  symm _ _ h := ⟨fun n hn hn' => h.locks n hn' hn, h.mark.symm⟩
  exec _ _ _ _ _ _ hfits hapart h := nonceExec_locking hfits hapart h
  commit _ _ _ _ hfits' hapart := nonceCommit_locking hfits' hapart

end Locks

/-! ## What a consume has done when it answers OK -/

/-- The statements a consume may run. -/
def ConsumeRequest.runs (r : ConsumeRequest) : NonceStmt → Prop
  | .insert _ => False
  | .hwmSet _ => False
  | .hwmBump g => g = r.generation
  | _ => True

/-- A script that answers OK only after a commit, and commits so only after it has deleted the row and
    raised the mark. -/
def Promises (r : ConsumeRequest) : NonceScript → (deleted bumped : Prop) → Prop
  | .answer _, _, _ => True
  | .exec stmt next, deleted, bumped => r.runs stmt ∧ ∀ reply, next reply ≠ .answer .ok ∧
      Promises r (next reply) (deleted ∨ stmt = .delete r.nonce ∧ reply = .affected 1)
        (bumped ∨ stmt = .hwmBump r.generation ∧ reply = .affected 1)
  | .commit next, deleted, bumped => (∀ told, ∃ a, next told = .answer a) ∧ next false ≠ .answer .ok ∧
      (next true = .answer .ok → deleted ∧ bumped)

section Promises

variable {r : ConsumeRequest} {deleted bumped : Prop}

theorem promises_commitWith {code : NonceAnswer} (h : code = .ok → deleted ∧ bumped) :
    Promises r (commitWith code) deleted bumped := by
  refine ⟨?_, nofun, ?_⟩
  · intro told
    cases told with
    | true => exact ⟨_, rfl⟩
    | false => exact ⟨_, rfl⟩
  · intro hok
    exact h (Script.answer.inj hok)

/-- The last statement of a consume, once the row is deleted. -/
theorem promises_bump (hdeleted : deleted) : Promises r
    (.exec (.hwmBump r.generation) fun
      | .affected 1 => commitWith .ok
      | _ => .answer .storage) deleted bumped := by
  refine ⟨rfl, fun reply => ?_⟩
  dsimp only
  split
  · exact ⟨nofun, promises_commitWith fun _ => ⟨.inl hdeleted, .inr ⟨rfl, rfl⟩⟩⟩
  · exact ⟨nofun, trivial⟩

theorem promises_read (hdeleted : deleted) : Promises r
    (.exec .hwmRead fun
      | .mark hwm =>
        if r.generation < hwm then commitWith .rollback
        else .exec (.hwmBump r.generation) fun
          | .affected 1 => commitWith .ok
          | _ => .answer .storage
      | _ => .answer .storage) deleted bumped := by
  refine ⟨trivial, fun reply => ?_⟩
  dsimp only
  split
  · split
    · exact ⟨nofun, promises_commitWith nofun⟩
    · exact ⟨nofun, promises_bump (.inl hdeleted)⟩
  · exact ⟨nofun, trivial⟩

theorem promises_consume : Promises r (consumeNonce r) False False := by
  refine ⟨trivial, fun reply => ?_⟩
  dsimp only
  split
  · exact ⟨nofun, trivial⟩
  · refine ⟨nofun, trivial, fun reply => ?_⟩
    dsimp only
    split
    · exact ⟨nofun, promises_commitWith nofun⟩
    · refine ⟨nofun, trivial, fun reply => ?_⟩
      dsimp only
      split
      · split
        · exact ⟨nofun, promises_commitWith nofun⟩
        · split
          · exact ⟨nofun, promises_commitWith nofun⟩
          · split
            · exact ⟨nofun, promises_commitWith nofun⟩
            · exact ⟨nofun, promises_read (.inr ⟨rfl, rfl⟩)⟩
      · exact ⟨nofun, trivial⟩
    · exact ⟨nofun, trivial⟩

/-- What a consume has written, with `R` between the mark it wrote and its generation. -/
structure ConsumeWrites (R : ℤ → ℤ → Prop) (r : ConsumeRequest) (w : NonceWrites) (deleted bumped : Prop) : Prop where
  deleted : deleted → r.nonce ∈ w.deleted
  inserted : w.inserted = []
  mark : ∀ m, w.mark = some m → R m r.generation
  bumped : bumped → w.mark.isSome = true

/-- A consume keeps its promise. -/
def Promised (R : ℤ → ℤ → Prop) : NonceRequest → NonceScript → NonceWrites → Prop
  | .consume f, script, w => ∀ r, consumeRequest f = some r →
      ∃ deleted bumped, Promises r script deleted bumped ∧ ConsumeWrites R r w deleted bumped
  | _, _, _ => True

variable {R : ℤ → ℤ → Prop} {store : NonceStore} {others : List NonceWrites} {w w' : NonceWrites}
  {reply : NonceReply} {stmt : NonceStmt}

theorem consumeWrites_fresh : ConsumeWrites R r {} False False :=
  ⟨False.elim, rfl, fun _ hm => absurd hm.symm (Option.some_ne_none _), False.elim⟩

/-- A statement that leaves the writes as they are. -/
theorem ConsumeWrites.same (h : ConsumeWrites R r w deleted bumped) (hdelete : stmt ≠ .delete r.nonce)
    (hbump : stmt ≠ .hwmBump r.generation) :
    ConsumeWrites R r w (deleted ∨ stmt = .delete r.nonce ∧ reply = .affected 1)
      (bumped ∨ stmt = .hwmBump r.generation ∧ reply = .affected 1) :=
  ⟨fun hd => h.deleted (hd.resolve_right fun hs => hdelete hs.1), h.inserted, h.mark,
    fun hb => h.bumped (hb.resolve_right fun hs => hbump hs.1)⟩

theorem ConsumeWrites.deleteWhere (h : ConsumeWrites R r w deleted bumped)
    (hexec : deleteWhere store others w p = some (w', reply)) :
    ConsumeWrites R r w' deleted bumped ∧
      (reply = .affected 1 → (∀ row, p row = true → row.nonce = r.nonce) → r.nonce ∈ w'.deleted) := by
  obtain ⟨-, rfl, hreply⟩ := deleteWhere_some hexec
  refine ⟨⟨fun hd => List.mem_append_right _ (h.deleted hd), ?_, h.mark, h.bumped⟩, ?_⟩
  · rw [h.inserted]
    rfl
  · intro hone hp
    have hlength : ((w.kept store).filter p).length = 1 := by
      rw [hreply, h.inserted] at hone
      exact NonceReply.affected.inj hone
    obtain ⟨row, hrow⟩ := List.length_eq_one_iff.mp hlength
    have hmem : row ∈ (w.kept store).filter p := by
      rw [hrow]
      exact List.mem_cons_self
    rw [← hp row (List.mem_filter.mp hmem).2]
    exact List.mem_append_left _ (List.mem_map_of_mem hmem)

/-- How the mark that a bump writes is related to its generation. -/
structure BumpRelates (G : NonceStore → NonceStmt → Bool) (R : ℤ → ℤ → Prop) : Prop where
  first : ∀ store g, G store (.hwmBump g) = true → R (max store.mark g) g
  again : ∀ m g, R m g → R (max m g) g

variable {G : NonceStore → NonceStmt → Bool}

theorem ConsumeWrites.exec (hR : BumpRelates G R) (h : ConsumeWrites R r w deleted bumped) (hruns : r.runs stmt)
    (hguard : G store stmt = true) (hexec : nonceExec store others w stmt = some (w', reply)) :
    ConsumeWrites R r w' (deleted ∨ stmt = .delete r.nonce ∧ reply = .affected 1)
      (bumped ∨ stmt = .hwmBump r.generation ∧ reply = .affected 1) := by
  cases stmt with
  | begin_ =>
    cases hexec
    exact h.same nofun nofun
  | sweep now => exact (h.deleteWhere hexec).1.same nofun nofun
  | count =>
    cases hexec
    exact h.same nofun nofun
  | insert row => exact hruns.elim
  | lookup nonce =>
    unfold nonceExec at hexec
    dsimp only at hexec
    split at hexec
    · cases hexec
      exact h.same nofun nofun
    · cases hexec
      exact h.same nofun nofun
  | delete nonce =>
    obtain ⟨hkept, hone⟩ := h.deleteWhere hexec
    refine ⟨?_, hkept.inserted, hkept.mark, fun hb => hkept.bumped (hb.resolve_right nofun)⟩
    rintro (hd | ⟨hstmt, hreply⟩)
    · exact hkept.deleted hd
    · cases hstmt
      exact hone hreply fun row hp => of_decide_eq_true hp
  | clear => exact (h.deleteWhere hexec).1.same nofun nofun
  | hwmRead =>
    cases hexec
    exact h.same nofun nofun
  | hwmBump generation =>
    obtain rfl : generation = r.generation := hruns
    unfold nonceExec at hexec
    dsimp only at hexec
    split at hexec
    · cases hexec
    · cases hexec
      refine ⟨fun hd => h.deleted (hd.resolve_right nofun), h.inserted, ?_, fun _ => rfl⟩
      rintro m ⟨⟩
      rw [NonceWrites.viewMark]
      cases hmark : w.mark with
      | none => exact hR.first store _ hguard
      | some m => exact hR.again m _ (h.mark m hmark)
  | hwmSet generation => exact hruns.elim

theorem keeps_promised (hR : BumpRelates G R) : Keeps nonceEngine nonceProgram G (Promised R) where
  start request := by
    cases request with
    | consume f =>
      intro r hr
      refine ⟨False, False, ?_, consumeWrites_fresh⟩
      change Promises r (nonceConsume f) False False
      rw [nonceConsume, hr]
      exact promises_consume
    | _ => trivial
  answer request a w h := by
    cases request with
    | consume f => exact fun r hr => ⟨False, False, trivial, consumeWrites_fresh⟩
    | _ => trivial
  exec request stmt next w store others w' reply h hguard hexec := by
    cases request with
    | consume f =>
      intro r hr
      obtain ⟨deleted, bumped, ⟨hruns, hnext⟩, hwrites⟩ := h r hr
      exact ⟨_, _, (hnext reply).2, hwrites.exec hR hruns hguard hexec⟩
    | _ => trivial
  fails request stmt next w h := by
    cases request with
    | consume f =>
      intro r hr
      obtain ⟨deleted, bumped, ⟨hruns, hnext⟩, hwrites⟩ := h r hr
      refine ⟨_, _, (hnext .failed).2, ⟨fun hd => hwrites.deleted (hd.resolve_right nofun), hwrites.inserted,
        hwrites.mark, fun hb => hwrites.bumped (hb.resolve_right nofun)⟩⟩
    | _ => trivial
  commit request next w told h := by
    cases request with
    | consume f =>
      intro r hr
      obtain ⟨deleted, bumped, ⟨hends, -⟩, -⟩ := h r hr
      obtain ⟨a, ha⟩ := hends told
      rw [ha]
      exact ⟨False, False, trivial, consumeWrites_fresh⟩
    | _ => trivial

end Promises

/-! ## The log -/

/-- The request of a consume that answered OK. -/
def okRequest : NonceEntry → Option ConsumeRequest
  | .answered (.consume f) .ok => consumeRequest f
  | _ => none

/-- The consumes that answered OK, newest first. -/
def okRequests (log : List NonceEntry) : List ConsumeRequest := log.filterMap okRequest

/-- A committed transaction that issued the nonce. -/
def issues (nonce : List UInt8) : NonceEntry → Bool
  | .committed _ w => w.inserted.any (·.nonce = nonce)
  | _ => false

def okCount (nonce : List UInt8) (log : List NonceEntry) : ℕ := (okRequests log).countP (·.nonce = nonce)

def issuedCount (nonce : List UInt8) (log : List NonceEntry) : ℕ := log.countP (issues nonce)

/-- Every consume that answered OK has a generation no smaller than those before it. -/
def GenerationsOrdered (log : List NonceEntry) : Prop :=
  (okRequests log).Pairwise fun later earlier => earlier.generation ≤ later.generation

section Log

variable {s s' : NonceState} {session : Session NonceRequest NonceStmt NonceReply NonceAnswer NonceWrites}
  {r : ConsumeRequest}

/-- What a session that answers adds to the consumes that answered OK. -/
theorem mem_okRequests_answers (h : r ∈ okRequests (answers session)) :
    ∃ f, session.request = .consume f ∧ consumeRequest f = some r ∧ session.script = .answer .ok := by
  obtain ⟨entry, hentry, hr⟩ := List.mem_filterMap.mp h
  unfold answers at hentry
  split at hentry
  · next a hscript =>
    rw [List.mem_singleton.mp hentry] at hr
    unfold okRequest at hr
    split at hr
    · next f heq =>
      obtain ⟨hrequest, rfl⟩ := Entry.answered.inj heq
      exact ⟨f, hrequest, hr, hscript⟩
    · cases hr
  · cases hentry

/-- A session that is not a consume answering OK. -/
def Quiet (session : Session NonceRequest NonceStmt NonceReply NonceAnswer NonceWrites) : Prop :=
  ∀ f r, session.request = .consume f → consumeRequest f = some r → session.script ≠ .answer .ok

theorem okRequests_answers_nil (h : Quiet session) : okRequests (answers session) = [] := by
  rw [List.eq_nil_iff_forall_not_mem]
  intro r hr
  obtain ⟨f, hrequest, hparse, hscript⟩ := mem_okRequests_answers hr
  exact h f r hrequest hparse hscript

theorem okRequests_quiet (h : Quiet session) (log : List NonceEntry) :
    okRequests (answers session ++ log) = okRequests log := by
  rw [okRequests, List.filterMap_append, ← okRequests, okRequests_answers_nil h]
  rfl

theorem issuedCount_answers (n : List UInt8) (log : List NonceEntry) :
    issuedCount n (answers session ++ log) = issuedCount n log := by
  unfold answers
  split
  · rfl
  · rfl

/-- What a step does to the log of consumes: nothing, or one more has answered OK, and its writes are
    in the store. -/
inductive LogStep (R : ℤ → ℤ → Prop) (s s' : NonceState) : Prop
  | quiet (hok : okRequests s'.log = okRequests s.log) (hstore : s'.store = s.store)
      (hissued : ∀ n, issuedCount n s'.log = issuedCount n s.log)
  | commits (w : NonceWrites) (hfits : NonceFits s.store w) (hok : okRequests s'.log = okRequests s.log)
      (hstore : s'.store = nonceCommit s.store w)
      (hissued : ∀ n, issuedCount n s'.log = issuedCount n s.log + if n ∈ w.inserted.map (·.nonce) then 1 else 0)
  | accepts (w : NonceWrites) (r : ConsumeRequest) (hfits : NonceFits s.store w)
      (hok : okRequests s'.log = r :: okRequests s.log) (hstore : s'.store = nonceCommit s.store w)
      (hissued : ∀ n, issuedCount n s'.log = issuedCount n s.log) (hdeleted : r.nonce ∈ w.deleted)
      (hinserted : w.inserted = []) (hmark : ∃ m, w.mark = some m ∧ R m r.generation)

/-- The sessions write apart, and every consume keeps its promise. -/
structure NonceSessions (R : ℤ → ℤ → Prop) (s : NonceState) : Prop where
  locked : Locked NonceFits NonceApart s
  promised : ∀ session ∈ s.sessions, Promised R session.request session.script session.writes

variable {R : ℤ → ℤ → Prop} {G : NonceStore → NonceStmt → Bool} {a : NonceAction}

theorem NonceSessions.step (hR : BumpRelates G R) (hs : NonceSessions R s) (hguard : guarded G s a = true)
    (h : nonceEngine.step nonceProgram s a = some s') : NonceSessions R s' :=
  ⟨hs.locked.step nonceEngine_locking h, (keeps_promised hR).step hs.promised hguard h⟩

theorem issuedCount_committed (n : List UInt8) (request : NonceRequest) (w : NonceWrites) (log : List NonceEntry) :
    issuedCount n (.committed request w :: log) =
      issuedCount n log + if n ∈ w.inserted.map (·.nonce) then 1 else 0 := by
  rw [issuedCount, List.countP_cons]
  congr 1
  refine if_congr ?_ rfl rfl
  rw [issues, List.any_eq_true, List.mem_map]
  refine exists_congr fun row => and_congr_right fun _ => ?_
  rw [decide_eq_true_eq]

theorem quiet_put {i : ℕ} (h : Quiet session) : LogStep R s (nonceEngine.put s i session) :=
  .quiet (okRequests_quiet h s.log) rfl fun n => issuedCount_answers n s.log

theorem quiet_commit {i : ℕ} {session' : Session NonceRequest NonceStmt NonceReply NonceAnswer NonceWrites}
    (hfits : NonceFits s.store session.writes) (h : Quiet session') :
    LogStep R s (nonceEngine.put (nonceEngine.apply s session) i session') := by
  refine .commits session.writes hfits (okRequests_quiet h _) rfl fun n => ?_
  rw [← issuedCount_committed n session.request]
  exact issuedCount_answers n _

theorem logStep_of_runs {i : ℕ} (hs : NonceSessions R s) (hsession : s.sessions[i]? = some session)
    (h : Runs (E := nonceEngine) s i session s') : LogStep R s s' := by
  have hfits := hs.locked.writes i session hsession
  have hpromised := hs.promised session (List.mem_of_getElem? hsession)
  cases h with
  | exec hscript hexec =>
    refine quiet_put fun f r hrequest hparse => ?_
    rw [hrequest, hscript] at hpromised
    obtain ⟨_, _, ⟨-, hnext⟩, -⟩ := hpromised r hparse
    exact (hnext _).1
  | fails hscript =>
    refine quiet_put fun f r hrequest hparse => ?_
    rw [hrequest, hscript] at hpromised
    obtain ⟨_, _, ⟨-, hnext⟩, -⟩ := hpromised r hparse
    exact (hnext _).1
  | aborts hscript =>
    refine quiet_put fun f r hrequest hparse => ?_
    rw [hrequest, hscript] at hpromised
    obtain ⟨_, _, ⟨-, hfalse, -⟩, -⟩ := hpromised r hparse
    exact hfalse
  | @commits next told hscript =>
    by_cases hquiet : Quiet { session with script := next told, writes := nonceEngine.fresh }
    · exact quiet_commit hfits hquiet
    · -- The consume answers OK with this commit, so it has deleted its row and raised the mark.
      simp only [Quiet, not_forall, exists_prop, ne_eq, not_not] at hquiet
      obtain ⟨f, r, hrequest, hparse, hok⟩ := hquiet
      rw [hrequest, hscript] at hpromised
      obtain ⟨deleted, bumped, ⟨-, hfalse, htrue⟩, hwrites⟩ := hpromised r hparse
      cases told with
      | false => exact absurd hok hfalse
      | true =>
        obtain ⟨hdeleted, hbumped⟩ := htrue hok
        obtain ⟨m, hm⟩ := Option.isSome_iff_exists.mp (hwrites.bumped hbumped)
        refine .accepts session.writes r hfits ?_ rfl ?_ (hwrites.deleted hdeleted) hwrites.inserted
          ⟨m, hm, hwrites.mark m hm⟩
        · have hanswers : answers { session with script := next true, writes := nonceEngine.fresh } =
              [.answered (.consume f) .ok] := by
            simp only [answers, hok, hrequest]
          change okRequests (answers { session with script := next true, writes := nonceEngine.fresh } ++
            (.committed session.request session.writes :: s.log)) = _
          have hentry : okRequest (.answered (.consume f) .ok) = some r := hparse
          rw [hanswers, okRequests, List.singleton_append, List.filterMap_cons_some hentry]
          rfl
        · intro n
          refine (issuedCount_answers n _).trans ((issuedCount_committed n _ _ _).trans ?_)
          rw [hwrites.inserted]
          rfl

theorem logStep_of_step (hs : NonceSessions R s) (h : nonceEngine.step nonceProgram s a = some s') :
    LogStep R s s' := by
  rcases step_cases h with ⟨request, -, rfl⟩ | ⟨i, outcome, session, -, hsession, hruns⟩
  · have hquiet : Quiet (nonceEngine.newSession nonceProgram request) := by
      intro f r hrequest hparse
      obtain rfl : request = .consume f := hrequest
      change nonceConsume f ≠ _
      rw [nonceConsume, hparse]
      nofun
    exact .quiet (okRequests_quiet hquiet s.log) rfl fun n => issuedCount_answers n s.log
  · exact logStep_of_runs hs hsession hruns

/-! ## Counts, marks and order -/

theorem mem_keys_commit {store : NonceStore} {w : NonceWrites} {n : List UInt8} :
    n ∈ (nonceCommit store w).keys ↔ (n ∈ store.keys ∧ n ∉ w.deleted) ∨ n ∈ w.inserted.map (·.nonce) := by
  change n ∈ (w.kept store ++ w.inserted).map (·.nonce) ↔ _
  rw [List.map_append, List.mem_append]
  refine or_congr ?_ Iff.rfl
  constructor
  · intro hn
    obtain ⟨r, hr, rfl⟩ := List.mem_map.mp hn
    exact ⟨List.mem_map_of_mem (mem_kept.mp hr).1, (mem_kept.mp hr).2⟩
  · rintro ⟨hn, hkept⟩
    obtain ⟨r, hr, rfl⟩ := List.mem_map.mp hn
    exact List.mem_map_of_mem (mem_kept.mpr ⟨hr, hkept⟩)

/-- The consumes of a nonce that answered OK, and one more if it is outstanding, are no more than its
    issues. -/
def Counted (s : NonceState) : Prop :=
  ∀ n, okCount n s.log + (if n ∈ s.store.keys then 1 else 0) ≤ issuedCount n s.log

theorem Counted.step (hs : Counted s) (h : LogStep R s s') : Counted s' := by
  intro n
  have hbefore := hs n
  cases h with
  | quiet hok hstore hissued =>
    rw [okCount, hok, hstore, hissued]
    exact hbefore
  | commits w hfits hok hstore hissued =>
    rw [okCount, hok, hstore, hissued, if_congr mem_keys_commit rfl rfl, ← okCount]
    split
    · next hmem =>
      rcases hmem with ⟨hkey, -⟩ | hinserted
      · rw [if_pos hkey] at hbefore
        omega
      · rw [if_pos hinserted]
        omega
    · omega
  | accepts w r hfits hok hstore hissued hdeleted hinserted hmark =>
    rw [okCount, hok, hstore, hissued, if_congr mem_keys_commit rfl rfl, List.countP_cons, ← okCount, hinserted]
    by_cases hn : r.nonce = n
    · subst hn
      rw [if_pos (hfits.deleted _ hdeleted)] at hbefore
      have hgone : ¬((r.nonce ∈ s.store.keys ∧ r.nonce ∉ w.deleted) ∨ r.nonce ∈ [].map NonceRow.nonce) := by
        rintro (⟨-, hkept⟩ | hnil)
        · exact hkept hdeleted
        · cases hnil
      rw [if_pos (decide_eq_true (rfl : r.nonce = r.nonce)), if_neg hgone]
      exact hbefore
    · rw [if_neg (show ¬(decide (r.nonce = n)) = true by simpa using hn)]
      split
      · next hmem =>
        rcases hmem with ⟨hkey, -⟩ | hnil
        · rw [if_pos hkey] at hbefore
          omega
        · cases hnil
      · omega

theorem mark_le_of_logStep (h : LogStep R s s') : s.store.mark ≤ s'.store.mark := by
  cases h with
  | quiet hok hstore hissued => rw [hstore]
  | commits w hfits hok hstore hissued =>
    rw [hstore]
    exact le_viewMark hfits
  | accepts w r hfits hok hstore hissued hdeleted hinserted hmark =>
    rw [hstore]
    exact le_viewMark hfits

/-- No generation that was accepted is above the mark, and they are in order. -/
structure InOrder (s : NonceState) : Prop where
  marks : ∀ r ∈ okRequests s.log, r.generation ≤ s.store.mark
  ordered : GenerationsOrdered s.log

/-- If a bump writes its own generation, the order is kept. -/
theorem InOrder.step (hs : InOrder s) (h : LogStep (· = ·) s s') : InOrder s' := by
  have hmark := mark_le_of_logStep h
  cases h with
  | quiet hok hstore hissued =>
    refine ⟨?_, ?_⟩
    · rw [hok, hstore]
      exact hs.marks
    · rw [GenerationsOrdered, hok]
      exact hs.ordered
  | commits w hfits hok hstore hissued =>
    refine ⟨?_, ?_⟩
    · rw [hok]
      exact fun r hr => (hs.marks r hr).trans hmark
    · rw [GenerationsOrdered, hok]
      exact hs.ordered
  | accepts w r hfits hok hstore hissued hdeleted hinserted hgeneration =>
    obtain ⟨m, hm, rfl⟩ := hgeneration
    have hraised : s'.store.mark = r.generation := by
      rw [hstore]
      change w.mark.getD s.store.mark = _
      rw [hm]
      rfl
    have hearlier : ∀ r' ∈ okRequests s.log, r'.generation ≤ r.generation := by
      intro r' hr'
      rw [← hraised]
      exact (hs.marks r' hr').trans hmark
    refine ⟨?_, ?_⟩
    · rw [hok, hraised]
      exact List.forall_mem_cons.mpr ⟨le_rfl, hearlier⟩
    · rw [GenerationsOrdered, hok]
      exact List.pairwise_cons.mpr ⟨hearlier, hs.ordered⟩

end Log

/-! ## Whole runs -/

/-- A consume raises a mark that is not above its generation. -/
def bumpsForward (store : NonceStore) : NonceStmt → Bool
  | .hwmBump generation => store.mark ≤ generation
  | _ => true

theorem bumpRelates_any : BumpRelates (fun _ _ => true) fun m g => g ≤ m :=
  ⟨fun _ _ _ => le_max_right _ _, fun _ _ _ => le_max_right _ _⟩

theorem bumpRelates_forward : BumpRelates bumpsForward (· = ·) := by
  refine ⟨fun store g hforward => max_eq_right (of_decide_eq_true hforward), ?_⟩
  rintro m g rfl
  exact max_self m

theorem nonceSessions_start {R : ℤ → ℤ → Prop} (store : NonceStore) : NonceSessions R { store := store } := by
  refine ⟨⟨?_, ?_⟩, fun _ h => absurd h List.not_mem_nil⟩
  · intro i a ha
    cases ha
  · intro i j a b _ ha
    cases ha

variable {actions : List NonceAction}

/-- The invariants that need no condition on the run. -/
theorem counted_run {s s' : NonceState}
    (hs : NonceSessions (fun m g => g ≤ m) s ∧ Counted s) (h : nonceEngine.run nonceProgram s actions = some s') :
    (NonceSessions (fun m g => g ≤ m) s' ∧ Counted s') ∧ s.store.mark ≤ s'.store.mark := by
  refine guardedRun_invariant (G := fun _ _ => true)
    (P := fun s₁ => (NonceSessions (fun m g => g ≤ m) s₁ ∧ Counted s₁) ∧ s.store.mark ≤ s₁.store.mark)
    ?_ ⟨hs, le_rfl⟩ (guardedRun_of_all (fun _ _ => rfl) actions) h
  rintro s₁ a s₂ ⟨⟨hsessions, hcounted⟩, hmark⟩ hguard hstep
  have hlog := logStep_of_step hsessions hstep
  exact ⟨⟨hsessions.step bumpRelates_any hguard hstep, hcounted.step hlog⟩, hmark.trans (mark_le_of_logStep hlog)⟩

theorem ordered_run {s : NonceState}
    (hguard : guardedRun nonceEngine nonceProgram bumpsForward { store := {} } actions = true)
    (h : nonceRun actions = some s) :
    GenerationsOrdered s.log := by
  have hinv : NonceSessions (· = ·) s ∧ InOrder s := by
    refine guardedRun_invariant (P := fun s => NonceSessions (· = ·) s ∧ InOrder s) ?_
      ⟨nonceSessions_start {}, ⟨fun _ hr => absurd hr List.not_mem_nil, List.Pairwise.nil⟩⟩ hguard h
    rintro s a s' ⟨hsessions, hordered⟩ hguard hstep
    exact ⟨hsessions.step bumpRelates_forward hguard hstep, hordered.step (logStep_of_step hsessions hstep)⟩
  exact hinv.2.ordered

/-- In every interleaving a nonce is accepted at most once for each time it was issued, and the mark
    never falls. If no bump finds the mark above its generation, accepted generations are in order. -/
theorem nonce_generations (actions : List NonceAction) {s : NonceState} (h : nonceRun actions = some s) :
    (∀ n, okCount n s.log ≤ issuedCount n s.log) ∧
    (∀ more s', nonceRun (actions ++ more) = some s' → s.store.mark ≤ s'.store.mark) ∧
    (guardedRun nonceEngine nonceProgram bumpsForward { store := {} } actions = true → GenerationsOrdered s.log) := by
  have hstart : NonceSessions (fun m g => g ≤ m) { store := {} } ∧ Counted { store := {} } :=
    ⟨nonceSessions_start {}, fun n => le_rfl⟩
  refine ⟨?_, ?_, ?_⟩
  · intro n
    exact (Nat.le_add_right _ _).trans ((counted_run hstart h).1.2 n)
  · intro more s' h'
    rw [nonceRun, run_append] at h'
    obtain ⟨s₁, hs₁, hmore⟩ := Option.bind_eq_some_iff.mp h'
    obtain rfl := Option.some.inj (h.symm.trans hs₁)
    exact (counted_run (counted_run hstart h).1 hmore).2
  · intro hguard
    exact ordered_run hguard h

/-! ## Two consumers -/

/-- A nonce whose digits are all the same. -/
def exampleNonce (digit : UInt8) : Cell := List.replicate 64 digit

def issueFields (nonce : Cell) : Vector Cell 8 :=
  #v[nonce, ascii "issuer", ascii "00ff", ascii "fp", ascii "binding", ascii "server", ascii "status", ascii "100"]

def consumeFieldsOf (nonce : Cell) (generation : String) : Vector Cell 10 :=
  #v[nonce, ascii "issuer", ascii "00ff", ascii "fp", ascii "binding", ascii "server", ascii "status", ascii "101",
    ascii generation, ascii "1"]

def runs (i times : ℕ) : List NonceAction := List.replicate times (.run i .done)

/-- Two challenges of one store. -/
def issuedTwo : List NonceAction :=
  .start (.issue (issueFields (exampleNonce 97))) :: runs 0 5 ++
  .start (.issue (issueFields (exampleNonce 98))) :: runs 1 5 ++
  [.start (.consume (consumeFieldsOf (exampleNonce 97) "5")), .start (.consume (consumeFieldsOf (exampleNonce 98) "7"))]

/-- The consumers take turns at their transactions, the later generation last. -/
theorem nonce_generations_in_turn :
    ∃ s, nonceRun (issuedTwo ++ runs 2 6 ++ runs 3 6) = some s ∧ (okRequests s.log).map (·.generation) = [7, 5] ∧
      GenerationsOrdered s.log := by
  have hrun : (nonceRun (issuedTwo ++ runs 2 6 ++ runs 3 6)).map (fun s => (okRequests s.log).map (·.generation)) =
      some [7, 5] := by
    decide
  obtain ⟨s, hs, hgenerations⟩ := Option.map_eq_some_iff.mp hrun
  exact ⟨s, hs, hgenerations, (nonce_generations _ hs).2.2 (by decide)⟩

/-- Both consumers read the mark before either raises it. -/
def racingConsumers : List NonceAction := issuedTwo ++ runs 2 4 ++ runs 3 6 ++ runs 2 2

/-- A consume of generation 5 answers OK after one of generation 7. -/
theorem racing_consumers : ¬∀ actions s, nonceRun actions = some s → GenerationsOrdered s.log := by
  intro hordered
  have hrun : (nonceRun racingConsumers).map (fun s => (okRequests s.log).map (·.generation)) = some [5, 7] := by
    decide
  obtain ⟨s, hs, hgenerations⟩ := Option.map_eq_some_iff.mp hrun
  have hpairwise : ((okRequests s.log).map (·.generation)).Pairwise fun later earlier => earlier ≤ later :=
    List.pairwise_map.mpr (hordered _ s hs)
  rw [hgenerations] at hpairwise
  revert hpairwise
  decide

end Families
