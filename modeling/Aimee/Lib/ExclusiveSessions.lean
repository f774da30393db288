-- SUMMARY: Sessions whose transactions take one lock before their first read: every interleaving is serial.
import Aimee.Lib.Sessions

/-!
# Sessions under one lock

A session that holds the lock is alone with the store: no other one can commit a write, and the statements of
the others only make it wait. So its commit does to the store what the script does that runs there by itself,
and an answer without a commit is the answer it gives there.
-/

/-- A script of one transaction. What fails ends it, and so does a commit. -/
inductive Script.Transaction {Stmt Reply Answer : Type} (failed : Reply) (error : Answer) :
    Script Stmt Reply Answer → Prop where
  | answer (a : Answer) : Transaction failed error (.answer a)
  | exec {stmt : Stmt} {next : Reply → Script Stmt Reply Answer} (hfailed : next failed = .answer error)
      (hnext : ∀ reply, Transaction failed error (next reply)) : Transaction failed error (.exec stmt next)
  | commit {next : Bool → Script Stmt Reply Answer} (a : Answer) (hdone : next true = .answer a)
      (hfails : next false = .answer error) : Transaction failed error (.commit next)

namespace Engine

variable {Req Stmt Reply Answer Store Writes : Type} (E : Engine Stmt Reply Store Writes)

/-- What a script does by itself where nothing fails: the store after it, and its answer. -/
def alone : Script Stmt Reply Answer → Store → Writes → Option (Store × Answer)
  | .answer a, store, _ => some (store, a)
  | .exec stmt next, store, w => (E.exec store [] w stmt).bind fun r => alone (next r.2) store r.1
  | .commit next, store, w => alone (next true) (E.commit store w) E.fresh

variable (program : Req → Script Stmt Reply Answer) (holds : Writes → Prop) (error : Answer)

/-- The transactions of a program take one lock, and hold it until they end. -/
structure Exclusive : Prop where
  fresh : ¬holds E.fresh
  others : ∀ store others w stmt r, E.exec store others w stmt = some r → E.exec store [] w stmt = some r
  takes : ∀ store others w stmt r, E.exec store others w stmt = some r → holds r.1 → holds w ∨ ∀ o ∈ others, ¬holds o
  keeps : ∀ store others w stmt r, holds w → E.exec store others w stmt = some r → holds r.1
  first : ∀ r stmt next, program r = .exec stmt next →
    ∀ store others r', E.exec store others E.fresh stmt = some r' → holds r'.1
  begins : ∀ r next, program r ≠ .commit next
  transaction : ∀ r, (program r).Transaction E.failed error

/-- Not both of two sessions hold the lock. -/
def Apart (w w' : Writes) : Prop := ¬(holds w ∧ holds w')

/-- A session that holds the lock ends as its script does that runs alone. -/
structure UnderLock (store : Store) (session : Session Req Stmt Reply Answer Writes) : Prop where
  holds : holds session.writes
  transaction : session.script.Transaction E.failed error
  alone : E.alone session.script store session.writes = E.alone (program session.request) store E.fresh

/-- Where a session is: before its first statement, under the lock, or at its answer. -/
inductive Pending (store : Store) (session : Session Req Stmt Reply Answer Writes) : Prop where
  | waits (hscript : session.script = program session.request) (hwrites : session.writes = E.fresh)
  | holds (h : UnderLock E program holds error store session)
  | answered (a : Answer) (hscript : session.script = .answer a)

/-- A step under one lock: it leaves the store and the log alone, or it answers, or it commits and answers. -/
inductive SerialStep (s s' : State Req Stmt Reply Answer Store Writes) : Prop where
  | silent (hstore : s'.store = s.store) (hlog : s'.log = s.log)
  | answers (r : Req) (a : Answer) (hstore : s'.store = s.store) (hlog : s'.log = .answered r a :: s.log)
      (ha : a = error ∨ E.alone (program r) s.store E.fresh = some (s.store, a))
  | commits (r : Req) (a b : Answer) (w : Writes) (hlog : s'.log = .answered r b :: .committed r w :: s.log)
      (halone : E.alone (program r) s.store E.fresh = some (s'.store, a)) (hb : b = error ∨ b = a)

section

variable {E program holds error} {s s' : State Req Stmt Reply Answer Store Writes}
  {session : Session Req Stmt Reply Answer Writes}
  {a : Action Req} {i : ℕ}

theorem Exclusive.locking (hE : E.Exclusive program holds error) : E.Locking (fun _ _ => True) (Apart holds) where
  fresh _ := trivial
  fresh_apart _ h := hE.fresh h.1
  symm _ _ h h' := h h'.symm
  exec store others w stmt w' reply _ hapart hexec := by
    refine ⟨trivial, fun o ho hboth => ?_⟩
    rcases hE.takes store others w stmt _ hexec hboth.1 with hw | hnone
    · exact hapart o ho ⟨hw, hboth.2⟩
    · exact hnone o ho hboth.2
  commit _ _ _ _ _ _ := trivial

variable {store : Store} {next : Reply → Script Stmt Reply Answer}

theorem Pending.closed (h : Pending E program holds error store session) :
    Pending E program holds error store (E.closed session) := by
  unfold Engine.closed
  split
  case h_1 a hscript => exact .answered a hscript
  case h_2 => exact h

/-- A session that does not hold the lock does not see a commit. -/
theorem Pending.frame {store store' : Store} (h : Pending E program holds error store session)
    (hfree : ¬holds session.writes) :
    Pending E program holds error store' session := by
  cases h with
  | waits hscript hwrites => exact .waits hscript hwrites
  | holds h => exact absurd h.holds hfree
  | answered a hscript => exact .answered a hscript

theorem Pending.transaction (hE : E.Exclusive program holds error) (h : Pending E program holds error store session) :
    session.script.Transaction E.failed error := by
  cases h with
  | waits hscript => exact hscript ▸ hE.transaction session.request
  | holds h => exact h.transaction
  | answered a hscript => exact hscript ▸ .answer a

theorem pending_put (hs : ∀ j b, j ≠ i → s.sessions[j]? = some b → Pending E program holds error s.store b)
    (h : Pending E program holds error s.store session) :
    ∀ b ∈ (E.put s i session).sessions, Pending E program holds error s.store b := by
  intro b hb
  obtain ⟨j, hj⟩ := List.mem_iff_getElem?.mp hb
  rw [put, List.getElem?_set] at hj
  split at hj
  case isTrue =>
    split at hj
    · obtain rfl := Option.some.inj hj
      exact h.closed
    · cases hj
  case isFalse hne => exact hs j b (Ne.symm hne) hj

section

variable (hE : E.Exclusive program holds error)
include hE

/-- The statement a session is at does what it does alone, and the lock is held after it. -/
theorem Pending.exec (h : Pending E program holds error s.store session)
    {stmt : Stmt} (hscript : session.script = .exec stmt next)
    {others : List Writes} {writes : Writes} {reply : Reply}
    (hexec : E.exec s.store others session.writes stmt = some (writes, reply)) :
    UnderLock E program holds error s.store { session with script := next reply, writes := writes } := by
  have halone : E.alone session.script s.store session.writes = E.alone (next reply) s.store writes := by
    rw [hscript, alone, hE.others _ _ _ _ _ hexec, Option.bind_some]
  have hnext : (next reply).Transaction E.failed error := by
    have htransaction := h.transaction hE
    rw [hscript] at htransaction
    cases htransaction with
    | exec _ hnext => exact hnext reply
  cases h with
  | waits hprogram hwrites =>
    have hfirst : program session.request = .exec stmt next := hprogram.symm.trans hscript
    refine ⟨hE.first _ _ _ hfirst _ _ _ (hwrites ▸ hexec), hnext, ?_⟩
    rw [← halone, hprogram, hwrites]
  | holds h => exact ⟨hE.keeps _ _ _ _ _ h.holds hexec, hnext, halone.symm.trans h.alone⟩
  | answered a hanswer =>
    rw [hanswer] at hscript
    cases hscript

/-- A session whose script is to commit commits what its script does alone. -/
theorem Pending.commit (h : Pending E program holds error s.store session)
    {next : Bool → Script Stmt Reply Answer} (hscript : session.script = .commit next) :
    holds session.writes ∧ ∃ a, next true = .answer a ∧ next false = .answer error ∧
      E.alone (program session.request) s.store E.fresh = some (E.commit s.store session.writes, a) := by
  have htransaction := h.transaction hE
  rw [hscript] at htransaction
  cases htransaction with
  | commit a hdone hfails =>
    cases h with
    | waits hprogram => exact absurd (hprogram.symm.trans hscript) (hE.begins _ _)
    | holds h =>
      refine ⟨h.holds, a, hdone, hfails, ?_⟩
      rw [← h.alone, hscript]
      simp only [Engine.alone, hdone]
    | answered a hanswer =>
      rw [hanswer] at hscript
      cases hscript

theorem Pending.fails (h : Pending E program holds error s.store session)
    {stmt : Stmt} (hscript : session.script = .exec stmt next) :
    next E.failed = .answer error := by
  have htransaction := h.transaction hE
  rw [hscript] at htransaction
  cases htransaction with
  | exec hfailed => exact hfailed

/-- A step under one lock keeps every session where it can be, and is serial. -/
theorem Exclusive.step (hapart : Locked (fun _ _ => True) (Apart holds) s)
    (hs : ∀ session ∈ s.sessions, Pending E program holds error s.store session) (h : E.step program s a = some s') :
    (∀ session ∈ s'.sessions, Pending E program holds error s'.store session) ∧ SerialStep E program error s s' := by
  rcases step_cases h with ⟨r, -, rfl⟩ | ⟨i, outcome, session, -, hsession, hruns⟩
  · have hnew : Pending E program holds error s.store (E.newSession program r) := .waits rfl rfl
    constructor
    · intro session hmem
      rcases List.mem_append.mp hmem with hmem | hmem
      · exact hs session hmem
      · rw [List.mem_singleton.mp hmem]
        exact hnew.closed
    · cases hprogram : program r with
      | answer a =>
        refine .answers r a rfl ?_ (.inr ?_)
        · simp [newSession, hprogram, Engine.answers]
        · rw [hprogram, alone]
      | exec stmt next =>
        refine .silent rfl ?_
        simp [newSession, hprogram, Engine.answers]
      | commit next => exact absurd hprogram (hE.begins r next)
  · have hpending := hs session (List.mem_of_getElem? hsession)
    have hothers : ∀ j b, j ≠ i → s.sessions[j]? = some b → Pending E program holds error s.store b :=
      fun j b _ hb => hs b (List.mem_of_getElem? hb)
    cases hruns with
    | @exec stmt next writes reply hscript hexec =>
      have hlock := hpending.exec hE hscript hexec
      refine ⟨pending_put hothers (.holds hlock), ?_⟩
      cases hnext : next reply with
      | answer a =>
        refine .answers session.request a rfl ?_ (.inr ?_)
        · simp [put, Engine.answers]
        · have halone := hlock.alone
          simp only [hnext, alone] at halone
          exact halone.symm
      | exec stmt' next' =>
        refine .silent rfl ?_
        simp [put, Engine.answers]
      | commit next' =>
        refine .silent rfl ?_
        simp [put, Engine.answers]
    | @fails stmt next hscript =>
      have hnext := hpending.fails hE hscript
      refine ⟨pending_put hothers (.answered error hnext), .answers session.request error rfl ?_ (.inl rfl)⟩
      simp [put, hnext, Engine.answers]
    | @commits next told hscript =>
      obtain ⟨hholds, a, hdone, hfails, halone⟩ := hpending.commit hE hscript
      have hnext : ∃ b, next told = .answer b ∧ (b = error ∨ b = a) := by
        cases told with
        | true => exact ⟨a, hdone, .inr rfl⟩
        | false => exact ⟨error, hfails, .inl rfl⟩
      obtain ⟨b, hb, hab⟩ := hnext
      constructor
      · refine pending_put (fun j c hj hc => ?_) (.answered b hb)
        -- The other sessions do not hold the lock.
        exact (hothers j c hj hc).frame fun hc' => hapart.apart i j session c (Ne.symm hj) hsession hc ⟨hholds, hc'⟩
      · refine .commits session.request a b session.writes ?_ halone hab
        simp [put, Engine.apply, hb, Engine.answers]
    | @aborts next hscript =>
      obtain ⟨-, -, -, hfails, -⟩ := hpending.commit hE hscript
      refine ⟨pending_put hothers (.answered error hfails), .answers session.request error rfl ?_ (.inl rfl)⟩
      simp [put, hfails, Engine.answers]

/-- Every interleaving is serial: a property of the store that scripts running alone keep is kept by runs. -/
theorem Exclusive.run {actions : List (Action Req)}
    (h : E.run program { store } actions = some s) :
    Locked (fun _ _ => True) (Apart holds) s ∧
      ∀ session ∈ s.sessions, Pending E program holds error s.store session := by
  induction actions using List.reverseRecOn generalizing s with
  | nil =>
    obtain rfl := Option.some.inj h
    exact ⟨⟨fun i a ha => trivial, fun i j a b _ ha => nomatch ha⟩, fun _ hmem => nomatch hmem⟩
  | append_singleton actions a ih =>
    rw [run_append] at h
    obtain ⟨s₀, hs₀, hstep⟩ := Option.bind_eq_some_iff.mp h
    obtain ⟨s₁, hs₁, hlast⟩ := Option.bind_eq_some_iff.mp hstep
    obtain rfl := Option.some.inj hlast
    obtain ⟨hapart, hpending⟩ := ih hs₀
    exact ⟨hapart.step hE.locking hs₁, (hE.step hapart hpending hs₁).1⟩

end

end

end Engine
