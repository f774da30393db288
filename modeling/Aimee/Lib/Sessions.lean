-- SUMMARY: Transactions as scripts of statements over a shared store, their interleavings, and the invariant rules for locked writes.
import Mathlib.Data.List.Basic
import Mathlib.Data.List.Induction

/-!
# Interleaved sessions

A script is what one transaction does: it runs a statement, goes on with the reply, and in the end
answers. The writes of a session are its own until it commits. A statement sees the committed store
and the session's own writes; it waits while a row it writes has an uncommitted writer. Sessions
run their statements in any order, and a statement or a commit may fail at any time.
-/

/-- What a transaction does. An answer without a commit drops the writes. -/
inductive Script (Stmt Reply Answer : Type) where
  | answer (a : Answer)
  | exec (stmt : Stmt) (next : Reply → Script Stmt Reply Answer)
  | commit (next : Bool → Script Stmt Reply Answer)

/-- The statements of a store. A statement gets the writes of the other sessions, and has no result
    while it waits for one of them. -/
structure Engine (Stmt Reply Store Writes : Type) where
  fresh : Writes
  exec : Store → List Writes → Writes → Stmt → Option (Writes × Reply)
  failed : Reply
  commit : Store → Writes → Store

namespace Engine

structure Session (Req Stmt Reply Answer Writes : Type) where
  request : Req
  script : Script Stmt Reply Answer
  writes : Writes

inductive Entry (Req Answer Writes : Type) where
  | committed (request : Req) (writes : Writes)
  | answered (request : Req) (answer : Answer)

/-- The committed store, the sessions, and what was committed and answered, newest first. -/
structure State (Req Stmt Reply Answer Store Writes : Type) where
  store : Store
  sessions : List (Session Req Stmt Reply Answer Writes) := []
  log : List (Entry Req Answer Writes) := []

/-- How a statement or a commit ends. A commit may be applied and its reply lost. -/
inductive Outcome where
  | done
  | fails
  | lost
  deriving DecidableEq

inductive Action (Req : Type) where
  | start (request : Req)
  | run (i : ℕ) (outcome : Outcome)

variable {Req Stmt Reply Answer Store Writes : Type} (E : Engine Stmt Reply Store Writes)

/-! ## Steps -/

/-- A session that has answered keeps no writes. -/
def closed (session : Session Req Stmt Reply Answer Writes) : Session Req Stmt Reply Answer Writes :=
  match session.script with
  | .answer _ => { session with writes := E.fresh }
  | _ => session

/-- The log entry of a session that has answered. -/
def answers (session : Session Req Stmt Reply Answer Writes) : List (Entry Req Answer Writes) :=
  match session.script with
  | .answer a => [.answered session.request a]
  | _ => []

def put (s : State Req Stmt Reply Answer Store Writes) (i : ℕ) (session : Session Req Stmt Reply Answer Writes) :
    State Req Stmt Reply Answer Store Writes :=
  { s with sessions := s.sessions.set i (E.closed session), log := answers session ++ s.log }

/-- The committed writes of a session are in the store. -/
def apply (s : State Req Stmt Reply Answer Store Writes) (session : Session Req Stmt Reply Answer Writes) :
    State Req Stmt Reply Answer Store Writes :=
  { s with store := E.commit s.store session.writes, log := .committed session.request session.writes :: s.log }

/-- The writes of the other sessions. -/
def others (s : State Req Stmt Reply Answer Store Writes) (i : ℕ) : List Writes :=
  (s.sessions.eraseIdx i).map (·.writes)

def runSession (s : State Req Stmt Reply Answer Store Writes) (i : ℕ)
    (session : Session Req Stmt Reply Answer Writes) (outcome : Outcome) :
    Option (State Req Stmt Reply Answer Store Writes) :=
  match session.script, outcome with
  | .answer _, _ => none
  | .exec stmt next, .done =>
    (E.exec s.store (others s i) session.writes stmt).map fun (writes, reply) =>
      E.put s i { session with script := next reply, writes := writes }
  | .exec _ next, _ => some (E.put s i { session with script := next E.failed })
  | .commit next, .done => some (E.put (E.apply s session) i { session with script := next true, writes := E.fresh })
  | .commit next, .fails => some (E.put s i { session with script := next false, writes := E.fresh })
  | .commit next, .lost => some (E.put (E.apply s session) i { session with script := next false, writes := E.fresh })

variable (program : Req → Script Stmt Reply Answer)

def newSession (r : Req) : Session Req Stmt Reply Answer Writes :=
  { request := r, script := program r, writes := E.fresh }

def step (s : State Req Stmt Reply Answer Store Writes) :
    Action Req → Option (State Req Stmt Reply Answer Store Writes)
  | .start r => some
      { s with
        sessions := s.sessions ++ [E.closed (E.newSession program r)]
        log := answers (E.newSession program r) ++ s.log }
  | .run i outcome => s.sessions[i]?.bind fun session => E.runSession s i session outcome

/-- The state after actions, none if one of them cannot be taken. -/
def run (s : State Req Stmt Reply Answer Store Writes) (actions : List (Action Req)) :
    Option (State Req Stmt Reply Answer Store Writes) :=
  actions.foldlM (E.step program) s

/-! ## What a step does -/

section Cases

variable {E} {program} {s s' : State Req Stmt Reply Answer Store Writes} {a : Action Req}

/-- A session's step: a statement is done or fails, or a commit is applied or not. -/
inductive Runs (s : State Req Stmt Reply Answer Store Writes) (i : ℕ)
    (session : Session Req Stmt Reply Answer Writes) : State Req Stmt Reply Answer Store Writes → Prop
  | exec {stmt : Stmt} {next : Reply → Script Stmt Reply Answer} {writes : Writes} {reply : Reply}
      (hscript : session.script = .exec stmt next)
      (hexec : E.exec s.store (others s i) session.writes stmt = some (writes, reply)) :
      Runs s i session (E.put s i { session with script := next reply, writes := writes })
  | fails {stmt : Stmt} {next : Reply → Script Stmt Reply Answer} (hscript : session.script = .exec stmt next) :
      Runs s i session (E.put s i { session with script := next E.failed })
  | commits {next : Bool → Script Stmt Reply Answer} (told : Bool) (hscript : session.script = .commit next) :
      Runs s i session (E.put (E.apply s session) i { session with script := next told, writes := E.fresh })
  | aborts {next : Bool → Script Stmt Reply Answer} (hscript : session.script = .commit next) :
      Runs s i session (E.put s i { session with script := next false, writes := E.fresh })

theorem runs_of_runSession {i : ℕ} {session : Session Req Stmt Reply Answer Writes} {outcome : Outcome}
    (h : E.runSession s i session outcome = some s') : Runs (E := E) s i session s' := by
  unfold runSession at h
  split at h
  · cases h
  · next stmt next hscript =>
    obtain ⟨⟨writes, reply⟩, hexec, rfl⟩ := Option.map_eq_some_iff.mp h
    exact .exec hscript hexec
  · next stmt next hscript _ =>
    obtain rfl := Option.some.inj h
    exact .fails hscript
  · next next hscript =>
    obtain rfl := Option.some.inj h
    exact .commits true hscript
  · next next hscript =>
    obtain rfl := Option.some.inj h
    exact .aborts hscript
  · next next hscript =>
    obtain rfl := Option.some.inj h
    exact .commits false hscript

theorem step_cases (h : E.step program s a = some s') :
    (∃ r, a = .start r ∧ s' = { s with
        sessions := s.sessions ++ [E.closed (E.newSession program r)]
        log := answers (E.newSession program r) ++ s.log }) ∨
      ∃ i outcome session, a = .run i outcome ∧ s.sessions[i]? = some session ∧ Runs (E := E) s i session s' := by
  cases a with
  | start r => exact .inl ⟨r, rfl, (Option.some.inj h).symm⟩
  | run i outcome =>
    obtain ⟨session, hsession, hrun⟩ := Option.bind_eq_some_iff.mp h
    exact .inr ⟨i, outcome, session, rfl, hsession, runs_of_runSession hrun⟩

theorem run_append {actions more : List (Action Req)} :
    E.run program s (actions ++ more) = (E.run program s actions).bind fun s => E.run program s more :=
  List.foldlM_append

end Cases

/-! ## Locked writes -/

/-- The rules of a store whose sessions lock what they write: `W` relates a session's writes to the
    committed store, and `D` says that two sessions write apart. -/
structure Locking (W : Store → Writes → Prop) (D : Writes → Writes → Prop) : Prop where
  fresh : ∀ store, W store E.fresh
  fresh_apart : ∀ w, D E.fresh w
  symm : ∀ w w', D w w' → D w' w
  exec : ∀ store others w stmt w' reply, W store w → (∀ o ∈ others, D w o) →
    E.exec store others w stmt = some (w', reply) → W store w' ∧ ∀ o ∈ others, D w' o
  commit : ∀ store w w', W store w → W store w' → D w w' → W (E.commit store w) w'

/-- Every session's writes fit the store, and no two sessions write the same row. -/
structure Locked (W : Store → Writes → Prop) (D : Writes → Writes → Prop)
    (s : State Req Stmt Reply Answer Store Writes) : Prop where
  writes : ∀ (i : ℕ) (a : Session Req Stmt Reply Answer Writes), s.sessions[i]? = some a → W s.store a.writes
  apart : ∀ (i j : ℕ) (a b : Session Req Stmt Reply Answer Writes), i ≠ j → s.sessions[i]? = some a →
    s.sessions[j]? = some b → D a.writes b.writes

section Locking

variable {E} {program} {W : Store → Writes → Prop} {D : Writes → Writes → Prop}
  {s s' : State Req Stmt Reply Answer Store Writes} {session : Session Req Stmt Reply Answer Writes} {i : ℕ}

theorem closed_writes (session : Session Req Stmt Reply Answer Writes) :
    (E.closed session).writes = E.fresh ∨ (E.closed session).writes = session.writes := by
  unfold closed
  split
  · exact .inl rfl
  · exact .inr rfl

/-- A session is put back with writes that fit and stay apart, among others that do. -/
theorem locked_put (hE : E.Locking W D)
    (hwrites : ∀ (j : ℕ) (b : Session Req Stmt Reply Answer Writes), j ≠ i → s.sessions[j]? = some b →
      W s.store b.writes)
    (hpairs : ∀ (j k : ℕ) (a b : Session Req Stmt Reply Answer Writes), j ≠ k → s.sessions[j]? = some a →
      s.sessions[k]? = some b → D a.writes b.writes)
    (hfits : W s.store session.writes)
    (hapart : ∀ (j : ℕ) (b : Session Req Stmt Reply Answer Writes), j ≠ i → s.sessions[j]? = some b →
      D session.writes b.writes) :
    Locked W D (E.put s i session) := by
  have hclosed : W s.store (E.closed session).writes := by
    rcases closed_writes (E := E) session with hw | hw
    · rw [hw]
      exact hE.fresh _
    · rwa [hw]
  have hclosedApart : ∀ (j : ℕ) (b : Session Req Stmt Reply Answer Writes), j ≠ i → s.sessions[j]? = some b →
      D (E.closed session).writes b.writes := by
    intro j b hj hb
    rcases closed_writes (E := E) session with hw | hw
    · rw [hw]
      exact hE.fresh_apart _
    · rw [hw]
      exact hapart j b hj hb
  refine ⟨?_, ?_⟩
  · intro j a ha
    rw [Engine.put, List.getElem?_set] at ha
    split at ha
    · split at ha
      · cases ha
        exact hclosed
      · cases ha
    · next hj => exact hwrites j a (Ne.symm hj) ha
  · intro j k a b hne ha hb
    rw [Engine.put, List.getElem?_set] at ha hb
    split at ha
    · next hj =>
      split at ha
      · cases ha
        rw [if_neg (fun hk => hne (hj.symm.trans hk))] at hb
        exact hclosedApart k b (fun hk => hne (hj.symm.trans hk.symm)) hb
      · cases ha
    · next hj =>
      split at hb
      · split at hb
        · cases hb
          exact hE.symm _ _ (hclosedApart j a (fun h => hj h.symm) ha)
        · cases hb
      · exact hpairs j k a b hne ha hb

theorem others_mem {j : ℕ} {b : Session Req Stmt Reply Answer Writes} (hj : j ≠ i) (hb : s.sessions[j]? = some b) :
    b.writes ∈ others s i :=
  List.mem_map.mpr ⟨b, List.mem_eraseIdx_iff_getElem?.mpr ⟨j, hj, hb⟩, rfl⟩

theorem apart_others (hs : Locked W D s) (hsession : s.sessions[i]? = some session) :
    ∀ o ∈ others s i, D session.writes o := by
  intro o ho
  obtain ⟨b, hb, rfl⟩ := List.mem_map.mp ho
  obtain ⟨j, hj, hbj⟩ := List.mem_eraseIdx_iff_getElem?.mp hb
  exact hs.apart i j session b (Ne.symm hj) hsession hbj

theorem Locked.runs (hE : E.Locking W D) (hs : Locked W D s) (hsession : s.sessions[i]? = some session)
    (h : Runs (E := E) s i session s') : Locked W D s' := by
  have hothers : ∀ (j : ℕ) (b : Session Req Stmt Reply Answer Writes), j ≠ i → s.sessions[j]? = some b →
      W s.store b.writes := fun j b _ hb => hs.writes j b hb
  cases h with
  | exec hscript hexec =>
    obtain ⟨hfits, hapart⟩ := hE.exec _ _ _ _ _ _ (hs.writes i session hsession) (apart_others hs hsession) hexec
    exact locked_put hE hothers hs.apart hfits fun j b hj hb => hapart _ (others_mem hj hb)
  | fails hscript =>
    exact locked_put hE hothers hs.apart (hs.writes i session hsession)
      fun j b hj hb => hs.apart i j session b (Ne.symm hj) hsession hb
  | commits told hscript =>
    refine locked_put hE ?_ hs.apart (hE.fresh _) fun _ _ _ _ => hE.fresh_apart _
    intro j b hj hb
    exact hE.commit _ _ _ (hs.writes i session hsession) (hs.writes j b hb)
      (hs.apart i j session b (Ne.symm hj) hsession hb)
  | aborts hscript => exact locked_put hE hothers hs.apart (hE.fresh _) fun _ _ _ _ => hE.fresh_apart _

theorem Locked.start (hE : E.Locking W D) (hs : Locked W D s) (r : Req) :
    Locked W D ({ s with
      sessions := s.sessions ++ [E.closed (E.newSession program r)]
      log := answers (E.newSession program r) ++ s.log } : State Req Stmt Reply Answer Store Writes) := by
  have hfresh : (E.closed (E.newSession program r)).writes = E.fresh := by
    rcases closed_writes (E := E) (E.newSession program r) with hw | hw
    · exact hw
    · exact hw
  -- The new session is last, and its writes are fresh.
  have hlast : ∀ (j : ℕ) (a : Session Req Stmt Reply Answer Writes),
      (s.sessions ++ [E.closed (E.newSession program r)])[j]? = some a →
      s.sessions[j]? = some a ∨ a.writes = E.fresh := by
    intro j a ha
    rw [List.getElem?_append] at ha
    split at ha
    · exact .inl ha
    · rw [List.getElem?_singleton] at ha
      split at ha
      · cases ha
        exact .inr hfresh
      · cases ha
  refine ⟨?_, ?_⟩
  · intro j a ha
    rcases hlast j a ha with ha | ha
    · exact hs.writes j a ha
    · rw [ha]
      exact hE.fresh _
  · intro j k a b hne ha hb
    rcases hlast j a ha with ha' | ha'
    · rcases hlast k b hb with hb' | hb'
      · exact hs.apart j k a b hne ha' hb'
      · rw [hb']
        exact hE.symm _ _ (hE.fresh_apart _)
    · rw [ha']
      exact hE.fresh_apart _

/-- A step keeps the writes of the sessions apart. -/
theorem Locked.step (hE : E.Locking W D) (hs : Locked W D s) {a : Action Req} (h : E.step program s a = some s') :
    Locked W D s' := by
  rcases step_cases h with ⟨r, -, rfl⟩ | ⟨i, outcome, session, -, hsession, hruns⟩
  · exact hs.start hE r
  · exact hs.runs hE hsession hruns

/-! ## What a session keeps -/

/-- The statement an action runs is one that the store admits. -/
def guarded (G : Store → Stmt → Bool) (s : State Req Stmt Reply Answer Store Writes) : Action Req → Bool
  | .start _ => true
  | .run i _ =>
    match s.sessions[i]?.map Session.script with
    | some (.exec stmt _) => G s.store stmt
    | _ => true

/-- Every action of a run is guarded, in the state it is taken in. -/
def guardedRun (E : Engine Stmt Reply Store Writes) (program : Req → Script Stmt Reply Answer)
    (G : Store → Stmt → Bool) : State Req Stmt Reply Answer Store Writes → List (Action Req) → Bool
  | _, [] => true
  | s, a :: rest => guarded G s a && (E.step program s a).all fun s' => guardedRun E program G s' rest

variable {G : Store → Stmt → Bool}

theorem guarded_exec {outcome : Outcome} {stmt : Stmt} {next : Reply → Script Stmt Reply Answer}
    (h : guarded G s (.run i outcome) = true) (hsession : s.sessions[i]? = some session)
    (hscript : session.script = .exec stmt next) : G s.store stmt = true := by
  rw [guarded, hsession, Option.map_some, hscript] at h
  exact h

/-- A property that guarded steps keep holds after every guarded run. -/
theorem guardedRun_invariant {P : State Req Stmt Reply Answer Store Writes → Prop}
    (hstep : ∀ s a s', P s → guarded G s a = true → E.step program s a = some s' → P s') {actions : List (Action Req)}
    (hs : P s) (hguard : guardedRun E program G s actions = true) (h : E.run program s actions = some s') : P s' := by
  induction actions generalizing s with
  | nil =>
    obtain rfl := Option.some.inj h
    exact hs
  | cons a rest ih =>
    obtain ⟨s₁, hs₁, hrest⟩ := Option.bind_eq_some_iff.mp h
    rw [guardedRun, Bool.and_eq_true, hs₁] at hguard
    exact ih (hstep s a s₁ hs hguard.1 hs₁) hguard.2 hrest

theorem guardedRun_of_all (hG : ∀ store stmt, G store stmt = true) (actions : List (Action Req)) :
    guardedRun E program G s actions = true := by
  induction actions generalizing s with
  | nil => rfl
  | cons a rest ih =>
    rw [guardedRun, Bool.and_eq_true, Option.all_eq_true]
    refine ⟨?_, fun _ _ => ih⟩
    unfold guarded
    split
    · rfl
    · split
      · exact hG _ _
      · rfl

/-- A property of sessions that their guarded steps keep, whatever the others do. -/
structure Keeps (E : Engine Stmt Reply Store Writes) (program : Req → Script Stmt Reply Answer)
    (G : Store → Stmt → Bool) (J : Req → Script Stmt Reply Answer → Writes → Prop) : Prop where
  start : ∀ r, J r (program r) E.fresh
  answer : ∀ r a w, J r (.answer a) w → J r (.answer a) E.fresh
  exec : ∀ r stmt next w store others w' reply, J r (.exec stmt next) w → G store stmt = true →
    E.exec store others w stmt = some (w', reply) → J r (next reply) w'
  fails : ∀ r stmt next w, J r (.exec stmt next) w → J r (next E.failed) w
  commit : ∀ r next w told, J r (.commit next) w → J r (next told) E.fresh

variable {J : Req → Script Stmt Reply Answer → Writes → Prop}

theorem Keeps.closed (hJ : Keeps E program G J) (h : J session.request session.script session.writes) :
    J (E.closed session).request (E.closed session).script (E.closed session).writes := by
  unfold Engine.closed
  split
  · next a hscript =>
    rw [hscript] at h ⊢
    exact hJ.answer _ _ _ h
  · exact h

theorem Keeps.step (hJ : Keeps E program G J)
    (hs : ∀ session ∈ s.sessions, J session.request session.script session.writes) {a : Action Req}
    (hguard : guarded G s a = true) (h : E.step program s a = some s') :
    ∀ session ∈ s'.sessions, J session.request session.script session.writes := by
  rcases step_cases h with ⟨r, -, rfl⟩ | ⟨i, outcome, session, rfl, hsession, hruns⟩
  · intro session hmem
    rcases List.mem_append.mp hmem with hmem | hmem
    · exact hs session hmem
    · rw [List.mem_singleton.mp hmem]
      exact hJ.closed (hJ.start r)
  · have hkept := hs session (List.mem_of_getElem? hsession)
    have hput : ∀ session', J session'.request session'.script session'.writes →
        ∀ b ∈ s.sessions.set i (E.closed session'), J b.request b.script b.writes := by
      intro session' hsession' b hb
      rcases List.mem_or_eq_of_mem_set hb with hb | rfl
      · exact hs b hb
      · exact hJ.closed hsession'
    cases hruns with
    | exec hscript hexec =>
      rw [hscript] at hkept
      exact hput _ (hJ.exec _ _ _ _ _ _ _ _ hkept (guarded_exec hguard hsession hscript) hexec)
    | fails hscript =>
      rw [hscript] at hkept
      exact hput _ (hJ.fails _ _ _ _ hkept)
    | commits told hscript =>
      rw [hscript] at hkept
      exact hput _ (hJ.commit _ _ _ _ hkept)
    | aborts hscript =>
      rw [hscript] at hkept
      exact hput _ (hJ.commit _ _ _ _ hkept)

end Locking

end Engine
