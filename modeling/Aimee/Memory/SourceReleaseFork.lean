-- SUMMARY: Forks of a source release, and runs of calls against one owner.
import Aimee.Memory.SourceRelease

/-!
# Forks

`source_release_fork.go`. A fork copies the sources of an entry for another request of the same
principal; it becomes an entry of its own once its own challenge was answered.
-/

namespace SourceRelease

variable {Ref : Type}

section Fork

variable (P : Platform Ref)

def dropFork (s : State Ref) (ticket : String) : State Ref :=
  match s.forks.get? ticket with
  | none => s
  | some fork =>
    { s with
      forks := s.forks.erase ticket
      bytes := s.bytes - P.sourceReleaseBytes fork.entry
      healthBytes := s.healthBytes - fork.entry.healthSize }

def forkPolicyCurrent (e : Entry Ref) : Bool :=
  e.assemblyParts.all fun part =>
    part.selectionPolicy = "" ||
      part.selectionPolicy = typedSelectionPolicyVersion && part.selectionPolicyDigest = P.rankingArtifactDigest

def sourceForkArgs (args : Args) (request ticket : String) (operation : Operation) : Args :=
  { args with requestId := .value request, sourceReleaseTicket := .value ticket, operation }

/-- The request a fork is for, if the arguments name one. -/
def forkRequest (args : Args) : Option String := do
  let oldId ← args.requestId.value?
  let principal ← args.principal.value?
  let _ ← args.callerSubject.value?
  let newId ← args.newRequestId.value?
  if oldId = "" ∨ principal = "" ∨ len oldId > 256 ∨ newId = "" ∨ len newId > 256 ∨ newId = oldId ∨
      newId.toList.any (fun c => c = '\x00' || c = '\r' || c = '\n') then none
  else some newId

/-- The candidate of a fork. -/
def forkCandidate (parent : Entry Ref) (binding : String) : Entry Ref where
  sources := parent.sources
  executionGrades := parent.executionGrades
  assemblyParts := parent.assemblyParts
  assemblyDigest := parent.assemblyDigest
  assemblyMetadata := parent.assemblyMetadata
  healthMetadata := parent.healthMetadata
  workspace := parent.workspace
  project := parent.project
  binding := binding
  digest := parent.digest
  expires := parent.expires

/-- Whether a fork of an entry fits. -/
def forkFits (s : State Ref) (parent : Entry Ref) : Bool :=
  s.entries.size + s.forks.size < sourceReleaseMaxEntries && s.forkBindings.size < sourceReleaseMaxEntries &&
    s.bytes + P.sourceReleaseBytes parent ≤ sourceReleaseMaxBytes &&
    s.healthBytes + parent.healthSize ≤ sourceReleaseHealthMaxBytes

/-- The pending fork of an entry, under its ticket. -/
def openFork (s : State Ref) (token : String) (fork : Fork Ref) : State Ref :=
  { s with
    forks := s.forks.put token fork
    forkBindings := s.forkBindings.put fork.binding fork.entry.expires
    bytes := s.bytes + P.sourceReleaseBytes fork.entry
    healthBytes := s.healthBytes + fork.entry.healthSize }

/-- The branch `source-release-fork-plan`. -/
def forkPlan (s : State Ref) (args : Args) (parentToken : String) (parent : Entry Ref)
    (newId binding : String) (now : Time) (draws : Draws) : State Ref × Reply Ref :=
  if (s.forkBindings.get? binding).isSome then (s, unavailable "source release fork request already used")
  else if s.entries.rows.any fun row => row.2.binding = binding then
    (s, unavailable "source release fork request already used")
  else if !forkFits P s parent then (s, unavailable "source release fork capacity")
  else
    match draws.ticket with
    | none => (s, unavailable "source release fork identity unavailable")
    | some token =>
      let fork : Fork Ref :=
        { parent := parentToken, oldBinding := parent.binding, newRequest := newId, binding,
          entry := forkCandidate parent binding }
      match handleSourceReleaseLocked P (openFork P s token fork) (sourceForkArgs args newId token .sourceReleasePlan)
          (some (.fork token)) now draws with
      | (s, .challenge c) => (s, .forkChallenge token newId c)
      | (s, reply) => (dropFork P s token, reply)

/-- A fork that was admitted, as an entry. -/
def promoteFork (s : State Ref) (token : String) : State Ref :=
  match s.forks.get? token with
  | none => s
  | some fork =>
    { s with
      entries := s.entries.put token fork.entry.unadmit
      forks := s.forks.erase token }

/-- The branch `source-release-fork-result`. -/
def forkResult (s : State Ref) (args : Args) (parentToken : String) (parent : Entry Ref)
    (newId binding : String) (now : Time) (draws : Draws) : State Ref × Reply Ref :=
  let token := args.forkTicket.orElse ""
  let refused := unavailable "source release fork challenge unavailable"
  match s.forks.get? token with
  | none => (s, refused)
  | some fork =>
    if args.operation ≠ .sourceReleaseForkResult ∨ fork.parent ≠ parentToken ∨ fork.oldBinding ≠ parent.binding ∨
        fork.newRequest ≠ newId ∨ fork.binding ≠ binding ∨ !forkPolicyCurrent P fork.entry then
      (s, refused)
    else
      match handleSourceReleaseLocked P s (sourceForkArgs args newId token .sourceReleaseResult)
        (some (.fork token)) now draws with
      | (s, .admitted) => (promoteFork s token, .forkAdmitted token newId)
      | (s, reply) => (dropFork P s token, reply)

def handleSourceReleaseFork (s : State Ref) (args : Args) (now : Time) (draws : Draws) : State Ref × Reply Ref :=
  let s := expire P s now
  let refused := unavailable "source release fork owner unavailable"
  if args.sendGuard.present then
    (s, .error "invalid_argument" "source release fork does not acquire send guards")
  else
    let parentToken := args.sourceReleaseTicket.orElse ""
    match forkRequest args, s.entries.get? parentToken with
    | some newId, some parent =>
      if parent.binding ≠ P.releaseBinding args ∨ !forkPolicyCurrent P parent then (s, refused)
      else
        let binding := P.releaseBinding (sourceForkArgs args newId "" .other)
        if args.operation = .sourceReleaseForkPlan then forkPlan P s args parentToken parent newId binding now draws
        else forkResult P s args parentToken parent newId binding now draws
    | _, _ => (s, refused)

/-! ## Runs -/

inductive Call (Ref : Type) where
  | prepare (args : Args) (assembly : Assembly Ref)
  | release (args : Args)
  | fork (args : Args)
  | offer (ticket : String)
  | expire

/-- A call, the reading of the clock, and the tokens that are drawn for it. -/
structure Step (Ref : Type) where
  call : Call Ref
  now : Time
  draws : Draws := {}

/-- The state after a call. -/
def next (s : State Ref) (st : Step Ref) : State Ref :=
  match st.call with
  | .prepare args assembly => (prepare P s args assembly st.now st.draws).1
  | .release args => (handleSourceRelease P s args st.now st.draws).1
  | .fork args => (handleSourceReleaseFork P s args st.now st.draws).1
  | .offer ticket => explorationOffer s ticket st.draws
  | .expire => expire P s st.now

/-- The state after calls to an owner that starts empty. -/
def run (steps : List (Step Ref)) : State Ref := steps.foldl (next P) {}

theorem run_append (steps steps' : List (Step Ref)) : run P (steps ++ steps') = steps'.foldl (next P) (run P steps) :=
  List.foldl_append

@[simp]
theorem run_concat (steps : List (Step Ref)) (st : Step Ref) : run P (steps ++ [st]) = next P (run P steps) st := by
  rw [run_append]
  rfl

/-- The tokens of a step. -/
def Draws.tokens (d : Draws) : List String :=
  d.ticket.toList ++ d.check.toList ++ d.attempt.toList ++ d.producer.toList

/-- Every token that is drawn is well formed and was never drawn before. -/
structure Fresh (steps : List (Step Ref)) : Prop where
  valid : ∀ token ∈ steps.flatMap (fun st => st.draws.tokens), releaseTokenValid token = true
  distinct : (steps.flatMap fun st => st.draws.tokens).Nodup

end Fork

end SourceRelease
