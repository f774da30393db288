-- SUMMARY: In every run a receipt with versioned sources follows one plan and one accepted answer set of its entry.
import Aimee.Memory.Fence
import Aimee.Memory.Pressure
import Mathlib.Data.List.Dedup

/-!
# Runs and the source fence

The plans and answer sets of each ticket are read off a run. A receipt is prepared for an entry only
when they end with a plan and the one answer set that was accepted for it.
-/

namespace SourceRelease

open GoText

variable {Ref : Type}

/-! ## What a run did to a ticket -/

/-- A plan of an entry with the check that was drawn, or an answer set that was submitted for it. -/
inductive FenceEvent where
  | plan (args : Args) (check : Option String)
  | answer (args : Args)

section Events

variable (P : Platform Ref)

/-- What the operation of a release call is to its entry. An operation without a branch of its own is
    an answer set. -/
def Args.event (args : Args) (draws : Draws) : Option FenceEvent :=
  match args.operation with
  | .sourceReleasePlan => some (.plan args draws.check)
  | .sourceReleaseResult | .sourceReleaseForkPlan | .sourceReleaseForkResult | .other => some (.answer args)
  | _ => none

/-- What a release call is to the entry under a ticket. -/
def releaseEvent (s : State Ref) (ticket : String) (args : Args) (draws : Draws) : Option FenceEvent :=
  if args.sourceReleaseTicket.orElse "" ≠ ticket then none
  else
    match s.entries.get? ticket with
    | none => none
    | some e => if e.binding ≠ P.releaseBinding args then none else args.event draws

/-- What a fork call is to the fork under a ticket: a fork that appears was planned, and one that
    disappears was answered for. -/
def forkEvent (s s' : State Ref) (ticket : String) (args : Args) (draws : Draws) : Option FenceEvent :=
  let forkArgs := sourceForkArgs args (args.newRequestId.orElse "") ticket
  match s.forks.get? ticket, s'.forks.get? ticket with
  | none, some _ => some (.plan (forkArgs .sourceReleasePlan) draws.check)
  | some _, none => some (.answer (forkArgs .sourceReleaseResult))
  | _, _ => none

def fenceEvent (s : State Ref) (ticket : String) (st : Step Ref) : Option FenceEvent :=
  match st.call with
  | .release args => releaseEvent P (expire P s st.now) ticket args st.draws
  | .fork args => forkEvent (expire P s st.now) (next P s st) ticket args st.draws
  | _ => none

/-- The plans and answer sets of a ticket in a run. -/
def trace (ticket : String) (steps : List (Step Ref)) : List FenceEvent :=
  (steps.foldl (fun run st => (next P run.1 st, run.2 ++ (fenceEvent P run.1 ticket st).toList))
    (({} : State Ref), [])).2

theorem trace_concat (ticket : String) (steps : List (Step Ref)) (st : Step Ref) :
    trace P ticket (steps ++ [st]) = trace P ticket steps ++ (fenceEvent P (run P steps) ticket st).toList := by
  have hrun : (steps.foldl (fun run st => (next P run.1 st, run.2 ++ (fenceEvent P run.1 ticket st).toList))
      (({} : State Ref), [])).1 = run P steps := by
    induction steps using List.reverseRecOn with
    | nil => rfl
    | append_singleton steps st ih => rw [List.foldl_append, run_concat, ← ih]; rfl
  rw [trace, List.foldl_append, ← hrun]
  rfl

/-- A receipt with versioned sources appears between two states. -/
def Prepares (s s' : State Ref) (b : ReceiptBinding) : Prop :=
  ∃ id r, s.receipts.get? id = none ∧ s'.receipts.get? id = some r ∧ r.prepared.binding = some b ∧
    b.sourceCoverage ≠ "no_versioned_source_handle"

/-- A check that a receipt of a run was prepared with. -/
def Spent (steps : List (Step Ref)) (check : String) : Prop :=
  ∃ before st after b, steps = before ++ st :: after ∧
    Prepares (run P before) (next P (run P before) st) b ∧ b.sourceCheckId = check

/-- A plan whose send guard does not decode reaches an entry that has sources and grades and was never
    asked for, or was answered for since: the check is pending without the digests of the sources. -/
def GuardSlip (s : State Ref) (st : Step Ref) : Prop :=
  ∃ args e, st.call = .release args ∧ args.operation = .sourceReleasePlan ∧ args.sendGuard = .malformed ∧
    (expire P s st.now).entries.get? (args.sourceReleaseTicket.orElse "") = some e ∧ e.binding = P.releaseBinding args ∧
    e.pendingLocalDigest = "" ∧ e.pendingSharedDigest = "" ∧ e.sources ≠ [] ∧ e.executionGrades ≠ "" ∧
    P.decodeGrades e.executionGrades ≠ none

/-- No step of a run leaves a check pending without the digests of the sources. -/
def NoGuardSlip (steps : List (Step Ref)) : Prop :=
  ∀ before st after, steps = before ++ st :: after → ¬ GuardSlip P (run P before) st

/-- `releaseToken` returns a check to every plan. -/
def ChecksDrawn (steps : List (Step Ref)) : Prop :=
  ∀ st ∈ steps, ∀ args, st.call = .release args → args.operation = .sourceReleasePlan → st.draws.check ≠ none

/-- What is required of a step that prepares a receipt: a plan and one answer set that was accepted for
    it are the last the ticket saw, all for the binding of the entry, and the check is used once. -/
def Released (before : List (Step Ref)) (st : Step Ref) (b : ReceiptBinding) : Prop :=
  ∃ args e earlier planArgs answerArgs, st.call = .release args ∧
    (expire P (run P before) st.now).entries.get? (args.sourceReleaseTicket.orElse "") = some e ∧
    trace P (args.sourceReleaseTicket.orElse "") before = earlier ++
      [.plan planArgs (some b.sourceCheckId), .answer answerArgs] ∧
    Accepted P e.fence b.sourceCheckId answerArgs ∧ P.releaseBinding planArgs = e.binding ∧
      P.releaseBinding args = e.binding ∧
    b.requestBinding = e.binding ∧ b.sources = P.sourcesText e ∧ ¬ Spent P before b.sourceCheckId

/-- What is required of a fork step: the entries that are held stay as they are, and an entry that is
    made of a fork follows the plan and the accepted answer set of that fork, and is not admitted. -/
def ForkReleased (before : List (Step Ref)) (st : Step Ref) (args : Args) : Prop :=
  let s := expire P (run P before) st.now
  let s' := next P (run P before) st
  (∀ t e, s.entries.get? t = some e → s'.entries.get? t = some e) ∧
    ∀ t e, s.entries.get? t = none → s'.entries.get? t = some e →
      e.admitted = "" ∧ e.guardedAdmission = "" ∧ e.guardedAdmissionAt = none ∧
      ∃ k planArgs check, s.forks.get? t = some k ∧ e.sources = k.entry.sources ∧
        e.executionGrades = k.entry.executionGrades ∧
        e.binding = k.entry.binding ∧ trace P t before = [.plan planArgs (some check)] ∧
          P.releaseBinding planArgs = e.binding ∧
        Accepted P k.entry.fence check (sourceForkArgs args (args.newRequestId.orElse "") t .sourceReleaseResult)

/-- The source fence over a run. -/
def Guarded (steps : List (Step Ref)) : Prop :=
  ∀ before st after, steps = before ++ st :: after →
    (∀ b, Prepares (run P before) (next P (run P before) st) b → Released P before st b) ∧
    ∀ args, st.call = .fork args → ForkReleased P before st args

end Events

/-! ## The invariant -/

def Fence.Holds (f : Fence Ref) (check : String) : Prop := f.pending = check ∨ f.admitted = check

def Slot.ticket : Slot → String
  | .entry ticket => ticket
  | .fork ticket => ticket

/-- A fence that agrees with the trace of its ticket. -/
structure Fence.Traced (P : Platform Ref) (trace : List FenceEvent) (f : Fence Ref) : Prop where
  asked : f.Asked P ∨ f.pending = "" ∧ f.localDigest = "" ∧ f.sharedDigest = ""
  single : f.pending = "" ∨ f.admitted = ""
  pending : f.pending ≠ "" → ∃ earlier planArgs, trace = earlier ++ [.plan planArgs (some f.pending)] ∧
    P.releaseBinding planArgs = f.binding
  admitted : f.admitted ≠ "" → ∃ earlier planArgs answerArgs,
    trace = earlier ++ [.plan planArgs (some f.admitted), .answer answerArgs] ∧ P.releaseBinding planArgs = f.binding ∧
      Accepted P f f.admitted answerArgs

/-- What holds in every run, for the tokens that were drawn, the log of each ticket, and the checks
    that receipts took. -/
structure FenceInv (P : Platform Ref) (tokens : List String) (log : String → List FenceEvent) (taken : String → Prop)
    (s : State Ref) : Prop where
  traced : ∀ slot e, s.at? slot = some e → e.fence.Traced P (log slot.ticket)
  /-- A pending fork was planned, and nothing else happened to it. -/
  fork : ∀ t e, s.at? (.fork t) = some e → e.fence.pending ≠ "" ∧ (log t).length = 1
  /-- A ticket is an entry or a fork, not both. -/
  alone : ∀ slot slot' e e', s.at? slot = some e → s.at? slot' = some e' → slot.ticket = slot'.ticket → slot = slot'
  used : ∀ slot e, s.at? slot = some e → slot.ticket ∈ tokens
  unlogged : ∀ t, t ∉ tokens → log t = []
  drawn : ∀ c, taken c → c ∈ tokens
  /-- A check is held once, and no receipt took it yet. -/
  held : ∀ slot e c, s.at? slot = some e → c ≠ "" → e.fence.Holds c → c ∈ tokens ∧ ¬ taken c ∧
    ∀ slot' e', s.at? slot' = some e' → e'.fence.Holds c → slot' = slot

variable {P : Platform Ref} {tokens tokens' : List String} {log log' : String → List FenceEvent}
  {taken taken' : String → Prop}

theorem fenceInv_empty : FenceInv P [] (fun _ => []) (fun _ => False) {} where
  traced slot _ h := by cases slot <;> cases h
  fork _ _ h := by cases h
  alone slot _ _ _ h := by cases slot <;> cases h
  used slot _ h := by cases slot <;> cases h
  unlogged _ _ := rfl
  drawn _ h := h.elim
  held slot _ _ h := by cases slot <;> cases h

theorem FenceInv.update {s s' : State Ref} (h : FenceInv P tokens log taken s) (slot : Slot)
    (hothers : ∀ slot' e', slot' ≠ slot → s'.at? slot' = some e' → ∃ e, s.at? slot' = some e ∧ e'.fence = e.fence)
    (halone : ∀ slot' e' e'', slot' ≠ slot → s'.at? slot = some e'' → s'.at? slot' = some e' →
      slot'.ticket ≠ slot.ticket)
    (htokens : ∀ t ∈ tokens, t ∈ tokens') (hlog : ∀ t, t ≠ slot.ticket → log' t = log t)
    (hlog' : log' slot.ticket = log slot.ticket ∨ slot.ticket ∈ tokens' ∧
      ∀ slot' e', slot' ≠ slot → s'.at? slot' = some e' → slot'.ticket ≠ slot.ticket)
    (htaken : ∀ c, taken' c → c ∈ tokens' ∧ (taken c ∨ c ≠ "" ∧ ∀ slot' e, slot' ≠ slot →
      s.at? slot' = some e → ¬ e.fence.Holds c))
    (hslot : ∀ e', s'.at? slot = some e' → slot.ticket ∈ tokens' ∧ e'.fence.Traced P (log' slot.ticket) ∧
      (∀ t, slot = .fork t → e'.fence.pending ≠ "" ∧ (log' t).length = 1) ∧
      ∀ c, c ≠ "" → e'.fence.Holds c → c ∈ tokens' ∧ ¬ taken' c ∧ ∀ slot' e, slot' ≠ slot →
        s.at? slot' = some e → ¬ e.fence.Holds c) :
    FenceInv P tokens' log' taken' s' := by
  have hsame : ∀ slot' e', slot' ≠ slot → s'.at? slot' = some e' → log' slot'.ticket = log slot'.ticket := by
    intro slot' e' hne he'
    by_cases hticket : slot'.ticket = slot.ticket
    · rcases hlog' with hlog' | ⟨-, hapart⟩
      · rw [hticket, hlog']
      · exact absurd hticket (hapart slot' e' hne he')
    · exact hlog _ hticket
  refine ⟨?_, ?_, ?_, ?_, ?_, fun c hc => (htaken c hc).1, ?_⟩
  · intro slot' e' he'
    by_cases hne : slot' = slot
    · subst hne
      exact (hslot e' he').2.1
    · obtain ⟨e, he, hfence⟩ := hothers slot' e' hne he'
      rw [hsame slot' e' hne he', hfence]
      exact h.traced slot' e he
  · intro t e' he'
    by_cases hne : Slot.fork t = slot
    · subst hne
      exact (hslot e' he').2.2.1 t rfl
    · obtain ⟨e, he, hfence⟩ := hothers _ e' hne he'
      have hlogged := hsame _ e' hne he'
      change log' t = log t at hlogged
      rw [hlogged, hfence]
      exact h.fork t e he
  · intro slot₁ slot₂ e₁ e₂ h₁ h₂ hticket
    by_cases hne₁ : slot₁ = slot
    · by_cases hne₂ : slot₂ = slot
      · rw [hne₁, hne₂]
      · subst hne₁
        exact absurd hticket.symm (halone slot₂ e₂ e₁ hne₂ h₁ h₂)
    · by_cases hne₂ : slot₂ = slot
      · subst hne₂
        exact absurd hticket (halone slot₁ e₁ e₂ hne₁ h₂ h₁)
      · obtain ⟨e, he, -⟩ := hothers slot₁ e₁ hne₁ h₁
        obtain ⟨e', he', -⟩ := hothers slot₂ e₂ hne₂ h₂
        exact h.alone slot₁ slot₂ e e' he he' hticket
  · intro slot' e' he'
    by_cases hne : slot' = slot
    · subst hne
      exact (hslot e' he').1
    · obtain ⟨e, he, -⟩ := hothers slot' e' hne he'
      exact htokens _ (h.used slot' e he)
  · intro t ht
    have hold := h.unlogged t fun hmem => ht (htokens t hmem)
    by_cases hticket : t = slot.ticket
    · rcases hlog' with hlog' | ⟨hmem, -⟩
      · rw [hticket, hlog', ← hticket, hold]
      · exact absurd (hticket ▸ hmem) ht
    · rw [hlog t hticket, hold]
  · intro slot₁ e₁ c h₁ hc hholds
    by_cases hne₁ : slot₁ = slot
    · subst hne₁
      obtain ⟨hmem, hfree, honly⟩ := (hslot e₁ h₁).2.2.2 c hc hholds
      refine ⟨hmem, hfree, fun slot₂ e₂ h₂ hholds₂ => ?_⟩
      by_contra hne₂
      obtain ⟨e, he, hfence⟩ := hothers slot₂ e₂ hne₂ h₂
      exact honly slot₂ e hne₂ he (hfence ▸ hholds₂)
    · obtain ⟨e, he, hfence⟩ := hothers slot₁ e₁ hne₁ h₁
      rw [hfence] at hholds
      obtain ⟨hmem, hfree, honly⟩ := h.held slot₁ e c he hc hholds
      refine ⟨htokens c hmem, fun htook => ?_, fun slot₂ e₂ h₂ hholds₂ => ?_⟩
      · rcases (htaken c htook).2 with htook | ⟨-, hnone⟩
        · exact hfree htook
        · exact hnone slot₁ e hne₁ he hholds
      · by_cases hne₂ : slot₂ = slot
        · subst hne₂
          exact absurd hholds (((hslot e₂ h₂).2.2.2 c hc hholds₂).2.2 slot₁ e hne₁ he)
        · obtain ⟨e', he', hfence'⟩ := hothers slot₂ e₂ hne₂ h₂
          exact honly slot₂ e' he' (hfence' ▸ hholds₂)

theorem FenceInv.quiet {s s' : State Ref} (h : FenceInv P tokens log taken s) (hquiet : Quiet s s') :
    FenceInv P tokens log taken s' where
  traced slot e' he' := by
    obtain ⟨e, he, hfence⟩ := hquiet slot e' he'
    rw [hfence]
    exact h.traced slot e he
  fork t e' he' := by
    obtain ⟨e, he, hfence⟩ := hquiet _ e' he'
    rw [hfence]
    exact h.fork t e he
  alone slot slot' e₁ e₂ h₁ h₂ hticket := by
    obtain ⟨e, he, -⟩ := hquiet slot e₁ h₁
    obtain ⟨e', he', -⟩ := hquiet slot' e₂ h₂
    exact h.alone slot slot' e e' he he' hticket
  used slot e' he' := by
    obtain ⟨e, he, -⟩ := hquiet slot e' he'
    exact h.used slot e he
  unlogged := h.unlogged
  drawn := h.drawn
  held slot e' c he' hc hholds := by
    obtain ⟨e, he, hfence⟩ := hquiet slot e' he'
    rw [hfence] at hholds
    obtain ⟨hmem, hfree, honly⟩ := h.held slot e c he hc hholds
    refine ⟨hmem, hfree, fun slot₂ e₂ h₂ hholds₂ => ?_⟩
    obtain ⟨e', he', hfence'⟩ := hquiet slot₂ e₂ h₂
    exact honly slot₂ e' he' (hfence' ▸ hholds₂)

theorem FenceInv.mono {s : State Ref} (h : FenceInv P tokens log taken s) (htokens : ∀ t ∈ tokens, t ∈ tokens')
    (hlog : ∀ t, log' t = log t) (htaken : ∀ c, taken' c → taken c) : FenceInv P tokens' log' taken' s := by
  have hsame : log' = log := funext hlog
  subst hsame
  refine ⟨h.traced, h.fork, h.alone, fun slot e he => htokens _ (h.used slot e he), ?_, ?_, ?_⟩
  · exact fun t ht => h.unlogged t fun hmem => ht (htokens t hmem)
  · exact fun c hc => htokens c (h.drawn c (htaken c hc))
  · intro slot e c he hc hholds
    obtain ⟨hmem, hfree, honly⟩ := h.held slot e c he hc hholds
    exact ⟨htokens c hmem, fun htook => hfree (htaken c htook), honly⟩

/-- A step that changes the fence of an entry, and extends the log of its ticket. -/
theorem FenceInv.touch {s s' : State Ref} {ticket : String} {e : Entry Ref} {f : Fence Ref → Fence Ref}
    (h : FenceInv P tokens log taken s) (event : Option FenceEvent)
    (htouches : Touches (.entry ticket) f s s') (he : s.at? (.entry ticket) = some e)
    (htokens : ∀ t ∈ tokens, t ∈ tokens') (hlog : ∀ t, log' t = log t ++ if t = ticket then event.toList else [])
    (htaken : ∀ c, taken' c → taken c ∨ c ≠ "" ∧ e.fence.Holds c) (htraced : (f e.fence).Traced P (log' ticket))
    (hheld : ∀ c, c ≠ "" → (f e.fence).Holds c →
      c ∈ tokens' ∧ (¬ taken' c) ∧ (e.fence.Holds c ∨ c ∉ tokens)) : FenceInv P tokens' log' taken' s' := by
  have hapart : ∀ slot' e', slot' ≠ .entry ticket → s.at? slot' = some e' → slot'.ticket ≠ ticket :=
    fun slot' e' hne he' hticket => hne (h.alone slot' (.entry ticket) e' e he' he hticket)
  have hapart' : ∀ slot' e', slot' ≠ .entry ticket → s'.at? slot' = some e' → slot'.ticket ≠ ticket := by
    intro slot' e' hne he'
    obtain ⟨e₀, he₀, -⟩ := htouches.others slot' e' hne he'
    exact hapart slot' e₀ hne he₀
  refine h.update (.entry ticket) htouches.others (fun slot' e' _ hne _ he' => hapart' slot' e' hne he')
    htokens ?_ ?_ ?_ ?_
  · intro t ht
    have hne : ¬ t = ticket := ht
    rw [hlog, if_neg hne, List.append_nil]
  · exact .inr ⟨htokens _ (h.used (.entry ticket) e he), hapart'⟩
  · intro c hc
    rcases htaken c hc with hc | ⟨hne, hholds⟩
    · exact ⟨htokens c (h.drawn c hc), .inl hc⟩
    · obtain ⟨hmem, -, honly⟩ := h.held _ e c he hne hholds
      exact ⟨htokens c hmem, .inr ⟨hne, fun slot' e' hslot he' hholds' => hslot (honly slot' e' he' hholds')⟩⟩
  · intro e' he'
    obtain ⟨e₀, he₀, hfence⟩ := htouches.slot e' he'
    obtain rfl := Option.some_inj.mp (he₀.symm.trans he)
    refine ⟨htokens _ (h.used (.entry ticket) e₀ he), hfence ▸ htraced, fun t ht =>
      (by cases ht), fun c hc hholds => ?_⟩
    obtain ⟨hmem, hfree, hfrom⟩ := hheld c hc (hfence ▸ hholds)
    refine ⟨hmem, hfree, fun slot' e₁ hne he₁ hholds' => ?_⟩
    rcases hfrom with hfrom | hfrom
    · exact hne ((h.held _ e₀ c he hc hfrom).2.2 slot' e₁ he₁ hholds')
    · exact hfrom (h.held slot' e₁ c he₁ hc hholds').1

/-! ## Release calls -/

theorem not_prepares {s s' : State Ref} (h : NoReceipt s s') (b : ReceiptBinding) : ¬ Prepares s s' b := by
  rintro ⟨id, r, hid, hr, -⟩
  rw [h id hid] at hr
  cases hr

theorem releaseEvent_of_ne {s : State Ref} {ticket : String} {args : Args} {draws : Draws}
    (h : ticket ≠ args.sourceReleaseTicket.orElse "") :
    releaseEvent P s ticket args draws = none :=
  if_pos (Ne.symm h)

theorem releaseEvent_held {s : State Ref} {args : Args} {draws : Draws} {e : Entry Ref}
    (he : s.entries.get? (args.sourceReleaseTicket.orElse "") = some e)
    (hbinding : e.binding = P.releaseBinding args) (ticket : String) :
    releaseEvent P s ticket args draws = if ticket = args.sourceReleaseTicket.orElse "" then
      args.event draws else none := by
  by_cases hticket : ticket = args.sourceReleaseTicket.orElse ""
  · unfold releaseEvent
    rw [if_neg (not_not.mpr hticket.symm), if_pos hticket, hticket, he]
    exact if_neg (not_not.mpr hbinding)
  · rw [if_neg hticket]
    exact releaseEvent_of_ne hticket

theorem releaseEvent_unheld {s : State Ref} {args : Args} {draws : Draws}
    (h : ∀ e, s.entries.get? (args.sourceReleaseTicket.orElse "") = some e → e.binding ≠ P.releaseBinding args)
    (ticket : String) :
    releaseEvent P s ticket args draws = none := by
  by_cases hticket : ticket = args.sourceReleaseTicket.orElse ""
  · unfold releaseEvent
    rw [if_neg (not_not.mpr hticket.symm), hticket]
    split
    · rfl
    · next e he => exact if_pos (h e he)
  · exact releaseEvent_of_ne hticket

theorem releaseEvent_idle {s : State Ref} {args : Args} {draws : Draws} (h : args.event draws = none)
    (ticket : String) :
    releaseEvent P s ticket args draws = none := by
  unfold releaseEvent
  rw [h]
  split
  · rfl
  · split
    · rfl
    · exact ite_self _

/-- What a release call does to the fences. -/
structure ReleaseSpec (P : Platform Ref) (tokens : List String) (log : String → List FenceEvent) (taken : String → Prop)
    (args : Args) (draws : Draws) (s s' : State Ref) : Prop where
  inv : FenceInv P (tokens ++ draws.tokens) (fun t => log t ++ (releaseEvent P s t args draws).toList)
    (fun c => taken c ∨ ∃ b, Prepares s s' b ∧ b.sourceCheckId = c) s'
  released : ∀ b, Prepares s s' b →
    ∃ e earlier planArgs answerArgs, s.entries.get? (args.sourceReleaseTicket.orElse "") = some e ∧
    log (args.sourceReleaseTicket.orElse "") = earlier ++ [.plan planArgs (some b.sourceCheckId), .answer answerArgs] ∧
    Accepted P e.fence b.sourceCheckId answerArgs ∧ P.releaseBinding planArgs = e.binding ∧
      P.releaseBinding args = e.binding ∧
    b.requestBinding = e.binding ∧ b.sources = P.sourcesText e ∧ ¬ taken b.sourceCheckId

/-- A call that prepares no versioned receipt, leaves the fences alone, and is no event. -/
theorem ReleaseSpec.of_quiet {s s' : State Ref} {args : Args} {draws : Draws} (h : FenceInv P tokens log taken s)
    (hquiet : Quiet s s') (hprepares : ∀ b, ¬ Prepares s s' b) (hevent : ∀ t, releaseEvent P s t args draws = none) :
    ReleaseSpec P tokens log taken args draws s s' where
  inv := (h.quiet hquiet).mono (fun t ht => List.mem_append_left _ ht)
    (fun t => by rw [hevent t]; exact List.append_nil _)
    fun c hc => hc.elim id fun ⟨b, hb, _⟩ => absurd hb (hprepares b)
  released b hb := absurd hb (hprepares b)

theorem ReleaseSpec.of_calm {s s' : State Ref} {args : Args} {draws : Draws} (h : FenceInv P tokens log taken s)
    (hcalm : Calm s s') (hevent : ∀ t, releaseEvent P s t args draws = none) :
    ReleaseSpec P tokens log taken args draws s s' :=
  .of_quiet h hcalm.quiet (not_prepares hcalm.receipts) hevent

theorem Accepted.of_same {f g : Fence Ref} {check : String} {args : Args} (h : Accepted P f check args)
    (hsources : g.sources = f.sources)
    (hgrades : g.executionGrades = f.executionGrades) (hbinding : g.binding = f.binding) : Accepted P g check args where
  binding := hbinding ▸ h.binding
  asked := by rw [hsources, hgrades]; exact h.asked
  localOwner := by rw [hsources]; exact h.localOwner
  sharedOwner := by rw [hsources]; exact h.sharedOwner
  grades := by rw [hgrades]; exact h.grades

section Release

variable {s : State Ref} {args : Args} {e : Entry Ref} {now : Time} {draws : Draws}

section

variable (h : FenceInv P tokens log taken s)
include h

theorem FenceInv.receiptPlan (he : s.entries.get? (args.sourceReleaseTicket.orElse "") = some e)
    (hbinding : e.binding = P.releaseBinding args) (hop : args.operation = .providerReceiptPlan) :
    ReleaseSpec P tokens log taken args draws s
      (receiptPlan P s args (some (.entry (args.sourceReleaseTicket.orElse ""), e)) now draws).1 := by
  obtain ⟨htouches, hadds, hnone⟩ :=
    adds_receiptPlan (P := P) s args (.entry (args.sourceReleaseTicket.orElse "")) e now draws
  generalize (SourceRelease.receiptPlan P s args (some (.entry (args.sourceReleaseTicket.orElse ""), e)) now
    draws).1 = s' at *
  have hheld : s.at? (.entry (args.sourceReleaseTicket.orElse "")) = some e := he
  have htraced : e.fence.Traced P (log (args.sourceReleaseTicket.orElse "")) := h.traced _ e hheld
  -- A receipt that appears takes the admission of the entry.
  have htakes : ∀ b, Prepares s s' b → e.admitted ≠ "" ∧ b.sourceCheckId = e.admitted ∧ b.requestBinding = e.binding ∧
      b.sources = P.sourcesText e := by
    rintro b ⟨id, r, hid, hr, hb, hcoverage⟩
    obtain ⟨b', hb', hrelease⟩ := hadds id r hid hr
    obtain rfl := Option.some_inj.mp (hb.symm.trans hb')
    refine ⟨fun hempty => ?_, congrArg (fun release => release.1) hrelease,
      congrArg (fun release => release.2.2.1) hrelease, congrArg (fun release => release.2.2.2.1) hrelease⟩
    exact not_prepares (hnone hempty) b ⟨id, r, hid, hr, hb, hcoverage⟩
  have hevent : args.event draws = none := by rw [Args.event, hop]
  constructor
  · refine h.touch none htouches hheld (fun t ht => List.mem_append_left _ ht) (fun t => ?_) ?_ ?_ ?_
    · rw [releaseEvent_idle hevent, Option.toList_none, ite_self]
    · rintro c (hc | ⟨b, hb, rfl⟩)
      · exact .inl hc
      · obtain ⟨hadmitted, hcheck, -⟩ := htakes b hb
        exact .inr ⟨hcheck ▸ hadmitted, .inr hcheck.symm⟩
    · rw [releaseEvent_idle hevent, Option.toList_none, List.append_nil]
      exact ⟨htraced.asked, .inr rfl, htraced.pending, fun hadmitted => absurd rfl hadmitted⟩
    · rintro c hc (hpending | hadmitted)
      · obtain ⟨hmem, hfree, -⟩ := h.held _ e c hheld hc (.inl hpending)
        refine ⟨List.mem_append_left _ hmem, ?_, .inl (.inl hpending)⟩
        rintro (htook | ⟨b, hb, hcheck⟩)
        · exact hfree htook
        · -- The entry has no admission while its challenge is pending.
          rcases htraced.single with hempty | hempty
          · exact hc (hpending.symm.trans hempty)
          · exact (htakes b hb).1 hempty
      · exact absurd hadmitted.symm hc
  · intro b hb
    obtain ⟨hadmitted, hcheck, hrequest, hsources⟩ := htakes b hb
    obtain ⟨earlier, planArgs, answerArgs, hlog, hplan, haccepted⟩ := htraced.admitted hadmitted
    have hfree := (h.held _ e e.admitted hheld hadmitted (.inr rfl)).2.1
    rw [hcheck]
    exact ⟨e, earlier, planArgs, answerArgs, he, hlog, haccepted, hplan, hbinding.symm, hrequest, hsources, hfree⟩

theorem FenceInv.sourceReleasePlan
    (he : s.entries.get? (args.sourceReleaseTicket.orElse "") = some e) (hbinding : e.binding = P.releaseBinding args)
    (hop : args.operation = .sourceReleasePlan) {check : String} (hcheck : draws.check = some check)
    (hnew : check ∉ tokens)
    (hslip : args.sendGuard = .malformed → e.pendingLocalDigest = "" → e.pendingSharedDigest = "" → e.sources ≠ [] →
      e.executionGrades ≠ "" → P.decodeGrades e.executionGrades = none) :
    ReleaseSpec P tokens log taken args draws s
      (sourceReleasePlan P s args (.entry (args.sourceReleaseTicket.orElse "")) e draws).1 := by
  have hheld : s.at? (.entry (args.sourceReleaseTicket.orElse "")) = some e := he
  obtain ⟨hreceipts, localDigest, sharedDigest, htouches, hasked⟩ :=
    touches_sourceReleasePlan (P := P) args hheld hcheck
  generalize (SourceRelease.sourceReleasePlan P s args (.entry (args.sourceReleaseTicket.orElse "")) e
    draws).1 = s' at *
  have htraced : e.fence.Traced P (log (args.sourceReleaseTicket.orElse "")) := h.traced _ e hheld
  have hevent : args.event draws = some (.plan args (some check)) := by rw [Args.event, hop, ← hcheck]
  have hmem : check ∈ draws.tokens := by simp [Draws.tokens, hcheck]
  have hasked' : (e.fence.planned check localDigest sharedDigest).Asked P := by
    rcases hasked with hasked | ⟨hguard, rfl, rfl⟩
    · exact hasked
    · rcases htraced.asked with hasked | ⟨-, hlocal, hshared⟩
      · exact hasked
      · -- The entry was not asked: it has nothing that needs an owner, or grades that nothing answers for.
        by_cases hsources : e.sources = []
        · refine .inl ⟨?_, ?_⟩
          · change e.pendingLocalDigest = ownerDigest P (P.localSources e.sources)
            rw [hsources]
            exact hlocal
          · change e.pendingSharedDigest = ownerDigest P (P.sharedSources e.sources)
            rw [hsources]
            exact hshared
        · refine .inr ⟨hlocal, hshared, ?_⟩
          by_cases hgrades : e.executionGrades = ""
          · exact .inl hgrades
          · exact .inr (hslip hguard hlocal hshared hsources hgrades)
  constructor
  · refine h.touch (args.event draws) htouches hheld (fun t ht => List.mem_append_left _ ht) (fun t => ?_) ?_ ?_ ?_
    · rw [releaseEvent_held he hbinding]
      split <;> rfl
    · rintro c (hc | ⟨b, hb, -⟩)
      · exact .inl hc
      · exact absurd hb (not_prepares hreceipts b)
    · rw [releaseEvent_held he hbinding, if_pos rfl, hevent]
      exact ⟨.inl hasked', .inr rfl, fun _ => ⟨_, args, rfl, hbinding.symm⟩, fun hadmitted => absurd rfl hadmitted⟩
    · rintro c hc (hpending | hadmitted)
      · obtain rfl : check = c := hpending
        refine ⟨List.mem_append_right _ hmem, ?_, .inr hnew⟩
        rintro (htook | ⟨b, hb, -⟩)
        · exact hnew (h.drawn _ htook)
        · exact not_prepares hreceipts b hb
      · exact absurd hadmitted.symm hc
  · exact fun b hb => absurd hb (not_prepares hreceipts b)

theorem FenceInv.sourceReleaseResult
    (he : s.entries.get? (args.sourceReleaseTicket.orElse "") = some e) (hbinding : e.binding = P.releaseBinding args)
    (hevent : args.event draws = some (.answer args)) :
    ReleaseSpec P tokens log taken args draws s
      (sourceReleaseResult P s args (.entry (args.sourceReleaseTicket.orElse "")) e now).1 := by
  have hheld : s.at? (.entry (args.sourceReleaseTicket.orElse "")) = some e := he
  obtain ⟨hreceipts, htouches⟩ :=
    touches_sourceReleaseResult (P := P) s args (.entry (args.sourceReleaseTicket.orElse "")) e now
  generalize (SourceRelease.sourceReleaseResult P s args (.entry (args.sourceReleaseTicket.orElse "")) e
    now).1 = s' at *
  have htraced : e.fence.Traced P (log (args.sourceReleaseTicket.orElse "")) := h.traced _ e hheld
  have haccepted : (if answerVerdict P e args = .admitted then e.pending else "") ≠ "" →
      answerVerdict P e args = .admitted ∧ e.pending ≠ "" ∧ Accepted P e.fence e.pending args := by
    intro hadmitted
    by_cases hverdict : answerVerdict P e args = .admitted
    · rw [if_pos hverdict] at hadmitted
      have hasked : e.fence.Asked P := htraced.asked.resolve_right fun hblank => hadmitted hblank.1
      exact ⟨hverdict, accepted_of_verdict hverdict hasked hbinding.symm⟩
    · exact absurd (if_neg hverdict) hadmitted
  constructor
  · refine h.touch (args.event draws) htouches hheld (fun t ht => List.mem_append_left _ ht) (fun t => ?_) ?_ ?_ ?_
    · rw [releaseEvent_held he hbinding]
      split <;> rfl
    · rintro c (hc | ⟨b, hb, -⟩)
      · exact .inl hc
      · exact absurd hb (not_prepares hreceipts b)
    · rw [releaseEvent_held he hbinding, if_pos rfl, hevent]
      refine ⟨.inr ⟨rfl, rfl, rfl⟩, .inl rfl, fun hpending => absurd rfl hpending, fun hadmitted => ?_⟩
      obtain ⟨hverdict, hpending, haccepted⟩ := haccepted hadmitted
      obtain ⟨earlier, planArgs, hlog, hplan⟩ := htraced.pending hpending
      refine ⟨earlier, planArgs, args, ?_, hplan, ?_⟩
      · change _ = earlier ++
          [.plan planArgs (some (if answerVerdict P e args = .admitted then e.pending else "")), .answer args]
        rw [hlog, if_pos hverdict, List.append_assoc]
        rfl
      · change Accepted P _ (if answerVerdict P e args = .admitted then e.pending else "") args
        rw [if_pos hverdict]
        exact haccepted.of_same rfl rfl rfl
    · rintro c hc (hpending | hadmitted)
      · exact absurd hpending.symm hc
      · have hadmitted' : (if answerVerdict P e args = .admitted then e.pending else "") = c := hadmitted
        obtain ⟨hverdict, -, -⟩ := haccepted (hadmitted'.symm ▸ hc)
        rw [if_pos hverdict] at hadmitted'
        obtain ⟨hmem, hfree, -⟩ := h.held _ e c hheld hc (.inl hadmitted')
        refine ⟨List.mem_append_left _ hmem, ?_, .inl (.inl hadmitted')⟩
        rintro (htook | ⟨b, hb, -⟩)
        · exact hfree htook
        · exact not_prepares hreceipts b hb
  · exact fun b hb => absurd hb (not_prepares hreceipts b)

end

/-- The operations that read no entry. -/
def Operation.entryless : Operation → Bool
  | .explorationOwnerGeneration | .healthTurnFinish | .providerReceiptStarted | .providerReceiptObserve |
      .providerReceiptStored => true
  | _ => false

theorem Args.event_answer (hentry : args.operation.entryless = false) (hevidence : args.operation ≠ .actionEvidence)
    (hobserve : args.operation ≠ .explorationOwnerObserve) (hreceipt : args.operation ≠ .providerReceiptPlan)
    (hplan : args.operation ≠ .sourceReleasePlan) (hfinish : args.operation ≠ .sourceReleaseFinish)
    (hdiscard : args.operation ≠ .sourceReleaseDiscard) : args.event draws = some (.answer args) := by
  unfold Args.event
  cases hop : args.operation <;> simp_all [Operation.entryless]

theorem Args.event_entryless (hentry : args.operation.entryless = true) : args.event draws = none := by
  unfold Args.event
  cases hop : args.operation <;> simp_all [Operation.entryless]

theorem FenceInv.handleTicket (h : FenceInv P tokens log taken s)
    (hplan : args.operation = .sourceReleasePlan → ∃ check, draws.check = some check ∧ check ∉ tokens)
    (hslip : args.operation = .sourceReleasePlan → args.sendGuard = .malformed →
      ∀ e, s.entries.get? (args.sourceReleaseTicket.orElse "") = some e → e.binding = P.releaseBinding args →
        e.pendingLocalDigest = "" → e.pendingSharedDigest = "" → e.sources ≠ [] → e.executionGrades ≠ "" →
        P.decodeGrades e.executionGrades = none)
    (hentry : args.operation.entryless = false) :
    ReleaseSpec P tokens log taken args draws s
      (handleTicket P s args (.entry (args.sourceReleaseTicket.orElse "")) now draws).1 := by
  have hat : s.at? (.entry (args.sourceReleaseTicket.orElse "")) =
    s.entries.get? (args.sourceReleaseTicket.orElse "") := rfl
  unfold SourceRelease.handleTicket
  dsimp only
  rw [hat]
  split
  · next hfinish => exact .of_calm h (calm_drop _ _ _ _) (releaseEvent_idle (by rw [Args.event, hfinish.1]))
  next hfinish =>
  split
  · next hdiscard => exact .of_calm h (calm_drop _ _ _ _) (releaseEvent_idle (by rw [Args.event, hdiscard.1]))
  next hdiscard =>
  split
  · next hnone => exact .of_calm h (.refl s) (releaseEvent_unheld fun e he => by rw [hnone] at he; cases he)
  next e he =>
  split
  · next hbinding =>
    refine .of_calm h (.refl s) (releaseEvent_unheld fun e' he' => ?_)
    rw [he, Option.some_inj] at he'
    exact he' ▸ hbinding
  next hbinding =>
  rw [ne_eq, not_not] at hbinding
  have howned : ((s.entries.get? (args.sourceReleaseTicket.orElse "")).all fun e =>
    e.binding = P.releaseBinding args) = true := by
    rw [he]
    exact decide_eq_true hbinding
  unfold handleEntry
  split
  · next hop => exact .of_calm h (.refl s) (releaseEvent_idle (by rw [Args.event, hop]))
  · next hop => exact .of_calm h (.refl s) (releaseEvent_idle (by rw [Args.event, hop]))
  · next hop => exact h.receiptPlan he hbinding hop
  · next hop =>
    obtain ⟨check, hcheck, hnew⟩ := hplan hop
    exact h.sourceReleasePlan he hbinding hop hcheck hnew fun hguard => hslip hop hguard e he hbinding
  · next hevidence hobserve hreceipt hsource =>
    exact h.sourceReleaseResult he hbinding (Args.event_answer hentry hevidence hobserve hreceipt hsource
      (fun hop => hfinish ⟨hop, howned⟩) fun hop => hdiscard ⟨hop, howned⟩)

theorem FenceInv.handleSourceReleaseLocked (h : FenceInv P tokens log taken s)
    (hplan : args.operation = .sourceReleasePlan → ∃ check, draws.check = some check ∧ check ∉ tokens)
    (hslip : args.operation = .sourceReleasePlan → args.sendGuard = .malformed →
      ∀ e, s.entries.get? (args.sourceReleaseTicket.orElse "") = some e → e.binding = P.releaseBinding args →
        e.pendingLocalDigest = "" → e.pendingSharedDigest = "" → e.sources ≠ [] → e.executionGrades ≠ "" →
        P.decodeGrades e.executionGrades = none) :
    ReleaseSpec P tokens log taken args draws s (handleSourceReleaseLocked P s args none now draws).1 := by
  have hentryless : args.operation.entryless = true → ∀ t, releaseEvent P s t args draws = none :=
    fun hentry => releaseEvent_idle (Args.event_entryless hentry)
  unfold SourceRelease.handleSourceReleaseLocked
  dsimp only
  split
  · next hop => split <;> exact .of_calm h (.refl s) (hentryless (by rw [hop]; rfl))
  · next hop => exact .of_calm h (.refl s) (hentryless (by rw [hop]; rfl))
  · next hop => exact .of_calm h (calm_receiptStarted _ _ _) (hentryless (by rw [hop]; rfl))
  · next hop => exact .of_calm h (calm_receiptObservation _ _ _) (hentryless (by rw [hop]; rfl))
  · next hop => exact .of_calm h (calm_receiptStored _ _ _) (hentryless (by rw [hop]; rfl))
  · next hop =>
    have hevent : ∀ t, releaseEvent P s t args draws = none := releaseEvent_idle (by rw [Args.event, hop])
    split
    · split
      · exact .of_calm h (.refl s) hevent
      · obtain ⟨hquiet, hunversioned⟩ := adds_receiptPlan_none (P := P) s args now draws
        refine .of_quiet h hquiet (fun b hb => ?_) hevent
        obtain ⟨id, r, hid, hr, hb, hcoverage⟩ := hb
        obtain ⟨b', hb', hunversioned⟩ := hunversioned id r hid hr
        obtain rfl := Option.some_inj.mp (hb.symm.trans hb')
        exact hcoverage hunversioned
    · exact h.handleTicket hplan hslip (by rw [hop]; rfl)
  · next hgeneration hhealth hstarted hobserve hstored hreceipt =>
    refine h.handleTicket hplan hslip ?_
    cases hop : args.operation <;> first | rfl | contradiction

end Release

/-! ## Preparations and forks -/

theorem Fence.Blank.traced {f : Fence Ref} (h : f.Blank) (log : List FenceEvent) : f.Traced P log where
  asked := .inr ⟨h.pending, h.localDigest, h.sharedDigest⟩
  single := .inl h.pending
  pending hpending := absurd h.pending hpending
  admitted hadmitted := absurd h.admitted hadmitted

theorem Fence.Blank.not_holds {f : Fence Ref} (h : f.Blank) {c : String} (hc : c ≠ "") : ¬ f.Holds c := by
  rintro (hpending | hadmitted)
  · exact hc (hpending.symm.trans h.pending)
  · exact hc (hadmitted.symm.trans h.admitted)

theorem FenceInv.prepare {s : State Ref} (h : FenceInv P tokens log taken s) (args : Args)
    (assembly : Assembly Ref) (now : Time) {draws : Draws} (hnew : ∀ t ∈ draws.tokens, t ∉ tokens) :
    FenceInv P (tokens ++ draws.tokens) log taken (prepare P s args assembly now draws).1 ∧
      NoReceipt s (prepare P s args assembly now draws).1 := by
  have hsub : ∀ t ∈ tokens, t ∈ tokens ++ draws.tokens := fun t ht => List.mem_append_left _ ht
  rcases adds_prepare (P := P) s args assembly now draws with hcalm | ⟨token, htoken, hadds, hreceipts⟩
  · exact ⟨(h.quiet hcalm.quiet).mono hsub (fun _ => rfl) fun _ hc => hc, hcalm.receipts⟩
  have hmem : token ∈ draws.tokens := by simp [Draws.tokens, htoken]
  refine ⟨h.update (.entry token) hadds.others ?_ hsub (fun _ _ => rfl) (.inl rfl) ?_ ?_, hreceipts⟩
  · intro slot' e' _ hne _ he' hticket
    obtain ⟨e, he, -⟩ := hadds.others slot' e' hne he'
    have hused := h.used slot' e he
    rw [hticket] at hused
    exact hnew token hmem hused
  · exact fun c hc => ⟨hsub c (h.drawn c hc), .inl hc⟩
  · intro e' he'
    have hblank := hadds.slot e' he'
    exact ⟨List.mem_append_right _ hmem, hblank.traced _, fun t ht => (by cases ht), fun c hc hholds =>
      absurd hholds (hblank.not_holds hc)⟩

theorem forkEvent_of_same {s s' : State Ref} {ticket : String} {args : Args} {draws : Draws}
    (h : s'.forks.get? ticket = s.forks.get? ticket) : forkEvent s s' ticket args draws = none := by
  unfold forkEvent
  rw [h]
  cases s.forks.get? ticket <;> rfl

/-- What a fork call does, after the expiry. -/
structure ForkSpec (P : Platform Ref) (tokens : List String) (log : String → List FenceEvent) (taken : String → Prop)
    (args : Args) (draws : Draws) (s s' : State Ref) : Prop where
  inv : FenceInv P (tokens ++ draws.tokens) (fun t => log t ++ (forkEvent s s' t args draws).toList) taken s'
  receipts : NoReceipt s s'
  kept : ∀ t e, s.entries.get? t = some e → s'.entries.get? t = some e
  made : ∀ t e, s.entries.get? t = none → s'.entries.get? t = some e →
    e.admitted = "" ∧ e.guardedAdmission = "" ∧ e.guardedAdmissionAt = none ∧
    ∃ k planArgs check, s.forks.get? t = some k ∧ e.sources = k.entry.sources ∧
      e.executionGrades = k.entry.executionGrades ∧
      e.binding = k.entry.binding ∧ log t = [.plan planArgs (some check)] ∧ P.releaseBinding planArgs = e.binding ∧
      Accepted P k.entry.fence check (sourceForkArgs args (args.newRequestId.orElse "") t .sourceReleaseResult)

theorem ForkSpec.refl {s : State Ref} (h : FenceInv P tokens log taken s) (args : Args) (draws : Draws) :
    ForkSpec P tokens log taken args draws s s where
  inv := h.mono (fun _ ht => List.mem_append_left _ ht)
    (fun t => by rw [forkEvent_of_same rfl]; exact List.append_nil _) fun _ hc => hc
  receipts := .refl s
  kept _ _ he := he
  made t e hnone he := by
    rw [hnone] at he
    cases he

section Fork

variable {s s' : State Ref} {args : Args} {draws : Draws} {token : String}

theorem OnlyFork.at? (h : OnlyFork token s s') {slot : Slot} (hne : slot ≠ .fork token) : s'.at? slot = s.at? slot := by
  cases slot with
  | entry t =>
    change s'.entries.get? t = s.entries.get? t
    rw [h.entries]
  | fork t =>
    change (s'.forks.get? t).map _ = (s.forks.get? t).map _
    rw [h.others t fun ht => hne (by rw [ht])]

/-- A fork plan that opened a fork, or that left nothing. -/
theorem ForkSpec.of_plan (h : FenceInv P tokens log taken s) (hnew : ∀ t ∈ draws.tokens, t ∉ tokens)
    (hvalid : ∀ t ∈ draws.tokens, t ≠ "") (htoken : draws.ticket = some token) (honly : OnlyFork token s s')
    {parent : Entry Ref} (hplanned : s'.forks.get? token = none ∨ ∃ check, draws.check = some check ∧
      ∀ e, s'.at? (.fork token) = some e → ∃ localDigest sharedDigest, e.fence =
        (forkCandidate parent
          (P.releaseBinding (sourceForkArgs args (args.newRequestId.orElse "") "" .other))).fence.planned check
          localDigest sharedDigest ∧ e.fence.Asked P) : ForkSpec P tokens log taken args draws s s' := by
  have hsub : ∀ t ∈ tokens, t ∈ tokens ++ draws.tokens := fun t ht => List.mem_append_left _ ht
  have hmem : token ∈ draws.tokens := by simp [Draws.tokens, htoken]
  have hunused : ∀ slot e, s.at? slot = some e →
    slot.ticket ≠ token := fun slot e he hticket => hnew token hmem (hticket ▸ h.used slot e he)
  have hbefore : s.forks.get? token = none := by
    cases hk : s.forks.get? token with
    | none => rfl
    | some k => exact absurd rfl (hunused (.fork token) k.entry (Option.map_eq_some_iff.mpr ⟨k, hk, rfl⟩))
  have hothers : ∀ slot' e', slot' ≠ .fork token → s'.at? slot' = some e' →
    ∃ e, s.at? slot' = some e ∧ e'.fence = e.fence :=
    fun slot' e' hne he' => ⟨e', (honly.at? hne).symm.trans he', rfl⟩
  have hapart : ∀ slot' e', slot' ≠ .fork token → s'.at? slot' = some e' → slot'.ticket ≠ token :=
    fun slot' e' hne he' => hunused slot' e' ((honly.at? hne).symm.trans he')
  refine ⟨?_, honly.receipts, fun t e he => ?_, fun t e hnone he => ?_⟩
  · cases hk : s'.forks.get? token with
    | none =>
      have hquiet : Quiet s s' := by
        intro slot e' he'
        refine hothers slot e' (fun hslot => ?_) he'
        rw [hslot] at he'
        change (s'.forks.get? token).map _ = _ at he'
        rw [hk] at he'
        cases he'
      refine (h.quiet hquiet).mono hsub (fun t => ?_) fun _ hc => hc
      have hsame : s'.forks.get? t = s.forks.get? t := by
        by_cases ht : t = token
        · rw [ht, hk, hbefore]
        · exact honly.others t ht
      rw [forkEvent_of_same hsame]
      exact List.append_nil _
    | some k =>
      obtain ⟨check, hcheck, hfence⟩ := hplanned.resolve_left (by rw [hk]; exact Option.some_ne_none k)
      have hcheck' : check ∈ draws.tokens := by simp [Draws.tokens, hcheck]
      have hevent : forkEvent s s' token args draws =
          some (.plan (sourceForkArgs args (args.newRequestId.orElse "") token .sourceReleasePlan) (some check)) := by
        unfold forkEvent
        rw [hbefore, hk, ← hcheck]
      refine h.update (.fork token) hothers (fun slot' e' _ hne _ he' => hapart slot' e' hne he') hsub ?_ ?_ ?_ ?_
      · intro t ht
        rw [forkEvent_of_same (honly.others t ht)]
        exact List.append_nil _
      · exact .inr ⟨List.mem_append_right _ hmem, hapart⟩
      · exact fun c hc => ⟨hsub c (h.drawn c hc), .inl hc⟩
      · intro e' he'
        obtain ⟨localDigest, sharedDigest, hfence, hasked⟩ := hfence e' he'
        change _ ∧ e'.fence.Traced P (log token ++ (forkEvent s s' token args draws).toList) ∧ _
        rw [hevent, h.unlogged token (hnew token hmem)]
        refine ⟨List.mem_append_right _ hmem, ⟨.inl hasked, ?_, fun _ => ?_, fun hadmitted => ?_⟩,
          fun t ht => ?_, fun c hc hholds => ?_⟩
        · exact .inr (by rw [hfence]; rfl)
        · exact ⟨[], _, by rw [hfence]; rfl, by rw [hfence]; rfl⟩
        · exact absurd (by rw [hfence]; rfl) hadmitted
        · cases ht
          rw [hevent, h.unlogged token (hnew token hmem), hfence]
          exact ⟨hvalid check hcheck', rfl⟩
        · have hholds' : c = check := by
            rw [hfence] at hholds
            exact hholds.elim Eq.symm fun hadmitted => absurd hadmitted.symm hc
          subst hholds'
          refine ⟨List.mem_append_right _ hcheck', fun htook =>
            hnew c hcheck' (h.drawn c htook), fun slot' e hne he hholds' => ?_⟩
          exact hnew c hcheck' (h.held slot' e c he hc hholds').1
  · rw [honly.entries]
    exact he
  · rw [honly.entries, hnone] at he
    cases he

theorem ForkSpec.of_result (h : FenceInv P tokens log taken s) {k : Fork Ref} (hk : s.forks.get? token = some k)
    (hgone : s'.forks.get? token = none) (hothers : ∀ t, t ≠ token → s'.forks.get? t = s.forks.get? t)
    (hreceipts : NoReceipt s s') (hentries : s'.entries = s.entries ∨
      answerVerdict P k.entry
        (sourceForkArgs args (args.newRequestId.orElse "") token .sourceReleaseResult) = .admitted ∧
      k.entry.binding =
        P.releaseBinding (sourceForkArgs args (args.newRequestId.orElse "") token .sourceReleaseResult) ∧
      ∃ e : Entry Ref, e.fence = k.entry.fence.answered "" ∧ e.guardedAdmission = "" ∧ e.guardedAdmissionAt = none ∧
        s'.entries = s.entries.put token e) : ForkSpec P tokens log taken args draws s s' := by
  have hsub : ∀ t ∈ tokens, t ∈ tokens ++ draws.tokens := fun t ht => List.mem_append_left _ ht
  have hheld : s.at? (.fork token) = some k.entry := Option.map_eq_some_iff.mpr ⟨k, hk, rfl⟩
  have htraced : k.entry.fence.Traced P (log token) := h.traced _ _ hheld
  obtain ⟨hpending, hlength⟩ := h.fork token k.entry hheld
  have hgone' : s'.at? (.fork token) = none := by
    change (s'.forks.get? token).map _ = none
    rw [hgone]
    rfl
  have hentry : s.entries.get? token = none := by
    cases he : s.entries.get? token with
    | none => rfl
    | some e => cases h.alone (.entry token) (.fork token) e k.entry he hheld rfl
  have hlog : ∀ t, t ≠ token → log t ++ (forkEvent s s' t args draws).toList = log t := by
    intro t ht
    rw [forkEvent_of_same (hothers t ht)]
    exact List.append_nil _
  have hused : token ∈ tokens ++ draws.tokens := hsub token (h.used (.fork token) k.entry hheld)
  have hfork : ∀ t, t ≠ token → s'.at? (.fork t) = s.at? (.fork t) := by
    intro t ht
    change (s'.forks.get? t).map _ = (s.forks.get? t).map _
    rw [hothers t ht]
  rcases hentries with hentries | ⟨hverdict, hbinding, e, hfence, hguarded, hguardedAt, hentries⟩
  · have hsame : ∀ slot' e', slot' ≠ .fork token → s'.at? slot' = some e' → s.at? slot' = some e' := by
      intro slot' e' hne he'
      cases slot' with
      | entry t =>
        change s'.entries.get? t = some e' at he'
        rwa [hentries] at he'
      | fork t => exact (hfork t fun ht => hne (by rw [ht])).symm.trans he'
    refine ⟨?_, hreceipts, fun t e he => by rwa [hentries], fun t e hnone he => ?_⟩
    · refine h.update (.fork token) (fun slot' e' hne he' => ⟨e', hsame slot' e' hne he', rfl⟩) ?_ hsub
        (fun t ht => hlog t ht) ?_ ?_ ?_
      · intro slot' e' e'' _ he''
        rw [hgone'] at he''
        cases he''
      · refine .inr ⟨hused, fun slot' e' hne he' hticket => hne ?_⟩
        exact h.alone slot' (.fork token) e' k.entry (hsame slot' e' hne he') hheld hticket
      · exact fun c hc => ⟨hsub c (h.drawn c hc), .inl hc⟩
      · intro e' he'
        rw [hgone'] at he'
        cases he'
    · rw [hentries, hnone] at he
      cases he
  · have hblank : e.fence.Blank := by
      rw [hfence]
      exact ⟨rfl, rfl, rfl, rfl⟩
    have hsame : ∀ slot' e', slot' ≠ .entry token → s'.at? slot' = some e' →
      s.at? slot' = some e' ∧ slot'.ticket ≠ token := by
      intro slot' e' hne he'
      cases slot' with
      | entry t =>
        have ht := Slot.entry_ne hne
        change s'.entries.get? t = some e' at he'
        rw [hentries, KeyMap.get?_put, if_neg ht] at he'
        exact ⟨he', Ne.symm ht⟩
      | fork t =>
        by_cases ht : t = token
        · rw [ht, hgone'] at he'
          cases he'
        · exact ⟨(hfork t ht).symm.trans he', ht⟩
    refine ⟨?_, hreceipts, fun t e' he' => ?_, fun t e' hnone he' => ?_⟩
    · refine h.update (.entry token) (fun slot' e' hne he' => ⟨e', (hsame slot' e' hne he').1, rfl⟩) ?_ hsub
        (fun t ht => hlog t ht) ?_ ?_ ?_
      · exact fun slot' e' _ hne _ he' => (hsame slot' e' hne he').2
      · exact .inr ⟨hused, fun slot' e' hne he' => (hsame slot' e' hne he').2⟩
      · exact fun c hc => ⟨hsub c (h.drawn c hc), .inl hc⟩
      · intro e' he'
        change s'.entries.get? token = some e' at he'
        rw [hentries, KeyMap.get?_put_self, Option.some_inj] at he'
        subst he'
        exact ⟨hused, hblank.traced _, fun t ht => (by cases ht), fun c hc hholds =>
          absurd hholds (hblank.not_holds hc)⟩
    · rw [hentries, KeyMap.get?_put, if_neg, he']
      rintro rfl
      rw [hentry] at he'
      cases he'
    · rw [hentries, KeyMap.get?_put] at he'
      split at he'
      swap
      · rw [hnone] at he'
        cases he'
      next ht =>
      subst ht
      obtain rfl := Option.some_inj.mp he'
      obtain ⟨earlier, planArgs, hlogged, hplan⟩ := htraced.pending hpending
      have hearlier : earlier = [] := by
        rw [hlogged, List.length_append] at hlength
        exact List.eq_nil_of_length_eq_zero (Nat.succ_inj.mp hlength)
      have hasked := htraced.asked.resolve_right fun hblank => hpending hblank.1
      have hsources : e.sources = k.entry.sources := congrArg Fence.sources hfence
      have hgrades : e.executionGrades = k.entry.executionGrades := congrArg Fence.executionGrades hfence
      have hbound : e.binding = k.entry.binding := congrArg Fence.binding hfence
      rw [hearlier] at hlogged
      exact ⟨hblank.admitted, hguarded, hguardedAt, k, planArgs, k.entry.pending, hk, hsources, hgrades,
        hbound, hlogged, hplan.trans hbound.symm, (accepted_of_verdict hverdict hasked hbinding.symm).2⟩

theorem forkRequest_newId {newId : String} (h : forkRequest args = some newId) :
    newId = args.newRequestId.orElse "" := by
  unfold forkRequest at h
  simp only [Option.bind_eq_bind, Option.bind_eq_some_iff] at h
  obtain ⟨_, -, _, -, _, -, newId', hnew, hrest⟩ := h
  split at hrest
  · cases hrest
  · rw [Arg.orElse, hnew, ← Option.some_inj.mp hrest]
    rfl

theorem FenceInv.handleSourceReleaseFork {s₀ : State Ref} {now : Time} (args : Args)
    (h : FenceInv P tokens log taken (expire P s₀ now))
    (hnew : ∀ t ∈ draws.tokens, t ∉ tokens) (hvalid : ∀ t ∈ draws.tokens, t ≠ "") :
    ForkSpec P tokens log taken args draws (expire P s₀ now) (handleSourceReleaseFork P s₀ args now draws).1 := by
  unfold SourceRelease.handleSourceReleaseFork
  dsimp only
  generalize expire P s₀ now = s at *
  split
  · exact .refl h args draws
  split
  swap
  · exact .refl h args draws
  next newId parent hrequest hparent =>
  obtain rfl := forkRequest_newId hrequest
  split
  · exact .refl h args draws
  split
  · rcases forkPlan_spec (P := P) s args (args.sourceReleaseTicket.orElse "") parent
      (args.newRequestId.orElse "") now draws rfl
      with hsame | ⟨token, htoken, honly, hplanned⟩
    · rw [hsame]
      exact .refl h args draws
    · exact .of_plan h hnew hvalid htoken honly hplanned
  · rcases forkResult_spec (P := P) s args (args.sourceReleaseTicket.orElse "") parent (args.newRequestId.orElse "")
      (P.releaseBinding (sourceForkArgs args (args.newRequestId.orElse "") "" .other)) now draws with
        hsame | ⟨k, hk, hgone, hothers, hreceipts, hentries⟩
    · rw [hsame]
      exact .refl h args draws
    · exact .of_result h hk hgone hothers hreceipts hentries

end Fork

/-! ## Runs -/

variable {steps : List (Step Ref)} {st : Step Ref}

theorem spent_concat {c : String} :
    Spent P (steps ++ [st]) c ↔
      Spent P steps c ∨ ∃ b, Prepares (run P steps) (next P (run P steps) st) b ∧ b.sourceCheckId = c := by
  constructor
  · rintro ⟨before, st', after, b, hsteps, hb, hc⟩
    rcases step_of_concat hsteps with ⟨rfl, rfl⟩ | ⟨rest, rfl⟩
    · exact .inr ⟨b, hb, hc⟩
    · exact .inl ⟨before, st', rest, b, rfl, hb, hc⟩
  · rintro (⟨before, st', after, b, rfl, hb, hc⟩ | ⟨b, hb, hc⟩)
    · exact ⟨before, st', after ++ [st], b, by simp, hb, hc⟩
    · exact ⟨steps, st, [], b, rfl, hb, hc⟩

theorem prepares_expire {s s' : State Ref} {now : Time} {b : ReceiptBinding} (h : Prepares s s' b) :
    Prepares (expire P s now) s' b := by
  obtain ⟨id, r, hid, hr⟩ := h
  exact ⟨id, r, (calm_expire (P := P) s now).receipts id hid, hr⟩

theorem ne_empty_of_token {token : String} (h : releaseTokenValid token = true) : token ≠ "" := by
  rintro rfl
  cases h

theorem NoGuardSlip.init (h : NoGuardSlip P (steps ++ [st])) : NoGuardSlip P steps := by
  rintro before st' after rfl
  exact h before st' (after ++ [st]) (by simp)

theorem ChecksDrawn.init (h : ChecksDrawn (steps ++ [st])) : ChecksDrawn steps :=
  fun st' hst' => h st' (List.mem_append_left _ hst')

/-- What a step of a run satisfies, with the invariant before it. -/
structure StepSpec (P : Platform Ref) (before : List (Step Ref)) (st : Step Ref) : Prop where
  inv : FenceInv P (drawn (before ++ [st])) (fun t => trace P t (before ++ [st])) (Spent P (before ++ [st]))
    (run P (before ++ [st]))
  released : ∀ b, Prepares (run P before) (next P (run P before) st) b → Released P before st b
  forks : ∀ args, st.call = .fork args → ForkReleased P before st args

theorem stepSpec {before : List (Step Ref)}
    (h : FenceInv P (drawn before) (fun t => trace P t before) (Spent P before) (run P before))
    (hfresh : Fresh (before ++ [st]))
    (hdrawn : ChecksDrawn (before ++ [st])) (hslip : NoGuardSlip P (before ++ [st])) : StepSpec P before st := by
  have hnew := hfresh.last
  have hvalid : ∀ t ∈ st.draws.tokens, t ≠ "" := fun t ht => ne_empty_of_token (hfresh.valid t (by simp; exact .inr ht))
  have hexpired := h.quiet (quiet_expire P (run P before) st.now)
  have hsub : ∀ t ∈ drawn before, t ∈ drawn before ++ st.draws.tokens := fun t ht => List.mem_append_left _ ht
  -- A step without a versioned receipt and without events.
  have hplain : FenceInv P (drawn before ++ st.draws.tokens) (fun t => trace P t before) (Spent P before)
      (next P (run P before) st) →
      NoReceipt (run P before) (next P (run P before) st) → (∀ t, fenceEvent P (run P before) t st = none) →
      (∀ args, st.call ≠ .fork args) → StepSpec P before st := by
    intro hinv hreceipts hevent hcall
    refine ⟨?_, fun b hb => absurd hb (not_prepares hreceipts b), fun args hargs => absurd hargs (hcall args)⟩
    rw [run_concat, drawn_concat]
    refine hinv.mono (fun _ ht => ht) (fun t => ?_) fun c hc => ?_
    · rw [trace_concat, hevent t]
      exact List.append_nil _
    · rcases spent_concat.mp hc with hc | ⟨b, hb, -⟩
      · exact hc
      · exact absurd hb (not_prepares hreceipts b)
  cases hcall : st.call with
  | prepare args assembly =>
    have hnext : next P (run P before) st = (prepare P (run P before) args assembly st.now st.draws).1 := by
      rw [next, hcall]
    obtain ⟨hinv, hreceipts⟩ := h.prepare args assembly st.now hnew
    rw [← hnext] at hinv hreceipts
    exact hplain hinv hreceipts (fun t => by rw [fenceEvent, hcall]) fun args' h' => by rw [hcall] at h'; cases h'
  | release args =>
    have hnext : next P (run P before) st =
        (handleSourceReleaseLocked P (expire P (run P before) st.now) args none st.now st.draws).1 := by
      rw [next, hcall]
      rfl
    have hspec : ReleaseSpec P (drawn before) (fun t => trace P t before) (Spent P before) args st.draws
        (expire P (run P before) st.now) (next P (run P before) st) := by
      rw [hnext]
      refine hexpired.handleSourceReleaseLocked (fun hop => ?_)
        fun hop hguard e he hbinding hlocal hshared hsources hgrades => ?_
      · obtain ⟨check, hcheck⟩ := Option.ne_none_iff_exists'.mp (hdrawn st (by simp) args hcall hop)
        exact ⟨check, hcheck, hnew check (by simp [Draws.tokens, hcheck])⟩
      · by_contra hdecodes
        exact hslip before st [] rfl ⟨args, e, hcall, hop, hguard, he, hbinding, hlocal, hshared, hsources,
          hgrades, hdecodes⟩
    refine ⟨?_, fun b hb => ?_, fun args' h' => by rw [hcall] at h'; cases h'⟩
    · rw [run_concat, drawn_concat]
      refine hspec.inv.mono (fun _ ht => ht) (fun t => ?_) fun c hc => ?_
      · rw [trace_concat, fenceEvent, hcall]
      · exact (spent_concat.mp hc).imp_right (by rintro ⟨b, hb, hcheck⟩; exact ⟨b, prepares_expire hb, hcheck⟩)
    · obtain ⟨e, earlier, planArgs, answerArgs, he, hlog, haccepted, hplan, hbinding, hrequest, hsources, hfree⟩ :=
        hspec.released b (prepares_expire hb)
      exact ⟨args, e, earlier, planArgs, answerArgs, hcall, he, hlog, haccepted, hplan, hbinding, hrequest,
        hsources, hfree⟩
  | fork args =>
    have hnext : next P (run P before) st =
      (handleSourceReleaseFork P (run P before) args st.now st.draws).1 := by rw [next, hcall]
    have hspec := hexpired.handleSourceReleaseFork args hnew hvalid
    rw [← hnext] at hspec
    have hreceipts := (calm_expire (P := P) (run P before) st.now).receipts.trans hspec.receipts
    refine ⟨?_, fun b hb => absurd hb (not_prepares hreceipts b), fun args' h' => ?_⟩
    · rw [run_concat, drawn_concat]
      refine hspec.inv.mono (fun _ ht => ht) (fun t => ?_) fun c hc => ?_
      · rw [trace_concat, fenceEvent, hcall]
      · rcases spent_concat.mp hc with hc | ⟨b, hb, -⟩
        · exact hc
        · exact absurd hb (not_prepares hreceipts b)
    · obtain rfl : args = args' := by
        rw [hcall] at h'
        cases h'
        rfl
      exact ⟨hspec.kept, hspec.made⟩
  | offer ticket =>
    have hcalm : Calm (run P before) (next P (run P before) st) := by
      rw [next, hcall]
      change Calm _ (explorationOffer (run P before) ticket st.draws)
      unfold explorationOffer
      split
      · exact .refl _
      · split
        · exact ⟨.of_same rfl rfl, fun _ hid => hid⟩
        · exact .refl _
    exact hplain ((h.quiet hcalm.quiet).mono hsub (fun _ => rfl) fun _ hc => hc) hcalm.receipts
      (fun t => by rw [fenceEvent, hcall]) fun args' h' => by rw [hcall] at h'; cases h'
  | expire =>
    have hnext : next P (run P before) st = SourceRelease.expire P (run P before) st.now := by rw [next, hcall]
    refine hplain ?_ ?_ (fun t => by rw [fenceEvent, hcall]) fun args' h' => by rw [hcall] at h'; cases h'
    · rw [hnext]
      exact hexpired.mono hsub (fun _ => rfl) fun _ hc => hc
    · rw [hnext]
      exact (calm_expire _ _).receipts

theorem fenceInv_run (hfresh : Fresh steps) (hdrawn : ChecksDrawn steps) (hslip : NoGuardSlip P steps) :
    FenceInv P (drawn steps) (fun t => trace P t steps) (Spent P steps) (run P steps) := by
  induction steps using List.reverseRecOn with
  | nil =>
    refine fenceInv_empty.mono (fun t ht => ht) (fun _ => rfl) ?_
    rintro c ⟨before, st, after, b, hsteps, -⟩
    cases before <;> cases hsteps
  | append_singleton steps st ih => exact (stepSpec (ih hfresh.init hdrawn.init hslip.init) hfresh hdrawn hslip).inv

/-- In a run whose tokens are fresh, and in which no plan leaves a check pending without the digests of
    the sources, a receipt with versioned sources is prepared for an entry only after one plan and one
    accepted answer set, and a fork becomes an entry only after its own. -/
theorem source_fence_guards (P : Platform Ref) (steps : List (Step Ref)) (hfresh : Fresh steps)
    (hdrawn : ChecksDrawn steps) (hslip : NoGuardSlip P steps) : Guarded P steps := by
  induction steps using List.reverseRecOn with
  | nil =>
    intro before st after hsteps
    cases before <;> cases hsteps
  | append_singleton steps st ih =>
    intro before st' after hsteps
    rcases step_of_concat hsteps with ⟨rfl, rfl⟩ | ⟨rest, hrest⟩
    · have hspec := stepSpec (fenceInv_run hfresh.init hdrawn.init hslip.init) hfresh hdrawn hslip
      exact ⟨hspec.released, hspec.forks⟩
    · exact ih hfresh.init hdrawn.init hslip.init before st' rest hrest

theorem noGuardSlip_of_guards
    (h : ∀ st ∈ steps, ∀ args, st.call = .release args → args.sendGuard ≠ .malformed) : NoGuardSlip P steps := by
  rintro before st after rfl ⟨args, e, hcall, -, hguard, -⟩
  exact h st (by simp) args hcall hguard

/-! ## A check without digests -/

def sampleItem : String := "\x7b\"test\":\"t1\"\x7d"

def sampleGrades (check : String) : GradeSnapshot where
  checkId := check
  schema := 1
  principal := "uid:1001"
  scopeKind := "workspace"
  scopeId := "w"
  coverage := "complete"
  items := [sampleItem]

def gradesText (check : String) : String := marshal (GradeSnapshot.json samplePlatform (sampleGrades check))

/-- The decoder, on the two texts that are used below. -/
def decodeSample (text : String) : Option GradeSnapshot :=
  if text = gradesText "" then some (sampleGrades "")
  else if text = gradesText (tokenOf 2) then some (sampleGrades (tokenOf 2))
  else none

def gradedPlatform : Platform SampleRef :=
  { samplePlatform with
    decodeGrades := decodeSample
    itemDigest := fun raw => some (samplePlatform.releaseDigest (.raw raw)) }

def gradedRef : SampleRef := ⟨"record", "memory_record"⟩

def gradedRequest : Args where
  requestId := .value "request"
  principal := .value "uid:1001"

def gradedAssembly : Assembly SampleRef where
  executionTestGrades := gradesText ""
  factsProjection := some [gradedRef]

def gradedPlanRequest : Args :=
  { gradedRequest with
    operation := .sourceReleasePlan, sourceReleaseTicket := .value (tokenOf 1), sendGuard := .malformed }

def gradedAnswerRequest : Args :=
  { gradedRequest with
    operation := .sourceReleaseResult
    sourceReleaseTicket := .value (tokenOf 1)
    executionGradeResponse := gradesText (tokenOf 2) }

def gradedReceiptRequest : Args :=
  { gradedRequest with
    operation := .providerReceiptPlan
    sourceReleaseTicket := .value (tokenOf 1)
    payloadSha256 := .value sampleDigest
    payloadBytes := .value "0"
    route := .value "openai_chat"
    callerLimitsSha256 := .value sampleDigest
    operatorLimitsSha256 := .value sampleDigest }

def gradedPrepareStep : Step SampleRef where
  call := .prepare gradedRequest gradedAssembly
  now := sampleTime
  draws := { ticket := some (tokenOf 1) }

def gradedPlanStep : Step SampleRef where
  call := .release gradedPlanRequest
  now := sampleTime
  draws := { check := some (tokenOf 2) }

def gradedAnswerStep : Step SampleRef where
  call := .release gradedAnswerRequest
  now := sampleTime

def gradedReceiptStep : Step SampleRef where
  call := .release gradedReceiptRequest
  now := sampleTime
  draws := { attempt := some (tokenOf 3), producer := some (tokenOf 4) }

/-- An entry with a source and grades is planned with a send guard that does not decode; the answer set
    names the check and the grades, and nothing of the source. -/
def slipRun : List (Step SampleRef) := [gradedPrepareStep, gradedPlanStep, gradedAnswerStep, gradedReceiptStep]

/-- The run up to its receipt. -/
def gradedRun : List (Step SampleRef) := [gradedPrepareStep, gradedPlanStep, gradedAnswerStep]

/-- A state that holds an entry, and neither a fork nor a receipt; nothing of it has expired. -/
structure Held (ticket : String) (e : Entry SampleRef) (s : State SampleRef) : Prop where
  entry : s.entries.get? ticket = some e
  live : ∀ row ∈ s.entries.rows, sampleTime < row.2.expires
  forks : s.forks = KeyMap.empty
  forkBindings : ∀ row ∈ s.forkBindings.rows, sampleTime < row.2
  receipts : s.receipts = KeyMap.empty
  receiptBytes : s.receiptBytes = 0
  producer : s.receiptProducer = ""

section Held

variable {P : Platform SampleRef} {ticket : String} {e : Entry SampleRef} {s : State SampleRef} {args : Args}

theorem Held.expire_eq (h : Held ticket e s) : expire P s sampleTime = s :=
  expire_eq_self h.live h.forks h.forkBindings (by rw [h.receipts]; exact fun row hrow => by cases hrow)

theorem Held.next_release {st : Step SampleRef} (h : Held ticket e s) (hcall : st.call = .release args)
    (hnow : st.now = sampleTime)
    (hticket : args.sourceReleaseTicket.orElse "" = ticket) (hname : ticket ≠ "")
    (hentry : args.operation.entryless = false)
    (hfinish : args.operation ≠ .sourceReleaseFinish) (hdiscard : args.operation ≠ .sourceReleaseDiscard)
    (hbinding : e.binding = P.releaseBinding args) :
    next P s st = (handleEntry P s args (.entry ticket) e sampleTime st.draws).1 := by
  have hheld : s.at? (.entry ticket) = some e := h.entry
  rw [next, hcall]
  change (handleSourceReleaseLocked P (expire P s st.now) args none st.now st.draws).1 = _
  rw [hnow, h.expire_eq, ← handleTicket_held hheld hfinish hdiscard hbinding]
  unfold handleSourceReleaseLocked
  rw [hticket]
  split
  · next hop => rw [hop] at hentry; cases hentry
  · next hop => rw [hop] at hentry; cases hentry
  · next hop => rw [hop] at hentry; cases hentry
  · next hop => rw [hop] at hentry; cases hentry
  · next hop => rw [hop] at hentry; cases hentry
  · rw [if_neg hname]
    rfl
  · rfl

theorem Held.prepares {coverage : String} {check attempt producer : ℕ} (h : Held ticket e s)
    (hvalid : receiptArgsValid args = true)
    (howner : args.dispatchOwner = .absent) (hretention : args.receiptRetention = .absent)
    (hadmitted : e.admitted = tokenOf check)
    (hcoverage : (if e.executionGrades = "" then "retained_versioned_inputs" else
      "retained_inputs_with_configured_tests") = coverage)
    (hprepared : receiptEventJSON (newReceipt P e.take sampleTime (tokenOf attempt)
      (baseBinding P args e.take (tokenOf check) coverage (tokenOf attempt) (tokenOf producer))).prepared = true)
    (hadmits : receiptEventJSON (newReceipt P e.take sampleTime (tokenOf attempt)
      (baseBinding P args e.take (tokenOf check) coverage (tokenOf attempt) (tokenOf producer))).admitted = true) :
    ∃ b, Prepares s (receiptPlan P s args (some (.entry ticket, e)) sampleTime
      { attempt := some (tokenOf attempt), producer := some (tokenOf producer) }).1 b := by
  have hname : tokenOf check ≠ "" := ne_empty_of_token (releaseTokenValid_tokenOf check)
  have hcoverage' : (if e.take.executionGrades = "" then "retained_versioned_inputs" else
      "retained_inputs_with_configured_tests") =
      coverage := hcoverage
  have hversioned : coverage ≠ "no_versioned_source_handle" := by
    rw [← hcoverage]
    split <;> decide
  generalize hbound : baseBinding P args e.take (tokenOf check) coverage (tokenOf attempt)
    (tokenOf producer) = b at hprepared hadmits
  have howned : ownedBinding P args e.take b = some b := by
    unfold ownedBinding
    rw [howner]
    exact if_pos rfl
  have hretained : retainedBinding P args sampleTime b = .ok b := by
    unfold retainedBinding
    rw [hretention, if_neg, if_neg]
    · decide
    · decide
  have hplan : receiptPlan P s args (some (.entry ticket, e)) sampleTime
      { attempt := some (tokenOf attempt), producer := some (tokenOf producer) } =
      receiptCommit P { s.alter (.entry ticket) Entry.take with receiptProducer := tokenOf producer } args
        (some (.entry ticket)) e.take sampleTime (tokenOf attempt) b := by
    unfold receiptPlan
    dsimp only
    rw [if_neg (hadmitted.trans_ne hname), hadmitted]
    refine receiptPrepare_of_bound hvalid rfl (if_pos h.producer) ?_ hretained
    rw [hcoverage', hbound]
    exact howned
  have hreceipts : (s.alter (.entry ticket) Entry.take).receipts = KeyMap.empty := h.receipts
  have hbytes : (s.alter (.entry ticket) Entry.take).receiptBytes = 0 := h.receiptBytes
  have hlimits := And.intro (of_decide_eq_true hprepared) (of_decide_eq_true hadmits)
  have hcommit : (receiptCommit P { s.alter (.entry ticket) Entry.take with receiptProducer := tokenOf producer } args
      (some (.entry ticket)) e.take sampleTime (tokenOf attempt) b).1 = _ :=
    receiptCommit_of_room hprepared hadmits (receiptRoom_of_fits ?_ ?_)
  · rw [hplan, hcommit]
    refine ⟨b, tokenOf attempt, _, ?_, KeyMap.get?_put_self _ _ _, rfl, ?_⟩
    · rw [h.receipts, KeyMap.get?_empty]
    · rw [← hbound]
      exact hversioned
  · rw [hreceipts]
    decide
  · rw [hbytes, sourceReleaseMaxBytes]
    have hmax : providerReceiptDetailMax = 16000 := rfl
    omega

end Held

/-- A run that leaves an entry of one reference that is admitted, and neither a fork nor a receipt. -/
abbrev Admits (s : State SampleRef) (args : Args) (ticket check : ℕ) (grades : String) : Prop :=
  (s.forks.rows.length, s.receipts.rows.length, s.receiptBytes, s.receiptProducer) = (0, 0, 0, "") ∧
  (∀ row ∈ s.forkBindings.rows, sampleTime < row.2) ∧ (∀ row ∈ s.entries.rows, sampleTime < row.2.expires) ∧
  ∃ row ∈ s.entries.rows, row.1 = tokenOf ticket ∧ row.2.admitted = tokenOf check ∧ row.2.executionGrades = grades ∧
    row.2.sources = [gradedRef] ∧ row.2.binding = samplePlatform.releaseBinding args ∧ row.2.workspace = "" ∧
    row.2.project = "" ∧ row.2.digest = samplePlatform.releaseDigest (samplePlatform.refsJson [gradedRef])

theorem sampleReceipt_fits {e : Entry SampleRef} {coverage : String} {check attempt producer : ℕ}
    (hgrades : e.executionGrades = "" ∧ coverage = "retained_versioned_inputs" ∨
      e.executionGrades = gradesText "" ∧ coverage = "retained_inputs_with_configured_tests")
    (hsources : e.sources = [gradedRef])
    (hbinding : e.binding = samplePlatform.releaseBinding gradedRequest) (hworkspace : e.workspace = "")
    (hproject : e.project = "")
    (hdigest : e.digest = samplePlatform.releaseDigest (samplePlatform.refsJson [gradedRef])) :
    receiptEventJSON (newReceipt samplePlatform e sampleTime (tokenOf attempt)
      (baseBinding samplePlatform gradedReceiptRequest e (tokenOf check) coverage (tokenOf attempt)
        (tokenOf producer))).prepared = true := by
  have hbound : ∀ args, len (quote (samplePlatform.releaseBinding args)) = 66 := fun _ =>
    len_quote_releaseDigest samplePlatform _
  have hsome : gradesText "" ≠ "" := by decide
  have hcompact : samplePlatform.compact (gradesText "") = gradesText "" := rfl
  refine decide_eq_true ?_
  simp only [ReceiptEvent.length, ReceiptEvent.json, newReceipt, baseBinding, ReceiptBinding.json, marshal,
    marshalMembers, len_append,
    omitempty, Option.toList_none, Option.toList_some, List.map_nil, List.map_cons, List.nil_append,
      List.append_nil, List.cons_append,
    if_true, gradedReceiptRequest, gradedRequest, Arg.orElse, Arg.value?, Option.getD_some, Option.getD_none,
    Platform.sourcesText, hsources, hbinding, hworkspace, hproject, hdigest]
  rcases hgrades with ⟨hgrades, rfl⟩ | ⟨hgrades, rfl⟩
  · simp only [hgrades, if_true, List.nil_append, marshalMembers, marshal, len_append, hbound,
      len_quote_tokenOf, len_quote_releaseDigest, len_quote_sampleDigest]
    decide +kernel
  · simp only [hgrades, if_neg hsome, hcompact, List.cons_append, List.nil_append, marshalMembers, marshal,
      len_append, hbound, len_quote_tokenOf, len_quote_releaseDigest, len_quote_sampleDigest]
    decide +kernel

theorem Admits.held {s : State SampleRef} {args : Args} {ticket check : ℕ} {grades : String}
    (h : Admits s args ticket check grades) :
    ∃ e, Held (tokenOf ticket) e s ∧ e.admitted = tokenOf check ∧ e.executionGrades = grades ∧ e.sources = [gradedRef] ∧
      e.binding = samplePlatform.releaseBinding args ∧ e.workspace = "" ∧ e.project = "" ∧
      e.digest = samplePlatform.releaseDigest (samplePlatform.refsJson [gradedRef]) := by
  obtain ⟨hrest, hbindings, hlive, ⟨_, e⟩, hrow, rfl, hentry⟩ := h
  simp only [Prod.mk.injEq, List.length_eq_zero_iff] at hrest
  obtain ⟨hforks, hreceipts, hbytes, hproducer⟩ := hrest
  exact ⟨e, ⟨KeyMap.get?_eq_some_iff.mpr hrow, hlive, Table.ext hforks, hbindings, Table.ext hreceipts,
    hbytes, hproducer⟩, hentry⟩

/-! ### A fork and a receipt -/

theorem forkedRun_admits : Admits (run samplePlatform forkedRun) gradedRequest 11 12 "" ∧
    (run samplePlatform forkedRun).entries.rows.map Prod.fst = [tokenOf 11, tokenOf 13] := by
  decide +kernel

/-- The fork of a release becomes an entry, and a receipt of the release is prepared. -/
theorem source_fence_guards_sampleRun : Guarded samplePlatform sampleRun ∧
    (∃ b, Prepares (run samplePlatform forkedRun) (run samplePlatform sampleRun) b) ∧
    (run samplePlatform forkedRun).entries.rows.map Prod.fst = [tokenOf 11, tokenOf 13] := by
  refine ⟨source_fence_guards samplePlatform sampleRun ⟨by decide, by decide⟩ (fun st hst args hcall hop => ?_)
    (noGuardSlip_of_guards fun st hst args hcall => ?_), ?_, forkedRun_admits.2⟩
  · simp only [sampleRun, forkedRun, List.cons_append, List.nil_append, List.mem_cons, List.not_mem_nil,
      or_false] at hst
    rcases hst with rfl | rfl | rfl | rfl | rfl | rfl <;> cases hcall <;>
      first | exact Option.some_ne_none _ | cases hop
  · simp only [sampleRun, forkedRun, List.cons_append, List.nil_append, List.mem_cons, List.not_mem_nil,
      or_false] at hst
    rcases hst with rfl | rfl | rfl | rfl | rfl | rfl <;> cases hcall <;> exact fun hguard => by cases hguard
  · obtain ⟨e, hheld, hadmitted, hgrades, hsources, hbinding, hworkspace, hproject, hdigest⟩ := forkedRun_admits.1.held
    have hnext := hheld.next_release (P := samplePlatform)
      (show receiptStep.call = .release receiptArgs from rfl) rfl rfl (by decide) rfl (by decide)
      (by decide) hbinding
    rw [sampleRun, run_concat, hnext]
    exact hheld.prepares (by decide) rfl rfl hadmitted (if_pos hgrades)
      (sampleReceipt_fits (e := e.take) (.inl ⟨hgrades, rfl⟩) hsources hbinding hworkspace hproject hdigest)
      (by rw [receiptEventJSON, length_newReceipt_admitted]; decide)

/-! ### An answer set without the source -/

/-- The first steps admit the entry on its grades alone, by an answer set without an owner's response. -/
theorem gradedRun_admits : Admits (run gradedPlatform gradedRun) gradedRequest 1 2 (gradesText "") ∧
    ((trace gradedPlatform (tokenOf 1) gradedRun).getLast?.all fun
      | .answer args => args.ownerResponse.isNone
      | _ => false) = true := by
  decide +kernel

/-- The source of the entry is never asked for, and the receipt is prepared all the same. -/
theorem source_fence_slips : Fresh slipRun ∧ ChecksDrawn slipRun ∧ ¬ Guarded gradedPlatform slipRun := by
  refine ⟨⟨by decide, by decide⟩, fun st hst args hcall hop => ?_, fun hguarded => ?_⟩
  · simp only [slipRun, List.mem_cons, List.not_mem_nil, or_false] at hst
    rcases hst with rfl | rfl | rfl | rfl <;> cases hcall <;> first | exact Option.some_ne_none _ | cases hop
  obtain ⟨e, hheld, hadmitted, hgrades, hsources, hbinding, hworkspace, hproject, hdigest⟩ := gradedRun_admits.1.held
  have hsome : gradesText "" ≠ "" := by decide
  obtain ⟨b, hprepares⟩ : ∃ b, Prepares (run gradedPlatform gradedRun)
      (receiptPlan gradedPlatform (run gradedPlatform gradedRun) gradedReceiptRequest
        (some (.entry (tokenOf 1), e)) sampleTime { attempt := some (tokenOf 3), producer := some (tokenOf 4) }).1 b :=
    hheld.prepares (by decide) rfl rfl hadmitted (if_neg (hgrades.trans_ne hsome))
    (sampleReceipt_fits (e := e.take) (.inr ⟨hgrades, rfl⟩) hsources hbinding hworkspace hproject hdigest)
    (decide_eq_true ((length_newReceipt_admitted 3 _ _).trans_le (by decide)))
  have hnext := hheld.next_release (P := gradedPlatform)
    (show gradedReceiptStep.call = .release gradedReceiptRequest from rfl) rfl rfl (by decide) rfl
    (by decide) (by decide) hbinding
  obtain ⟨args, e', earlier, planArgs, answerArgs, hcall, he', htrace, haccepted, -⟩ :=
    (hguarded gradedRun gradedReceiptStep [] rfl).1 b (hnext ▸ hprepares)
  obtain rfl : gradedReceiptRequest = args := Call.release.inj hcall
  have hentry : e = e' := by
    have hfound : (expire gradedPlatform (run gradedPlatform gradedRun) sampleTime).entries.get?
      (tokenOf 1) = some e' := he'
    rw [hheld.expire_eq] at hfound
    exact Option.some_inj.mp (hheld.entry.symm.trans hfound)
  have hsources' : e'.fence.sources = [gradedRef] := hentry ▸ hsources
  -- The answer set was the last event of the ticket.
  obtain ⟨r, hreply, -⟩ := haccepted.sharedOwner (by rw [hsources']; decide)
  have htrace : trace gradedPlatform (tokenOf 1) gradedRun = _ := htrace
  have hnone : answerArgs.ownerResponse.isNone = true := by simpa [htrace] using gradedRun_admits.2
  rw [hreply] at hnone
  cases hnone

end SourceRelease
