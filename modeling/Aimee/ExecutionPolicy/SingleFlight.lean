-- SUMMARY: Two actions at one destination: which calls can leave both unresolved, and the run in which both are.
import Aimee.ExecutionPolicy.ActionRuns

/-!
# One action in flight

Only an admission looks at the other actions of its destination, and only for those that are under
way. An action that is admitted and not dispatched yet is not seen, nor is one that was acknowledged
and whose outcome becomes unknown again.
-/

namespace ExecutionPolicy

open ActionJournal

/-! ## Flights -/

/-- Dispatched, and the outcome is not known. -/
def ActionState.unresolved : ActionState → Bool
  | dispatching => true
  | outcomeUnknown => true
  | _ => false

/-- Under way, or free to be. -/
def ActionState.holds : ActionState → Bool
  | admitted => true
  | dispatching => true
  | outcomeUnknown => true
  | _ => false

/-- A mutating action under another key, at the destination of a mutating intent. -/
def rival (key : String) (intent : ActionIntent) (e : String × ActionReceipt) : Bool :=
  key ≠ e.1 && !intent.actionClass.reads && !e.2.intent.actionClass.reads &&
    intent.destination = e.2.intent.destination

theorem rival_comm (e e' : String × ActionReceipt) : rival e.1 e.2.intent e' = rival e'.1 e'.2.intent e := by
  have hiff : rival e.1 e.2.intent e' = true ↔ rival e'.1 e'.2.intent e = true := by
    simp only [rival, Bool.and_eq_true, decide_eq_true_eq]
    constructor
    · rintro ⟨⟨⟨hkey, hmut⟩, hmut'⟩, hdest⟩
      exact ⟨⟨⟨hkey.symm, hmut'⟩, hmut⟩, hdest.symm⟩
    · rintro ⟨⟨⟨hkey, hmut⟩, hmut'⟩, hdest⟩
      exact ⟨⟨⟨hkey.symm, hmut'⟩, hmut⟩, hdest.symm⟩
  exact Bool.eq_iff_iff.mpr hiff

/-- At most one mutating action of a destination is in one of the states. -/
def AtMostOne (p : ActionState → Bool) (j : ActionJournal) : Prop :=
  ∀ e ∈ j.actions.rows, ∀ e' ∈ j.actions.rows, rival e.1 e.2.intent e' = true → p e.2.state = true →
    p e'.2.state = false

/-- The call is made while no rival of its action would be joined: an admission finds none admitted,
    and an acknowledgement is turned into an unknown outcome only while none is under way. -/
def Careful (s : Option ActionJournal) (call : ActionCall) : Prop :=
  ∀ j ∈ s, ∀ e ∈ j.actions.rows, rival call.intent.idempotencyKey call.intent e = true →
    (call.operation = .admitAction → e.2.state ≠ .admitted) ∧
      (call.operation = .reconcile → call.outcome.any (·.state = .outcomeUnknown) = true →
        (j.receipt? call.intent.idempotencyKey).any (·.state = .acknowledged) = true → e.2.state.holds = false)

instance (s : Option ActionJournal) (call : ActionCall) : Decidable (Careful s call) :=
  inferInstanceAs (Decidable (∀ j ∈ s, ∀ e ∈ j.actions.rows,
    rival call.intent.idempotencyKey call.intent e = true → _ ∧ _))

/-- Every call of a history is careful. -/
def CarefulCalls (codec : Codec) (calls : List ActionCall) : Prop :=
  ∀ before call, before ++ [call] <+: calls → Careful (history codec before).state call

/-! ## One call -/

section Step

variable {codec : Codec} {call : ActionCall} {s : Option ActionJournal} {j j₁ : ActionJournal}
  {receipt : ActionReceipt} {evidence : String}

/-- A record that leaves an action under way joins no rival. -/
theorem Records.alone (hrecords : Records codec call j j₁ receipt evidence) (hone : AtMostOne ActionState.holds j)
    (hagrees : Agrees call j) (hread : readJournal call s = .ok j) (hcareful : Careful s call)
    {e : String × ActionReceipt} (he : e ∈ j.actions.rows)
    (hrival : rival call.intent.idempotencyKey call.intent e = true) (hholds : receipt.state.holds = true) :
    e.2.state.holds = false := by
  have hstate : s = some j := by
    cases s with
    | none =>
      cases hread
      cases he
    | some j₀ => rw [readJournal_some hread]
  -- An action that was under way already has no rival that is.
  have hprior : ∀ {prior}, j.receipt? call.intent.idempotencyKey = some prior → prior.state.holds = true →
      e.2.state.holds = false := by
    intro prior hprior hheld
    have hmem := receipt?_eq_some.mp hprior
    have hintent : prior.intent = call.intent := hagrees.intent _ hmem rfl
    exact hone _ hmem e he (by rw [hintent]; exact hrival) hheld
  cases hrecords with
  | prepare hop hfresh hintent => cases hholds
  | admitAction hop hprior' hstate' hintent hfree hceiling =>
    have hadmitted := (hcareful j hstate e he hrival).1 hop
    have hclear := List.any_eq_false.mp hfree e he
    simp only [rival, Bool.and_eq_true, decide_eq_true_eq] at hrival
    obtain ⟨⟨⟨hkey, hmut⟩, hmut'⟩, hdest⟩ := hrival
    simp only [unresolvedAt, hmut, hmut', hkey.symm, hdest.symm, ne_eq, not_false_eq_true, decide_true,
      Bool.and_self, Bool.true_and, Bool.or_eq_true, decide_eq_true_eq, not_or] at hclear
    cases hstate' : e.2.state with
    | admitted => exact absurd hstate' hadmitted
    | dispatching => exact absurd hstate' hclear.1.1
    | outcomeUnknown => exact absurd hstate' hclear.1.2
    | _ => rfl
  | dispatch hop hprior' hstate' => exact hprior hprior' (by rw [hstate']; rfl)
  | cancel hop hprior' hstate' => cases hholds
  | settle hop hprior' houtcome hbound hstate' hrefusal =>
    rcases hstate' with hstate' | hstate' | ⟨hop, hstate'⟩
    · exact hprior hprior' (by rw [hstate']; rfl)
    · exact hprior hprior' (by rw [hstate']; rfl)
    · refine (hcareful j hstate e he hrival).2 hop ?_ ?_
      · rw [houtcome, Option.any_some]
        obtain ⟨-, -, hlate⟩ := follows_of_outcome (.inr (.inr ⟨hop, hstate'⟩)) hrefusal
        revert hholds hlate
        generalize ActionOutcome.state _ = state
        cases state <;> simp [ActionState.holds, ActionState.early]
      · rw [hprior', Option.any_some, hstate']
        rfl

theorem AtMostOne.recorded (hone : AtMostOne ActionState.holds j) (hrecords : Records codec call j j₁ receipt evidence)
    (hagrees : Agrees call j) (hread : readJournal call s = .ok j) (hcareful : Careful s call) :
    AtMostOne ActionState.holds (recorded call j₁ receipt evidence) := by
  have hintent : (stamped call j₁ receipt).intent = call.intent := hrecords.intent_eq hagrees
  have hrows := hrecords.actions
  intro e he e' he' hrival hholds
  rcases mem_recorded.mp he with rfl | ⟨he, hkey⟩
  · rcases mem_recorded.mp he' with rfl | ⟨he', hkey'⟩
    · simp [rival] at hrival
    · rw [hintent] at hrival
      exact hrecords.alone hone hagrees hread hcareful (hrows ▸ he') hrival hholds
  · rcases mem_recorded.mp he' with rfl | ⟨he', hkey'⟩
    · rw [rival_comm, hintent] at hrival
      by_contra hheld
      have hheld' : receipt.state.holds = true := by simpa [stamped] using hheld
      have hfree := hrecords.alone hone hagrees hread hcareful (hrows ▸ he) hrival hheld'
      exact absurd (hfree.symm.trans hholds) (by decide)
    · exact hone e (hrows ▸ he) e' (hrows ▸ he') hrival hholds

end Step

/-! ## Whole histories -/

section Histories

variable {codec : Codec} {calls : List ActionCall} {call : ActionCall}

/-- Only an admission and a reconciliation can join a rival. -/
theorem careful_of_operation {s : Option ActionJournal} (hjoin : call.operation ≠ .admitAction)
    (hreconcile : call.operation ≠ .reconcile) : Careful s call :=
  fun _ _ _ _ _ => ⟨fun h => absurd h hjoin, fun h => absurd h hreconcile⟩

theorem CarefulCalls.init (h : CarefulCalls codec (calls ++ [call])) : CarefulCalls codec calls :=
  fun before c hprefix => h before c ( hprefix.trans (List.prefix_append calls [call]))

theorem CarefulCalls.snoc (h : CarefulCalls codec calls) (hcall : Careful (history codec calls).state call) :
    CarefulCalls codec (calls ++ [call]) := by
  intro before c hprefix
  rcases List.prefix_concat_iff.mp hprefix with heq | hprefix
  · obtain ⟨rfl, hc⟩ := List.append_inj' heq rfl
    rw [List.singleton_inj.mp hc]
    exact hcall
  · exact h before c hprefix

/-- After careful calls at most one mutating action of a destination is under way. -/
theorem atMostOne_history (hclock : ∀ c ∈ calls, c.now ≠ 0)
    (hdigest : ∀ c ∈ calls, ∀ c' ∈ calls, codec.intentDigest c.intent = codec.intentDigest c'.intent →
      c.intent = c'.intent) (hcareful : CarefulCalls codec calls) :
    ∀ j, (history codec calls).state = some j → AtMostOne ActionState.holds j := by
  induction calls using List.reverseRecOn with
  | nil => nofun
  | append_singleton calls call ih =>
    have hmem : ∀ c ∈ calls, c ∈ calls ++ [call] := fun c hc => List.mem_append_left _ hc
    have hlast : call ∈ calls ++ [call] := List.mem_append_right _ List.mem_cons_self
    have hclock' : ∀ c ∈ calls, c.now ≠ 0 := fun c hc => hclock c (hmem c hc)
    have hdigest' : ∀ c ∈ calls, ∀ c' ∈ calls, codec.intentDigest c.intent = codec.intentDigest c'.intent →
        c.intent = c'.intent := fun c hc c' hc' => hdigest c (hmem c hc) c' (hmem c' hc')
    have hone := ih hclock' hdigest' hcareful.init
    have hkept := kept_history hclock' hdigest'
    intro j hj
    rw [history_append] at hj
    unfold History.next at hj
    cases hanswer : governedAction codec (history codec calls).state call with
    | error e =>
      rw [hanswer] at hj
      exact hone j hj
    | ok answer =>
      obtain ⟨s', d⟩ := answer
      rw [hanswer] at hj
      obtain rfl : s' = some j := hj
      rcases governedAction_cases hanswer with
        ⟨hsame, -⟩ | ⟨j₀, hadmissible, j₁, receipt, evidence, hrecords, hrecorded, -⟩
      · exact hone j hsame.symm
      · cases hrecorded
        obtain ⟨hsane, -, -⟩ := hkept.read hadmissible
        obtain ⟨r, hvalid⟩ := hsane.valid
        have hcommitted : ∀ i, (∃ c ∈ calls, c.intent = i) →
            codec.intentDigest i = codec.intentDigest call.intent → i = call.intent := by
          rintro i ⟨c, hc, rfl⟩
          exact hdigest c (hmem c hc) call hlast
        have hagrees := hadmissible.agrees hvalid hsane.known hcommitted
        have hone₀ : AtMostOne ActionState.holds j₀ := by
          cases hstate : (history codec calls).state with
          | none =>
            have hread := hadmissible.read
            rw [hstate] at hread
            cases hread
            exact fun e he => absurd he List.not_mem_nil
          | some j' =>
            have hread := hadmissible.read
            rw [hstate] at hread
            rw [readJournal_some hread]
            exact hone j' hstate
        exact hone₀.recorded hrecords hagrees hadmissible.read (hcareful calls call List.prefix_rfl)

theorem ActionState.holds_of_unresolved {state : ActionState} (h : state.unresolved = true) : state.holds = true := by
  cases state <;> simp_all [unresolved, holds]

/-- In every history of careful calls at most one mutating action of a destination is unresolved,
    and none is dispatched while a rival is. -/
theorem single_flight (hclock : ∀ c ∈ calls, c.now ≠ 0)
    (hdigest : ∀ c ∈ calls, ∀ c' ∈ calls, codec.intentDigest c.intent = codec.intentDigest c'.intent →
      c.intent = c'.intent) (hcareful : CarefulCalls codec calls) :
    (∀ j, (history codec calls).state = some j → AtMostOne ActionState.unresolved j) ∧
      ∀ before call, before ++ [call] <+: calls →
        dispatches (call, governedAction codec (history codec before).state call) = true →
        ∀ j, (history codec before).state = some j → ∀ e ∈ j.actions.rows,
          rival call.intent.idempotencyKey call.intent e = true → e.2.state.unresolved = false := by
  have hfree : ∀ {state : ActionState}, state.holds = false → state.unresolved = false := by
    intro state hfree
    cases hunresolved : state.unresolved with
    | false => rfl
    | true => exact absurd (hfree.symm.trans (ActionState.holds_of_unresolved hunresolved)) (by decide)
  constructor
  · intro j hj e he e' he' hrival hunresolved
    exact hfree (atMostOne_history hclock hdigest hcareful j hj e he e' he' hrival
      (ActionState.holds_of_unresolved hunresolved))
  · intro before call hprefix hdispatches j hj e he hrival
    have hmem : ∀ c ∈ before, c ∈ calls := fun c hc => hprefix.subset (List.mem_append_left _ hc)
    have hlast : call ∈ calls := hprefix.subset (List.mem_append_right _ List.mem_cons_self)
    have hclock' : ∀ c ∈ before, c.now ≠ 0 := fun c hc => hclock c (hmem c hc)
    have hdigest' : ∀ c ∈ before, ∀ c' ∈ before, codec.intentDigest c.intent = codec.intentDigest c'.intent →
        c.intent = c'.intent := fun c hc c' hc' => hdigest c (hmem c hc) c' (hmem c' hc')
    have hcareful' : CarefulCalls codec before :=
      fun before' c hprefix' => hcareful before' c ( hprefix'.trans ((List.prefix_append _ _).trans hprefix))
    have hone := atMostOne_history hclock' hdigest' hcareful' j hj
    have hkept := kept_history hclock' hdigest'
    cases hanswer : governedAction codec (history codec before).state call with
    | error e =>
      rw [hanswer] at hdispatches
      cases hdispatches
    | ok answer =>
      obtain ⟨s', d⟩ := answer
      rw [hanswer] at hdispatches
      have hdispatches : d.dispatchAllowed = true := hdispatches
      rcases governedAction_cases hanswer with
        ⟨-, hidle, -⟩ | ⟨j₀, hadmissible, j₁, receipt, evidence, hrecords, -, -, -, hdispatch⟩
      · exact absurd (hidle.symm.trans hdispatches) (by decide)
      · have hop : call.operation = .dispatch := of_decide_eq_true (hdispatch.symm.trans hdispatches)
        obtain ⟨hsane, -, -⟩ := hkept.read hadmissible
        obtain ⟨r, hvalid⟩ := hsane.valid
        have hcommitted : ∀ i, (∃ c ∈ before, c.intent = i) →
            codec.intentDigest i = codec.intentDigest call.intent → i = call.intent := by
          rintro i ⟨c, hc, rfl⟩
          exact hdigest c (hmem c hc) call hlast
        have hagrees := hadmissible.agrees hvalid hsane.known hcommitted
        have hread := hadmissible.read
        rw [hj] at hread
        obtain rfl := readJournal_some hread
        have hheld : receipt.state.holds = true := by
          cases hrecords with
          | dispatch => rfl
          | prepare hop' => simp [hop'] at hop
          | admitAction hop' => simp [hop'] at hop
          | cancel hop' => simp [hop'] at hop
          | settle hop' =>
            rcases hop' with hop' | hop'
            · simp [hop'] at hop
            · simp [hop'] at hop
        exact hfree (hrecords.alone hone hagrees hadmissible.read (hcareful before call hprefix) he hrival hheld)

end Histories

/-- The second write is admitted only when the first is under way, and it is refused. -/
def queuedCalls : List ActionCall :=
  [writeCall .prepare (writeIntent "first" "attempt")] ++ [writeCall .prepare (writeIntent "second" "retry")] ++
    [writeCall .admitAction (writeIntent "first" "attempt")] ++ [writeCall .dispatch (writeIntent "first" "attempt")] ++
    [writeCall .admitAction (writeIntent "second" "retry")]

theorem writeDigest_inj {i i' : ActionIntent} (hi : i ∈ [writeIntent "first" "attempt", writeIntent "second" "retry"])
    (hi' : i' ∈ [writeIntent "first" "attempt", writeIntent "second" "retry"])
    (h : writeCodec.intentDigest i = writeCodec.intentDigest i') : i = i' := by
  have hdigests : writeCodec.intentDigest (writeIntent "first" "attempt") ≠
      writeCodec.intentDigest (writeIntent "second" "retry") := by
    decide
  simp only [List.mem_cons, List.not_mem_nil, or_false] at hi hi'
  rcases hi with rfl | rfl
  · rcases hi' with rfl | rfl
    · rfl
    · exact absurd h hdigests
  · rcases hi' with rfl | rfl
    · exact absurd h.symm hdigests
    · rfl

theorem single_flight_queued :
    CarefulCalls writeCodec queuedCalls ∧
      ∀ j, (history writeCodec queuedCalls).state = some j → AtMostOne ActionState.unresolved j := by
  have hprepare : ∀ {s intent}, Careful s (writeCall .prepare intent) := careful_of_operation nofun nofun
  have hdispatch : ∀ {s intent}, Careful s (writeCall .dispatch intent) := careful_of_operation nofun nofun
  have hcareful : CarefulCalls writeCodec queuedCalls := by
    have hstart : CarefulCalls writeCodec [] :=
      fun before call hprefix => absurd (List.prefix_nil.mp hprefix) (by simp)
    exact ((((hstart.snoc hprepare).snoc hprepare).snoc (by decide)).snoc hdispatch).snoc (by decide)
  have hclock : ∀ c ∈ queuedCalls, c.now ≠ 0 := by decide
  have hintents : ∀ c ∈ queuedCalls, c.intent ∈ [writeIntent "first" "attempt", writeIntent "second" "retry"] := by
    simp [queuedCalls, writeCall]
  exact ⟨hcareful, (single_flight hclock (fun c hc c' hc' => writeDigest_inj (hintents c hc) (hintents c' hc'))
    hcareful).1⟩

/-! ## Two actions at one destination -/

/-- Both writes are admitted before either is dispatched. -/
def interleavedCalls : List ActionCall :=
  let first := writeIntent "first" "attempt"
  let second := writeIntent "second" "retry"
  [writeCall .prepare first, writeCall .prepare second, writeCall .admitAction first, writeCall .admitAction second,
    writeCall .dispatch first, writeCall .dispatch second]

/-- Two rivals of a journal are unresolved. -/
def bothUnresolved (j : ActionJournal) : Bool :=
  j.actions.rows.any fun e => j.actions.rows.any fun e' =>
    rival e.1 e.2.intent e' && e.2.state.unresolved && e'.2.state.unresolved

/-- Both are dispatched, and both are unresolved. -/
theorem two_in_flight :
    (∀ c ∈ interleavedCalls, c.now ≠ 0) ∧
      (∀ c ∈ interleavedCalls, ∀ c' ∈ interleavedCalls,
        writeCodec.intentDigest c.intent = writeCodec.intentDigest c'.intent → c.intent = c'.intent) ∧
      (history writeCodec interleavedCalls).events.map dispatches = [false, false, false, false, true, true] ∧
      ¬∀ j, (history writeCodec interleavedCalls).state = some j → AtMostOne ActionState.unresolved j := by
  have hintents : ∀ c ∈ interleavedCalls,
      c.intent ∈ [writeIntent "first" "attempt", writeIntent "second" "retry"] := by
    simp [interleavedCalls, writeCall]
  have hrun : (history writeCodec interleavedCalls).events.map dispatches = [false, false, false, false, true, true] ∧
      (history writeCodec interleavedCalls).state.any bothUnresolved = true := by
    decide
  obtain ⟨hdispatches, hboth⟩ := hrun
  refine ⟨by decide, fun c hc c' hc' => writeDigest_inj (hintents c hc) (hintents c' hc'), hdispatches, fun hone => ?_⟩
  obtain ⟨j, hj, hboth⟩ := (Option.any_eq_true _ _).mp hboth
  obtain ⟨e, he, hboth⟩ := List.any_eq_true.mp hboth
  obtain ⟨e', he', hboth⟩ := List.any_eq_true.mp hboth
  simp only [Bool.and_eq_true] at hboth
  have hfree := hone j hj e he e' he' hboth.1.1 hboth.1.2
  exact absurd (hfree.symm.trans hboth.2) (by decide)

end ExecutionPolicy
