-- SUMMARY: Histories of governed actions: the journal stays readable, reservations add up, and nothing is dispatched twice.
import Aimee.ExecutionPolicy.ActionSteps
import Mathlib.Data.List.Induction

/-!
# Histories of governed actions

Calls in any order, each on the state the calls before it committed. A call that fails commits
nothing.
-/

namespace ExecutionPolicy

open ActionJournal

/-! ## Histories -/

/-- What is committed after an answer. -/
def commit (s : Option ActionJournal) : Answer → Option ActionJournal
  | .ok (s', _) => s'
  | .error _ => s

/-- The committed state, and each call with its answer. -/
structure History where
  state : Option ActionJournal := none
  events : List (ActionCall × Answer) := []

def History.next (codec : Codec) (h : History) (call : ActionCall) : History where
  state := commit h.state (governedAction codec h.state call)
  events := h.events ++ [(call, governedAction codec h.state call)]

def history (codec : Codec) (calls : List ActionCall) : History := calls.foldl (History.next codec) {}

theorem history_append (codec : Codec) (calls : List ActionCall) (call : ActionCall) :
    history codec (calls ++ [call]) = (history codec calls).next codec call :=
  List.foldl_append ..

/-- The call admitted its action. -/
def admits : ActionCall × Answer → Bool
  | (call, .ok (_, d)) => call.operation = .admitAction && d.allowed && d.reason = ""
  | (_, .error _) => false

/-- The call was answered with leave to dispatch. -/
def dispatches : ActionCall × Answer → Bool
  | (_, .ok (_, d)) => d.dispatchAllowed
  | (_, .error _) => false

def unitsOf (call : ActionCall) : ℕ := (actionUnits call.intent.workUnits).getD 0

def reservedCalls (s : Option ActionJournal) : ℕ := (s.map (·.reservedCalls)).getD 0

def reservedWork (s : Option ActionJournal) : ℕ := (s.map (·.reservedWork)).getD 0

/-- Before an admission, before a dispatch, and after it. -/
def ActionState.stage : ActionState → ℕ
  | prepared => 0
  | admitted => 1
  | _ => 2

/-- The action of a call is at a stage, or past it. -/
def Reached (s : Option ActionJournal) (stage : ℕ) (call : ActionCall) : Prop :=
  ∃ j receipt, s = some j ∧ j.receipt? call.intent.idempotencyKey = some receipt ∧
    receipt.intent = call.intent ∧ stage ≤ receipt.state.stage

/-! ## One call of a history -/

section Step

variable {codec : Codec} {call : ActionCall} {s s' : Option ActionJournal} {j j₁ : ActionJournal}
  {d : ActionDecision} {receipt : ActionReceipt} {evidence : String}

theorem receipt?_recorded_self :
    (recorded call j receipt evidence).receipt? call.intent.idempotencyKey = some (stamped call j receipt) :=
  receipt?_eq_some.mpr (mem_recorded.mpr (.inl rfl))

theorem receipt?_recorded_of_ne {key : String} (h : key ≠ call.intent.idempotencyKey) :
    (recorded call j receipt evidence).receipt? key = j.receipt? key := by
  refine Option.ext fun receipt' => ?_
  rw [receipt?_eq_some, receipt?_eq_some, mem_recorded]
  constructor
  · rintro (heq | ⟨hmem, -⟩)
    · exact absurd (congrArg Prod.fst heq) h
    · exact hmem
  · exact fun hmem => .inr ⟨hmem, h⟩

theorem Records.actions (h : Records codec call j j₁ receipt evidence) : j₁.actions = j.actions := by
  cases h <;> rfl

theorem ActionState.stage_le_two (state : ActionState) : state.stage ≤ 2 := by
  cases state <;> simp [stage]

theorem ActionState.stage_of_late {state : ActionState} (h : state.early = false) : state.stage = 2 := by
  cases state <;> simp_all [stage, early]

/-- No action goes back to an earlier stage. -/
theorem Records.stage_le (h : Records codec call j j₁ receipt evidence) {prior : ActionReceipt}
    (hprior : j.receipt? call.intent.idempotencyKey = some prior) : prior.state.stage ≤ receipt.state.stage := by
  cases h with
  | prepare hop hfresh hintent =>
    rw [hprior] at hfresh
    cases hfresh
  | admitAction hop hprior' hstate hintent hfree hceiling =>
    cases hprior.symm.trans hprior'
    rw [hstate]
    exact Nat.zero_le _
  | dispatch hop hprior' hstate => exact ActionState.stage_le_two _
  | cancel hop hprior' hstate => exact ActionState.stage_le_two _
  | settle hop hprior' houtcome hbound hstate hrefusal =>
    obtain ⟨-, -, hlate⟩ := follows_of_outcome hstate hrefusal
    exact (ActionState.stage_le_two _).trans (ActionState.stage_of_late hlate).ge

theorem Records.intent_eq (h : Records codec call j j₁ receipt evidence) (hagrees : Agrees call j) :
    receipt.intent = call.intent := by
  have hsame : ∀ {prior}, j.receipt? call.intent.idempotencyKey = some prior → prior.intent = call.intent :=
    fun hprior => hagrees.intent _ (receipt?_eq_some.mp hprior) rfl
  cases h with
  | prepare hop hfresh hintent => rfl
  | admitAction hop hprior hstate hintent hfree hceiling =>
    have := hsame hprior
    exact this
  | dispatch hop hprior hstate =>
    have := hsame hprior
    exact this
  | cancel hop hprior hstate =>
    have := hsame hprior
    exact this
  | settle hop hprior houtcome hbound hstate hrefusal =>
    have := hsame hprior
    exact this

theorem readJournal_some (h : readJournal call (some j) = .ok j₁) : j₁ = j := by
  unfold readJournal at h
  dsimp only at h
  split at h
  · cases h
  · cases h
    rfl

theorem Reached.recorded {stage : ℕ} {other : ActionCall} (h : Reached s stage other)
    (hread : readJournal call s = .ok j) (hrecords : Records codec call j j₁ receipt evidence)
    (hagrees : Agrees call j) : Reached (some (recorded call j₁ receipt evidence)) stage other := by
  obtain ⟨j₀, prior, rfl, hprior, hintent, hstage⟩ := h
  obtain rfl := readJournal_some hread
  by_cases hkey : other.intent.idempotencyKey = call.intent.idempotencyKey
  · rw [hkey] at hprior
    have hsame : prior.intent = call.intent := hagrees.intent _ (receipt?_eq_some.mp hprior) rfl
    refine ⟨_, stamped call j₁ receipt, rfl, ?_, ?_, hstage.trans (hrecords.stage_le hprior)⟩
    · rw [hkey]
      exact receipt?_recorded_self
    · exact (hrecords.intent_eq hagrees).trans (hsame.symm.trans hintent)
  · refine ⟨_, prior, rfl, ?_, hintent, hstage⟩
    rwa [receipt?_recorded_of_ne hkey, receipt?, hrecords.actions]

end Step

/-! ## Whole histories -/

section Histories

variable {codec : Codec} {calls : List ActionCall} {call : ActionCall} {h : History}

/-- What holds after every call. -/
structure Kept (codec : Codec) (calls : List ActionCall) (h : History) : Prop where
  sane : ∀ j, h.state = some j → Sane codec (fun i => ∃ c ∈ calls, c.intent = i) j
  calls : reservedCalls h.state = (h.events.filter admits).length
  work : reservedWork h.state = ((h.events.filter admits).map fun e => unitsOf e.1).sum
  admitted : ∀ e ∈ h.events.filter admits, Reached h.state 1 e.1
  dispatched : ∀ e ∈ h.events.filter dispatches, Reached h.state 2 e.1
  admittedKeys : ((h.events.filter admits).map (·.1.intent.idempotencyKey)).Nodup
  admittedIds : ((h.events.filter admits).map (·.1.intent.id)).Nodup
  dispatchedKeys : ((h.events.filter dispatches).map (·.1.intent.idempotencyKey)).Nodup
  dispatchedIds : ((h.events.filter dispatches).map (·.1.intent.id)).Nodup

theorem kept_start : Kept codec [] {} where
  sane := nofun
  calls := rfl
  work := rfl
  admitted := fun _ he => absurd he List.not_mem_nil
  dispatched := fun _ he => absurd he List.not_mem_nil
  admittedKeys := List.nodup_nil
  admittedIds := List.nodup_nil
  dispatchedKeys := List.nodup_nil
  dispatchedIds := List.nodup_nil

theorem Sane.mono {known known' : ActionIntent → Prop} {j : ActionJournal} (hsane : Sane codec known j)
    (h : ∀ i, known i → known' i) : Sane codec known' j :=
  ⟨hsane.valid, hsane.clear, fun e he => h _ (hsane.known e he)⟩

variable {answer : Answer} {stage : ℕ} {flag : ActionJournal → Bool}

theorem Kept.idle (hkept : Kept codec calls h) (hadmits : admits (call, answer) = false)
    (hdispatches : dispatches (call, answer) = false) :
    Kept codec (calls ++ [call]) { state := h.state, events := h.events ++ [(call, answer)] } := by
  have hfilter : (h.events ++ [(call, answer)]).filter admits = h.events.filter admits := by
    rw [List.filter_append, List.filter_cons_of_neg (by simp [hadmits]), List.filter_nil, List.append_nil]
  have hfilter' : (h.events ++ [(call, answer)]).filter dispatches = h.events.filter dispatches := by
    rw [List.filter_append, List.filter_cons_of_neg (by simp [hdispatches]), List.filter_nil, List.append_nil]
  refine ⟨fun j hj => (hkept.sane j hj).mono ?_, ?_, ?_, ?_, ?_, ?_, ?_, ?_, ?_⟩
  · rintro i ⟨c, hc, rfl⟩
    exact ⟨c, List.mem_append_left _ hc, rfl⟩
  · rw [hfilter]
    exact hkept.calls
  · rw [hfilter]
    exact hkept.work
  · rw [hfilter]
    exact hkept.admitted
  · rw [hfilter']
    exact hkept.dispatched
  · rw [hfilter]
    exact hkept.admittedKeys
  · rw [hfilter]
    exact hkept.admittedIds
  · rw [hfilter']
    exact hkept.dispatchedKeys
  · rw [hfilter']
    exact hkept.dispatchedIds

theorem Kept.read (hkept : Kept codec calls h) {j : ActionJournal} (hadmissible : Admissible codec call h.state j) :
    Sane codec (fun i => ∃ c ∈ calls, c.intent = i) j ∧ reservedCalls h.state = j.reservedCalls ∧
      reservedWork h.state = j.reservedWork := by
  have hread := hadmissible.read
  cases hstate : h.state with
  | none =>
    rw [hstate] at hread
    cases hread
    exact ⟨sane_start hadmissible.principal hadmissible.root, rfl, rfl⟩
  | some j₀ =>
    rw [hstate] at hread
    obtain rfl := readJournal_some hread
    exact ⟨hkept.sane j hstate, rfl, rfl⟩

theorem Records.reserved {j j₁ : ActionJournal} {receipt : ActionReceipt} {evidence : String}
    (hrecords : Records codec call j j₁ receipt evidence) :
    j₁.reservedCalls = j.reservedCalls + (if call.operation = .admitAction then 1 else 0) ∧
      j₁.reservedWork = j.reservedWork + (if call.operation = .admitAction then unitsOf call else 0) := by
  cases hrecords with
  | prepare hop hfresh hintent => simp [hop]
  | admitAction hop hprior hstate hintent hfree hceiling => simp [hop, reserve, unitsOf]
  | dispatch hop hprior hstate => simp [hop]
  | cancel hop hprior hstate => simp [hop]
  | settle hop hprior houtcome hbound hstate hrefusal =>
    rcases hop with hop | hop
    · simp [hop]
    · simp [hop]

/-- An admission and a dispatch each take their action one stage on. -/
theorem Records.stage_lt {j j₁ : ActionJournal} {receipt : ActionReceipt} {evidence : String}
    (hrecords : Records codec call j j₁ receipt evidence)
    (hop : call.operation = .admitAction ∧ stage = 1 ∨ call.operation = .dispatch ∧ stage = 2) :
    receipt.state.stage = stage ∧
      ∀ prior, j.receipt? call.intent.idempotencyKey = some prior → prior.state.stage < stage := by
  cases hrecords with
  | prepare hop' hfresh hintent => simp [hop'] at hop
  | admitAction hop' hprior hstate hintent hfree hceiling =>
    obtain rfl : stage = 1 := by simpa [hop'] using hop
    refine ⟨rfl, fun prior' hprior' => ?_⟩
    cases hprior.symm.trans hprior'
    rw [hstate]
    decide
  | dispatch hop' hprior hstate =>
    obtain rfl : stage = 2 := by simpa [hop'] using hop
    refine ⟨rfl, fun prior' hprior' => ?_⟩
    cases hprior.symm.trans hprior'
    rw [hstate]
    decide
  | cancel hop' hprior hstate => simp [hop'] at hop
  | settle hop' hprior houtcome hbound hstate hrefusal =>
    rcases hop' with hop' | hop'
    · simp [hop'] at hop
    · simp [hop'] at hop

theorem Reached.ne {s : Option ActionJournal} {other : ActionCall} (hreached : Reached s stage other)
    {j : ActionJournal} (hadmissible : Admissible codec call s j)
    (hbefore : ∀ prior, j.receipt? call.intent.idempotencyKey = some prior → prior.state.stage < stage) :
    other.intent.idempotencyKey ≠ call.intent.idempotencyKey ∧ other.intent.id ≠ call.intent.id := by
  obtain ⟨j₀, receipt, rfl, hreceipt, hintent, hstage⟩ := hreached
  obtain rfl := readJournal_some hadmissible.read
  have hkey : other.intent.idempotencyKey ≠ call.intent.idempotencyKey := by
    intro hkey
    rw [hkey] at hreceipt
    exact absurd (hbefore receipt hreceipt) (not_lt.mpr hstage)
  refine ⟨hkey, fun hid => hkey ?_⟩
  exact hadmissible.id _ (receipt?_eq_some.mp hreceipt) (hintent ▸ hid)

theorem nodup_snoc {α : Type} {l : List α} {a : α} (hl : l.Nodup) (ha : ∀ b ∈ l, b ≠ a) : (l ++ [a]).Nodup := by
  refine List.nodup_append.mpr ⟨hl, List.nodup_singleton a, fun b hb c hc => ?_⟩
  rw [List.mem_singleton.mp hc]
  exact ha b hb

theorem events_snoc {p : ActionCall × Answer → Bool} {events : List (ActionCall × Answer)}
    {s s' : Option ActionJournal} (hold : ∀ e ∈ events.filter p, Reached s stage e.1)
    (hkeep : ∀ other, Reached s stage other → Reached s' stage other)
    (hnew : p (call, answer) = true → Reached s' stage call ∧
      ∀ other, Reached s stage other →
        other.intent.idempotencyKey ≠ call.intent.idempotencyKey ∧ other.intent.id ≠ call.intent.id)
    (hkeys : ((events.filter p).map (·.1.intent.idempotencyKey)).Nodup)
    (hids : ((events.filter p).map (·.1.intent.id)).Nodup) :
    (∀ e ∈ (events ++ [(call, answer)]).filter p, Reached s' stage e.1) ∧
      (((events ++ [(call, answer)]).filter p).map (·.1.intent.idempotencyKey)).Nodup ∧
      (((events ++ [(call, answer)]).filter p).map (·.1.intent.id)).Nodup := by
  cases hp : p (call, answer) with
  | false =>
    rw [List.filter_append, List.filter_cons_of_neg (by simp [hp]), List.filter_nil, List.append_nil]
    exact ⟨fun e he => hkeep _ (hold e he), hkeys, hids⟩
  | true =>
    obtain ⟨hreached, hne⟩ := hnew hp
    rw [List.filter_append, List.filter_cons_of_pos hp, List.filter_nil, List.map_append, List.map_append,
      List.map_singleton, List.map_singleton]
    refine ⟨fun e he => ?_, nodup_snoc hkeys ?_, nodup_snoc hids ?_⟩
    · rcases List.mem_append.mp he with he | he
      · exact hkeep _ (hold e he)
      · rw [List.mem_singleton.mp he]
        exact hreached
    · intro key hkey
      obtain ⟨e, he, rfl⟩ := List.mem_map.mp hkey
      exact (hne _ (hold e he)).1
    · intro id hid
      obtain ⟨e, he, rfl⟩ := List.mem_map.mp hid
      exact (hne _ (hold e he)).2

theorem Kept.record (hkept : Kept codec calls h) {j : ActionJournal} {s' : Option ActionJournal} {d : ActionDecision}
    (hadmissible : Admissible codec call h.state j) (hrecorded : Recorded codec call j s' d) (hclock : call.now ≠ 0)
    (hdigest : ∀ c ∈ calls, codec.intentDigest c.intent = codec.intentDigest call.intent → c.intent = call.intent) :
    Kept codec (calls ++ [call]) { state := s', events := h.events ++ [(call, .ok (s', d))] } := by
  obtain ⟨j₁, receipt, evidence, hrecords, rfl, hallowed, hreason, hdispatch⟩ := hrecorded
  obtain ⟨hsane, hcalls, hwork⟩ := hkept.read hadmissible
  obtain ⟨r, hvalid⟩ := hsane.valid
  have hdigest' : ∀ i, (∃ c ∈ calls, c.intent = i) → codec.intentDigest i = codec.intentDigest call.intent →
      i = call.intent := by
    rintro i ⟨c, hc, rfl⟩
    exact hdigest c hc
  have hagrees := hadmissible.agrees hvalid hsane.known hdigest'
  have hsane' : Sane codec (fun i => ∃ c ∈ calls ++ [call], c.intent = i) (recorded call j₁ receipt evidence) := by
    refine Sane.recorded (hsane.mono ?_) hadmissible hrecords hclock ⟨call, by simp, rfl⟩ ?_
    · rintro i ⟨c, hc, rfl⟩
      exact ⟨c, List.mem_append_left _ hc, rfl⟩
    · rintro i ⟨c, hc, rfl⟩ hsame
      rcases List.mem_append.mp hc with hc | hc
      · exact hdigest c hc hsame
      · rw [List.mem_singleton.mp hc]
  have hadmits : admits (call, .ok (some (recorded call j₁ receipt evidence), d)) =
    decide (call.operation = .admitAction) := by
    simp [admits, hallowed, hreason]
  have hkeep : ∀ stage other, Reached h.state stage other →
      Reached (some (recorded call j₁ receipt evidence)) stage other :=
    fun _ _ hreached => hreached.recorded hadmissible.read hrecords hagrees
  have hnew : ∀ stage, call.operation = .admitAction ∧ stage = 1 ∨ call.operation = .dispatch ∧ stage = 2 →
      Reached (some (recorded call j₁ receipt evidence)) stage call ∧ ∀ other, Reached h.state stage other →
        other.intent.idempotencyKey ≠ call.intent.idempotencyKey ∧ other.intent.id ≠ call.intent.id := by
    intro stage hop
    obtain ⟨hstage, hbefore⟩ := hrecords.stage_lt hop
    exact ⟨⟨_, stamped call j₁ receipt, rfl, receipt?_recorded_self, hrecords.intent_eq hagrees, hstage.ge⟩,
      fun other hreached => hreached.ne hadmissible hbefore⟩
  have hdispatches : dispatches (call, .ok (some (recorded call j₁ receipt evidence), d)) =
      decide (call.operation = .dispatch) := hdispatch
  obtain ⟨hadmitted, hadmittedKeys, hadmittedIds⟩ := events_snoc hkept.admitted (hkeep 1)
    (fun hp => hnew 1 (.inl ⟨of_decide_eq_true (hadmits.symm.trans hp), rfl⟩)) hkept.admittedKeys hkept.admittedIds
  obtain ⟨hdispatched, hdispatchedKeys, hdispatchedIds⟩ := events_snoc hkept.dispatched (hkeep 2)
    (fun hp => hnew 2 (.inr ⟨of_decide_eq_true (hdispatches.symm.trans hp), rfl⟩)) hkept.dispatchedKeys
    hkept.dispatchedIds
  obtain ⟨hreserved, hreserved'⟩ := hrecords.reserved
  refine ⟨?_, ?_, ?_, hadmitted, hdispatched, hadmittedKeys, hadmittedIds, hdispatchedKeys, hdispatchedIds⟩
  · rintro j' ⟨⟩
    exact hsane'
  · change j₁.reservedCalls = _
    rw [hreserved, ← hcalls, hkept.calls, List.filter_append, List.filter_cons]
    split_ifs <;> simp_all
  · change j₁.reservedWork = _
    rw [hreserved', ← hwork, hkept.work, List.filter_append, List.filter_cons, hadmits]
    split_ifs <;> simp_all

theorem Kept.next (hkept : Kept codec calls h) (hclock : call.now ≠ 0)
    (hdigest : ∀ c ∈ calls, codec.intentDigest c.intent = codec.intentDigest call.intent → c.intent = call.intent) :
    Kept codec (calls ++ [call]) (h.next codec call) := by
  unfold History.next
  cases hanswer : governedAction codec h.state call with
  | error e => exact hkept.idle rfl rfl
  | ok answer =>
    obtain ⟨s', d⟩ := answer
    rcases governedAction_cases hanswer with ⟨rfl, hdispatch, hrefused⟩ | ⟨j, hadmissible, hrecorded⟩
    · refine hkept.idle ?_ hdispatch
      rcases hrefused with hrefused | hrefused
      · simp [admits, hrefused]
      · simp [admits, hrefused]
    · exact hkept.record hadmissible hrecorded hclock hdigest

theorem kept_history (hclock : ∀ c ∈ calls, c.now ≠ 0)
    (hdigest : ∀ c ∈ calls, ∀ c' ∈ calls, codec.intentDigest c.intent = codec.intentDigest c'.intent →
      c.intent = c'.intent) : Kept codec calls (history codec calls) := by
  induction calls using List.reverseRecOn with
  | nil => exact kept_start
  | append_singleton calls call ih =>
    rw [history_append]
    have hmem : ∀ c ∈ calls, c ∈ calls ++ [call] := fun c hc => List.mem_append_left _ hc
    have hlast : call ∈ calls ++ [call] := List.mem_append_right _ List.mem_cons_self
    refine (ih ?_ ?_).next (hclock call hlast) fun c hc => hdigest c (hmem c hc) call hlast
    · exact fun c hc => hclock c (hmem c hc)
    · exact fun c hc c' hc' => hdigest c (hmem c hc) c' (hmem c' hc')

/-! ## Ceilings and flags -/

theorem reserved_of_read {s : Option ActionJournal} {j : ActionJournal} (hread : readJournal call s = .ok j) :
    reservedCalls s = j.reservedCalls ∧ reservedWork s = j.reservedWork := by
  cases s with
  | none =>
    cases hread
    exact ⟨rfl, rfl⟩
  | some j₀ =>
    obtain rfl := readJournal_some hread
    exact ⟨rfl, rfl⟩

/-- The reservations are within the ceilings of a policy. -/
def Within (policy : ActionCompositionPolicy) (s : Option ActionJournal) : Prop :=
  (∀ n, policy.maxCalls = some n → reservedCalls s ≤ n) ∧ ∀ n, policy.maxWork = some n → reservedWork s ≤ n

theorem Within.next (hwithin : Within call.policy h.state) : Within call.policy (h.next codec call).state := by
  unfold History.next
  cases hanswer : governedAction codec h.state call with
  | error e => exact hwithin
  | ok answer =>
    obtain ⟨s', d⟩ := answer
    rcases governedAction_cases hanswer with ⟨rfl, -⟩ | ⟨j, hadmissible, j₁, receipt, evidence, hrecords, rfl, -⟩
    · exact hwithin
    · obtain ⟨hcalls, hwork⟩ := reserved_of_read hadmissible.read
      rw [Within, hcalls, hwork] at hwithin
      obtain ⟨hreserved, hreserved'⟩ := hrecords.reserved
      change (∀ n, _ → j₁.reservedCalls ≤ n) ∧ ∀ n, _ → j₁.reservedWork ≤ n
      by_cases hop : call.operation = .admitAction
      · cases hrecords with
        | admitAction hop' hprior hstate hintent hfree hceiling =>
          simp only [overCeiling, Bool.or_eq_false_iff, Option.any_eq_false] at hceiling
          refine ⟨fun n hn => ?_, fun n hn => ?_⟩
          · have := hceiling.1.1.1 n hn
            simp only [decide_eq_false_iff_not, not_le] at this
            exact this
          · have := hceiling.2 n hn
            simp only [decide_eq_false_iff_not, not_lt] at this
            exact (Nat.add_le_add_left this.2 _).trans (Nat.add_sub_of_le this.1).le
        | prepare hop' => simp [hop'] at hop
        | dispatch hop' => simp [hop'] at hop
        | cancel hop' => simp [hop'] at hop
        | settle hop' =>
          rcases hop' with hop' | hop'
          · simp [hop'] at hop
          · simp [hop'] at hop
      · rw [hreserved, hreserved', if_neg hop, if_neg hop]
        exact hwithin

theorem within_history {policy : ActionCompositionPolicy} (hpolicy : ∀ c ∈ calls, c.policy = policy) :
    Within policy (history codec calls).state := by
  induction calls using List.reverseRecOn with
  | nil => exact ⟨fun _ _ => Nat.zero_le _, fun _ _ => Nat.zero_le _⟩
  | append_singleton calls call ih =>
    rw [history_append]
    have hlast : call.policy = policy := hpolicy call (List.mem_append_right _ List.mem_cons_self)
    subst hlast
    exact (ih fun c hc => hpolicy c (List.mem_append_left _ hc)).next

theorem sticky_next (hflag : ∀ j j₁ receipt evidence, Records codec call j j₁ receipt evidence → flag j = true →
      flag (recorded call j₁ receipt evidence) = true)
    (hset : h.state.any flag = true) : (h.next codec call).state.any flag = true := by
  unfold History.next
  cases hanswer : governedAction codec h.state call with
  | error e => exact hset
  | ok answer =>
    obtain ⟨s', d⟩ := answer
    rcases governedAction_cases hanswer with ⟨rfl, -⟩ | ⟨j, hadmissible, j₁, receipt, evidence, hrecords, rfl, -⟩
    · exact hset
    · cases hstate : h.state with
      | none =>
        rw [hstate] at hset
        cases hset
      | some j₀ =>
        rw [hstate] at hset
        have hread := hadmissible.read
        rw [hstate] at hread
        obtain rfl := readJournal_some hread
        exact hflag _ _ _ _ hrecords hset

theorem sensitiveRead_recorded (j j₁ : ActionJournal) (receipt : ActionReceipt) (evidence : String)
    (hrecords : Records codec call j j₁ receipt evidence) (hset : j.sensitiveRead = true) :
    (recorded call j₁ receipt evidence).sensitiveRead = true := by
  cases hrecords with
  | admitAction => simp [recorded, reserve, hset]
  | _ => exact hset

theorem privilegeElevated_recorded (j j₁ : ActionJournal) (receipt : ActionReceipt) (evidence : String)
    (hrecords : Records codec call j j₁ receipt evidence) (hset : j.privilegeElevated = true) :
    (recorded call j₁ receipt evidence).privilegeElevated = true := by
  cases hrecords with
  | admitAction => simp [recorded, reserve, hset]
  | _ => exact hset

theorem sticky_history
    (hflag : ∀ call j j₁ receipt evidence, Records codec call j j₁ receipt evidence → flag j = true →
      flag (recorded call j₁ receipt evidence) = true) (more : List ActionCall)
    (hset : (history codec calls).state.any flag = true) :
    (history codec (calls ++ more)).state.any flag = true := by
  induction more using List.reverseRecOn with
  | nil => rwa [List.append_nil]
  | append_singleton more call ih =>
    rw [← List.append_assoc, history_append]
    exact sticky_next (hflag call) ih

/-! ## Integrity -/

/-- What a history of calls leaves. -/
structure Integrity (codec : Codec) (calls : List ActionCall) : Prop where
  valid : ∀ j, (history codec calls).state = some j → j.validate codec = true
  readable : ∀ call, governedAction codec (history codec calls).state call ≠ .error .inconsistent
  callsReserved : reservedCalls (history codec calls).state = ((history codec calls).events.filter admits).length
  workReserved : reservedWork (history codec calls).state =
    (((history codec calls).events.filter admits).map fun e => unitsOf e.1).sum
  admittedOnce : (((history codec calls).events.filter admits).map (·.1.intent.id)).Nodup
  ceilings : ∀ policy, (∀ c ∈ calls, c.policy = policy) → Within policy (history codec calls).state
  sensitive : (history codec calls).state.any (·.sensitiveRead) = true →
    ∀ more, (history codec (calls ++ more)).state.any (·.sensitiveRead) = true
  elevated : (history codec calls).state.any (·.privilegeElevated) = true →
    ∀ more, (history codec (calls ++ more)).state.any (·.privilegeElevated) = true
  dispatchedKeys : (((history codec calls).events.filter dispatches).map (·.1.intent.idempotencyKey)).Nodup
  dispatchedIds : (((history codec calls).events.filter dispatches).map (·.1.intent.id)).Nodup
  unchanged : ∀ call s' d, governedAction codec (history codec calls).state call = .ok (s', d) →
    d.allowed = false ∨ d.reason = "existing_receipt" → s' = (history codec calls).state

theorem record_ne_inconsistent {j : ActionJournal} {receipt : ActionReceipt} {evidence : String} :
    record codec call j receipt evidence ≠ .error .inconsistent := by
  unfold record
  split
  · nofun
  · split
    · nofun
    · split
      · nofun
      · nofun

theorem operate_ne_inconsistent {s : Option ActionJournal} {j : ActionJournal} :
    operate codec s call j ≠ .error .inconsistent := by
  unfold operate prepare advance admitAction dispatch cancel settle
  dsimp only
  repeat' split
  all_goals first
    | exact record_ne_inconsistent
    | exact hok _
    | (intro h; cases h)

theorem readable_of_kept (hkept : Kept codec calls h) :
    governedAction codec h.state call ≠ .error .inconsistent := by
  intro herror
  unfold governedAction at herror
  split at herror
  · cases herror
  · next howner =>
    rw [not_or, not_or] at howner
    have hvalid : ∀ j, readJournal call h.state = .ok j → j.validate codec = true := by
      intro j hread
      cases hstate : h.state with
      | none =>
        rw [hstate] at hread
        cases hread
        exact validate_iff.mpr ⟨_, valid_start howner.1 howner.2.1⟩
      | some j₀ =>
        rw [hstate] at hread
        obtain rfl := readJournal_some hread
        exact validate_iff.mpr (hkept.sane j hstate).valid
    split at herror
    · next e hread =>
      cases herror
      unfold readJournal at hread
      split at hread
      · cases hread
      · split at hread
        · cases hread
        · cases hread
    · next j hread =>
      rw [hvalid j hread] at herror
      rw [if_neg (by decide)] at herror
      split at herror
      · cases herror
      · split at herror
        · cases herror
        · split at herror
          · cases herror
          · split at herror
            · cases herror
            · exact operate_ne_inconsistent herror

/-- After every history of calls on a clock that runs, the journal is readable, its counters are
    those of the actions that were admitted, and nothing was dispatched twice. -/
theorem journal_integrity (hclock : ∀ c ∈ calls, c.now ≠ 0)
    (hdigest : ∀ c ∈ calls, ∀ c' ∈ calls, codec.intentDigest c.intent = codec.intentDigest c'.intent →
      c.intent = c'.intent) : Integrity codec calls := by
  have hkept := kept_history hclock hdigest
  refine
    { valid := fun j hj => validate_iff.mpr (hkept.sane j hj).valid
      readable := fun call => readable_of_kept hkept
      callsReserved := hkept.calls, workReserved := hkept.work, admittedOnce := hkept.admittedIds
      ceilings := fun policy hpolicy => within_history hpolicy
      sensitive := fun hset more => sticky_history (fun _ => sensitiveRead_recorded) more hset
      elevated := fun hset more => sticky_history (fun _ => privilegeElevated_recorded) more hset
      dispatchedKeys := hkept.dispatchedKeys, dispatchedIds := hkept.dispatchedIds, unchanged := ?_ }
  intro call s' d hanswer hrefused
  rcases governedAction_cases hanswer with ⟨hsame, -⟩ | ⟨j, -, j₁, receipt, evidence, -, -, hallowed, hreason, -⟩
  · exact hsame
  · rw [hallowed, hreason] at hrefused
    exact absurd hrefused (by decide)

end Histories

/-! ## A write -/

/-- A write to one file, under a key. -/
def writeIntent (key attempt : String) : ActionIntent where
  turnSession := ""
  turn := ""
  schemaVersion := 1
  id := key
  request := "request"
  task := "task"
  attempt := attempt
  principal := "alice"
  root := "root"
  tool := "write_file"
  actionClass := .fileWrite
  destination := "workspace:one/file"
  payloadDigest := "aaaaaaaaaaaaaaaaaaaaaaaaaaaaaaaaaaaaaaaaaaaaaaaaaaaaaaaaaaaaaaaa"
  purpose := "requested edit"
  evidenceDigest := ""
  contextReceipt := ""
  policyGeneration := "policy:1"
  revocationGeneration := "revocation:1"
  idempotencyKey := key
  workUnits := "9"
  expires := 63926064060 * second

/-- SHA-256 of the JSON texts of the two intents, and texts that fit. -/
def writeCodec : Codec where
  intentDigest i :=
    if i = writeIntent "first" "attempt" then "a470a67c5751f03bcc8ea718aa3793c38448b3f51118e31023ee2a48e6034ec6"
    else if i = writeIntent "second" "retry" then "2efd8a76c3833344ca2d5af3c5eedab8bd8c12064fdf7234ebbad965dc9ed5eb"
    else i.id
  outcomeDigest o := o.evidenceRef
  guardDigest guard := guard
  textLength j := some (1024 * (1 + j.actions.rows.length + j.audit.length))

def writeCall (operation : Operation) (intent : ActionIntent) : ActionCall where
  principal := "alice"
  root := "root"
  operation := operation
  intent := intent
  registryClass := .fileWrite
  freshness :=
    { intentDigest := writeCodec.intentDigest intent, evidenceDigest := "", contextReceipt := ""
      policyGeneration := "policy:1", revocationGeneration := "revocation:1", memoryGuard := ""
      checked := 63926064000 * second, expires := 63926064001 * second, authorized := true
      memoryRequired := false }
  outcome := none
  policy := { maxCalls := none, maxWork := none, forbidSensitivePublish := false, forbidElevatedUse := false }
  now := 63926064000 * second

/-- One write from its preparation to its dispatch, which is asked for twice. -/
def writeCalls : List ActionCall :=
  let first := writeIntent "first" "attempt"
  [writeCall .prepare first, writeCall .admitAction first, writeCall .dispatch first, writeCall .dispatch first]

theorem journal_integrity_write :
    (history writeCodec writeCalls).events.map dispatches = [false, false, true, false] ∧
      Integrity writeCodec writeCalls :=
  ⟨by decide, journal_integrity (by decide) (by decide)⟩

end ExecutionPolicy
