-- SUMMARY: What one call of the action reducer can do: nothing, or one of five records on a valid journal.
import Aimee.ExecutionPolicy.Replay

/-!
# One call

A call that answers either leaves the state as it was, and then it was refused or repeated, or it
records one receipt. `Records` lists the five receipts with what was checked for each.
-/

namespace ExecutionPolicy

open ActionJournal

/-- A receipt a call may record, over a journal whose counters may have moved. -/
inductive Records (codec : Codec) (call : ActionCall) (j : ActionJournal) :
    ActionJournal → ActionReceipt → String → Prop where
  | prepare (hop : call.operation = .prepare) (hfresh : j.receipt? call.intent.idempotencyKey = none)
      (hintent : call.intent.validate call.now = true) :
      Records codec call j j
        { intent := call.intent, digest := codec.intentDigest call.intent, state := .prepared, sequence := 0
          at_ := 0, outcome := none, freshness := none } ""
  | admitAction {prior : ActionReceipt} (hop : call.operation = .admitAction)
      (hprior : j.receipt? call.intent.idempotencyKey = some prior) (hstate : prior.state = .prepared)
      (hintent : call.intent.validate call.now = true) (hfree : j.actions.rows.any (unresolvedAt call.intent) = false)
      (hceiling : overCeiling call.policy j ((actionUnits call.intent.workUnits).getD 0) = false) :
      Records codec call j (reserve j call.intent ((actionUnits call.intent.workUnits).getD 0))
        { prior with state := .admitted, freshness := some (proofOf codec call.freshness) } ""
  | dispatch {prior : ActionReceipt} (hop : call.operation = .dispatch)
      (hprior : j.receipt? call.intent.idempotencyKey = some prior) (hstate : prior.state = .admitted) :
      Records codec call j j
        { prior with state := .dispatching, freshness := some (proofOf codec call.freshness) } ""
  | cancel {prior : ActionReceipt} (hop : call.operation = .cancel)
      (hprior : j.receipt? call.intent.idempotencyKey = some prior)
      (hstate : prior.state = .prepared ∨ prior.state = .admitted) :
      Records codec call j j
        { prior with
          state := .failedBeforeEffect
          outcome := some
            { state := .failedBeforeEffect, evidenceRef := hostCancel call.intent
              destination := call.intent.destination, payloadDigest := call.intent.payloadDigest
              objectVersion := "" } } (hostCancel call.intent)
  | settle {prior : ActionReceipt} {outcome : ActionOutcome}
      (hop : call.operation = .outcome ∨ call.operation = .reconcile)
      (hprior : j.receipt? call.intent.idempotencyKey = some prior) (houtcome : call.outcome = some outcome)
      (hbound : outcomeBound call.intent outcome = true)
      (hstate : prior.state = .dispatching ∨ prior.state = .outcomeUnknown ∨
        call.operation = .reconcile ∧ prior.state = .acknowledged)
      (hrefusal : outcomeRefusal call.operation prior.state outcome = none) :
      Records codec call j j { prior with state := outcome.state, outcome := some outcome } outcome.evidenceRef

/-- Nothing was recorded: the call was refused, or it was a repetition. -/
def Idle (s s' : Option ActionJournal) (d : ActionDecision) : Prop :=
  s' = s ∧ d.dispatchAllowed = false ∧ (d.allowed = false ∨ d.reason = "existing_receipt")

variable {codec : Codec} {call : ActionCall} {j : ActionJournal} {s s' : Option ActionJournal} {d : ActionDecision}

theorem idle_deny {reason remediation : String} (h : deny s reason remediation = .ok (s', d)) : Idle s s' d := by
  cases h
  exact ⟨rfl, rfl, .inl rfl⟩

variable {prior : ActionReceipt}

theorem idle_existing {allowed : Bool} (h : existing s allowed prior = .ok (s', d)) :
    Idle s s' d := by
  cases h
  exact ⟨rfl, rfl, .inr rfl⟩

/-- What was recorded, and how the call answers then. -/
def Recorded (codec : Codec) (call : ActionCall) (j : ActionJournal) (s' : Option ActionJournal)
    (d : ActionDecision) : Prop :=
  ∃ j₁ receipt evidence, Records codec call j j₁ receipt evidence ∧
    s' = some (recorded call j₁ receipt evidence) ∧ d.allowed = true ∧ d.reason = "" ∧
    d.dispatchAllowed = decide (call.operation = .dispatch)

theorem recorded_of_record {j₁ : ActionJournal} {receipt : ActionReceipt} {evidence : String}
    (hrecords : Records codec call j j₁ receipt evidence) (h : record codec call j₁ receipt evidence = .ok (s', d)) :
    Recorded codec call j s' d := by
  unfold record at h
  split at h
  · cases h
  · split at h
    · cases h
    · split at h
      · cases h
      · cases h
        exact ⟨j₁, receipt, evidence, hrecords, rfl, rfl, rfl, rfl⟩

theorem prepare_cases (hop : call.operation = .prepare) (h : prepare codec s call j = .ok (s', d)) :
    Idle s s' d ∨ Recorded codec call j s' d := by
  unfold prepare at h
  split at h
  · exact .inl (idle_existing h)
  · next hfresh =>
    split at h
    · exact .inl (idle_deny h)
    · split at h
      · exact .inl (idle_deny h)
      · next hintent => exact .inr (recorded_of_record (.prepare hop hfresh (by simpa using hintent)) h)

/-- The checks `admitAction` and `dispatch` share. -/
theorem advance_cases {required : ActionState} {next : ActionReceipt → Answer}
    (h : advance codec s call j required next = .ok (s', d)) :
    Idle s s' d ∨ ∃ prior, j.receipt? call.intent.idempotencyKey = some prior ∧ prior.state = required ∧
      call.intent.validate call.now = true ∧ next prior = .ok (s', d) := by
  unfold advance at h
  split at h
  · exact .inl (idle_deny h)
  · next prior hprior =>
    split at h
    · split at h
      · cases h
        exact .inl ⟨rfl, rfl, .inl rfl⟩
      · exact .inl (idle_existing h)
    · next hstate =>
      split at h
      · exact .inl (idle_deny h)
      · next hcurrent =>
        simp only [Bool.not_eq_true', Bool.not_eq_false, Bool.and_eq_true] at hcurrent
        exact .inr ⟨prior, hprior, not_not.mp hstate, hcurrent.1, h⟩

theorem admit_cases (hop : call.operation = .admitAction)
    (h : advance codec s call j .prepared (admitAction codec s call j) = .ok (s', d)) :
    Idle s s' d ∨ Recorded codec call j s' d := by
  rcases advance_cases h with hidle | ⟨prior, hprior, hstate, hintent, hadmit⟩
  · exact .inl hidle
  · unfold admitAction at hadmit
    dsimp only at hadmit
    split at hadmit
    · exact .inl (idle_deny hadmit)
    · next hfree =>
      split at hadmit
      · exact .inl (idle_deny hadmit)
      · next hceiling =>
        split at hadmit
        · exact .inl (idle_deny hadmit)
        · split at hadmit
          · exact .inl (idle_deny hadmit)
          · exact .inr (recorded_of_record
              (.admitAction hop hprior hstate hintent (by simpa using hfree) (by simpa using hceiling)) hadmit)

theorem dispatch_cases (hop : call.operation = .dispatch)
    (h : advance codec s call j .admitted (dispatch codec call j) = .ok (s', d)) :
    Idle s s' d ∨ Recorded codec call j s' d := by
  rcases advance_cases h with hidle | ⟨prior, hprior, hstate, -, hdispatch⟩
  · exact .inl hidle
  · exact .inr (recorded_of_record (.dispatch hop hprior hstate) hdispatch)

theorem cancel_cases (hop : call.operation = .cancel) (h : cancel codec s call j = .ok (s', d)) :
    Idle s s' d ∨ Recorded codec call j s' d := by
  unfold cancel at h
  split at h
  · exact .inl (idle_deny h)
  · next prior hprior =>
    split at h
    · exact .inl (idle_existing h)
    · split at h
      · cases h
        exact .inl ⟨rfl, rfl, .inl rfl⟩
      · next hstate =>
        rw [not_and_or, not_not, not_not] at hstate
        exact .inr (recorded_of_record (.cancel hop hprior hstate) h)

theorem settle_cases (hop : call.operation = .outcome ∨ call.operation = .reconcile)
    (h : settle codec s call j = .ok (s', d)) : Idle s s' d ∨ Recorded codec call j s' d := by
  unfold settle at h
  split at h
  · next prior outcome hprior houtcome =>
    obtain ⟨houtcome, hbound⟩ := Option.filter_eq_some_iff.mp houtcome
    split at h
    · exact .inl (idle_existing h)
    · split at h
      · exact .inl (idle_deny h)
      · next hstate =>
        split at h
        · exact .inl (idle_deny h)
        · next hrefusal =>
          have hstate' : prior.state = .dispatching ∨ prior.state = .outcomeUnknown ∨
              call.operation = .reconcile ∧ prior.state = .acknowledged := by tauto
          exact .inr (recorded_of_record (.settle hop hprior houtcome hbound hstate' hrefusal) h)
  · exact .inl (idle_deny h)

theorem operate_cases (h : operate codec s call j = .ok (s', d)) :
    Idle s s' d ∨ Recorded codec call j s' d := by
  unfold operate at h
  split at h
  · next hop => exact prepare_cases hop h
  · next hop => exact admit_cases hop h
  · next hop => exact dispatch_cases hop h
  · next hop => exact cancel_cases hop h
  · next hop => exact settle_cases (.inl hop) h
  · next hop => exact settle_cases (.inr hop) h
  · cases h

/-- The checks before the operation: the journal was read, and the intent is bound to it. -/
structure Admissible (codec : Codec) (call : ActionCall) (s : Option ActionJournal) (j : ActionJournal) : Prop where
  principal : call.principal ≠ ""
  root : call.root ≠ ""
  read : readJournal call s = .ok j
  valid : j.validate codec = true
  id : ∀ e ∈ j.actions.rows, e.2.intent.id = call.intent.id → e.1 = call.intent.idempotencyKey
  digest : ∀ prior, j.receipt? call.intent.idempotencyKey = some prior → prior.digest = codec.intentDigest call.intent
  intentPrincipal : call.intent.principal = call.principal
  intentRoot : call.intent.root = call.root

theorem governedAction_cases (h : governedAction codec s call = .ok (s', d)) :
    Idle s s' d ∨ ∃ j, Admissible codec call s j ∧ Recorded codec call j s' d := by
  unfold governedAction at h
  dsimp only at h
  split at h
  · cases h
  · next howner =>
    rw [not_or, not_or] at howner
    split at h
    · cases h
    · next j hread =>
      split at h
      · cases h
      · next hvalid =>
        split at h
        · cases h
        · split at h
          · exact .inl (idle_deny h)
          · next hid =>
            split at h
            · exact .inl (idle_deny h)
            · next hdigest =>
              split at h
              · exact .inl (idle_deny h)
              · next hbinding =>
                rw [not_or, not_not, not_or, not_not] at hbinding
                have hadmissible : Admissible codec call s j :=
                  { principal := howner.1, root := howner.2.1, read := hread
                    valid := by simpa using hvalid
                    id := by simpa using hid
                    digest := fun prior hprior => by simpa [hprior] using hdigest
                    intentPrincipal := hbinding.1, intentRoot := hbinding.2.1 }
                exact (operate_cases h).imp_right fun hrecorded => ⟨j, hadmissible, hrecorded⟩

/-! ## Journals of a history -/

/-- The states before an outcome. -/
def ActionState.early : ActionState → Bool
  | prepared => true
  | admitted => true
  | dispatching => true
  | _ => false

/-- A journal whose intents are known: it is valid, and only outcomes bring outcomes. -/
structure Sane (codec : Codec) (known : ActionIntent → Prop) (j : ActionJournal) : Prop where
  valid : ∃ r, Valid codec j r
  clear : ∀ e ∈ j.actions.rows, e.2.state.early = true → e.2.outcome = none
  known : ∀ e ∈ j.actions.rows, known e.2.intent

variable {key : String}

theorem receipt?_eq_some {receipt : ActionReceipt} :
    j.receipt? key = some receipt ↔ (key, receipt) ∈ j.actions.rows := by
  rw [receipt?, Option.map_eq_some_iff]
  constructor
  · rintro ⟨⟨k, receipt⟩, hfind, rfl⟩
    obtain ⟨hmem, rfl⟩ := Table.find?_eq_some_iff.mp hfind
    exact hmem
  · intro hmem
    exact ⟨(key, receipt), Table.find?_eq_some_iff.mpr ⟨hmem, rfl⟩, rfl⟩

theorem sane_start {known : ActionIntent → Prop} {principal root : String} (hprincipal : principal ≠ "")
    (hroot : root ≠ "") : Sane codec known (start principal root) where
  valid := ⟨_, valid_start hprincipal hroot⟩
  clear := fun _ he => absurd he List.not_mem_nil
  known := fun _ he => absurd he List.not_mem_nil

section Step

variable {known : ActionIntent → Prop} {r : Replay} {j₁ : ActionJournal} {receipt : ActionReceipt} {evidence : String}

theorem Admissible.agrees (h : Admissible codec call s j) (hvalid : Valid codec j r)
    (hknown : ∀ e ∈ j.actions.rows, known e.2.intent)
    (hdigest : ∀ i, known i → codec.intentDigest i = codec.intentDigest call.intent → i = call.intent) :
    Agrees call j where
  id := h.id
  intent := by
    rintro ⟨key, prior⟩ he rfl
    have hbound := hvalid.bound _ he
    simp only [ActionJournal.bound, Bool.and_eq_true, decide_eq_true_eq] at hbound
    have hprior := h.digest prior (receipt?_eq_some.mpr he)
    exact hdigest _ (hknown _ he) (hbound.1.1.1.2.symm.trans hprior)

theorem Admissible.owner (h : Admissible codec call s j) :
    call.intent.principal = j.principal ∧ call.intent.root = j.root := by
  rw [h.intentPrincipal, h.intentRoot]
  have hread := h.read
  unfold readJournal at hread
  split at hread
  · cases hread
    exact ⟨rfl, rfl⟩
  · split at hread
    · cases hread
    · next howner =>
      cases hread
      rw [not_or, not_or, not_not, not_not, not_not] at howner
      exact ⟨howner.2.1.symm, howner.2.2.symm⟩

section

variable (hvalid : Valid codec j r)
include hvalid

theorem ActionJournal.Valid.latest_state (hprior : j.receipt? key = some prior) :
    (r.latest prior.intent.id).map (·.state) = some prior.state := by
  have hsettled : ActionJournal.settled r prior = true := hvalid.settled _ (receipt?_eq_some.mp hprior)
  unfold ActionJournal.settled at hsettled
  split at hsettled
  · cases hsettled
  · next e he =>
    simp only [Bool.and_eq_true, decide_eq_true_eq] at hsettled
    rw [he, Option.map_some, hsettled.1.1.1.1]

theorem ActionJournal.Valid.freshness
    (hprior : j.receipt? key = some prior) (hreserved : r.reserved prior.intent.id = true) :
    prior.freshness.isSome := by
  have hsettled : ActionJournal.settled r prior = true := hvalid.settled _ (receipt?_eq_some.mp hprior)
  unfold ActionJournal.settled at hsettled
  split at hsettled
  · cases hsettled
  · simp only [Bool.and_eq_true, hreserved, Bool.not_true, Bool.false_or] at hsettled
    exact hsettled.1.2

theorem ActionJournal.Valid.unknown (hagrees : Agrees call j)
    (hfresh : j.receipt? call.intent.idempotencyKey = none) :
    r.latest call.intent.id = none ∧ r.reserved call.intent.id = false := by
  have hnone : ¬(j.intent? call.intent.id).isSome := by
    intro hsome
    obtain ⟨i, hi⟩ := Option.isSome_iff_exists.mp hsome
    obtain ⟨⟨key, prior⟩, he, rfl, hid⟩ := mem_of_intent? hi
    obtain rfl : key = call.intent.idempotencyKey := hagrees.id _ he hid
    rw [receipt?_eq_some.mpr he] at hfresh
    cases hfresh
  constructor
  · by_contra hlatest
    exact hnone (hvalid.known _ (.inl (Option.isSome_iff_ne_none.mpr hlatest)))
  · by_contra hreserved
    exact hnone (hvalid.known _ (.inr (by simpa using hreserved)))

theorem ActionJournal.Valid.counters :
    j = { j with reservedCalls := r.calls, reservedWork := r.work, sensitiveRead := r.sensitive
                 privilegeElevated := r.elevated } := by
  rw [hvalid.calls, hvalid.work, hvalid.sensitive, hvalid.elevated]

/-- A receipt that keeps the intent and the digest of the one under the key is bound. -/
theorem bound_of_prior
    (hprior : j.receipt? call.intent.idempotencyKey = some prior) (hintent : receipt.intent = prior.intent)
    (hdigest : receipt.digest = prior.digest) :
    j.bound codec (call.intent.idempotencyKey, receipt) = true := by
  have hbound := hvalid.bound _ (receipt?_eq_some.mp hprior)
  unfold ActionJournal.bound at hbound ⊢
  rwa [hintent, hdigest]

end

theorem identities_of_validate {i : ActionIntent} {now : ℤ} (h : i.validate now = true) :
    (∀ name ∈ i.identities, name ≠ "") ∧ (actionUnits i.workUnits).isSome := by
  simp only [ActionIntent.validate, Bool.and_eq_true, List.all_eq_true] at h
  refine ⟨fun name hname => ?_, h.1.1.2⟩
  have hvalid := h.1.1.1.2 name hname
  simp only [validIdentity, Bool.and_eq_true, decide_eq_true_eq] at hvalid
  exact hvalid.1.1

/-- An admission under the ceilings is counted by the replay. -/
theorem ActionJournal.Valid.reserve (hvalid : Valid codec j r) {units : ℕ} {intent : ActionIntent}
    {policy : ActionCompositionPolicy}
    (hunits : actionUnits intent.workUnits = some units) (hceiling : overCeiling policy j units = false) :
    ∃ r₁, r.reserve intent = some r₁ ∧
      reserve j intent units = { j with reservedCalls := r₁.calls, reservedWork := r₁.work
                                        sensitiveRead := r₁.sensitive, privilegeElevated := r₁.elevated } := by
  simp only [overCeiling, Bool.or_eq_false_iff, decide_eq_false_iff_not, not_lt] at hceiling
  obtain ⟨⟨⟨-, hcalls⟩, hwork⟩, -⟩ := hceiling
  refine
    ⟨{ r with
        reserved := Function.update r.reserved intent.id true
        calls := r.calls + 1
        work := r.work + units
        sensitive := r.sensitive || intent.actionClass = .sensitiveRead
        elevated := r.elevated || intent.actionClass = .privilegeElevation }, ?_, ?_⟩
  · unfold Replay.reserve
    rw [hunits]
    dsimp only
    rw [if_neg]
    rw [hvalid.calls, hvalid.work, not_or, not_lt]
    exact ⟨hcalls, hwork⟩
  · rw [ExecutionPolicy.reserve, hvalid.calls, hvalid.work, hvalid.sensitive, hvalid.elevated]

theorem follows_of_outcome {prior : ActionState} {outcome : ActionOutcome}
    (hstate : prior = .dispatching ∨ prior = .outcomeUnknown ∨ call.operation = .reconcile ∧ prior = .acknowledged)
    (hrefusal : outcomeRefusal call.operation prior outcome = none) :
    follows (some prior) outcome.state = true ∧ outcome.state ≠ .admitted ∧ outcome.state.early = false := by
  unfold outcomeRefusal at hrefusal
  cases hout : outcome.state with
  | acknowledged => rcases hstate with rfl | rfl | ⟨-, rfl⟩ <;> decide
  | outcomeUnknown => rcases hstate with rfl | rfl | ⟨-, rfl⟩ <;> decide
  | effectConfirmed => rcases hstate with rfl | rfl | ⟨-, rfl⟩ <;> decide
  | failedBeforeEffect =>
    rcases hstate with rfl | rfl | ⟨hop, rfl⟩
    · decide
    · decide
    · simp [hout, hop] at hrefusal
  | prepared => simp [hout] at hrefusal
  | admitted => simp [hout] at hrefusal
  | dispatching => simp [hout] at hrefusal
  | other name => simp [hout] at hrefusal

theorem Records.extends (hrecords : Records codec call j j₁ receipt evidence) (hadmissible : Admissible codec call s j)
    (hvalid : Valid codec j r) (hclear : ∀ e ∈ j.actions.rows, e.2.state.early = true → e.2.outcome = none)
    (hagrees : Agrees call j) (hclock : call.now ≠ 0) :
    ∃ r₁, Extends codec call j r r₁ receipt evidence ∧
      j₁ = { j with reservedCalls := r₁.calls, reservedWork := r₁.work, sensitiveRead := r₁.sensitive
                    privilegeElevated := r₁.elevated } := by
  have hsame : ∀ {prior}, j.receipt? call.intent.idempotencyKey = some prior → prior.intent = call.intent :=
    fun hprior => hagrees.intent _ (receipt?_eq_some.mp hprior) rfl
  have hlatest : ∀ {prior}, j.receipt? call.intent.idempotencyKey = some prior →
      (r.latest call.intent.id).map (·.state) = some prior.state := by
    intro prior hprior
    rw [← hsame hprior]
    exact hvalid.latest_state hprior
  cases hrecords with
  | prepare hop hfresh hintent =>
    obtain ⟨hlatest, hreserved⟩ := hvalid.unknown hagrees hfresh
    obtain ⟨hnames, -⟩ := identities_of_validate hintent
    obtain ⟨hprincipal, hroot⟩ := hadmissible.owner
    have hkey : call.intent.idempotencyKey ≠ "" := hnames _ (by simp [ActionIntent.identities])
    have hid : call.intent.id ≠ "" := hnames _ (by simp [ActionIntent.identities])
    refine ⟨r, ⟨hclock, rfl, ?_, ?_, rfl, ?_, nofun⟩, hvalid.counters⟩
    · simp [ActionJournal.bound, hkey, hid, hprincipal, hroot]
    · rw [hlatest]
      rfl
    · rw [hreserved]
      nofun
  | admitAction hop hprior hstate hintent hfree hceiling =>
    have hcommitted := hsame hprior
    obtain ⟨-, hunits⟩ := identities_of_validate hintent
    obtain ⟨units, hunits⟩ := Option.isSome_iff_exists.mp hunits
    rw [hunits] at hceiling ⊢
    obtain ⟨r₁, hreserve, hj₁⟩ := hvalid.reserve hunits hceiling
    refine ⟨r₁, ⟨hclock, hcommitted, bound_of_prior hvalid hprior rfl rfl, ?_, hreserve, fun _ => rfl, ?_⟩, hj₁⟩
    · rw [hlatest hprior, hstate]
      rfl
    · intro o ho
      have hnone := hclear _ (receipt?_eq_some.mp hprior) (by rw [hstate]; rfl)
      exact absurd (hnone.symm.trans ho) (by simp)
  | dispatch hop hprior hstate =>
    have hcommitted := hsame hprior
    refine ⟨r, ⟨hclock, hcommitted, bound_of_prior hvalid hprior rfl rfl, ?_, rfl, fun _ => rfl, ?_⟩, hvalid.counters⟩
    · rw [hlatest hprior, hstate]
      rfl
    · intro o ho
      have hnone := hclear _ (receipt?_eq_some.mp hprior) (by rw [hstate]; rfl)
      exact absurd (hnone.symm.trans ho) (by simp)
  | cancel hop hprior hstate =>
    have hcommitted := hsame hprior
    refine ⟨r, ⟨hclock, hcommitted, bound_of_prior hvalid hprior rfl rfl, ?_, rfl, ?_, ?_⟩, hvalid.counters⟩
    · rw [hlatest hprior]
      rcases hstate with hstate | hstate
      · rw [hstate]
        rfl
      · rw [hstate]
        rfl
    · intro hreserved
      rw [← hcommitted] at hreserved
      have hfresh := hvalid.freshness hprior hreserved
      exact hfresh
    · rintro o ⟨⟩
      exact ⟨rfl, rfl, rfl, rfl⟩
  | settle hop hprior houtcome hbound hstate hrefusal =>
    have hcommitted := hsame hprior
    obtain ⟨hfollows, hadmitted, -⟩ := follows_of_outcome hstate hrefusal
    simp only [outcomeBound, Bool.and_eq_true, decide_eq_true_eq] at hbound
    refine ⟨r, ⟨hclock, hcommitted, bound_of_prior hvalid hprior rfl rfl, ?_, if_neg hadmitted, ?_, ?_⟩,
      hvalid.counters⟩
    · rw [hlatest hprior]
      exact hfollows
    · intro hreserved
      rw [← hcommitted] at hreserved
      have hfresh := hvalid.freshness hprior hreserved
      exact hfresh
    · rintro o ⟨⟩
      exact ⟨rfl, hbound.1.2, hbound.2, rfl⟩

theorem Records.clear (hrecords : Records codec call j j₁ receipt evidence)
    (hclear : ∀ e ∈ j.actions.rows, e.2.state.early = true → e.2.outcome = none)
    (hearly : receipt.state.early = true) : receipt.outcome = none := by
  cases hrecords with
  | prepare hop hfresh hintent => rfl
  | admitAction hop hprior hstate hintent hfree hceiling =>
    exact hclear _ (receipt?_eq_some.mp hprior) (by rw [hstate]; rfl)
  | dispatch hop hprior hstate => exact hclear _ (receipt?_eq_some.mp hprior) (by rw [hstate]; rfl)
  | cancel hop hprior hstate => cases hearly
  | settle hop hprior houtcome hbound hstate hrefusal =>
    obtain ⟨-, -, hlate⟩ := follows_of_outcome hstate hrefusal
    exact absurd (hlate.symm.trans hearly) (by decide)

theorem Sane.recorded (h : Sane codec known j) (hadmissible : Admissible codec call s j)
    (hrecords : Records codec call j j₁ receipt evidence) (hclock : call.now ≠ 0) (hcall : known call.intent)
    (hdigest : ∀ i, known i → codec.intentDigest i = codec.intentDigest call.intent → i = call.intent) :
    Sane codec known (recorded call j₁ receipt evidence) := by
  obtain ⟨r, hvalid⟩ := h.valid
  have hagrees := hadmissible.agrees hvalid h.known hdigest
  obtain ⟨r₁, hext, hj₁⟩ := hrecords.extends hadmissible hvalid h.clear hagrees hclock
  have hrows : j₁.actions = j.actions := by rw [hj₁]
  refine ⟨⟨_, hvalid.recorded hagrees hext hj₁⟩, fun e he => ?_, fun e he => ?_⟩
  · rcases mem_recorded.mp he with rfl | ⟨he, -⟩
    · exact hrecords.clear h.clear
    · exact h.clear e (hrows ▸ he)
  · rcases mem_recorded.mp he with rfl | ⟨he, -⟩
    · change known receipt.intent
      rw [hext.intent]
      exact hcall
    · exact h.known e (hrows ▸ he)

end Step

end ExecutionPolicy
