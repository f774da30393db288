-- SUMMARY: What each ledger operation does to the contracts, the indexed outcomes and the fallbacks.
import Aimee.ExecutionPolicy.Exploration

/-!
# Moves of the fallbacks

The operations of an exploration ledger as one type, and for each of them what it leaves of the
stored contracts, the recorded outcomes and the granted fallbacks. An attempt is admitted with the
fallback's reason exactly when it spends one.
-/

namespace ExecutionPolicy

/-! ## Operations -/

inductive LedgerOp where
  | issue (c : ExplorationContract) (now : ℤ)
  | reserve (a : ExplorationAttempt) (operator : ExplorationLimits) (optIn : Bool) (calibrated : String →
      String → Bool) (now : ℤ)
  | started (id : String)
  | cancelBeforeDispatch (id : String)
  | recordIndexedOutcome (o : IndexedOutcome) (now : ℤ)
  | expand (reason gap outcomeId : String) (now : ℤ)
  | completedTurn (turn : UInt64) (constrained unresolved indexedFailed verifiedProgress : Bool)

/-- The clock reading of an operation that takes one. -/
def LedgerOp.now? : LedgerOp → Option ℤ
  | .issue _ now | .reserve _ _ _ _ now | .recordIndexedOutcome _ now | .expand _ _ _ now => some now
  | .started _ | .cancelBeforeDispatch _ | .completedTurn .. => none

def ExplorationSnapshot.perform (s : ExplorationSnapshot) : LedgerOp → Except String ExplorationSnapshot
  | .issue c now => s.issue c now
  | .reserve a operator optIn calibrated now => (s.reserve a operator optIn calibrated now).map Prod.snd
  | .started id => s.start id
  | .cancelBeforeDispatch id => s.cancelBeforeDispatch id
  | .recordIndexedOutcome o now => s.recordIndexedOutcome o now
  | .expand reason gap outcomeId now => s.expand reason gap outcomeId now
  | .completedTurn turn constrained unresolved failed progress =>
      s.completedTurn turn constrained unresolved failed progress

/-- An operation that fails leaves the ledger as it is. -/
def ExplorationSnapshot.after (s : ExplorationSnapshot) (op : LedgerOp) : ExplorationSnapshot :=
  match s.perform op with
  | .ok s' => s'
  | .error _ => s

def fallbackReason : String := "host_recorded_indexed_fallback"

/-- The operation admits a new attempt on a fallback. -/
def ExplorationSnapshot.admitsFallback (s : ExplorationSnapshot) : LedgerOp → Bool
  | .reserve a operator optIn calibrated now =>
    (s.attempts.find? a.id).isNone &&
      match s.reserve a operator optIn calibrated now with
      | .ok (d, _) => d.reason = fallbackReason
      | .error _ => false
  | _ => false

/-! ## Moves -/

variable {s s' : ExplorationSnapshot} {now : ℤ}

/-- The contracts, the outcomes and the fallbacks stay. -/
structure SameGrants (s s' : ExplorationSnapshot) : Prop where
  revisions : s'.revisions = s.revisions
  outcomes : s'.outcomes = s.outcomes
  fallbacks : s'.fallbacks = s.fallbacks

/-- One more contract, numbered one above the one before it. -/
structure Revised (s s' : ExplorationSnapshot) (c : ExplorationContract) : Prop where
  revisions : s'.revisions = s.revisions ++ [c]
  next : ∀ old, s.current = some old → c.revision = old.revision + 1
  room : s.revisions.length < 128

/-- A fallback is granted for a recorded outcome of the contract in force, whose revision moves. -/
structure Granted (s s' : ExplorationSnapshot) (outcomeId : String) (now : ℤ) (f : ExplorationFallback) : Prop where
  contract : ∃ c, s.current = some c ∧ f.outcome.contractId = c.id ∧ f.outcome.binding = c.binding ∧
    f.outcome.revision = c.revision + 1 ∧ Revised s s' { c with revision := c.revision + 1 }
  outcome : ∃ o, s.outcomes.find? outcomeId = some o ∧ f.outcome = { o with revision := f.outcome.revision }
  fresh : ∀ g ∈ s.fallbacks, g.outcome.id ≠ outcomeId
  expires : f.expires ≤ now + minute
  remaining : f.remaining = 1
  outcomes : s'.outcomes = s.outcomes
  fallbacks : s'.fallbacks = s.fallbacks ++ [f]

/-- A fallback that permits the attempt under the contract in force loses one use. -/
structure FallbackSpent (s s' : ExplorationSnapshot) (a : ExplorationAttempt) (now : ℤ) (i : ℕ)
    (f : ExplorationFallback) : Prop where
  contract : ∃ c, s.current = some c ∧ f.permits c a now = true
  at_ : s.fallbacks[i]? = some f
  revisions : s'.revisions = s.revisions
  outcomes : s'.outcomes = s.outcomes
  fallbacks : s'.fallbacks = s.fallbacks.modify i fun f => { f with remaining := f.remaining - 1 }

/-- What a ledger operation does to the grants. -/
inductive GrantMove (s s' : ExplorationSnapshot) : LedgerOp → Prop where
  | idle (op) : SameGrants s s' → s.admitsFallback op = false → GrantMove s s' op
  | revise (op c) : Revised s s' c → s'.outcomes = s.outcomes → s'.fallbacks = s.fallbacks →
      s.admitsFallback op = false →
      (s.revisions = [] → ∃ now, op = .issue c now) → GrantMove s s' op
  | record (o now) : s'.revisions = s.revisions → s'.fallbacks = s.fallbacks → s.outcomes.find? o.id = none →
      s'.outcomes = s.outcomes.upsert o → GrantMove s s' (.recordIndexedOutcome o now)
  | grant (reason gap outcomeId now f) : Granted s s' outcomeId now f →
      GrantMove s s' (.expand reason gap outcomeId now)
  | spend (a operator optIn calibrated now i f) : FallbackSpent s s' a now i f →
      s.admitsFallback (.reserve a operator optIn calibrated now) = true →
        GrantMove s s' (.reserve a operator optIn calibrated now)

theorem issue_move {c : ExplorationContract} (h : s.issue c now = .ok s') : GrantMove s s' (.issue c now) := by
  unfold ExplorationSnapshot.issue at h
  split_ifs at h with hvalid hfull hmoved
  cases h
  refine .revise _ c ⟨rfl, fun old hold => ?_, not_le.mp hfull⟩ rfl rfl rfl fun _ => ⟨now, rfl⟩
  rw [hold, Option.any_some] at hmoved
  simp only [Bool.or_eq_true, decide_eq_true_eq, not_or, not_not] at hmoved
  exact hmoved.1.1.1.1.2

theorem start_move {id : String} (h : s.start id = .ok s') : GrantMove s s' (.started id) := by
  unfold ExplorationSnapshot.start at h
  split at h
  · cases h
  · split_ifs at h
    cases h
    exact .idle _ ⟨rfl, rfl, rfl⟩ rfl

theorem cancel_move {id : String} (h : s.cancelBeforeDispatch id = .ok s') :
    GrantMove s s' (.cancelBeforeDispatch id) := by
  unfold ExplorationSnapshot.cancelBeforeDispatch at h
  split at h
  · cases h
  · split_ifs at h with _ _ hcharged
    all_goals
      cases h
      exact .idle _ ⟨rfl, rfl, rfl⟩ rfl

theorem relax_move (h : s.relax = .ok s') :
    SameGrants s s' ∨ ∃ c, Revised s s' c ∧ s'.outcomes = s.outcomes ∧ s'.fallbacks = s.fallbacks ∧
      s.revisions ≠ [] := by
  unfold ExplorationSnapshot.relax at h
  split at h
  · cases h
    exact .inl ⟨rfl, rfl, rfl⟩
  next c hcurrent =>
    split at h
    · cases h
      exact .inl ⟨rfl, rfl, rfl⟩
    · split at h
      · cases h
      next hroom =>
        cases h
        refine .inr ⟨_, ⟨rfl, fun old hold => ?_, not_le.mp hroom⟩, rfl, rfl, fun hnil => ?_⟩
        · rw [hcurrent] at hold
          cases hold
          rfl
        · rw [ExplorationSnapshot.current, hnil] at hcurrent
          cases hcurrent

theorem completedTurn_move {turn : UInt64} {constrained unresolved failed progress : Bool}
    (h : s.completedTurn turn constrained unresolved failed progress = .ok s') :
    GrantMove s s' (.completedTurn turn constrained unresolved failed progress) := by
  unfold ExplorationSnapshot.completedTurn at h
  split at h
  · cases h
    exact .idle _ ⟨rfl, rfl, rfl⟩ rfl
  · rcases relax_move h with ⟨hrev, hout, hfall⟩ | ⟨c, ⟨hrev, hnext, hroom⟩, hout, hfall, hne⟩
    · exact .idle _ ⟨hrev, hout, hfall⟩ rfl
    · exact .revise _ c ⟨hrev, hnext, hroom⟩ hout hfall rfl fun hnil => absurd hnil hne

theorem record_move {o : IndexedOutcome} (h : s.recordIndexedOutcome o now = .ok s') :
    GrantMove s s' (.recordIndexedOutcome o now) := by
  unfold ExplorationSnapshot.recordIndexedOutcome at h
  split at h
  · cases h
  · split at h
    · cases h
    · split at h
      · split_ifs at h
        cases h
        exact .idle _ ⟨rfl, rfl, rfl⟩ rfl
      next hnone =>
        split_ifs at h
        cases h
        exact .record o now rfl rfl hnone rfl

theorem expand_move {reason gap outcomeId : String} (h : s.expand reason gap outcomeId now = .ok s') :
    GrantMove s s' (.expand reason gap outcomeId now) := by
  unfold ExplorationSnapshot.expand at h
  split at h
  · cases h
  next c hcurrent =>
    split at h
    · cases h
    split at h
    · cases h
    next o hfind =>
      split at h
      · cases h
      next hmatch =>
        simp only [Bool.or_eq_true, decide_eq_true_eq, not_or, not_not] at hmatch
        split at h
        · split_ifs at h
          cases h
          exact .idle _ ⟨rfl, rfl, rfl⟩ rfl
        next hfresh =>
          split_ifs at h with hrevision hroom
          cases h
          refine .grant reason gap outcomeId now _
            ⟨⟨c, hcurrent, hmatch.1.1.1.2, hmatch.1.1.1.1.2, rfl, rfl, ?_, ?_⟩, ⟨o, hfind, rfl⟩, ?_, ?_, rfl, rfl, rfl⟩
          · intro old hold
            rw [hcurrent] at hold
            cases hold
            rfl
          · exact not_le.mp fun hle => hroom (.inr hle)
          · intro g hg
            simpa using List.find?_eq_none.mp hfresh g hg
          · exact min_le_left _ _

/-! ## Reservations -/

section Reserve

variable {a : ExplorationAttempt} {operator : ExplorationLimits} {optIn : Bool} {calibrated : String → String → Bool}
  {d : ExplorationDecision}

/-- The reason the contract gives on its own is never the fallback's. -/
theorem adaptive_reason (s : ExplorationSnapshot) (a : ExplorationAttempt) (now : ℤ) :
    (s.adaptive a now).2 ≠ fallbackReason := by
  unfold ExplorationSnapshot.adaptive
  split
  · decide
  · split_ifs <;> dsimp only <;> decide

theorem adaptive_current {c : ExplorationContract} (h : (s.adaptive a now).1 = some c) : s.current = some c := by
  unfold ExplorationSnapshot.adaptive at h
  split at h
  · cases h
  next c' hcurrent =>
    split_ifs at h
    cases h
    exact hcurrent

/-- The decision names the fallback exactly when it found one that permits the attempt, and then it
    does not restrict. -/
theorem weigh_fallback {tu su : ExplorationUsage} {fallback : Option ℕ}
    (h : s.weigh a tu su operator optIn calibrated now = (d, fallback)) :
    (fallback = none ∧ d.reason ≠ fallbackReason) ∨
      ∃ i c, fallback = some i ∧ d.reason = fallbackReason ∧ d.restricted = false ∧ s.current = some c ∧
        s.fallbacks.findIdx? (·.permits c a now) = some i := by
  unfold ExplorationSnapshot.weigh at h
  dsimp only at h
  obtain ⟨hd, hfallback⟩ := Prod.mk.inj h
  cases fallback with
  | none =>
    refine .inl ⟨rfl, ?_⟩
    rw [← hd, hfallback]
    simp only [Option.isSome_none, Bool.false_eq_true, if_false]
    split_ifs
    · decide
    · decide
    · exact adaptive_reason s a now
  | some i =>
    obtain ⟨c, hactive, hfind⟩ := Option.bind_eq_some_iff.mp hfallback
    split at hfind
    next hgate =>
      simp only [Bool.and_eq_true, Bool.not_eq_true'] at hgate
      refine .inr ⟨i, c, rfl, ?_, ?_, adaptive_current hactive, hfind⟩
      · rw [← hd, hfallback]
        simp only [hgate.2, Bool.false_eq_true, if_false, Option.isSome_some, if_true]
        rfl
      · rw [← hd, hfallback]
        simp [hgate.2]
    · cases hfind

theorem enter_sameGrants {tu su : ExplorationUsage} : SameGrants s (s.enter a tu su d none now) := by
  unfold ExplorationSnapshot.enter
  split <;> exact ⟨rfl, rfl, rfl⟩

theorem reserve_move (h : s.reserve a operator optIn calibrated now = .ok (d, s')) :
    GrantMove s s' (.reserve a operator optIn calibrated now) := by
  have hreserve := h
  unfold ExplorationSnapshot.reserve at h
  split at h
  · cases h
  split at h
  next old hknown =>
    split_ifs at h
    cases h
    refine .idle _ ⟨rfl, rfl, rfl⟩ ?_
    simp [ExplorationSnapshot.admitsFallback, hknown]
  next hnew =>
    have hadmits : s.admitsFallback (.reserve a operator optIn calibrated now) =
      decide (d.reason = fallbackReason) := by
      simp [ExplorationSnapshot.admitsFallback, hnew, hreserve]
    unfold ExplorationSnapshot.admitAttempt at h
    split at h
    · cases h
    cases htask : addUsage s.taskUsage a with
    | error err =>
      rw [htask] at h
      cases h
    | ok tu =>
      cases hsession : addUsage s.sessionUsage a with
      | error err =>
        rw [htask, hsession] at h
        cases h
      | ok su =>
        rw [htask, hsession] at h
        cases hweigh : s.weigh a tu su operator optIn calibrated now with
        | mk d' fallback =>
          simp only [bind, Except.bind, hweigh, pure, Except.pure] at h
          obtain ⟨rfl, rfl⟩ := Prod.mk.inj (Except.ok.inj h)
          rcases weigh_fallback hweigh with ⟨rfl, hreason⟩ | ⟨i, c, rfl, hreason, hrestricted, hcurrent, hfind⟩
          · exact .idle _ enter_sameGrants (by rw [hadmits, decide_eq_false hreason])
          · obtain ⟨hi, hpermits, -⟩ := List.findIdx?_eq_some_iff_getElem.mp hfind
            refine .spend a operator optIn calibrated now i s.fallbacks[i] ⟨⟨c, hcurrent, hpermits⟩,
              List.getElem?_eq_getElem hi, ?_, ?_, ?_⟩ ?_
            · simp [ExplorationSnapshot.enter, hrestricted]
            · simp [ExplorationSnapshot.enter, hrestricted]
            · simp [ExplorationSnapshot.enter, hrestricted, spendFallback]
            · rw [hadmits, decide_eq_true hreason]

end Reserve

theorem grantMove_after (s : ExplorationSnapshot) (op : LedgerOp) : GrantMove s (s.after op) op := by
  unfold ExplorationSnapshot.after
  cases hperform : s.perform op with
  | error err =>
    refine .idle _ ⟨rfl, rfl, rfl⟩ ?_
    cases op with
    | reserve a operator optIn calibrated now =>
      cases hreserve : s.reserve a operator optIn calibrated now with
      | error err => simp [ExplorationSnapshot.admitsFallback, hreserve]
      | ok r =>
        simp only [ExplorationSnapshot.perform, hreserve] at hperform
        cases hperform
    | _ => rfl
  | ok s' =>
    cases op with
    | issue c now => exact issue_move hperform
    | reserve a operator optIn calibrated now =>
      cases hreserve : s.reserve a operator optIn calibrated now with
      | error err =>
        simp only [ExplorationSnapshot.perform, hreserve] at hperform
        cases hperform
      | ok r =>
        simp only [ExplorationSnapshot.perform, hreserve] at hperform
        cases hperform
        exact reserve_move hreserve
    | started id => exact start_move hperform
    | cancelBeforeDispatch id => exact cancel_move hperform
    | recordIndexedOutcome o now => exact record_move hperform
    | expand reason gap outcomeId now => exact expand_move hperform
    | completedTurn turn constrained unresolved failed progress => exact completedTurn_move hperform

end ExecutionPolicy
