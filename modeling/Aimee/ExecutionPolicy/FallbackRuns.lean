-- SUMMARY: Fallback capabilities over whole runs of a ledger: each is granted once, for a recorded outcome, and spent at most once.
import Aimee.ExecutionPolicy.FallbackMoves
import Mathlib.Algebra.Order.BigOperators.Group.List
import Mathlib.Algebra.Order.Ring.Int
import Mathlib.Data.List.Induction

/-!
# Runs of the fallbacks

Over a run from the empty ledger: what was admitted on a fallback and what is left of the fallbacks
add up to the grants, and there is at most one grant for each recorded outcome.
-/

namespace ExecutionPolicy

def ledgerAfter (ops : List LedgerOp) : ExplorationSnapshot := ops.foldl ExplorationSnapshot.after {}

theorem ledgerAfter_snoc (ops : List LedgerOp) (op : LedgerOp) :
    ledgerAfter (ops ++ [op]) = (ledgerAfter ops).after op := by
  simp [ledgerAfter]

/-- How many attempts a run admits on a fallback. -/
def fallbackAdmissions : ExplorationSnapshot → List LedgerOp → ℕ
  | _, [] => 0
  | s, op :: ops => (s.admitsFallback op).toNat + fallbackAdmissions (s.after op) ops

theorem fallbackAdmissions_snoc (s : ExplorationSnapshot) (ops : List LedgerOp) (op : LedgerOp) :
    fallbackAdmissions s (ops ++ [op]) =
      fallbackAdmissions s ops + ((ops.foldl ExplorationSnapshot.after s).admitsFallback op).toNat := by
  induction ops generalizing s with
  | nil => simp [fallbackAdmissions]
  | cons op' ops ih =>
    rw [List.cons_append, fallbackAdmissions, fallbackAdmissions, ih, List.foldl_cons]
    omega

/-! ## Grants -/

/-- The fallback goes back to an `expand` of the run that granted it. -/
def GrantedIn (ops : List LedgerOp) (f : ExplorationFallback) : Prop :=
  ∃ before reason gap granted after g, ops = before ++ .expand reason gap f.outcome.id granted :: after ∧
    Granted (ledgerAfter before) (ledgerAfter (before ++ [.expand reason gap f.outcome.id granted]))
      f.outcome.id granted g ∧
    g.outcome = f.outcome ∧ g.expires = f.expires

variable {ops : List LedgerOp} {f : ExplorationFallback} {op : LedgerOp} {now : ℤ}

theorem GrantedIn.snoc (h : GrantedIn ops f) (op : LedgerOp) : GrantedIn (ops ++ [op]) f := by
  obtain ⟨before, reason, gap, granted, after, g, rfl, hgrant⟩ := h
  exact ⟨before, reason, gap, granted, after ++ [op], g, by simp, hgrant⟩

/-- What holds of the grants after a run. -/
structure GrantBook (ops : List LedgerOp) : Prop where
  granted : ∀ f ∈ (ledgerAfter ops).fallbacks, GrantedIn ops f
  distinct : ((ledgerAfter ops).fallbacks.map (·.outcome.id)).Nodup
  recorded : ∀ f ∈ (ledgerAfter ops).fallbacks, f.outcome.id ∈ (ledgerAfter ops).outcomes.rows.map (·.id)
  uses : ∀ f ∈ (ledgerAfter ops).fallbacks, 0 ≤ f.remaining ∧ f.remaining ≤ 1
  spent : (fallbackAdmissions {} ops : ℤ) + ((ledgerAfter ops).fallbacks.map (·.remaining)).sum =
    (ledgerAfter ops).fallbacks.length

theorem mem_outcomes_upsert {s : ExplorationSnapshot} {o : IndexedOutcome} {id : String}
    (hnew : s.outcomes.find? o.id = none)
    (h : id ∈ s.outcomes.rows.map (·.id)) : id ∈ (s.outcomes.upsert o).rows.map (·.id) := by
  rw [Table.rows_upsert_of_find?_none hnew, List.map_append]
  exact List.mem_append_left _ h

variable {i : ℕ} {a : ExplorationAttempt} {c : ExplorationContract} {before : List LedgerOp}

/-- One use less of the fallback at a place: the others stay, and so does what identifies it. -/
theorem modify_fallbacks {l : List ExplorationFallback} (h : l[i]? = some f) :
    (l.modify i fun f => { f with remaining := f.remaining - 1 }).map (·.outcome.id) = l.map (·.outcome.id) ∧
    ((l.modify i fun f => { f with remaining := f.remaining - 1 }).map (·.remaining)).sum =
      (l.map (·.remaining)).sum - 1 ∧
    ∀ g ∈ l.modify i fun f => { f with remaining := f.remaining - 1 },
      g ∈ l ∨ g = { f with remaining := f.remaining - 1 } := by
  obtain ⟨hi, rfl⟩ := List.getElem?_eq_some_iff.mp h
  have hsplit : l = l.take i ++ l[i] :: l.drop (i + 1) := by simp
  have hmodify := List.modify_eq_take_cons_drop (f := fun f : ExplorationFallback =>
    { f with remaining := f.remaining - 1 }) hi
  rw [hmodify]
  refine ⟨?_, ?_, fun g hg => ?_⟩
  · conv_rhs => rw [hsplit]
    simp only [List.map_append, List.map_cons]
  · conv_rhs => rw [hsplit]
    simp only [List.map_append, List.map_cons, List.sum_append, List.sum_cons]
    omega
  · rcases List.mem_append.mp hg with hg | hg
    · exact .inl (List.mem_of_mem_take hg)
    · rcases List.mem_cons.mp hg with rfl | hg
      · exact .inr rfl
      · exact .inl (List.mem_of_mem_drop hg)

theorem grantBook_nil : GrantBook [] where
  granted _ h := by cases h
  distinct := List.nodup_nil
  recorded _ h := by cases h
  uses _ h := by cases h
  spent := rfl

theorem GrantBook.same (h : GrantBook ops) (hnot : (ledgerAfter ops).admitsFallback op = false)
    (hfallbacks : (ledgerAfter (ops ++ [op])).fallbacks = (ledgerAfter ops).fallbacks)
    (houtcomes : ∀ id ∈ (ledgerAfter ops).outcomes.rows.map (·.id),
      id ∈ (ledgerAfter (ops ++ [op])).outcomes.rows.map (·.id)) :
    GrantBook (ops ++ [op]) := by
  have hcount : fallbackAdmissions {} (ops ++ [op]) = fallbackAdmissions {} ops := by
    rw [fallbackAdmissions_snoc, show (ops.foldl ExplorationSnapshot.after {}).admitsFallback op = false from hnot]
    rfl
  refine ⟨fun f hf => ?_, hfallbacks ▸ h.distinct, fun f hf => ?_, fun f hf => h.uses f (hfallbacks ▸ hf), ?_⟩
  · exact (h.granted f (hfallbacks ▸ hf)).snoc op
  · exact houtcomes _ (h.recorded f (hfallbacks ▸ hf))
  · rw [hcount, hfallbacks]
    exact h.spent

/-- A grant is for a recorded outcome that has none, and can be used once. -/
theorem GrantBook.grant {reason gap outcomeId : String} (h : GrantBook ops)
    (hgrant : Granted (ledgerAfter ops) (ledgerAfter (ops ++ [.expand reason gap outcomeId now])) outcomeId now f) :
    GrantBook (ops ++ [.expand reason gap outcomeId now]) := by
  obtain ⟨o, hfind, hout⟩ := hgrant.outcome
  obtain ⟨hmem, hid⟩ := Table.find?_eq_some_iff.mp hfind
  have hoid : f.outcome.id = outcomeId := by rw [hout]; exact hid
  have hcount : fallbackAdmissions {} (ops ++ [.expand reason gap outcomeId now]) = fallbackAdmissions {} ops := by
    rw [fallbackAdmissions_snoc]
    rfl
  refine ⟨fun g hg => ?_, ?_, fun g hg => ?_, fun g hg => ?_, ?_⟩
  · rw [hgrant.fallbacks] at hg
    rcases List.mem_append.mp hg with hg | hg
    · exact (h.granted g hg).snoc _
    · rw [List.mem_singleton.mp hg]
      exact ⟨ops, reason, gap, now, [], f, by rw [hoid], hoid ▸ hgrant, rfl, rfl⟩
  · rw [hgrant.fallbacks, List.map_append, List.nodup_append]
    refine ⟨h.distinct, List.nodup_singleton _, fun x hx y hy hxy => ?_⟩
    obtain ⟨g, hg, rfl⟩ := List.mem_map.mp hx
    rw [List.map_singleton, List.mem_singleton] at hy
    exact hgrant.fresh g hg (hxy.trans (hy.trans hoid))
  · rw [hgrant.outcomes]
    rw [hgrant.fallbacks] at hg
    rcases List.mem_append.mp hg with hg | hg
    · exact h.recorded g hg
    · rw [List.mem_singleton.mp hg, hoid]
      exact List.mem_map.mpr ⟨o, hmem, hid⟩
  · rw [hgrant.fallbacks] at hg
    rcases List.mem_append.mp hg with hg | hg
    · exact h.uses g hg
    · rw [List.mem_singleton.mp hg, hgrant.remaining]
      decide
  · have hspent := h.spent
    rw [hcount, hgrant.fallbacks, List.map_append, List.sum_append, List.length_append, List.map_singleton,
      List.sum_singleton, List.length_singleton, hgrant.remaining]
    omega

/-- An admission takes the one use of a fallback that still has it. -/
theorem GrantBook.spend (h : GrantBook ops) (hadmits : (ledgerAfter ops).admitsFallback op = true)
    (hspent : FallbackSpent (ledgerAfter ops) (ledgerAfter (ops ++ [op])) a now i f) : GrantBook (ops ++ [op]) := by
  obtain ⟨hids, hsum, hmem⟩ := modify_fallbacks hspent.at_
  rw [← hspent.fallbacks] at hids hsum hmem
  have hf : f ∈ (ledgerAfter ops).fallbacks := List.mem_of_getElem? hspent.at_
  have hcount : fallbackAdmissions {} (ops ++ [op]) = fallbackAdmissions {} ops + 1 := by
    rw [fallbackAdmissions_snoc, show (ops.foldl ExplorationSnapshot.after {}).admitsFallback op = true from hadmits]
    rfl
  have hone : 0 < f.remaining := by
    obtain ⟨c, -, hpermits⟩ := hspent.contract
    simp only [ExplorationFallback.permits, Bool.and_eq_true, decide_eq_true_eq] at hpermits
    exact hpermits.1.1.1.1.1.1.1.1
  refine ⟨fun g hg => ?_, hids ▸ h.distinct, fun g hg => ?_, fun g hg => ?_, ?_⟩
  · rcases hmem g hg with hg | rfl
    · exact (h.granted g hg).snoc op
    · exact (h.granted f hf).snoc op
  · rw [hspent.outcomes]
    rcases hmem g hg with hg | rfl
    · exact h.recorded g hg
    · exact h.recorded f hf
  · rcases hmem g hg with hg | rfl
    · exact h.uses g hg
    · have := h.uses f hf
      exact ⟨by simp only; omega, by simp only; omega⟩
  · have hbefore := h.spent
    have hlength : (ledgerAfter (ops ++ [op])).fallbacks.length = (ledgerAfter ops).fallbacks.length := by
      rw [hspent.fallbacks, List.length_modify]
    omega

theorem GrantBook.snoc (h : GrantBook ops) (op : LedgerOp) : GrantBook (ops ++ [op]) := by
  have hmove := grantMove_after (ledgerAfter ops) op
  rw [← ledgerAfter_snoc] at hmove
  cases hmove with
  | idle _ hsame hnot => exact h.same hnot hsame.fallbacks (by rw [hsame.outcomes]; exact fun _ hid => hid)
  | revise _ c _ houtcomes hfallbacks hnot _ => exact h.same hnot hfallbacks (by rw [houtcomes]; exact fun _ hid => hid)
  | record o now _ hfallbacks hnew houtcomes =>
    exact h.same rfl hfallbacks fun id hid => by rw [houtcomes]; exact mem_outcomes_upsert hnew hid
  | grant reason gap outcomeId now f hgrant => exact h.grant hgrant
  | spend a operator optIn calibrated now i f hspent hadmits => exact h.spend hadmits hspent

theorem grantBook (ops : List LedgerOp) : GrantBook ops := by
  induction ops using List.reverseRecOn with
  | nil => exact grantBook_nil
  | append_singleton ops op ih => exact ih.snoc op

/-- There are at most as many admissions on a fallback as recorded outcomes. -/
theorem fallbackAdmissions_le (ops : List LedgerOp) :
    fallbackAdmissions {} ops ≤ (ledgerAfter ops).outcomes.rows.length := by
  have hbook := grantBook ops
  have hsum : 0 ≤ ((ledgerAfter ops).fallbacks.map (·.remaining)).sum := List.sum_nonneg fun n hn => by
    obtain ⟨f, hf, rfl⟩ := List.mem_map.mp hn
    exact (hbook.uses f hf).1
  have hlength : (ledgerAfter ops).fallbacks.length ≤ (ledgerAfter ops).outcomes.rows.length := by
    have hsub : (ledgerAfter ops).fallbacks.map (·.outcome.id) ⊆ (ledgerAfter ops).outcomes.rows.map (·.id) := by
      intro id hid
      obtain ⟨f, hf, rfl⟩ := List.mem_map.mp hid
      exact hbook.recorded f hf
    have := (List.subperm_of_subset hbook.distinct hsub).length_le
    rwa [List.length_map, List.length_map] at this
  have hspent := hbook.spent
  omega

/-! ## Admissions -/

/-- The clock never runs back along the run. -/
def ClockForward (ops : List LedgerOp) : Prop := (ops.filterMap LedgerOp.now?).Pairwise (· ≤ ·)

/-- What an admission on a fallback rests on: the `expand` that granted it for a recorded outcome, less
    than a minute ago, with the scope of that outcome and the revision that the grant introduced. -/
def AdmittedUnder (before : List LedgerOp) (op : LedgerOp) (a : ExplorationAttempt) (now : ℤ) : Prop :=
  ∃ pre reason gap id granted post o c₀ c,
    before = pre ++ .expand reason gap id granted :: post ∧
    (ledgerAfter pre).outcomes.find? id = some o ∧
    (ledgerAfter (pre ++ [.expand reason gap id granted])).fallbacks.length = (ledgerAfter pre).fallbacks.length + 1 ∧
    now < granted + minute ∧ (ClockForward (before ++ [op]) → granted ≤ now) ∧
    canonicalDiscoveryPath a.path = true ∧ withinDirectory o.path a.path = true ∧ o.class_ = a.class_ ∧
      o.binding = a.binding ∧
    (ledgerAfter pre).current = some c₀ ∧ (ledgerAfter before).current = some c ∧
    o.contractId = c.id ∧ c.revision = c₀.revision + 1

/-- With a clock that does not run back, what happens after an `expand` is not earlier than it. -/
theorem granted_le {pre post : List LedgerOp} {reason gap id : String} {granted now : ℤ}
    (hclock : ClockForward (pre ++ .expand reason gap id granted :: post ++ [op]))
    (hnow : op.now? = some now) : granted ≤ now := by
  unfold ClockForward at hclock
  rw [List.filterMap_append, List.pairwise_append] at hclock
  refine hclock.2.2 granted ?_ now ?_
  · simp [LedgerOp.now?]
  · simp [hnow]

theorem admittedUnder_of_permits (hnow : op.now? = some now) (hgranted : GrantedIn before f)
    (hcurrent : (ledgerAfter before).current = some c)
    (hpermits : f.permits c a now = true) : AdmittedUnder before op a now := by
  obtain ⟨pre, reason, gap, granted, post, g, hbefore, hgrant, hout, hexp⟩ := hgranted
  obtain ⟨o, hfind, hog⟩ := hgrant.outcome
  obtain ⟨c₀, hc₀, -, -, hrevision, -⟩ := hgrant.contract
  rw [hout] at hog hrevision
  simp only [ExplorationFallback.permits, Bool.and_eq_true, decide_eq_true_eq] at hpermits
  obtain ⟨⟨⟨⟨⟨⟨⟨⟨-, hlive⟩, -⟩, hbinding⟩, hcontract⟩, hcurrentrev⟩, hclass⟩, hpath⟩, hscope⟩ := hpermits
  refine ⟨pre, reason, gap, f.outcome.id, granted, post, o, c₀, c, hbefore, hfind, ?_, ?_, fun hclock =>
    ?_, hpath, ?_, ?_, ?_, hc₀, hcurrent, ?_, ?_⟩
  · rw [hgrant.fallbacks, List.length_append, List.length_singleton]
  · have := hgrant.expires
    omega
  · rw [hbefore] at hclock
    exact granted_le hclock hnow
  · rw [hog] at hscope
    exact hscope
  · rw [hog] at hclass
    exact hclass
  · rw [hog] at hbinding
    exact hbinding
  · rw [hog] at hcontract
    exact hcontract
  · rw [← hcurrentrev, hrevision]

/-- Every admission on a fallback rests on a grant. -/
theorem admittedUnder_of_admits {operator : ExplorationLimits} {optIn : Bool}
    {calibrated : String → String → Bool}
    (h : (ledgerAfter before).admitsFallback (.reserve a operator optIn calibrated now) = true) :
    AdmittedUnder before (.reserve a operator optIn calibrated now) a now := by
  have hmove := grantMove_after (ledgerAfter before) (.reserve a operator optIn calibrated now)
  cases hmove with
  | idle _ _ hnot =>
    rw [h] at hnot
    cases hnot
  | revise _ _ _ _ _ hnot _ =>
    rw [h] at hnot
    cases hnot
  | spend _ _ _ _ _ i f hspent _ =>
    obtain ⟨c, hcurrent, hpermits⟩ := hspent.contract
    exact admittedUnder_of_permits rfl ((grantBook before).granted f (List.mem_of_getElem? hspent.at_))
      hcurrent hpermits

/-! ## Revisions -/

/-- The session numbers the first contract of a ledger 1. -/
def FirstRevision (ops : List LedgerOp) : Prop :=
  ∀ before c now after, ops = before ++ .issue c now :: after → (ledgerAfter before).revisions = [] → c.revision = 1

/-- Each stored contract is numbered one above the one before it, and there are at most 128. -/
structure Numbered (ops : List LedgerOp) : Prop where
  next : ∀ i c c', (ledgerAfter ops).revisions[i]? = some c → (ledgerAfter ops).revisions[i + 1]? = some c' →
    c'.revision = c.revision + 1
  first : FirstRevision ops → ∀ c, (ledgerAfter ops).revisions[0]? = some c → c.revision = 1
  room : (ledgerAfter ops).revisions.length ≤ 128

theorem Numbered.same (h : Numbered ops)
    (hsame : (ledgerAfter (ops ++ [op])).revisions = (ledgerAfter ops).revisions) : Numbered (ops ++ [op]) := by
  refine ⟨by rw [hsame]; exact h.next, fun hfirst => ?_, by rw [hsame]; exact h.room⟩
  rw [hsame]
  refine h.first fun before c now after hops => hfirst before c now (after ++ [op]) ?_
  rw [hops]
  simp

theorem Numbered.revise (h : Numbered ops)
    (hrevised : Revised (ledgerAfter ops) (ledgerAfter (ops ++ [op])) c)
    (hissue : (ledgerAfter ops).revisions = [] → ∃ now, op = .issue c now) : Numbered (ops ++ [op]) := by
  obtain ⟨hrev, hnext, hroom⟩ := hrevised
  refine ⟨fun i c₁ c₂ hi hi' => ?_, fun hfirst c₁ hc₁ =>
    ?_, by rw [hrev, List.length_append, List.length_singleton]; exact hroom⟩
  · rw [hrev] at hi hi'
    obtain ⟨hlt, -⟩ := List.getElem?_eq_some_iff.mp hi'
    rw [List.length_append, List.length_singleton] at hlt
    rw [List.getElem?_append_left (by omega)] at hi
    rcases Nat.lt_or_ge (i + 1) (ledgerAfter ops).revisions.length with hin | hout
    · rw [List.getElem?_append_left hin] at hi'
      exact h.next i c₁ c₂ hi hi'
    · rw [List.getElem?_append_right hout, show i + 1 - (ledgerAfter ops).revisions.length = 0 by omega] at hi'
      obtain rfl : c = c₂ := Option.some.inj hi'
      refine hnext c₁ ?_
      rw [ExplorationSnapshot.current, List.getLast?_eq_getElem?, show (ledgerAfter ops).revisions.length -
        1 = i by omega]
      exact hi
  · rw [hrev] at hc₁
    cases hnil : (ledgerAfter ops).revisions with
    | nil =>
      obtain ⟨now, rfl⟩ := hissue hnil
      rw [hnil] at hc₁
      obtain rfl : c = c₁ := Option.some.inj hc₁
      exact hfirst ops c now [] rfl hnil
    | cons c₀ rest =>
      rw [hnil] at hc₁
      refine h.first (fun before c' now after hops => hfirst before c' now (after ++ [op]) (by rw [hops]; simp)) c₁ ?_
      rw [hnil]
      exact hc₁

theorem numbered (ops : List LedgerOp) : Numbered ops := by
  induction ops using List.reverseRecOn with
  | nil => exact ⟨fun i c c' h => by simp [ledgerAfter] at h, fun _ c h => by simp [ledgerAfter] at h, Nat.zero_le _⟩
  | append_singleton ops op ih =>
    have hmove := grantMove_after (ledgerAfter ops) op
    rw [← ledgerAfter_snoc] at hmove
    cases hmove with
    | idle _ hsame _ => exact ih.same hsame.revisions
    | revise _ c hrevised _ _ _ hissue => exact ih.revise hrevised hissue
    | record o now hrev _ _ _ => exact ih.same hrev
    | grant reason gap outcomeId now f hgrant =>
      obtain ⟨c, hcurrent, -, -, -, hrevised⟩ := hgrant.contract
      refine ih.revise hrevised fun hnil => ?_
      rw [ExplorationSnapshot.current, hnil] at hcurrent
      cases hcurrent
    | spend a operator optIn calibrated now i f hspent _ => exact ih.same hspent.revisions

/-- The contracts of a ledger whose first contract is number 1 are numbered 1, 2, 3 and so on. -/
theorem revision_eq (hfirst : FirstRevision ops)
    (h : (ledgerAfter ops).revisions[i]? = some c) : c.revision.toNat = i + 1 := by
  have hbook := numbered ops
  induction i generalizing c with
  | zero =>
    rw [hbook.first hfirst c h]
    rfl
  | succ i ih =>
    obtain ⟨hlt, -⟩ := List.getElem?_eq_some_iff.mp h
    have hbefore : (ledgerAfter ops).revisions[i]? = some (ledgerAfter ops).revisions[i] :=
      List.getElem?_eq_getElem (by omega)
    have hroom := hbook.room
    rw [hbook.next i _ c hbefore h, UInt64.toNat_add, ih hbefore, show (1 : UInt64).toNat = 1 from rfl]
    exact Nat.mod_eq_of_lt (by omega)

/-- Fallback capabilities are single use: over any run of ledger operations there are at most as many
    admissions on a fallback as recorded outcomes, each rests on a grant of the last minute for its scope
    and for the revision in force, and the stored contracts are numbered one by one. -/
theorem fallbacks_single_use (ops : List LedgerOp) :
    fallbackAdmissions {} ops ≤ (ledgerAfter ops).outcomes.rows.length ∧
    (∀ before a operator optIn calibrated now after, ops = before ++ .reserve a operator optIn calibrated now :: after →
      (ledgerAfter before).admitsFallback (.reserve a operator optIn calibrated now) = true →
      AdmittedUnder before (.reserve a operator optIn calibrated now) a now) ∧
    (∀ i c c', (ledgerAfter ops).revisions[i]? = some c → (ledgerAfter ops).revisions[i + 1]? = some c' →
      c'.revision = c.revision + 1) ∧
    (FirstRevision ops → ∀ i c, (ledgerAfter ops).revisions[i]? = some c → c.revision.toNat = i + 1) :=
  ⟨fallbackAdmissions_le ops, fun _ _ _ _ _ _ _ _ => admittedUnder_of_admits, (numbered ops).next,
    fun hfirst _ _ => revision_eq hfirst⟩

/-! ## A run that admits on a fallback -/

def fallbackBinding : ExplorationBinding :=
  { principal := "p", session := "s", task := "t", project := "x",
    worktreeGeneration := "w", indexGeneration := "i", memoryOwner := "m" }

/-- A contract that allows no raw scan at all. -/
def fallbackContract : ExplorationContract :=
  { id := "t", revision := 1, binding := fallbackBinding, planDigest := "d",
    sourceVersionsDigest := "v", queryClass := "q",
    coverageComplete := true, confidenceProvenance := "host", supportedClasses := [.rawScan], created :=
      0, expires := minute,
    limits := { enabled := true, rawScans := some 0 }, tier := .enforce }

def fallbackOutcome : IndexedOutcome :=
  { id := "o", binding := fallbackBinding, contractId := "t", revision := 1, gap := "g",
    class_ := .rawScan, path := "/src", status := .empty, completed := 0 }

def fallbackAttempt (id : String) : ExplorationAttempt :=
  { actionDigest := "a", path := "/src/main", id := id, binding := fallbackBinding,
    class_ := .rawScan, bytes := 1, tokens := 1 }

/-- The second scan meets the fallback spent. -/
def fallbackOps : List LedgerOp :=
  [.issue fallbackContract 1, .recordIndexedOutcome fallbackOutcome 2, .expand "no hit" "g" "o" 3,
    .reserve (fallbackAttempt "a1") {} true (fun _ _ => true) 4, .reserve (fallbackAttempt "a2") {} true
      (fun _ _ => true) 5]

theorem fallbackOps_admit_once : fallbackAdmissions {} fallbackOps = 1 ∧
    AdmittedUnder (fallbackOps.take 3) (.reserve (fallbackAttempt "a1") {} true (fun _ _ => true) 4)
      (fallbackAttempt "a1") 4 := by
  refine ⟨by decide, ?_⟩
  exact (fallbacks_single_use fallbackOps).2.1 (fallbackOps.take 3) _ _ _ _ _ _ rfl (by decide)

end ExecutionPolicy
