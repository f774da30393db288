-- SUMMARY: What the pass over the entries adds up: the tally as a function of the distinct entries, and one turn of the pass on it.
import Mathlib.Algebra.Order.BigOperators.Group.List
import Mathlib.Data.List.Induction
import Aimee.Economizer.TaskCost

/-!
# Task-cost sums

The tally after a pass is determined by the entries that were kept, in the order they came. One turn
finds the entry among them, or checks it and appends it.
-/

namespace TaskCost

variable {stages : KeyMap String String} {ds : List TaskCostEntry} {e raw : TaskCostEntry} {t : CostTally}

/-! ## Amounts -/

theorem costInteger_ok {s : String} {n : ℕ} (h : costInteger s = .ok n) : s = toString n ∧ n ≤ maxInt64 := by
  unfold costInteger at h
  split at h
  · cases h
  next m hparse =>
    split at h
    · cases h
    next hgood =>
      cases h
      push Not at hgood
      obtain ⟨hpos, hs⟩ := hgood
      obtain ⟨k, rfl⟩ := Int.eq_ofNat_of_zero_le hpos
      refine ⟨hs.symm, ?_⟩
      have hrange : (k : ℤ) < 2 ^ 63 := by
        simp only [parseInt, Option.filter_eq_some_iff, Bool.and_eq_true, decide_eq_true_eq] at hparse
        exact hparse.2.2
      rw [maxInt64]
      omega

/-- What an entry adds to the sums. -/
def amountOf (e : TaskCostEntry) : ℕ := (costInteger e.nanodollars).toOption.getD 0

theorem amountOf_eq {n : ℕ} (h : costInteger e.nanodollars = .ok n) : amountOf e = n := by
  rw [amountOf, h]
  rfl

theorem amountOf_unpriced (h : e.nanodollars = "") : amountOf e = 0 := by
  rw [amountOf, h]
  decide

theorem addAmount_ok_iff {dst n m : ℕ} (hn : n ≤ maxInt64) :
    addAmount dst n = .ok m ↔ dst + n ≤ maxInt64 ∧ dst + n = m := by
  unfold addAmount
  split
  · refine ⟨fun h => ?_, fun h => ?_⟩
    · cases h
    · omega
  · refine ⟨fun h => ?_, fun h => by rw [h.2]⟩
    cases h
    exact ⟨by omega, rfl⟩

/-! ## The tally of a list of entries -/

/-- The sum over the entries with a property. -/
def sumWhere (p : TaskCostEntry → Bool) (ds : List TaskCostEntry) : ℕ := ((ds.filter p).map amountOf).sum

def totalOf (ds : List TaskCostEntry) : ℕ := (ds.map amountOf).sum

def unpricedOf (ds : List TaskCostEntry) : List String := (ds.filter fun e => e.kind = "unpriced").map TaskCostEntry.id

def attemptsOf (ds : List TaskCostEntry) : List String := ds.foldl (fun ids e => ids.insert e.attempt) []

def tallyOf (ds : List TaskCostEntry) : CostTally :=
  { counts := fun stage => ds.countP fun e => e.stage = stage
    entries := ds
    attempts := attemptsOf ds
    unpriced := unpricedOf ds
    actual := sumWhere (fun e => e.kind = "actual") ds
    estimated := sumWhere (fun e => e.kind = "estimated") ds
    marginal := sumWhere (fun e => e.allocation = "marginal") ds
    amortized := sumWhere (fun e => e.allocation ≠ "marginal") ds
    total := totalOf ds }

theorem sumWhere_le (p : TaskCostEntry → Bool) (ds : List TaskCostEntry) : sumWhere p ds ≤ totalOf ds :=
  (List.filter_sublist.map amountOf).sum_le_sum fun _ _ => Nat.zero_le _

theorem sumWhere_append (p : TaskCostEntry → Bool) (ds : List TaskCostEntry) (e : TaskCostEntry) :
    sumWhere p (ds ++ [e]) = sumWhere p ds + if p e then amountOf e else 0 := by
  rw [sumWhere, sumWhere, List.filter_append, List.map_append]
  cases h : p e <;> simp [h]

theorem totalOf_append (ds : List TaskCostEntry) (e : TaskCostEntry) :
    totalOf (ds ++ [e]) = totalOf ds + amountOf e := by
  simp [totalOf]

theorem attemptsOf_append (ds : List TaskCostEntry) (e : TaskCostEntry) :
    attemptsOf (ds ++ [e]) = (attemptsOf ds).insert e.attempt := by
  simp [attemptsOf]

theorem mem_attemptsOf {id : String} : id ∈ attemptsOf ds ↔ ∃ e ∈ ds, e.attempt = id := by
  induction ds using List.reverseRecOn with
  | nil => simp [attemptsOf]
  | append_singleton ds e ih =>
    rw [attemptsOf_append, List.mem_insert_iff, ih]
    constructor
    · rintro (rfl | ⟨d, hd, rfl⟩)
      · exact ⟨e, by simp, rfl⟩
      · exact ⟨d, by simp [hd], rfl⟩
    · rintro ⟨d, hd, rfl⟩
      rcases List.mem_append.mp hd with hd | hd
      · exact .inr ⟨d, hd, rfl⟩
      · rw [List.mem_singleton.mp hd]
        exact .inl rfl

theorem nodup_attemptsOf (ds : List TaskCostEntry) : (attemptsOf ds).Nodup := by
  induction ds using List.reverseRecOn with
  | nil => exact List.nodup_nil
  | append_singleton ds e ih =>
    rw [attemptsOf_append]
    exact ih.insert

/-! ## One new entry -/

/-- An entry that `checkEntry` lets through. -/
structure Checked (stages : KeyMap String String) (e : TaskCostEntry) : Prop where
  stage : e.stage ∈ taskCostStages
  observed : stages.get? e.stage = some "observed"
  latency : ∃ n, costInteger e.latencyMs = .ok n
  allocation : e.allocation = "marginal" ∨ e.allocation = "amortized"
  rule : e.allocationRule ≠ ""
  cache : e.cacheAssumptions ≠ ""

/-- An entry with an amount, or a declared lack of one. -/
def Priced (e : TaskCostEntry) : Prop :=
  e.kind = "unpriced" ∧ e.nanodollars = "" ∨
    (e.kind = "actual" ∨ e.kind = "estimated") ∧ e.provider ≠ "" ∧ e.model ≠ "" ∧ e.pricingSnapshot ≠ "" ∧
      ∃ n, costInteger e.nanodollars = .ok n

theorem checkEntry_ok_iff : checkEntry stages e = .ok () ↔ Checked stages e := by
  unfold checkEntry
  by_cases hstage : e.stage ∉ taskCostStages ∨ stages.get? e.stage ≠ some "observed"
  · rw [if_pos hstage]
    refine ⟨fun h => ?_, fun h => ?_⟩
    · cases h
    · exact absurd hstage (not_or.mpr ⟨not_not.mpr h.stage, not_not.mpr h.observed⟩)
  rw [if_neg hstage]
  push Not at hstage
  cases hlat : costInteger e.latencyMs with
  | error err =>
    refine ⟨fun h => ?_, fun h => ?_⟩
    · cases h
    · obtain ⟨n, hn⟩ := h.latency
      rw [hlat] at hn
      cases hn
  | ok n =>
    by_cases halloc : e.allocation ≠ "marginal" ∧ e.allocation ≠ "amortized"
    · refine ⟨fun h => ?_, fun h => ?_⟩
      · simp only [bind, Except.bind, pure, Except.pure, if_pos halloc] at h
        cases h
      · rcases h.allocation with ha | ha
        · exact absurd ha halloc.1
        · exact absurd ha halloc.2
    by_cases hrule : e.allocationRule = "" ∨ e.cacheAssumptions = ""
    · refine ⟨fun h => ?_, fun h => ?_⟩
      · simp only [bind, Except.bind, pure, Except.pure, if_neg halloc, if_pos hrule] at h
        cases h
      · exact absurd hrule (not_or.mpr ⟨h.rule, h.cache⟩)
    · refine ⟨fun _ => ⟨hstage.1, hstage.2, ⟨n, hlat⟩, ?_, ?_, ?_⟩, fun _ => ?_⟩
      · by_contra hcon
        exact halloc (not_or.mp hcon)
      · exact fun h => hrule (.inl h)
      · exact fun h => hrule (.inr h)
      · simp only [bind, Except.bind, pure, Except.pure, if_neg halloc, if_neg hrule]

theorem addAmount_sumWhere (p : TaskCostEntry → Bool) {n : ℕ} (hn : n ≤ maxInt64) (hfits : totalOf ds + n ≤ maxInt64) :
    addAmount (sumWhere p ds) n = .ok (sumWhere p ds + n) := by
  have hle := sumWhere_le p ds
  exact (addAmount_ok_iff hn).mpr ⟨by omega, rfl⟩

theorem addAmount_overflow {dst n : ℕ} (h : maxInt64 < dst + n) (hn : n ≤ maxInt64) :
    addAmount dst n = .error badDeclaration := by
  rw [addAmount, if_pos (by omega)]

theorem addAmount_cases (dst n : ℕ) : addAmount dst n = .error badDeclaration ∨ addAmount dst n = .ok (dst + n) := by
  unfold addAmount
  split
  · exact .inl rfl
  · exact .inr rfl

/-- The tally after the charge of `e`, before the entry itself is kept. -/
def chargedOf (ds : List TaskCostEntry) (e : TaskCostEntry) : CostTally :=
  { tallyOf (ds ++ [e]) with counts := (tallyOf ds).counts, entries := ds, attempts := attemptsOf ds }

theorem chargeEntry_unpriced (hkind : e.kind = "unpriced") :
    chargeEntry (tallyOf ds) e = if e.nanodollars ≠ "" then .error badDeclaration else .ok (chargedOf ds e) := by
  rw [chargeEntry, if_pos hkind]
  split
  · rfl
  next hnone =>
    have hzero := amountOf_unpriced (not_not.mp hnone)
    simp [chargedOf, tallyOf, sumWhere_append, totalOf_append, hzero, hkind, unpricedOf, pure, Except.pure]

theorem chargeEntry_priced {n : ℕ} (hkind : e.kind = "actual" ∨ e.kind = "estimated")
    (hsource : e.provider ≠ "" ∧ e.model ≠ "" ∧ e.pricingSnapshot ≠ "")
    (hn : costInteger e.nanodollars = .ok n) :
    chargeEntry (tallyOf ds) e =
      if totalOf ds + n ≤ maxInt64 then .ok (chargedOf ds e) else .error badDeclaration := by
  obtain ⟨hprovider, hmodel, hsnapshot⟩ := hsource
  have hmax := (costInteger_ok hn).2
  have hamount := amountOf_eq hn
  have hne : e.kind ≠ "unpriced" := by
    rcases hkind with h | h <;> simp [h]
  have hsources : ¬(e.provider = "" ∨ e.model = "" ∨ e.pricingSnapshot = "") := by simp [hprovider, hmodel, hsnapshot]
  simp only [chargeEntry, if_neg hne, if_neg hsources, hn, bind, Except.bind, pure, Except.pure]
  by_cases hfits : totalOf ds + n ≤ maxInt64
  · have hadd : ∀ p, addAmount (sumWhere p ds) n = .ok (sumWhere p ds + n) := fun p => addAmount_sumWhere p hmax hfits
    have htotal : addAmount (totalOf ds) n = .ok (totalOf ds + n) := (addAmount_ok_iff hmax).mpr ⟨hfits, rfl⟩
    rw [if_pos hfits]
    rcases hkind with hkind | hkind <;> by_cases halloc : e.allocation = "marginal" <;>
      simp [chargedOf, tallyOf, sumWhere_append, totalOf_append, hamount, hkind, halloc, hadd, htotal, unpricedOf]
  · have htotal : addAmount (totalOf ds) n = .error badDeclaration := addAmount_overflow (by omega) hmax
    rw [if_neg hfits]
    rcases hkind with hkind | hkind
    · rcases addAmount_cases (sumWhere (fun e => e.kind = "actual") ds) n with hsum | hsum <;>
        simp [hkind, hsum, tallyOf, htotal]
    · rcases addAmount_cases (sumWhere (fun e => e.kind = "estimated") ds) n with hsum | hsum <;>
        simp [hkind, hsum, tallyOf, htotal]

theorem chargeEntry_ok_iff (htot : totalOf ds ≤ maxInt64) :
    chargeEntry (tallyOf ds) e = .ok t ↔ Priced e ∧ totalOf (ds ++ [e]) ≤ maxInt64 ∧ t = chargedOf ds e := by
  by_cases hunpriced : e.kind = "unpriced"
  · have hpriced : Priced e ↔ e.nanodollars = "" := by simp [Priced, hunpriced]
    rw [chargeEntry_unpriced hunpriced, hpriced, totalOf_append]
    by_cases hnone : e.nanodollars = ""
    · rw [if_neg (not_not.mpr hnone), amountOf_unpriced hnone]
      refine ⟨fun h => ⟨hnone, htot, (Except.ok.inj h).symm⟩, fun h => by rw [h.2.2]⟩
    · rw [if_pos hnone]
      exact ⟨fun h => (by cases h), fun h => absurd h.1 hnone⟩
  have hpriced : Priced e ↔
      (e.kind = "actual" ∨ e.kind = "estimated") ∧ e.provider ≠ "" ∧ e.model ≠ "" ∧ e.pricingSnapshot ≠ "" ∧
      ∃ n, costInteger e.nanodollars = .ok n := by simp [Priced, hunpriced]
  rw [hpriced]
  by_cases hsource : e.provider ≠ "" ∧ e.model ≠ "" ∧ e.pricingSnapshot ≠ ""
  swap
  · have hbad : e.provider = "" ∨ e.model = "" ∨ e.pricingSnapshot = "" := by
      by_contra hcon
      push Not at hcon
      exact hsource hcon
    refine ⟨fun h => ?_, fun h => absurd ⟨h.1.2.1, h.1.2.2.1, h.1.2.2.2.1⟩ hsource⟩
    simp only [chargeEntry, if_neg hunpriced, if_pos hbad] at h
    cases h
  have hsources : ¬(e.provider = "" ∨ e.model = "" ∨ e.pricingSnapshot = "") := by simp [hsource]
  cases hn : costInteger e.nanodollars with
  | error err =>
    refine ⟨fun h => ?_, fun ⟨⟨_, _, _, _, n, hok⟩, _⟩ => by cases hok⟩
    simp only [chargeEntry, if_neg hunpriced, if_neg hsources, hn, bind, Except.bind, pure, Except.pure] at h
    cases h
  | ok n =>
    by_cases hkind : e.kind = "actual" ∨ e.kind = "estimated"
    swap
    · refine ⟨fun h => ?_, fun h => absurd h.1.1 hkind⟩
      obtain ⟨hactual, hestimated⟩ := not_or.mp hkind
      simp only [chargeEntry, if_neg hunpriced, if_neg hsources, if_neg hactual, if_neg hestimated, hn,
        bind, Except.bind, pure, Except.pure] at h
      cases h
    rw [chargeEntry_priced hkind hsource hn, totalOf_append, amountOf_eq hn]
    by_cases hfits : totalOf ds + n ≤ maxInt64
    · rw [if_pos hfits]
      refine ⟨fun h => ⟨⟨hkind, hsource.1, hsource.2.1, hsource.2.2, n, rfl⟩, hfits,
        (Except.ok.inj h).symm⟩, fun h => by rw [h.2.2]⟩
    · rw [if_neg hfits]
      exact ⟨fun h => (by cases h), fun h => absurd h.2.1 hfits⟩

/-! ## One turn of the pass -/

theorem tallyOf_append (ds : List TaskCostEntry) (e : TaskCostEntry) :
    tallyOf (ds ++ [e]) = { chargedOf ds e with
      counts := fun stage => if stage = e.stage then (chargedOf ds e).counts stage + 1 else
        (chargedOf ds e).counts stage
      entries := (chargedOf ds e).entries ++ [e]
      attempts := (chargedOf ds e).attempts.insert e.attempt } := by
  simp only [chargedOf, tallyOf, attemptsOf_append, CostTally.mk.injEq, and_true]
  funext stage
  by_cases hstage : stage = e.stage
  · simp [hstage, List.countP_append]
  · simp [hstage, List.countP_append, Ne.symm hstage]

theorem keepEntry_ok_iff (htot : totalOf ds ≤ maxInt64) :
    keepEntry stages (tallyOf ds) e = .ok t ↔
      Checked stages e ∧ Priced e ∧ totalOf (ds ++ [e]) ≤ maxInt64 ∧ t = tallyOf (ds ++ [e]) := by
  simp only [keepEntry, bind, Except.bind, pure, Except.pure]
  cases hcheck : checkEntry stages e with
  | error err =>
    refine ⟨fun h => (by cases h), fun h => ?_⟩
    rw [checkEntry_ok_iff.mpr h.1] at hcheck
    cases hcheck
  | ok u =>
    have hchecked := checkEntry_ok_iff.mp hcheck
    cases hcharge : chargeEntry (tallyOf ds) e with
    | error err =>
      refine ⟨fun h => (by cases h), fun ⟨_, hpriced, hfits, _⟩ => ?_⟩
      rw [(chargeEntry_ok_iff htot).mpr ⟨hpriced, hfits, rfl⟩] at hcharge
      cases hcharge
    | ok charged =>
      obtain ⟨hpriced, hfits, rfl⟩ := (chargeEntry_ok_iff htot).mp hcharge
      rw [tallyOf_append]
      exact ⟨fun h => ⟨hchecked, hpriced, hfits, (Except.ok.inj h).symm⟩, fun h => by rw [h.2.2.2]⟩

/-- One turn: the entry is already kept, or nothing kept has its id, it passes its checks and is appended. -/
theorem countEntry_ok_iff (htot : totalOf ds ≤ maxInt64) :
    countEntry stages (tallyOf ds) raw = .ok t ↔
      ∃ e, normaliseEntry raw = .ok e ∧
        ((ds.find? fun old => old.id = e.id) = some e ∧ t = tallyOf ds ∨
          (ds.find? fun old => old.id = e.id) = none ∧ Checked stages e ∧ Priced e ∧ totalOf (ds ++ [e]) ≤ maxInt64 ∧
            t = tallyOf (ds ++ [e])) := by
  simp only [countEntry, bind, Except.bind]
  cases hnormal : normaliseEntry raw with
  | error err => exact ⟨fun h => (by cases h), fun ⟨e, h, _⟩ => (by cases h)⟩
  | ok e =>
    have hex : ∀ P : TaskCostEntry → Prop, (∃ e', Except.ok (ε := String) e = .ok e' ∧ P e') ↔ P e := fun P =>
      ⟨fun ⟨e', he, hp⟩ => by cases he; exact hp, fun hp => ⟨e, rfl, hp⟩⟩
    rw [hex]
    rw [show (tallyOf ds).entries = ds from rfl]
    dsimp only
    cases hfind : ds.find? fun old => decide (old.id = e.id) with
    | some old =>
      by_cases hsame : old = e
      · simp [hsame, pure, Except.pure, eq_comm]
      · simp [hsame]
    | none => simp [keepEntry_ok_iff htot]

end TaskCost
