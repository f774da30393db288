-- SUMMARY: Task-cost reports are exact and order free: the pass collects the distinct entries, and the report depends on these alone.
import Aimee.Economizer.TaskCostSums

/-!
# Task-cost reports

A pass over the entries succeeds if and only if they can be collected: one entry an id, each
checked, and the sum in range. What was collected determines the report.
-/

namespace TaskCost

open TextOrder

variable {stages : KeyMap String String} {raws : List TaskCostEntry} {ds ds' : List TaskCostEntry}
  {e raw : TaskCostEntry}
  {t : CostTally}

/-- `ds` are the distinct entries of `raws`, and a pass lets them through. -/
structure Collected (stages : KeyMap String String) (raws ds : List TaskCostEntry) : Prop where
  nodup : (ds.map TaskCostEntry.id).Nodup
  normal : ∀ raw ∈ raws, ∃ e, normaliseEntry raw = .ok e
  mem : ∀ e, e ∈ ds ↔ ∃ raw ∈ raws, normaliseEntry raw = .ok e
  checked : ∀ e ∈ ds, Checked stages e ∧ Priced e
  fits : totalOf ds ≤ maxInt64

/-! ## The pass -/

theorem eq_of_id (hnodup : (ds.map TaskCostEntry.id).Nodup) {d : TaskCostEntry} (hd : d ∈ ds) (he : e ∈ ds)
    (hid : d.id = e.id) : d = e :=
  List.inj_on_of_nodup_map hnodup hd he hid

theorem find_of_mem (hnodup : (ds.map TaskCostEntry.id).Nodup) (he : e ∈ ds) :
    (ds.find? fun old => old.id = e.id) = some e := by
  cases hfind : ds.find? fun old => decide (old.id = e.id) with
  | none => exact absurd (List.find?_eq_none.mp hfind e he) (by simp)
  | some d =>
    have hid : d.id = e.id := by simpa using List.find?_some hfind
    rw [eq_of_id hnodup (List.mem_of_find?_eq_some hfind) he hid]

theorem totalOf_perm (h : ds.Perm ds') : totalOf ds = totalOf ds' := (h.map amountOf).sum_eq

theorem pass_snoc : (raws ++ [raw]).foldlM (countEntry stages) emptyTally = .ok t ↔
    ∃ before, raws.foldlM (countEntry stages) emptyTally = .ok before ∧ countEntry stages before raw = .ok t := by
  rw [List.foldlM_append]
  cases raws.foldlM (countEntry stages) emptyTally with
  | error err => exact ⟨fun h => (by cases h), fun ⟨before, h, _⟩ => (by cases h)⟩
  | ok before =>
    have hlast : (Except.ok before >>= fun s => [raw].foldlM (countEntry stages) s) = countEntry stages before raw := by
      simp only [List.foldlM_cons, List.foldlM_nil, bind, Except.bind, pure, Except.pure]
      cases countEntry stages before raw <;> rfl
    rw [hlast]
    constructor
    · exact fun h => ⟨before, rfl, h⟩
    · rintro ⟨_, h, hstep⟩
      cases h
      exact hstep

theorem pass_sound (h : raws.foldlM (countEntry stages) emptyTally = .ok t) :
    ∃ ds, t = tallyOf ds ∧ Collected stages raws ds := by
  induction raws using List.reverseRecOn generalizing t with
  | nil =>
    cases h
    exact ⟨[], rfl, List.nodup_nil, by simp, by simp, by simp, Nat.zero_le _⟩
  | append_singleton raws raw ih =>
    obtain ⟨before, hpass, hstep⟩ := pass_snoc.mp h
    obtain ⟨ds, rfl, hcol⟩ := ih hpass
    obtain ⟨e, hnormal, hcase⟩ := (countEntry_ok_iff hcol.fits).mp hstep
    have hnormals : ∀ r ∈ raws ++ [raw], ∃ e, normaliseEntry r = .ok e := by
      intro r hr
      rcases List.mem_append.mp hr with hr | hr
      · exact hcol.normal r hr
      · exact ⟨e, List.mem_singleton.mp hr ▸ hnormal⟩
    have hmem : ∀ d, (∃ r ∈ raws ++ [raw], normaliseEntry r = .ok d) ↔ d ∈ ds ∨ d = e := by
      intro d
      rw [hcol.mem d]
      constructor
      · rintro ⟨r, hr, hd⟩
        rcases List.mem_append.mp hr with hr | hr
        · exact .inl ⟨r, hr, hd⟩
        · rw [List.mem_singleton.mp hr, hnormal] at hd
          exact .inr (Except.ok.inj hd).symm
      · rintro (⟨r, hr, hd⟩ | rfl)
        · exact ⟨r, List.mem_append_left _ hr, hd⟩
        · exact ⟨raw, by simp, hnormal⟩
    rcases hcase with ⟨hfound, rfl⟩ | ⟨hnone, hchecked, hpriced, hfits, rfl⟩
    · have he : e ∈ ds := List.mem_of_find?_eq_some hfound
      refine ⟨ds, rfl, hcol.nodup, hnormals, fun d => ?_, hcol.checked, hcol.fits⟩
      rw [hmem d, or_iff_left_of_imp (fun h => h ▸ he)]
    · refine ⟨ds ++ [e], rfl, ?_, hnormals, fun d => ?_, fun d hd => ?_, hfits⟩
      · rw [List.map_append, List.nodup_append]
        refine ⟨hcol.nodup, List.nodup_singleton _, fun id hid id' hid' heq => ?_⟩
        obtain ⟨d, hd, rfl⟩ := List.mem_map.mp hid
        have := List.find?_eq_none.mp hnone d hd
        simp only [List.map_cons, List.map_nil, List.mem_singleton] at hid'
        exact this (decide_eq_true (heq.trans hid'))
      · rw [hmem d, List.mem_append, List.mem_singleton]
      · rcases List.mem_append.mp hd with hd | hd
        · exact hcol.checked d hd
        · rw [List.mem_singleton.mp hd]
          exact ⟨hchecked, hpriced⟩

/-- What can be collected is what a pass keeps, up to the order. -/
theorem pass_complete (h : Collected stages raws ds) :
    ∃ ds', ds'.Perm ds ∧ raws.foldlM (countEntry stages) emptyTally = .ok (tallyOf ds') := by
  induction raws using List.reverseRecOn generalizing ds with
  | nil =>
    have hds : ds = [] := by
      refine List.eq_nil_iff_forall_not_mem.mpr fun e he => ?_
      obtain ⟨raw, hraw, -⟩ := (h.mem e).mp he
      cases hraw
    exact ⟨[], by rw [hds], rfl⟩
  | append_singleton raws raw ih =>
    obtain ⟨e, hnormal⟩ := h.normal raw (by simp)
    have he : e ∈ ds := (h.mem e).mpr ⟨raw, by simp, hnormal⟩
    have hnormals : ∀ r ∈ raws, ∃ e, normaliseEntry r = .ok e := fun r hr => h.normal r (List.mem_append_left _ hr)
    by_cases hseen : ∃ r ∈ raws, normaliseEntry r = .ok e
    · have hcol : Collected stages raws ds := by
        refine ⟨h.nodup, hnormals, fun d => ?_, h.checked, h.fits⟩
        rw [h.mem d]
        constructor
        · rintro ⟨r, hr, hd⟩
          rcases List.mem_append.mp hr with hr | hr
          · exact ⟨r, hr, hd⟩
          · rw [List.mem_singleton.mp hr, hnormal] at hd
            rwa [← Except.ok.inj hd]
        · rintro ⟨r, hr, hd⟩
          exact ⟨r, List.mem_append_left _ hr, hd⟩
      obtain ⟨ds', hperm, hpass⟩ := ih hcol
      have hnodup : (ds'.map TaskCostEntry.id).Nodup := (hperm.map _).nodup_iff.mpr h.nodup
      refine ⟨ds', hperm, pass_snoc.mpr ⟨_, hpass, (countEntry_ok_iff ?_).mpr ⟨e, hnormal, .inl ⟨?_, rfl⟩⟩⟩⟩
      · exact (totalOf_perm hperm).trans_le h.fits
      · exact find_of_mem hnodup (hperm.mem_iff.mpr he)
    · have hcol : Collected stages raws (ds.erase e) := by
        have hnd : ds.Nodup := h.nodup.of_map _
        refine ⟨h.nodup.sublist (List.erase_sublist.map _), hnormals, fun d => ?_, fun d hd =>
          h.checked d (List.mem_of_mem_erase hd), ?_⟩
        · rw [hnd.mem_erase_iff, h.mem d]
          constructor
          · rintro ⟨hne, r, hr, hd⟩
            rcases List.mem_append.mp hr with hr | hr
            · exact ⟨r, hr, hd⟩
            · rw [List.mem_singleton.mp hr, hnormal] at hd
              exact absurd (Except.ok.inj hd).symm hne
          · rintro ⟨r, hr, hd⟩
            exact ⟨fun hde => hseen ⟨r, hr, hde ▸ hd⟩, r, List.mem_append_left _ hr, hd⟩
        · have hsplit := totalOf_perm (List.perm_cons_erase he)
          have hcons : totalOf (e :: ds.erase e) = amountOf e + totalOf (ds.erase e) := by simp [totalOf]
          have := h.fits
          omega
      obtain ⟨ds', hperm, hpass⟩ := ih hcol
      have hwhole : (ds' ++ [e]).Perm ds :=
        (List.perm_append_comm.trans (hperm.cons e)).trans (List.perm_cons_erase he).symm
      refine ⟨ds' ++ [e], hwhole,
        pass_snoc.mpr ⟨_, hpass, (countEntry_ok_iff ?_).mpr ⟨e, hnormal, .inr ⟨?_, ?_, ?_, ?_, rfl⟩⟩⟩⟩
      · exact (totalOf_perm hperm).trans_le hcol.fits
      · refine List.find?_eq_none.mpr fun d hd => ?_
        have hd' : d ∈ ds.erase e := hperm.mem_iff.mp hd
        rw [decide_eq_true_eq]
        intro hid
        have hde := eq_of_id h.nodup (List.mem_of_mem_erase hd') he hid
        rw [hde, (h.nodup.of_map _).mem_erase_iff] at hd'
        exact hd'.1 rfl
      · exact (h.checked e he).1
      · exact (h.checked e he).2
      · exact (totalOf_perm hwhole).trans_le h.fits

/-! ## Accepted requests -/

/-- Every stage declared as observed has an entry. -/
def StagesSeen (stages : KeyMap String String) (ds : List TaskCostEntry) : Prop :=
  ∀ stage ∈ taskCostStages, stages.get? stage = some "observed" → ∃ e ∈ ds, e.stage = stage

theorem counts_eq_zero_iff (stage : String) : (tallyOf ds).counts stage = 0 ↔ ¬∃ e ∈ ds, e.stage = stage := by
  simp [tallyOf, List.countP_eq_zero]

theorem stagesSeen_iff :
    (taskCostStages.any fun stage => stages.get? stage = some "observed" && (tallyOf ds).counts stage = 0) = false ↔
      StagesSeen stages ds := by
  rw [List.any_eq_false]
  refine forall_congr' fun stage => imp_congr Iff.rfl ?_
  rw [Bool.and_eq_true, decide_eq_true_eq, decide_eq_true_eq, counts_eq_zero_iff, not_and, not_not]

theorem StagesSeen.perm (h : StagesSeen stages ds) (hperm : ds.Perm ds') : StagesSeen stages ds' := by
  intro stage hstage hobserved
  obtain ⟨e, he, hes⟩ := h stage hstage hobserved
  exact ⟨e, hperm.mem_iff.mp he, hes⟩

theorem sumWhere_perm (p : TaskCostEntry → Bool) (h : ds.Perm ds') : sumWhere p ds = sumWhere p ds' :=
  ((h.filter p).map amountOf).sum_eq

/-- The report depends on the distinct entries, not on their order. -/
theorem finishReport_perm (req : TaskCostRequest) (hnodup : (ds.map TaskCostEntry.id).Nodup) (h : ds.Perm ds') :
    finishReport req (tallyOf ds) = finishReport req (tallyOf ds') := by
  have hunpriced : (unpricedOf ds).Perm (unpricedOf ds') := (h.filter _).map _
  have hnil : unpricedOf ds ≠ [] ↔ unpricedOf ds' ≠ [] :=
    not_congr ⟨fun hnil => List.Perm.nil_eq (hnil ▸ hunpriced) ▸ rfl, fun hnil => List.Perm.eq_nil (hnil ▸ hunpriced)⟩
  have hattempts : (attemptsOf ds).Perm (attemptsOf ds') := by
    refine (List.perm_ext_iff_of_nodup (nodup_attemptsOf ds) (nodup_attemptsOf ds')).mpr fun id => ?_
    rw [mem_attemptsOf, mem_attemptsOf]
    exact exists_congr fun e => and_congr h.mem_iff Iff.rfl
  have hentries : sortBy TaskCostEntry.id ds = sortBy TaskCostEntry.id ds' :=
    sortBy_eq_of_perm h fun a ha b hb hid => eq_of_id hnodup ha hb hid
  simp only [finishReport, tallyOf, sumWhere_perm _ h, totalOf_perm h, sortStrings_eq_of_perm hunpriced,
    sortStrings_eq_of_perm hattempts, hentries]
  congr 1
  exact if_congr (or_congr hnil Iff.rfl) rfl rfl

variable {req : TaskCostRequest} {report : TaskCostReport} {units : List TaskCostUnits}

theorem reportTaskCost_ok_iff :
    reportTaskCost req = .ok report ↔
      requestBad req = false ∧ ∃ ds, Collected req.stages req.entries ds ∧ StagesSeen req.stages ds ∧
        report = finishReport req (tallyOf ds) := by
  simp only [reportTaskCost, bind, Except.bind, pure, Except.pure]
  by_cases hbad : requestBad req = true
  · rw [if_pos hbad]
    refine ⟨fun h => (by cases h), fun h => ?_⟩
    rw [h.1] at hbad
    cases hbad
  rw [if_neg hbad]
  simp only [hbad, true_and]
  cases hpass : req.entries.foldlM (countEntry req.stages) emptyTally with
  | error err =>
    refine ⟨fun h => (by cases h), fun h => ?_⟩
    obtain ⟨ds, hcol, -⟩ := h
    obtain ⟨ds', -, hok⟩ := pass_complete hcol
    rw [hpass] at hok
    cases hok
  | ok t =>
    obtain ⟨ds, rfl, hcol⟩ := pass_sound hpass
    dsimp only
    cases hseen : taskCostStages.any fun stage => req.stages.get? stage = some "observed" &&
      (tallyOf ds).counts stage = 0 with
    | false =>
      rw [if_neg Bool.false_ne_true]
      have hstages := stagesSeen_iff.mp hseen
      constructor
      · intro h
        exact ⟨ds, hcol, hstages, (Except.ok.inj h).symm⟩
      · rintro ⟨ds', hcol', -, rfl⟩
        obtain ⟨ds'', hperm, hpass'⟩ := pass_complete hcol'
        rw [hpass] at hpass'
        have hentries : ds = ds'' := congrArg CostTally.entries (Except.ok.inj hpass')
        rw [finishReport_perm req hcol.nodup (hentries ▸ hperm)]
    | true =>
      refine ⟨fun h => (by cases h), fun h => ?_⟩
      obtain ⟨ds', hcol', hstages, -⟩ := h
      obtain ⟨ds'', hperm, hpass'⟩ := pass_complete hcol'
      rw [hpass] at hpass'
      have hentries : ds = ds'' := congrArg CostTally.entries (Except.ok.inj hpass')
      have := stagesSeen_iff.mpr (hstages.perm (hentries ▸ hperm).symm)
      rw [hseen] at this
      cases this

/-! ## Estimates -/

/-- The units of an estimate times their rate. -/
def unitCost (u : TaskCostUnits) : ℕ := (costInteger u.units).toOption.getD 0 * (costInteger u.rate).toOption.getD 0

theorem sumTaskUnits_ok {seen : List String} {total n : ℕ} (h : sumTaskUnits seen total units = .ok n) :
    n = total + (units.map unitCost).sum := by
  induction units generalizing seen total with
  | nil =>
    cases h
    rfl
  | cons u units ih =>
    simp only [sumTaskUnits, bind, Except.bind] at h
    split at h
    · cases h
    split at h
    · cases h
    cases hunits : costInteger u.units with
    | error err =>
      rw [hunits] at h
      cases h
    | ok m =>
      cases hrate : costInteger u.rate with
      | error err =>
        rw [hunits, hrate] at h
        cases h
      | ok rate =>
        rw [hunits, hrate] at h
        have hcost : unitCost u = m * rate := by
          rw [unitCost, hunits, hrate]
          rfl
        rw [ih h, List.map_cons, List.sum_cons, hcost, Nat.add_assoc]

/-- The exact amount, rounded up once. -/
def ceilCost (units : List TaskCostUnits) : ℕ := ((units.map unitCost).sum + 999999) / 1000000

theorem priceTaskUnits_ok {amount : String} (h : priceTaskUnits units = .ok amount) :
    amount = toString (ceilCost units) := by
  simp only [priceTaskUnits, bind, Except.bind, pure, Except.pure] at h
  cases hsum : sumTaskUnits [] 0 units with
  | error err =>
    rw [hsum] at h
    cases h
  | ok total =>
    rw [hsum] at h
    simp only at h
    split at h
    · cases h
    · cases h
      rw [sumTaskUnits_ok hsum, Nat.zero_add, ceilCost]

theorem normaliseEntry_units (h : normaliseEntry raw = .ok e) (hunits : e.estimatedUnits.getD [] ≠ []) :
    e.kind = "estimated" ∧ e.nanodollars = toString (ceilCost (e.estimatedUnits.getD [])) := by
  unfold normaliseEntry at h
  split at h
  · cases h
  split at h
  next =>
    split at h
    · cases h
    next hkind =>
      split at h
      · cases h
      next amount hprice =>
        split at h
        · cases h
        · cases h
          exact ⟨by_contra fun hne => hkind (.inl hne), priceTaskUnits_ok hprice⟩
  next hempty =>
    have hsame : e.estimatedUnits = raw.estimatedUnits := by
      split at h
      · cases h
        rfl
      · split at h
        · cases h
        · cases h
          rfl
    rw [hsame] at hunits
    exact absurd (List.length_pos_of_ne_nil hunits) hempty

theorem toString_injective {m n : ℕ} (h : toString m = toString n) : m = n := by
  have hdigits : Nat.toDigits 10 m = Nat.toDigits 10 n := String.ofList_injective h
  rw [← Nat.ofDigitChars_ten_toDigits (n := m), hdigits, Nat.ofDigitChars_ten_toDigits]

theorem Priced.amount (h : Priced e) :
    e.kind = "unpriced" ∧ e.nanodollars = "" ∧ amountOf e = 0 ∨ (e.kind = "actual" ∨ e.kind = "estimated") ∧
      e.nanodollars = toString (amountOf e) := by
  rcases h with ⟨hkind, hnone⟩ | ⟨hkind, -, -, -, n, hn⟩
  · exact .inl ⟨hkind, hnone, amountOf_unpriced hnone⟩
  · exact .inr ⟨hkind, by rw [amountOf_eq hn]; exact (costInteger_ok hn).1⟩

/-! ## Exact reports -/

theorem actual_add_estimated (h : ∀ e ∈ ds, Priced e) :
    sumWhere (fun e => e.kind = "actual") ds + sumWhere (fun e => e.kind = "estimated") ds = totalOf ds := by
  induction ds using List.reverseRecOn with
  | nil => rfl
  | append_singleton ds e ih =>
    have hds := ih fun d hd => h d (List.mem_append_left _ hd)
    rw [sumWhere_append, sumWhere_append, totalOf_append]
    rcases (h e (by simp)).amount with ⟨hkind, -, hzero⟩ | ⟨hkind | hkind, -⟩
    · simp only [hkind, hzero, ite_self]
      omega
    · rw [if_pos (by simp [hkind]), if_neg (by simp [hkind])]
      omega
    · rw [if_neg (by simp [hkind]), if_pos (by simp [hkind])]
      omega

theorem marginal_add_amortized (ds : List TaskCostEntry) :
    sumWhere (fun e => e.allocation = "marginal") ds + sumWhere (fun e => e.allocation ≠ "marginal") ds =
      totalOf ds := by
  induction ds using List.reverseRecOn with
  | nil => rfl
  | append_singleton ds e ih =>
    rw [sumWhere_append, sumWhere_append, totalOf_append]
    by_cases halloc : e.allocation = "marginal"
    · rw [if_pos (by simp [halloc]), if_neg (by simp [halloc])]
      omega
    · rw [if_neg (by simp [halloc]), if_pos (by simp [halloc])]
      omega

/-- The stages of an accepted request are the declared ones and no others. -/
theorem mem_taskCostStages (h : requestBad req = false) {stage state : String}
    (hget : req.stages.get? stage = some state) : stage ∈ taskCostStages := by
  simp only [requestBad, Bool.or_eq_false_iff, Bool.not_eq_false', decide_eq_false_iff_not, not_not] at h
  obtain ⟨⟨-, hsize⟩, hall⟩ := h
  have hsub : taskCostStages ⊆ req.stages.rows.map Prod.fst := by
    intro s hs
    have hs' := List.all_eq_true.mp hall s hs
    cases hfind : req.stages.get? s with
    | none =>
      rw [hfind] at hs'
      cases hs'
    | some st => exact List.mem_map.mpr ⟨(s, st), KeyMap.get?_eq_some_iff.mp hfind, rfl⟩
  have hperm := (List.subperm_of_subset (by decide : taskCostStages.Nodup) hsub).perm_of_length_le
    (by rw [List.length_map]; exact hsize.le)
  exact hperm.mem_iff.mpr (List.mem_map.mpr ⟨(stage, state), KeyMap.get?_eq_some_iff.mp hget, rfl⟩)

/-- The report adds up the distinct entries exactly, keeps each of them once and says where amounts are missing. -/
structure Exact (req : TaskCostRequest) (report : TaskCostReport) : Prop where
  sums : ∃ actual estimated marginal amortized total : ℕ,
    report.actual = toString actual ∧ report.estimated = toString estimated ∧ report.marginal = toString marginal ∧
    report.amortized = toString amortized ∧ report.knownTotal = toString total ∧
    actual + estimated = total ∧ marginal + amortized = total ∧ total = (report.entries.map amountOf).sum ∧
      total ≤ maxInt64
  amounts : ∀ e ∈ report.entries,
    e.kind = "unpriced" ∧ e.nanodollars = "" ∧ amountOf e = 0 ∨
      (e.kind = "actual" ∨ e.kind = "estimated") ∧ e.nanodollars = toString (amountOf e)
  rounded : ∀ e ∈ report.entries, e.estimatedUnits.getD [] ≠ [] → amountOf e = ceilCost (e.estimatedUnits.getD [])
  once : (report.entries.map TaskCostEntry.id).Nodup
  distinct : ∀ e, e ∈ report.entries ↔ ∃ raw ∈ req.entries, normaliseEntry raw = .ok e
  kept : ∀ raw ∈ req.entries, ∃ e ∈ report.entries, normaliseEntry raw = .ok e
  coverage : report.coverage = "incomplete" ↔
    (∃ e ∈ report.entries, e.kind = "unpriced") ∨ ∃ stage, req.stages.get? stage = some "unknown"

theorem finishReport_exact (hreq : requestBad req = false) (h : Collected req.stages req.entries ds) :
    Exact req (finishReport req (tallyOf ds)) := by
  have hmem : ∀ e, e ∈ (finishReport req (tallyOf ds)).entries ↔ e ∈ ds := fun e => mem_sortBy
  have hperm : (finishReport req (tallyOf ds)).entries.Perm ds := sortBy_perm _ _
  have hpriced : ∀ e ∈ (finishReport req (tallyOf ds)).entries, Priced e := fun e he => (h.checked e ((hmem e).mp he)).2
  have hdistinct : ∀ e, e ∈ (finishReport req (tallyOf ds)).entries ↔ ∃ raw ∈ req.entries, normaliseEntry raw = .ok e :=
    fun e => (hmem e).trans (h.mem e)
  refine ⟨?_, fun e he => (hpriced e he).amount, fun e he hunits => ?_, ?_, hdistinct, fun raw hraw => ?_, ?_⟩
  · refine ⟨_, _, _, _, _, rfl, rfl, rfl, rfl, rfl, ?_, marginal_add_amortized ds, ?_, h.fits⟩
    · exact actual_add_estimated fun e he => (h.checked e he).2
    · exact (hperm.map amountOf).sum_eq.symm
  · obtain ⟨raw, -, hnormal⟩ := (hdistinct e).mp he
    obtain ⟨hkind, hprice⟩ := normaliseEntry_units hnormal hunits
    rcases (hpriced e he).amount with ⟨hunpriced, -, -⟩ | ⟨-, hamount⟩
    · rw [hkind] at hunpriced
      exact absurd hunpriced (by decide)
    · exact toString_injective (hamount.symm.trans hprice)
  · exact ((hperm.map _).nodup_iff).mpr h.nodup
  · obtain ⟨e, he⟩ := h.normal raw hraw
    exact ⟨e, (hdistinct e).mpr ⟨raw, hraw, he⟩, he⟩
  · have hcoverage : (finishReport req (tallyOf ds)).coverage = "incomplete" ↔
        unpricedOf ds ≠ [] ∨ unknownStages req.stages ≠ [] := by
      change (if unpricedOf ds ≠ [] ∨ unknownStages req.stages ≠ [] then "incomplete" else "caller_declared") =
        "incomplete" ↔ _
      split <;> simp [*]
    rw [hcoverage]
    refine or_congr ?_ ?_
    · simp only [unpricedOf, ne_eq, List.map_eq_nil_iff, List.filter_eq_nil_iff, hmem]
      push Not
      simp
    · simp only [unknownStages, ne_eq, List.filter_eq_nil_iff]
      push Not
      constructor
      · rintro ⟨stage, -, hstage⟩
        exact ⟨stage, of_decide_eq_true hstage⟩
      · rintro ⟨stage, hstage⟩
        exact ⟨stage, mem_taskCostStages hreq hstage, decide_eq_true hstage⟩

theorem Collected.congr {raws' : List TaskCostEntry} (h : Collected stages raws ds)
    (hsame : ∀ raw, raw ∈ raws' ↔ raw ∈ raws) :
    Collected stages raws' ds := by
  refine ⟨h.nodup, fun raw hraw => h.normal raw ((hsame raw).mp hraw), fun e => ?_, h.checked, h.fits⟩
  rw [h.mem e]
  exact exists_congr fun raw => and_congr (hsame raw).symm Iff.rfl

/-- The same entries in another order or number, within the limit, give the same report. -/
theorem reportTaskCost_congr {entries : List TaskCostEntry}
    (hsame : ∀ raw, raw ∈ entries ↔ raw ∈ req.entries) (hlimit : entries.length ≤ 4096)
    (h : reportTaskCost req = .ok report) :
    reportTaskCost { req with entries := entries } = .ok report := by
  obtain ⟨hreq, ds, hcol, hstages, rfl⟩ := reportTaskCost_ok_iff.mp h
  refine reportTaskCost_ok_iff.mpr ⟨?_, ds, hcol.congr hsame, hstages, rfl⟩
  simp only [requestBad, Bool.or_eq_false_iff, decide_eq_false_iff_not] at hreq ⊢
  exact ⟨⟨⟨hreq.1.1.1, Nat.not_lt.mpr hlimit⟩, hreq.1.2⟩, hreq.2⟩

theorem length_le_of_ok (h : reportTaskCost req = .ok report) :
    req.entries.length ≤ 4096 := by
  obtain ⟨hreq, -⟩ := reportTaskCost_ok_iff.mp h
  simp only [requestBad, Bool.or_eq_false_iff, decide_eq_false_iff_not] at hreq
  exact Nat.not_lt.mp hreq.1.1.2

/-- Task-cost accounting is exact and order free. -/
theorem reportTaskCost_exact (req : TaskCostRequest) :
    (∀ report, reportTaskCost req = .ok report → Exact req report) ∧
    (∀ entries, entries.Perm req.entries → ∀ report,
      reportTaskCost { req with entries := entries } = .ok report ↔ reportTaskCost req = .ok report) ∧
    ∀ entries report, (∀ raw, raw ∈ entries ↔ raw ∈ req.entries) → entries.length ≤ 4096 →
      reportTaskCost req = .ok report → reportTaskCost { req with entries := entries } = .ok report := by
  refine ⟨fun report h => ?_, fun entries hperm report => ⟨fun h => ?_, fun h => ?_⟩, fun entries report =>
    reportTaskCost_congr⟩
  · obtain ⟨hreq, ds, hcol, -, rfl⟩ := reportTaskCost_ok_iff.mp h
    exact finishReport_exact hreq hcol
  · have hlength := length_le_of_ok h
    exact @reportTaskCost_congr { req with entries := entries } report req.entries
      (fun raw => hperm.mem_iff.symm) (hperm.length_eq ▸ hlength) h
  · exact reportTaskCost_congr (fun raw => hperm.mem_iff) (hperm.length_eq ▸ length_le_of_ok h) h

/-! ## A declaration -/

/-- A generation priced at integer rates. -/
def sampleEstimate : TaskCostEntry :=
  { id := "call-1", attempt := "a", stage := "generation", kind := "estimated",
    nanodollars := "", provider := "p", model := "m",
    pricingSnapshot := "s", cacheAssumptions := "none", allocation := "marginal", allocationRule :=
      "direct", evidence := "log",
    latencyMs := "12", estimatedUnits := some [⟨"output_tokens", "3", "500001"⟩], estimateBasis := "" }

def sampleActual : TaskCostEntry :=
  { sampleEstimate with
    id := "call-2", kind := "actual", nanodollars := "40", allocation := "amortized", estimatedUnits := none }

def sampleStages : KeyMap String String :=
  ⟨taskCostStages.map fun stage => (stage, if stage = "generation" then "observed" else "unknown"), by decide⟩

def sampleRequest : TaskCostRequest :=
  { schemaVersion := 1, task := "t", stages := sampleStages, entries := [sampleEstimate, sampleActual] }

/-- The sample, its entries the other way round and one of them twice: 2 + 40 nanodollars. -/
theorem sampleRequest_exact :
    ∃ report, Exact sampleRequest report ∧ report.knownTotal = "42" ∧
      reportTaskCost { sampleRequest with entries := [sampleActual, sampleEstimate] } = .ok report ∧
      reportTaskCost { sampleRequest with entries := [sampleActual, sampleEstimate, sampleActual] } = .ok report := by
  obtain ⟨hexact, hperm, hcongr⟩ := reportTaskCost_exact sampleRequest
  have htotal : (reportTaskCost sampleRequest).map TaskCostReport.knownTotal = .ok "42" := by decide
  cases hrun : reportTaskCost sampleRequest with
  | error err =>
    rw [hrun] at htotal
    cases htotal
  | ok report =>
    rw [hrun] at htotal
    refine ⟨report, hexact report hrun, Except.ok.inj htotal, ?_, ?_⟩
    · exact (hperm _ (List.Perm.swap _ _ _) report).mpr hrun
    · exact hcongr _ report (by simp [sampleRequest, or_comm]) (by decide) hrun

end TaskCost
