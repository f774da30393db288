-- SUMMARY: While a reservation lasts at most one owner is told to dispatch, and it changes hands only after a lease has lapsed.
import Aimee.Workflow.Ownership

/-!
# One dispatch for each reservation

An engine asks for a reservation before it dispatches. An answer is fresh if it allows a dispatch,
and a replay if it allows only the recovery of a result that an earlier dispatch may have left. A
fresh answer leaves the row `reserved` by the engine that asked, and no operation makes a row
`reserved` again before the reservation is gone: an engine that adopts it leaves it `unresolved`.
-/

namespace Workflow

/-- The work item holds a reservation. -/
def Store.Holds (s : Store) (id : String) : Prop :=
  ∃ w, s.item? id = some w ∧ w.reservation.state ≠ .none

instance decidableHolds (s : Store) (id : String) : Decidable (s.Holds id) :=
  decidable_of_iff ((s.item? id).any fun w => w.reservation.state ≠ .none) (by
    simp [Store.Holds, Option.any_eq_true])

/-- In the run another engine took the reservation of `owner` over, and the lease had lapsed. -/
def AdoptedFrom (id owner : String) (s : Store) (steps : List (Time × Op)) : Prop :=
  ∃ before now o after w w', steps = before ++ (now, .wfeBudgetReserve id o) :: after ∧ o ≠ owner ∧
    (s.run before).item? id = some w ∧ w.reservation.owner = owner ∧
    w.reservation.leaseIsLive now = false ∧
    ((Op.wfeBudgetReserve id o).apply now (s.run before)).item? id = some w' ∧
    w'.reservation.owner = o

/-! ## Answers -/

section Answers

variable {now : Time} {id owner : String} {s : Store} {reply : BudgetReply}

/-- What an answer that allows something says about the row before and after. -/
structure Allowed (now : Time) (owner : String) (reply : BudgetReply) (w w' : WorkItem) : Prop where
  asked : w'.reservation.owner = owner
  fresh : reply.replayOnly = false → w'.reservation.state = .reserved
  holder : w.reservation.state ≠ .none → reply.replayOnly = false →
    w.reservation.state = .reserved ∧ w.reservation.owner = owner
  lapsed : w.reservation.state ≠ .none → w.reservation.owner ≠ owner →
    w.reservation.leaseIsLive now = false

theorem reserveExisting_allowed {root w : WorkItem} (hw : s.item? id = some w)
    (hheld : w.reservation.state ≠ .none)
    (h : (reserveExisting now id owner root w.reservation s).2 = .ok reply) (hallowed : reply.allowed) :
    ∃ w', (reserveExisting now id owner root w.reservation s).1.item? id = some w' ∧
      Allowed now owner reply w w' := by
  have hid := Store.workItemId_of_item? hw
  revert h
  unfold reserveExisting
  dsimp only
  split
  · next hstate =>
    split
    · rintro ⟨⟩
      cases hallowed
    · next hlive =>
      split
      · rintro ⟨⟩
      · rintro ⟨⟩
        have howner : w.reservation.owner = owner ∨ w.reservation.leaseIsLive now = false := by
          rw [not_and_or, not_not, Bool.not_eq_true] at hlive
          exact hlive
        refine ⟨_, Store.item?_updateItems_of_hit hw ?_, rfl, (fun h => by cases h), (fun _ h => by cases h),
          fun _ => howner.resolve_left⟩
        simpa [hid] using howner
  · next hstate =>
    split
    · next hother =>
      split
      · rintro ⟨⟩
        cases hallowed
      · next hlive =>
        split
        · rintro ⟨⟩
        · next hmatched =>
          rintro ⟨⟩
          obtain ⟨v, hv, hhit⟩ := (Table.matched_key_eq_one_iff s.items id _).mp (not_not.mp hmatched)
          obtain rfl : v = w := Option.some.inj (hv.symm.trans hw)
          refine ⟨_, Store.item?_updateItems_of_hit hw ?_, rfl, (fun h => by cases h), (fun _ h => by cases h),
            fun _ _ => by simpa using hlive⟩
          simpa [hid] using hhit
    · next hother =>
      rintro ⟨⟩
      have hreserved : w.reservation.state = .reserved := by
        cases hcase : w.reservation.state with
        | none => exact absurd hcase hheld
        | reserved => rfl
        | actual => exact absurd (.inl hcase) hstate
        | unresolved => exact absurd (.inr hcase) hstate
      have howner : w.reservation.owner = owner := by
        by_contra hne
        exact hother ⟨hreserved, hne⟩
      refine ⟨_, Store.item?_updateItems_of_hit hw ?_, howner, fun _ => hreserved,
        fun _ _ => ⟨hreserved, howner⟩, fun _ hne => absurd howner hne⟩
      simp [hid, howner]

theorem wfeBudgetReserve_allowed (h : (wfeBudgetReserve now id owner s).2 = .ok reply)
    (hallowed : reply.allowed) :
    ∃ w w', s.item? id = some w ∧ (wfeBudgetReserve now id owner s).1.item? id = some w' ∧
      Allowed now owner reply w w' := by
  revert h
  unfold wfeBudgetReserve
  split
  · rintro ⟨⟩
  · split
    · rintro ⟨⟩
    · next root _ =>
      split
      · rintro ⟨⟩
      · next held hload =>
        obtain ⟨w, hw, hactive, hpause, rfl⟩ := loadRunnable_eq_some s hload
        have hid := Store.workItemId_of_item? hw
        split
        · next hheld =>
          intro h
          obtain ⟨w', hw', hgrant⟩ := reserveExisting_allowed hw hheld h hallowed
          exact ⟨w, w', hw, hw', hgrant⟩
        · next hheld =>
          have hnone := not_not.mp hheld
          have hgrant : ∀ amount, Allowed now owner reply w { w with reservation :=
              { reservedCostUsd := amount, state := .reserved, owner := owner
                leaseUntil := some (leaseFrom now) } } :=
            fun _ => ⟨rfl, fun _ => rfl, fun h => absurd hnone h, fun h => absurd hnone h⟩
          dsimp only
          split
          · split
            · rintro ⟨⟩
            · intro _
              refine ⟨w, _, hw, Store.item?_updateItems_of_hit hw ?_, hgrant 0⟩
              simp [hid, hactive, hpause, hnone]
          · split
            · rintro ⟨⟩
              cases hallowed
            · split
              · rintro ⟨⟩
              · next hmatched =>
                intro _
                obtain ⟨v, hv, hhit⟩ :=
                  (Table.matched_key_eq_one_iff s.items id _).mp (not_not.mp hmatched)
                obtain rfl : v = w := Option.some.inj (hv.symm.trans hw)
                refine ⟨v, _, hw, Store.item?_updateItems_of_hit hw ?_, hgrant _⟩
                simpa [hid] using hhit

end Answers

/-! ## Steps while a reservation lasts -/

/-- A reservation that lasts is not made `reserved` again. -/
theorem MoneyStep.reserved_of_reserved {now : Time} {op : Op} {w w' : WorkItem}
    (h : MoneyStep now op w w') (hw : w.reservation.state ≠ .none)
    (hw' : w'.reservation.state = .reserved) :
    w.reservation.state = .reserved ∧ w'.reservation.owner = w.reservation.owner := by
  cases h with
  | keep _ hres | spend _ _ _ hres | extend _ _ hres =>
    rw [hres] at hw' ⊢
    exact ⟨hw', rfl⟩
  | reserve _ _ _ hstate => exact absurd hstate hw
  | settle _ _ _ hres | steal _ _ _ _ _ hres | measure _ _ _ _ hres | retain _ _ _ _ hres =>
    rw [hres] at hw'
    cases hw'
  | takeOver _ _ hstate _ _ hres =>
    rw [hres] at hw'
    rcases hstate with hstate | hstate <;> exact absurd (hstate.symm.trans hw') (by decide)

/-- A reservation that lasts keeps its owner, or is taken over after its lease has lapsed. -/
theorem MoneyStep.owner_of_held {now : Time} {op : Op} {w w' : WorkItem} (h : MoneyStep now op w w')
    (hw : w.reservation.state ≠ .none) (hw' : w'.reservation.state ≠ .none) :
    w'.reservation.owner = w.reservation.owner ∨
      op = .wfeBudgetReserve w.workItemId w'.reservation.owner ∧
        w.reservation.leaseIsLive now = false := by
  cases h with
  | keep _ hres | spend _ _ _ hres | extend _ _ hres | measure _ _ _ _ hres | retain _ _ _ _ hres =>
    exact .inl (by rw [hres])
  | reserve _ _ _ hstate => exact absurd hstate hw
  | settle _ _ _ hres =>
    rw [hres] at hw'
    exact absurd rfl hw'
  | steal owner hop _ hlive _ hres => exact .inr ⟨by rw [hop, hres], hlive⟩
  | takeOver owner hop _ howner _ hres =>
    rcases howner with howner | hlive
    · exact .inl (by rw [hres, howner])
    · exact .inr ⟨by rw [hop, hres], hlive⟩

/-! ## Runs while a reservation lasts -/

section Runs

variable {id : String}

/-- The row of a held reservation before and after a step. -/
theorem exists_moneyStep_of_holds {now : Time} {s : Store} {op : Op} (h : s.Holds id)
    (h' : (op.apply now s).Holds id) :
    ∃ w w', s.item? id = some w ∧ (op.apply now s).item? id = some w' ∧
      w.reservation.state ≠ .none ∧ w'.reservation.state ≠ .none ∧ MoneyStep now op w w' := by
  obtain ⟨w, hw, hheld⟩ := h
  obtain ⟨w', hw', hheld'⟩ := h'
  rcases item?_apply hw' with ⟨v, hv, hstep⟩ | ⟨-, -, hnone⟩
  · obtain rfl : v = w := Option.some.inj (hv.symm.trans hw)
    exact ⟨v, w', hv, hw', hheld, hheld', hstep.money⟩
  · rw [hnone] at hw
    cases hw

variable {steps : List (Time × Op)} {w w' : WorkItem}

/-- Whoever has the row `reserved` at the end of a run had it at the start. -/
theorem reserved_of_run {s : Store} (h : AlongRun (·.Holds id) s steps) (hw : s.item? id = some w)
    (hw' : (s.run steps).item? id = some w') (hstate : w'.reservation.state = .reserved) :
    w.reservation.state = .reserved ∧ w'.reservation.owner = w.reservation.owner := by
  induction steps generalizing s w with
  | nil =>
    obtain rfl : w = w' := Option.some.inj (hw.symm.trans hw')
    exact ⟨hstate, rfl⟩
  | cons step steps ih =>
    obtain ⟨v, v', hv, hv', hheld, -, hmoney⟩ := exists_moneyStep_of_holds h.1 h.2.head
    obtain rfl : v = w := Option.some.inj (hv.symm.trans hw)
    obtain ⟨hreserved, howner⟩ := ih h.2 hv' hw'
    obtain ⟨hreserved', howner'⟩ := hmoney.reserved_of_reserved hheld hreserved
    exact ⟨hreserved', howner.trans howner'⟩

theorem AdoptedFrom.cons {owner : String} {now : Time} {op : Op} {s : Store}
    (h : AdoptedFrom id owner (op.apply now s) steps) : AdoptedFrom id owner s ((now, op) :: steps) := by
  obtain ⟨before, now', o, after, w, w', rfl, hrest⟩ := h
  exact ⟨(now, op) :: before, now', o, after, w, w', rfl, hrest⟩

/-- The owner at the start of a run is the owner at its end, or its lease lapsed in between. -/
theorem owner_of_run {s : Store} (h : AlongRun (·.Holds id) s steps) (hw : s.item? id = some w)
    (hw' : (s.run steps).item? id = some w') :
    w'.reservation.owner = w.reservation.owner ∨ AdoptedFrom id w.reservation.owner s steps := by
  induction steps generalizing s w with
  | nil =>
    obtain rfl : w = w' := Option.some.inj (hw.symm.trans hw')
    exact .inl rfl
  | cons step steps ih =>
    obtain ⟨now, op⟩ := step
    obtain ⟨v, v', hv, hv', hheld, hheld', hmoney⟩ := exists_moneyStep_of_holds h.1 h.2.head
    obtain rfl : v = w := Option.some.inj (hv.symm.trans hw)
    by_cases hsame : v'.reservation.owner = v.reservation.owner
    · rcases ih h.2 hv' hw' with howner | hadopted
      · exact .inl (howner.trans hsame)
      · rw [hsame] at hadopted
        exact .inr hadopted.cons
    · obtain ⟨hop, hlive⟩ := (hmoney.owner_of_held hheld hheld').resolve_left hsame
      rw [Store.workItemId_of_item? hv] at hop
      subst hop
      exact .inr ⟨[], now, _, steps, v, v', rfl, hsame, hv, rfl, hlive, hv', rfl⟩

end Runs

/-- While a reservation lasts, an owner is told to dispatch only if every answer that allowed
    something before went to that owner, and two owners are allowed something only if the lease of
    the first has lapsed in between. -/
theorem one_fresh_dispatch {s : Store} {id o₁ o₂ : String} {now₁ now₂ : Time} {r₁ r₂ : BudgetReply}
    {steps : List (Time × Op)} (h₁ : (wfeBudgetReserve now₁ id o₁ s).2 = .ok r₁) (hallowed₁ : r₁.allowed)
    (hheld : AlongRun (·.Holds id) ((Op.wfeBudgetReserve id o₁).apply now₁ s) steps)
    (h₂ : (wfeBudgetReserve now₂ id o₂ (((Op.wfeBudgetReserve id o₁).apply now₁ s).run steps)).2 = .ok r₂)
    (hallowed₂ : r₂.allowed) :
    (r₂.replayOnly = false → o₁ = o₂) ∧
      (o₁ ≠ o₂ → AdoptedFrom id o₁ ((Op.wfeBudgetReserve id o₁).apply now₁ s)
        (steps ++ [(now₂, .wfeBudgetReserve id o₂)])) := by
  obtain ⟨_, w₁, _, hw₁, hgrant₁⟩ := wfeBudgetReserve_allowed h₁ hallowed₁
  obtain ⟨w₂, w₂', hw₂, hw₂', hgrant₂⟩ := wfeBudgetReserve_allowed h₂ hallowed₂
  have hheld₂ : w₂.reservation.state ≠ .none := by
    obtain ⟨w, hw, hstate⟩ := hheld.last
    obtain rfl : w = w₂ := Option.some.inj (hw.symm.trans hw₂)
    exact hstate
  constructor
  · intro hfresh₂
    obtain ⟨hreserved, howner⟩ := hgrant₂.holder hheld₂ hfresh₂
    obtain ⟨-, hsame⟩ := reserved_of_run hheld hw₁ hw₂ hreserved
    rw [← howner, hsame, hgrant₁.asked]
  · intro hne
    rcases owner_of_run hheld hw₁ hw₂ with hsame | hadopted
    · have howner : w₂.reservation.owner = o₁ := hsame.trans hgrant₁.asked
      refine ⟨steps, now₂, o₂, [], w₂, w₂', rfl, Ne.symm hne, hw₂, howner, ?_, hw₂', hgrant₂.asked⟩
      exact hgrant₂.lapsed hheld₂ fun h => hne (howner.symm.trans h)
    · rw [hgrant₁.asked] at hadopted
      obtain ⟨before, now, o, after, w, w', hsteps, hrest⟩ := hadopted
      exact ⟨before, now, o, after ++ [(now₂, .wfeBudgetReserve id o₂)], w, w', by simp [hsteps], hrest⟩

/-- The lease of the first engine lapses after a heartbeat, and the second is allowed a replay. -/
theorem lapsed_lease_adopted :
    AdoptedFrom "item" "first"
      ((Op.wfeBudgetReserve "item" "first").apply 0 (Store.empty.run [(0, .wfeCreateWorkItem sampleRequest)]))
      ([(30, .wfeBudgetHeartbeat "item" "first")] ++ [(200, .wfeBudgetReserve "item" "second")]) := by
  have h₁ : (wfeBudgetReserve 0 "item" "first" (Store.empty.run [(0, .wfeCreateWorkItem sampleRequest)])).2 =
      .ok { rootId := "item", maxUsd := 10, amount := 10, allowed := true, busy := false
            replayOnly := false } := by
    decide +kernel
  have hheld : AlongRun (·.Holds "item")
      ((Op.wfeBudgetReserve "item" "first").apply 0 (Store.empty.run [(0, .wfeCreateWorkItem sampleRequest)]))
      [(30, .wfeBudgetHeartbeat "item" "first")] := by
    decide +kernel
  have h₂ : (wfeBudgetReserve 200 "item" "second"
      (((Op.wfeBudgetReserve "item" "first").apply 0
        (Store.empty.run [(0, .wfeCreateWorkItem sampleRequest)])).run
          [(30, .wfeBudgetHeartbeat "item" "first")])).2 =
      .ok { rootId := "item", maxUsd := 10, amount := 10, allowed := true, busy := false
            replayOnly := true } := by
    decide +kernel
  exact (one_fresh_dispatch h₁ rfl hheld h₂ rfl).2 (by decide)

end Workflow
