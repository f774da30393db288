-- SUMMARY: Exploration accounting over whole sessions: the counters are the sums of the attempts that were admitted and not refunded.
import Aimee.ExecutionPolicy.ExplorationAccounts

/-!
# Runs of a session's exploration

The row of a session after any sequence of operations. The invariant ties the counter of the session
to all its tasks, and the counter of a group to the tasks of that group; it is what loading the
counters into a ledger and copying them back keeps.
-/

namespace ExecutionPolicy

/-! ## Runs -/

structure ExplorationStep where
  host : ExplorationHost
  now : ℤ
  req : Option ExplorationRequest

section Runs

variable (principal session : String)

/-- The owner stores what the operation returns, and nothing when it fails. -/
def applyStep (state : Option ExplorationSession) (step : ExplorationStep) : Option ExplorationSession :=
  match sessionExploration step.host step.now principal session state step.req with
  | .ok (_, s) => some s
  | .error _ => state

def runSession (steps : List ExplorationStep) : Option ExplorationSession :=
  steps.foldl (applyStep principal session) none

end Runs

/-! ## What the accounts are held to -/

/-- The budget group a task is in. -/
def ExplorationSnapshot.group? (s : ExplorationSnapshot) : Option String := s.current.map (·.binding.group)

/-- What the tasks of a session spent. -/
def ExplorationSession.spent (s : ExplorationSession) (k : ExplorationCounter) : ℤ :=
  (s.tasks.rows.map fun t => t.2.spent k).sum

/-- What the tasks of a group spent. -/
def ExplorationSession.groupSpent (s : ExplorationSession) (group : String) (k : ExplorationCounter) : ℤ :=
  (s.tasks.rows.map fun t => if t.2.group? = some group then t.2.spent k else 0).sum

/-- Every counter is the sum of the attempts that were admitted and not refunded, and a 64-bit word
    without a sign holds it. -/
structure Conserved (s : ExplorationSession) : Prop where
  session : ∀ k, s.usage.counter k = s.spent k
  group : ∀ g k, (s.groupUsage g).counter k = s.groupSpent g k
  nonneg : ∀ k, 0 ≤ s.usage.counter k ∧ ∀ g, 0 ≤ (s.groupUsage g).counter k
  fits : ∀ k, s.usage.counter k ≤ maxInt64 ∧ ∀ g, (s.groupUsage g).counter k ≤ maxInt64

/-- No counter differs between two rows. -/
structure SameCounters (s s' : ExplorationSession) : Prop where
  session : ∀ k, s'.usage.counter k = s.usage.counter k
  group : ∀ g k, (s'.groupUsage g).counter k = (s.groupUsage g).counter k

/-- The session stays within limits of the operator; with limits that are none, it spends nothing. -/
structure WithinOperator (l : ExplorationLimits) (s : ExplorationSession) : Prop where
  kept : l.valid = true → s.usage.exceeds l = false
  unspent : l.valid = false → ∀ k, s.usage.counter k = 0

/-- The task and the attempt a request asks for. -/
def asksFor (principal session : String) (state : Option ExplorationSession) (req : ExplorationRequest) :
    Option (String × String) :=
  match bindSession principal session state req with
  | .ok req => req.names.map (req.binding.task, ·)
  | .error _ => none

/-- What one operation is held to. -/
structure StepLaw (principal session : String) (state : Option ExplorationSession) (step : ExplorationStep) :
    Prop where
  failed : ∀ e, sessionExploration step.host step.now principal session state step.req = .error e →
    applyStep principal session state step = state
  refused : ∀ reply s, sessionExploration step.host step.now principal session state step.req = .ok (reply, s) →
    reply.refused = true → SameCounters (rowOf principal session state) s
  known : ∀ reply s, sessionExploration step.host step.now principal session state step.req = .ok (reply, s) →
    ∀ req task id, step.req = some req → asksFor principal session state req = some (task, id) →
      (((rowOf principal session state).tasks.find? task).any fun t => (t.2.attempts.find? id).isSome) = true →
      SameCounters (rowOf principal session state) s
  admitted : ∀ reply s, sessionExploration step.host step.now principal session state step.req = .ok (reply, s) →
    reply.admits = true → ∃ req task id t r, step.req = some req ∧
      asksFor principal session state req = some (task, id) ∧ s.tasks.find? task = some (task, t) ∧
      t.attempts.find? id = some r ∧ r.charged = true ∧ r.refunded = false

/-! ## The invariant -/

structure Accounts (s : ExplorationSession) : Prop where
  session : ∀ k, s.usage.counter k = s.spent k
  group : ∀ g k, (s.groupUsage g).counter k = s.groupSpent g k
  fits : s.usage.Fits
  tidy : s.usage.Tidy
  tidyGroup : ∀ g, (s.groupUsage g).Tidy
  fair : ∀ t ∈ s.tasks.rows, ∀ r ∈ t.2.attempts.rows, r.charged = true → ∀ k, 0 ≤ r.attempt.cost k
  frank : ∀ t ∈ s.tasks.rows, ∀ r ∈ t.2.attempts.rows, r.Frank
  current : ∀ t ∈ s.tasks.rows, t.2.current.isSome
  room : s.tasks.rows.length ≤ 64 ∧ ∀ t ∈ s.tasks.rows, t.2.attempts.rows.length ≤ 4096
  upgraded : s.groups.rows = [] → s.tasks.rows = []

theorem accounts_empty (principal session : String) : Accounts (rowOf principal session none) where
  session k := by cases k <;> rfl
  group g k := by cases k <;> rfl
  fits k hk := by
    cases k with
    | file name => exact absurd rfl (hk name)
    | _ => exact (by decide : (0 : ℤ) ≤ maxInt64)
  tidy _ h := nomatch h
  tidyGroup _ _ h := nomatch h
  fair _ h := nomatch h
  frank _ h := nomatch h
  current _ h := nomatch h
  room := ⟨Nat.zero_le _, fun _ h => nomatch h⟩
  upgraded _ := rfl

/-! ## Bookings one after another -/

variable {l : ExplorationLimits}

section Bookings

variable {operator : Option ExplorationLimits} {s s' : ExplorationSnapshot}

section

variable (h : Relation.ReflTransGen (Posted operator) s s')
include h

theorem balanced_of_posted (hs : Balanced s) : Balanced s' := by
  induction h with
  | refl => exact hs
  | tail _ hstep ih => exact hstep.booked.balanced ih

theorem keepsGroup_of_posted : KeepsGroup s s' := by
  induction h with
  | refl => exact .same rfl
  | tail _ hstep ih => exact ih.trans hstep.keeps

theorem frank_of_posted (hs : ∀ r ∈ s.attempts.rows, r.Frank) : ∀ r ∈ s'.attempts.rows, r.Frank := by
  induction h with
  | refl => exact hs
  | tail _ hstep ih => exact hstep.booked.frank ih

theorem conserves_of_posted (k : ExplorationCounter) :
    s'.taskUsage.counter k - s.taskUsage.counter k = s'.spent k - s.spent k ∧
      s'.sessionUsage.counter k - s.sessionUsage.counter k = s'.spent k - s.spent k := by
  induction h with
  | refl => exact ⟨by omega, by omega⟩
  | tail _ hstep ih =>
    have hmoves := hstep.booked.conserves k
    exact ⟨by omega, by omega⟩

theorem fits_of_posted (hs : Balanced s)
    (hfits : s.sessionUsage.Fits) : s'.sessionUsage.Fits := by
  induction h with
  | refl => exact hfits
  | tail hsteps hstep ih => exact hstep.booked.fits (balanced_of_posted hsteps hs) ih

theorem within_of_posted (hs : Balanced s)
    (hconst : ∀ l', operator = some l' → l' = l) (hwithin : s.sessionUsage.exceeds l = false) :
    s'.sessionUsage.exceeds l = false := by
  induction h with
  | refl => exact hwithin
  | tail hsteps hstep ih => exact hstep.booked.within (balanced_of_posted hsteps hs) hconst ih

theorem uncharged_of_posted (hconst : ∀ l', operator = some l' → l' = l) (hinvalid : l.valid = false)
    (hs : ∀ r ∈ s.attempts.rows, r.charged = false) : ∀ r ∈ s'.attempts.rows, r.charged = false := by
  induction h with
  | refl => exact hs
  | tail _ hstep ih => exact hstep.booked.uncharged hconst hinvalid ih

end

end Bookings

/-! ## One operation -/

section Step

variable {host : ExplorationHost} {now : ℤ} {principal session : String} {state : Option ExplorationSession}
  {req : ExplorationRequest} {reply : ExplorationReply} {s s' : ExplorationSession}
  {snapshot next : ExplorationSnapshot} {task group : String}

/-- Only rows without tasks have no groups. -/
theorem upgradeGroups_eq (h : Accounts s) : upgradeGroups s = s := by
  rw [upgradeGroups]
  split
  · rfl
  · next hgroups =>
    rw [not_not] at hgroups
    have hempty : s.groups = .empty := Table.ext hgroups
    rw [h.upgraded hgroups, List.foldl_nil, ← hempty]

/-- The snapshot a request works on and the group it is charged to: those of its task, or an empty
    snapshot for a first contract. -/
inductive Opened (s : ExplorationSession) (req : ExplorationRequest) : ExplorationSnapshot → String → Prop where
  | first (hnone : s.tasks.find? req.binding.task = none) (hissue : req.operation = .issue)
      (hroom : s.tasks.rows.length < 64) : Opened s req {} req.binding.group
  | known {snapshot : ExplorationSnapshot} {group : String}
      (hfind : s.tasks.find? req.binding.task = some (req.binding.task, snapshot))
      (hgroup : snapshot.group? = some group) : Opened s req snapshot group

theorem openTask_spec (haccounts : Accounts (rowOf principal session state))
    (h : openTask principal session state req = .ok (s, snapshot, group)) :
    s = rowOf principal session state ∧ Opened s req snapshot group := by
  unfold openTask at h
  dsimp only at h
  rw [upgradeGroups_eq haccounts] at h
  split at h
  · cases h
  · split at h
    · next hnone =>
      split_ifs at h with hissue hfull
      cases h
      exact ⟨rfl, .first hnone (not_not.mp hissue) (not_le.mp hfull)⟩
    · next name found hfind =>
      have hname : name = req.binding.task := Table.key_of_find? hfind
      split at h
      · cases h
      · next c hcurrent =>
        split_ifs at h
        cases h
        refine ⟨rfl, .known (hname ▸ hfind) ?_⟩
        rw [ExplorationSnapshot.group?, hcurrent]
        rfl

/-- The ledger an operation works on: the snapshot with the counters of its group and session. -/
def ExplorationSession.load (s : ExplorationSession) (snapshot : ExplorationSnapshot) (group : String) :
    ExplorationSnapshot :=
  { snapshot with taskUsage := s.groupUsage group, sessionUsage := s.usage }

/-- What a request that succeeds goes through. -/
theorem performRequest_ok (haccounts : Accounts (rowOf principal session state))
    (h : performRequest host now principal session state req = .ok (reply, s')) :
    ∃ snapshot group next, Opened (rowOf principal session state) req snapshot group ∧
      applyOperation host now req ((rowOf principal session state).load snapshot group) = .ok (reply, next) ∧
      s' = (rowOf principal session state).store req.binding.task group next := by
  obtain ⟨⟨s, snapshot, group⟩, hopen, h⟩ := bind_eq_ok_iff.mp h
  obtain ⟨⟨reply', next⟩, happly, h⟩ := bind_eq_ok_iff.mp h
  obtain ⟨rfl, hopened⟩ := openTask_spec haccounts hopen
  dsimp only at h
  split at h
  · cases h
    exact ⟨snapshot, group, next, hopened, happly, rfl⟩
  · cases h

theorem sessionExploration_ok {req : Option ExplorationRequest}
    (h : sessionExploration host now principal session state req = .ok (reply, s')) :
    ∃ req₀ req₁ req₂, req = some req₀ ∧ bindSession principal session state req₀ = .ok req₁ ∧
      prepareOffer host now req₁ = .ok req₂ ∧
      performRequest host now principal session state req₂ = .ok (reply, s') := by
  unfold sessionExploration at h
  split at h
  · cases h
  · next req₀ =>
    split at h
    · cases h
    · obtain ⟨req₁, hbind, h⟩ := bind_eq_ok_iff.mp h
      split at h
      · cases h
      · obtain ⟨req₂, hprepare, h⟩ := bind_eq_ok_iff.mp h
        exact ⟨req₀, req₁, req₂, rfl, hbind, hprepare, h⟩

theorem spent_empty (k : ExplorationCounter) : ({} : ExplorationSnapshot).spent k = 0 := rfl

theorem Opened.weight (h : Opened s req snapshot group) (f : ExplorationSnapshot → ℤ) (hf : f {} = 0) :
    ((s.tasks.find? req.binding.task).map fun t => f t.2).getD 0 = f snapshot := by
  cases h with
  | first hnone => rw [hnone, hf]; rfl
  | known hfind => rw [hfind]; rfl

variable {t : String × ExplorationSnapshot}

theorem spent_task_nonneg (haccounts : Accounts s) (ht : t ∈ s.tasks.rows)
    (k : ExplorationCounter) : 0 ≤ t.2.spent k :=
  spent_nonneg (haccounts.fair t ht) k

theorem groupTerm_nonneg (haccounts : Accounts s) (ht : t ∈ s.tasks.rows)
    (k : ExplorationCounter) (g : String) : 0 ≤ if t.2.group? = some g then t.2.spent k else 0 := by
  split
  · exact spent_task_nonneg haccounts ht k
  · exact le_rfl

theorem Opened.frank (h : Opened s req snapshot group) (haccounts : Accounts s) :
    ∀ r ∈ snapshot.attempts.rows, r.Frank := by
  intro r hr
  cases h with
  | first => cases hr
  | known hfind => exact haccounts.frank _ (Table.mem_of_find? hfind) r hr

theorem balanced_load (haccounts : Accounts s) (h : Opened s req snapshot group) :
    Balanced (s.load snapshot group) := by
  have hgroups : ∀ k, 0 ≤ s.groupSpent group k := by
    intro k
    refine List.sum_nonneg fun w hw => ?_
    obtain ⟨t, ht, rfl⟩ := List.mem_map.mp hw
    exact groupTerm_nonneg haccounts ht k group
  have htotal : ∀ k, 0 ≤ s.spent k := by
    intro k
    refine List.sum_nonneg fun w hw => ?_
    obtain ⟨t, ht, rfl⟩ := List.mem_map.mp hw
    exact spent_task_nonneg haccounts ht k
  cases h with
  | first =>
    refine ⟨fun r hr => ?_, fun k => ?_, fun k => ?_, haccounts.tidyGroup _, haccounts.tidy, Nat.zero_le _⟩
    · cases hr
    · change 0 ≤ (s.groupUsage req.binding.group).counter k
      rw [haccounts.group]
      exact hgroups k
    · change 0 ≤ s.usage.counter k
      rw [haccounts.session]
      exact htotal k
  | known hfind hgroup =>
    have hmem := Table.mem_of_find? hfind
    refine ⟨haccounts.fair _ hmem, fun k => ?_, fun k => ?_, haccounts.tidyGroup _, haccounts.tidy,
      haccounts.room.2 _ hmem⟩
    · change snapshot.spent k ≤ (s.groupUsage group).counter k
      rw [haccounts.group]
      have hterm : snapshot.spent k = if snapshot.group? = some group then snapshot.spent k else 0 := by
        rw [if_pos hgroup]
      rw [hterm]
      refine List.single_le_sum (fun w hw => ?_) _ (List.mem_map.mpr ⟨_, hmem, rfl⟩)
      obtain ⟨t, ht, rfl⟩ := List.mem_map.mp hw
      exact groupTerm_nonneg haccounts ht k group
    · change snapshot.spent k ≤ s.usage.counter k
      rw [haccounts.session]
      refine List.single_le_sum (fun w hw => ?_) _ (List.mem_map.mpr ⟨_, hmem, rfl⟩)
      obtain ⟨t, ht, rfl⟩ := List.mem_map.mp hw
      exact spent_task_nonneg haccounts ht k

/-- The task stays in the group it is charged to. -/
theorem group_of_applyOperation (h : Opened s req snapshot group)
    (happly : applyOperation host now req (s.load snapshot group) = .ok (reply, next)) : next.group? = some group := by
  cases h with
  | first _ hissue =>
    rw [applyOperation, hissue] at happly
    obtain ⟨c, hcurrent, hbinding⟩ := current_of_applyIssue rfl happly
    rw [ExplorationSnapshot.group?, hcurrent, Option.map_some, hbinding]
  | known _ hgroup =>
    obtain ⟨c, hcurrent, hgroup⟩ := Option.map_eq_some_iff.mp hgroup
    obtain ⟨c', hcurrent', hgroup'⟩ := keepsGroup_of_posted (performed_applyOperation happly).posted c hcurrent
    rw [ExplorationSnapshot.group?, hcurrent', Option.map_some, hgroup', hgroup]

theorem groupUsage_store (s : ExplorationSession) (task group g : String) (next : ExplorationSnapshot) :
    (s.store task group next).groupUsage g = if group = g then next.taskUsage else s.groupUsage g := by
  rw [ExplorationSession.groupUsage, ExplorationSession.store, Table.find?_upsert]
  split
  · rfl
  · rfl

theorem mem_tasks_store (ht : t ∈ (s.store task group next).tasks.rows) :
    t = (task, { next with sessionUsage := {} }) ∨ t ∈ s.tasks.rows := by
  rcases Table.mem_rows_upsert.mp ht with rfl | ⟨ht, -⟩
  · exact .inl rfl
  · exact .inr ht

theorem sum_tasks_store (h : Opened s req snapshot group) (f : ExplorationSnapshot → ℤ) (hf : f {} = 0) :
    ((s.store req.binding.task group next).tasks.rows.map fun t => f t.2).sum =
      (s.tasks.rows.map fun t => f t.2).sum - f snapshot + f { next with sessionUsage := {} } := by
  rw [← h.weight f hf]
  exact Table.sum_upsert s.tasks (req.binding.task, { next with sessionUsage := {} }) fun t => f t.2

theorem groupTerm_of_group (h : snapshot.group? = some group) (g : String) (x : ℤ) :
    (if snapshot.group? = some g then x else 0) = if group = g then x else 0 := by
  rw [h]
  simp only [Option.some_inj]

theorem Opened.groupTerm (h : Opened s req snapshot group) (g : String) (k : ExplorationCounter) :
    (if snapshot.group? = some g then snapshot.spent k else 0) = if group = g then snapshot.spent k else 0 := by
  cases h with
  | first => rw [spent_empty, ite_self, ite_self]
  | known _ hgroup => exact groupTerm_of_group hgroup g _

/-- Copying the counters back keeps the accounts. -/
theorem accounts_store {operator : Option ExplorationLimits} (haccounts : Accounts s)
    (hopened : Opened s req snapshot group)
    (hposted : Relation.ReflTransGen (Posted operator) (s.load snapshot group) next)
    (hgroup : next.group? = some group) : Accounts (s.store req.binding.task group next) := by
  have hbalanced := balanced_of_posted hposted (balanced_load haccounts hopened)
  have hmoves := conserves_of_posted hposted
  have hfits := fits_of_posted hposted (balanced_load haccounts hopened) haccounts.fits
  have hfrank := frank_of_posted hposted (hopened.frank haccounts)
  refine ⟨fun k => ?_, fun g k => ?_, hfits, hbalanced.tidySession, fun g => ?_, fun t ht => ?_, fun t ht => ?_,
    fun t ht => ?_, ⟨?_, ?_⟩, ?_⟩
  · have hsum : (s.store req.binding.task group next).spent k = s.spent k - snapshot.spent k + next.spent k :=
      sum_tasks_store hopened (·.spent k) (spent_empty k)
    have hmove : next.sessionUsage.counter k - s.usage.counter k = next.spent k - snapshot.spent k := (hmoves k).2
    have htotal := haccounts.session k
    change next.sessionUsage.counter k = _
    omega
  · have hsum : (s.store req.binding.task group next).groupSpent g k = s.groupSpent g k -
        (if snapshot.group? = some g then snapshot.spent k else 0) + if next.group? = some g then next.spent k else 0 :=
      sum_tasks_store hopened (fun t => if t.group? = some g then t.spent k else 0) (ite_self _)
    have hmove : next.taskUsage.counter k - (s.groupUsage group).counter k = next.spent k - snapshot.spent k :=
      (hmoves k).1
    have htotal := haccounts.group g k
    rw [hopened.groupTerm, groupTerm_of_group hgroup] at hsum
    rw [groupUsage_store, hsum]
    split
    · next hg =>
      rw [← hg] at htotal ⊢
      omega
    · omega
  · rw [groupUsage_store]
    split
    · exact hbalanced.tidyTask
    · exact haccounts.tidyGroup g
  · rcases mem_tasks_store ht with rfl | ht
    · exact hbalanced.fair
    · exact haccounts.fair t ht
  · rcases mem_tasks_store ht with rfl | ht
    · exact hfrank
    · exact haccounts.frank t ht
  · rcases mem_tasks_store ht with rfl | ht
    · obtain ⟨c, hcurrent, -⟩ := Option.map_eq_some_iff.mp hgroup
      exact Option.isSome_iff_exists.mpr ⟨c, hcurrent⟩
    · exact haccounts.current t ht
  · have hlength := Table.length_upsert s.tasks (req.binding.task, { next with sessionUsage := {} })
    have hroom := haccounts.room.1
    change (s.tasks.upsert (req.binding.task, { next with sessionUsage := {} })).rows.length ≤ 64
    cases hopened with
    | first hnone _ hless =>
      rw [hnone] at hlength
      change _ = _ + 1 at hlength
      omega
    | known hfind =>
      rw [hfind] at hlength
      change _ = _ + 0 at hlength
      omega
  · intro t ht
    rcases mem_tasks_store ht with rfl | ht
    · exact hbalanced.room
    · exact haccounts.room.2 t ht
  · intro hempty
    have hmem : (group, next.taskUsage) ∈ (s.groups.upsert (group, next.taskUsage)).rows :=
      Table.mem_rows_upsert.mpr (.inl rfl)
    change (s.groups.upsert (group, next.taskUsage)).rows = [] at hempty
    rw [hempty] at hmem
    cases hmem

theorem accounts_of_ok {req : Option ExplorationRequest} (haccounts : Accounts (rowOf principal session state))
    (h : sessionExploration host now principal session state req = .ok (reply, s')) : Accounts s' := by
  obtain ⟨_, _, req₂, -, -, -, hperform⟩ := sessionExploration_ok h
  obtain ⟨snapshot, group, next, hopened, happly, rfl⟩ := performRequest_ok haccounts hperform
  exact accounts_store haccounts hopened (performed_applyOperation happly).posted
    (group_of_applyOperation hopened happly)

/-- Equal counters of the ledger are equal counters of the row. -/
theorem sameCounters_store (hsame : SameUsage (s.load snapshot group) next) :
    SameCounters s (s.store task group next) := by
  refine ⟨fun k => congrArg (·.counter k) hsame.session, fun g k => ?_⟩
  rw [groupUsage_store]
  split
  · next hg => rw [hsame.task, ← hg]; rfl
  · rfl

theorem prepareOffer_names {req' : ExplorationRequest} {id : String} (h : prepareOffer host now req = .ok req')
    (hid : req.names = some id) : req'.names = some id ∧ req'.binding.task = req.binding.task := by
  unfold prepareOffer at h
  split at h
  · cases h
    exact ⟨hid, rfl⟩
  · next hprepare =>
    rw [not_not] at hprepare
    rw [ExplorationRequest.names, hprepare] at hid
    cases hid

/-- A request that asks for an attempt after its offer was prepared had none to prepare. -/
theorem names_of_prepareOffer {req' : ExplorationRequest} {id : String} (h : prepareOffer host now req = .ok req')
    (hid : req'.names = some id) : req.names = some id ∧ req'.binding.task = req.binding.task := by
  unfold prepareOffer at h
  split at h
  · cases h
    exact ⟨hid, rfl⟩
  · dsimp only at h
    split at h
    · cases h
    · split at h
      · cases h
      · split at h
        · cases h
        · cases h
          cases hid

theorem stepLaw (haccounts : Accounts (rowOf principal session state)) (step : ExplorationStep) :
    StepLaw principal session state step := by
  refine ⟨fun e h => ?_, fun reply s' h hrefused => ?_, fun reply s' h req task id hreq hasks hknown => ?_,
    fun reply s' h hadmits => ?_⟩
  · rw [applyStep, h]
  · obtain ⟨_, _, req₂, -, -, -, hperform⟩ := sessionExploration_ok h
    obtain ⟨snapshot, group, next, hopened, happly, rfl⟩ := performRequest_ok haccounts hperform
    exact sameCounters_store ((performed_applyOperation happly).refused hrefused)
  · obtain ⟨req₀, req₁, req₂, hreq₀, hbind, hprepare, hperform⟩ := sessionExploration_ok h
    obtain ⟨snapshot, group, next, hopened, happly, rfl⟩ := performRequest_ok haccounts hperform
    rw [hreq] at hreq₀
    cases hreq₀
    rw [asksFor, hbind] at hasks
    obtain ⟨id', hnames, hpair⟩ := Option.map_eq_some_iff.mp hasks
    cases hpair
    obtain ⟨hnames₂, htask⟩ := prepareOffer_names hprepare hnames
    refine sameCounters_store ((performed_applyOperation happly).known id hnames₂ ?_)
    rw [← htask] at hknown
    cases hopened with
    | first hnone =>
      rw [hnone] at hknown
      cases hknown
    | known hfind =>
      rw [hfind] at hknown
      exact hknown
  · obtain ⟨req₀, req₁, req₂, hreq₀, hbind, hprepare, hperform⟩ := sessionExploration_ok h
    obtain ⟨snapshot, group, next, hopened, happly, rfl⟩ := performRequest_ok haccounts hperform
    obtain ⟨id, r, hnames, hr⟩ := (performed_applyOperation happly).admitted hadmits (hopened.frank haccounts)
    obtain ⟨hnames₁, htask⟩ := names_of_prepareOffer hprepare hnames
    refine ⟨req₀, req₁.binding.task, id, { next with sessionUsage := {} }, r, hreq₀, ?_, ?_, hr⟩
    · rw [asksFor, hbind]
      exact congrArg (Option.map _) hnames₁
    · rw [← htask]
      exact (Table.find?_upsert ..).trans (if_pos rfl)

/-- The operator's limits are kept, and nothing is charged under limits that are not valid. -/
structure Limited (l : ExplorationLimits) (s : ExplorationSession) : Prop where
  kept : l.valid = true → s.usage.exceeds l = false
  uncharged : l.valid = false → ∀ t ∈ s.tasks.rows, ∀ r ∈ t.2.attempts.rows, r.charged = false

theorem limited_of_ok {req : Option ExplorationRequest}
    (haccounts : Accounts (rowOf principal session state)) (hlimited : Limited l (rowOf principal session state))
    (hconst : ∀ l', host.limits = some l' → l' = l)
    (h : sessionExploration host now principal session state req = .ok (reply, s')) : Limited l s' := by
  obtain ⟨_, _, req₂, -, -, -, hperform⟩ := sessionExploration_ok h
  obtain ⟨snapshot, group, next, hopened, happly, rfl⟩ := performRequest_ok haccounts hperform
  have hposted := (performed_applyOperation happly).posted
  refine ⟨fun hvalid => ?_, fun hinvalid t ht => ?_⟩
  · exact within_of_posted hposted (balanced_load haccounts hopened) hconst (hlimited.kept hvalid)
  · rcases mem_tasks_store ht with rfl | ht
    · have hbefore : ∀ r ∈ snapshot.attempts.rows, r.charged = false := by
        intro r hr
        cases hopened with
        | first => cases hr
        | known hfind => exact hlimited.uncharged hinvalid _ (Table.mem_of_find? hfind) r hr
      have hafter := uncharged_of_posted hposted hconst hinvalid hbefore
      exact hafter
    · exact hlimited.uncharged hinvalid t ht

end Step

/-! ## Whole runs -/

section Conservation

variable {s : ExplorationSession}

theorem spent_file_le (snapshot : ExplorationSnapshot) (name : String) :
    snapshot.spent (.file name) ≤ snapshot.attempts.rows.length := by
  have hone : ∀ w ∈ snapshot.attempts.rows.map (·.weight (.file name)), w ≤ 1 := by
    intro w hw
    obtain ⟨r, -, rfl⟩ := List.mem_map.mp hw
    rw [ExplorationReservation.weight]
    split
    · rw [ExplorationAttempt.cost]
      split
      · exact le_rfl
      · exact Int.one_nonneg
    · exact Int.one_nonneg
  have hsum := List.sum_le_card_nsmul _ 1 hone
  rw [List.length_map, nsmul_one] at hsum
  exact hsum

theorem Accounts.files_fit (h : Accounts s) (name : String) : s.usage.counter (.file name) ≤ maxInt64 := by
  have htask : ∀ w ∈ s.tasks.rows.map (fun t => t.2.spent (.file name)), w ≤ 4096 := by
    intro w hw
    obtain ⟨t, ht, rfl⟩ := List.mem_map.mp hw
    have hroom := h.room.2 t ht
    have hle := spent_file_le t.2 name
    omega
  have hsum := List.sum_le_card_nsmul _ 4096 htask
  have hroom := h.room.1
  rw [h.session, ExplorationSession.spent]
  rw [List.length_map, nsmul_eq_mul] at hsum
  have hlimit : (64 * 4096 : ℤ) ≤ maxInt64 := by decide
  omega

theorem Accounts.conserved (h : Accounts s) : Conserved s := by
  have hterm : ∀ k g, ∀ t ∈ s.tasks.rows, (if t.2.group? = some g then t.2.spent k else 0) ≤ t.2.spent k := by
    intro k g t ht
    split
    · exact le_rfl
    · exact spent_task_nonneg h ht k
  have hgroup : ∀ k g, (s.groupUsage g).counter k ≤ s.usage.counter k := by
    intro k g
    rw [h.group, h.session]
    exact List.sum_le_sum fun t ht => hterm k g t ht
  have hfits : ∀ k, s.usage.counter k ≤ maxInt64 := by
    intro k
    cases k with
    | file name => exact h.files_fit name
    | _ => exact h.fits _ nofun
  refine ⟨h.session, h.group, fun k => ⟨?_, fun g => ?_⟩, fun k => ⟨hfits k, fun g => (hgroup k g).trans (hfits k)⟩⟩
  · rw [h.session]
    refine List.sum_nonneg fun w hw => ?_
    obtain ⟨t, ht, rfl⟩ := List.mem_map.mp hw
    exact spent_task_nonneg h ht k
  · rw [h.group]
    refine List.sum_nonneg fun w hw => ?_
    obtain ⟨t, ht, rfl⟩ := List.mem_map.mp hw
    exact groupTerm_nonneg h ht k g

theorem Limited.withinOperator (h : Limited l s) (haccounts : Accounts s) :
    WithinOperator l s := by
  refine ⟨h.kept, fun hinvalid k => ?_⟩
  rw [haccounts.session]
  refine List.sum_eq_zero fun w hw => ?_
  obtain ⟨t, ht, rfl⟩ := List.mem_map.mp hw
  refine List.sum_eq_zero fun w hw => ?_
  obtain ⟨r, hr, rfl⟩ := List.mem_map.mp hw
  rw [ExplorationReservation.weight, h.uncharged hinvalid t ht r hr]
  rfl

end Conservation

section WholeRuns

variable {principal session : String} {state : Option ExplorationSession}

section

variable (h : Accounts (rowOf principal session state))
include h

theorem accounts_applyStep (step : ExplorationStep) :
    Accounts (rowOf principal session (applyStep principal session state step)) := by
  rw [applyStep]
  split
  · next reply s hok => exact accounts_of_ok h hok
  · exact h

theorem accounts_foldl (steps : List ExplorationStep) :
    Accounts (rowOf principal session (steps.foldl (applyStep principal session) state)) := by
  induction steps generalizing state with
  | nil => exact h
  | cons step steps ih => exact ih (accounts_applyStep h step)

theorem limited_foldl (hlimited : Limited l (rowOf principal session state)) {steps : List ExplorationStep}
    (hconst : ∀ step ∈ steps, ∀ l', step.host.limits = some l' → l' = l) :
    Limited l (rowOf principal session (steps.foldl (applyStep principal session) state)) := by
  induction steps generalizing state with
  | nil => exact hlimited
  | cons step steps ih =>
    refine ih (accounts_applyStep h step) ?_ fun step hstep => hconst step (List.mem_cons_of_mem _ hstep)
    rw [applyStep]
    split
    · next reply s hok => exact limited_of_ok h hlimited (hconst step List.mem_cons_self) hok
    · exact hlimited

end

theorem limited_empty (l : ExplorationLimits) (principal session : String) :
    Limited l (rowOf principal session none) := by
  refine ⟨fun hvalid => ?_, fun _ t ht => nomatch ht⟩
  have hceiling : ∀ n : Option ℤ, n.all (0 ≤ ·) = true → exceeds 0 n = false := by
    intro n hn
    cases n with
    | none => rfl
    | some c => exact decide_eq_false (not_lt.mpr (of_decide_eq_true hn))
  simp only [ExplorationLimits.valid, Bool.and_eq_true, List.all_cons] at hvalid
  obtain ⟨-, hscans, hfiles, hgraph, hbytes, htokens, -⟩ := hvalid
  change (exceeds 0 l.rawScans || exceeds 0 l.files || exceeds 0 l.graph || exceeds 0 l.bytes ||
    exceeds 0 l.tokens) = false
  rw [hceiling _ hscans, hceiling _ hfiles, hceiling _ hgraph, hceiling _ hbytes, hceiling _ htokens]
  rfl

end WholeRuns

/-- Exploration accounting is conserved over every run of a session: in every row that is reached the
    counters are the sums of the attempts admitted and not refunded, no failed, refused or repeated
    operation moves a counter, an attempt that is let through is charged, and constant limits of the
    operator are kept. -/
theorem exploration_conserved (principal session : String) (steps : List ExplorationStep) :
    Conserved (rowOf principal session (runSession principal session steps)) ∧
      (∀ step, StepLaw principal session (runSession principal session steps) step) ∧
      ∀ limits, (∀ step ∈ steps, ∀ l, step.host.limits = some l → l = limits) →
        WithinOperator limits (rowOf principal session (runSession principal session steps)) := by
  have haccounts : Accounts (rowOf principal session (runSession principal session steps)) :=
    accounts_foldl (accounts_empty principal session) steps
  refine ⟨haccounts.conserved, stepLaw haccounts, fun limits hconst => ?_⟩
  have hlimited := limited_foldl (accounts_empty principal session) (limited_empty limits principal session) hconst
  exact hlimited.withinOperator haccounts

def sampleHost : ExplorationHost where
  policy := .ok none
  evaluate _ _ _ _ := ⟨true, "", none⟩
  calibration _ _ := ""
  worktreeGeneration _ := ""
  discoveryPath _ _ _ := ""
  actionDigest _ _ _ _ := none
  indexedDigest _ _ := ""
  argumentFields _ := none
  indexBody _ := none
  encodes _ := true

def sampleBinding : ExplorationBinding where
  principal := "p"
  session := "s"
  task := "t"
  project := "x"
  worktreeGeneration := "w"
  indexGeneration := "1"
  memoryOwner := "m"

def sampleContract : ExplorationContract where
  id := "t"
  revision := 1
  binding := sampleBinding
  planDigest := "d"
  sourceVersionsDigest := "v"
  queryClass := "q"
  coverageComplete := true
  confidenceProvenance := "c"
  supportedClasses := [.rawScan]
  created := 0
  expires := 9
  limits := {}
  tier := .observe

/-- A contract, an attempt that is started, and one that is cancelled before its dispatch. -/
def sampleSteps : List ExplorationStep :=
  let reserve (id : String) : ExplorationRequest :=
    { operation := .reserve, binding := sampleBinding
      attempt := some ⟨"", "", id, sampleBinding, .rawScan, "", 3, 2⟩ }
  [{ operation := .issue, binding := sampleBinding, contract := some sampleContract }, reserve "a",
    { operation := .started, binding := sampleBinding, attemptId := "a" }, reserve "b",
    { operation := .cancelBeforeDispatch, binding := sampleBinding, attemptId := "b" }].map
      (⟨sampleHost, 1, some ·⟩)

theorem exploration_conserved_sampleSteps :
    Conserved (rowOf "p" "s" (runSession "p" "s" sampleSteps)) ∧
      (((runSession "p" "s" sampleSteps).map (·.tasks.rows)).getD []).flatMap
        (·.2.attempts.rows.map fun r => (r.attempt.id, r.charged, r.refunded)) =
          [("a", true, false), ("b", true, true)] :=
  ⟨(exploration_conserved "p" "s" sampleSteps).1, by decide +kernel⟩

end ExecutionPolicy
