-- SUMMARY: The work-item budget: reserving a share of the tree's cap, releasing, extending and reconciling a reservation.
import Aimee.Workflow.Store

/-!
# The work-item budget

The operations of `lifecycle_budget.go`: a reservation is taken by an owner for the length of a
lease, over a tree of work items that share the cap of its root.

- no reservation;
- `reserved`: an estimate is held;
- `unresolved`: the invocation crossed the provider boundary and may have spent an unknown amount;
- `actual`: a measured cost has replaced the estimate.
-/

namespace Workflow

def budgetLeaseMinutes : ℕ := 2

/-- The end of a lease taken now. -/
def leaseFrom (now : Time) : Time := now + 60 * budgetLeaseMinutes

/-- The states that represent money already authorised. -/
def reservationHeld : List ReservationState := [.reserved, .actual, .unresolved]

/-- The states a measured actual may replace. -/
def reservationReplaceable : List ReservationState := [.reserved, .unresolved]

/-- `leaseIsLiveSQL`. -/
def Reservation.leaseIsLive (r : Reservation) (now : Time) : Bool :=
  r.leaseUntil.any (now < ·)

namespace Store

/-- The root of the tree a work item is in, found by the climb. -/
def budgetRoot (s : Store) (workItemId : String) : Option WorkItem :=
  (s.ancestors workItemId).find? (·.parentId = "")

/-- What the rows of a tree have spent. -/
def treeSpent (s : Store) (rootId : String) : ℚ≥0 := ((s.treeItems rootId).map (·.cumCostUsd)).sum

/-- What the rows of a tree have outstanding. -/
def treeReserved (s : Store) (rootId : String) : ℚ≥0 :=
  ((s.treeItems rootId).map (·.reservation.reservedCostUsd)).sum

/-- What the rows of a tree other than one have outstanding. -/
def treeReservedExcept (s : Store) (rootId workItemId : String) : ℚ≥0 :=
  (((s.treeItems rootId).filter (·.workItemId ≠ workItemId)).map
    (·.reservation.reservedCostUsd)).sum

/-- The rows of a tree that may ask for a share. -/
def treeRunnable (s : Store) (rootId : String) : ℕ :=
  (s.treeItems rootId).countP fun w =>
    w.state = "active" && w.pauseReason = "" && w.reservation.reservedCostUsd = 0

/-- `loadRunnableSQL`: a paused or terminal run has no business holding a reservation. -/
def loadRunnable (s : Store) (workItemId : String) : Option Reservation :=
  ((s.item? workItemId).filter fun w => w.state = "active" && w.pauseReason = "").map (·.reservation)

end Store

/-- The answer to a reservation attempt. -/
structure BudgetReply where
  rootId : String
  maxUsd : ℚ≥0
  amount : ℚ≥0
  allowed : Bool
  busy : Bool
  replayOnly : Bool
  deriving DecidableEq

/-! ## Reserving -/

/-- A work item that holds a reservation already. -/
def reserveExisting (now : Time) (workItemId owner : String) (root : WorkItem) (held : Reservation)
    (s : Store) : Store × Reply BudgetReply :=
  let reply := fun allowed busy replayOnly => Reply.ok
    { rootId := root.workItemId, maxUsd := root.workItemMaxCostUsd, amount := held.reservedCostUsd,
      allowed := allowed, busy := busy, replayOnly := replayOnly : BudgetReply }
  let row := fun w : WorkItem => (w.workItemId = workItemId : Bool)
  if held.state = .actual ∨ held.state = .unresolved then
    if held.owner ≠ owner ∧ held.leaseIsLive now then (s, reply false true false) else
    let hit := fun w : WorkItem => row w &&
      (w.reservation.state = held.state && w.reservation.owner = held.owner &&
        (w.reservation.owner = owner || !w.reservation.leaseIsLive now) : Bool)
    if s.items.matched hit ≠ 1 then (s, .failed) else
    (s.updateItems hit
      (fun w => { w with reservation :=
        { w.reservation with owner := owner, leaseUntil := some (leaseFrom now) } })
      fun _ => rfl, reply true false true)
  else if held.state = .reserved ∧ held.owner ≠ owner then
    if held.leaseIsLive now then (s, reply false true false) else
    let hit := fun w : WorkItem => row w &&
      (w.reservation.state = .reserved && w.reservation.owner = held.owner &&
        w.reservation.leaseUntil.any (· ≤ now) : Bool)
    if s.items.matched hit ≠ 1 then (s, .failed) else
    -- An expired invocation may have crossed the provider boundary: its authorization is
    -- retained, and only a durable replay may resolve it.
    (s.updateItems hit
      (fun w => { w with reservation :=
        { w.reservation with state := .unresolved, owner := owner, leaseUntil := some (leaseFrom now) } })
      fun _ => rfl, reply true false true)
  else
    (s.updateItems (fun w => row w && (w.reservation.owner = owner : Bool))
      (fun w => { w with reservation := { w.reservation with leaseUntil := some (leaseFrom now) } })
      fun _ => rfl, reply true false false)

/-- A share of the tree's budget. -/
def wfeBudgetReserve (now : Time) (workItemId owner : String) (s : Store) : Store × Reply BudgetReply :=
  if workItemId = "" ∨ owner = "" then (s, .invalid) else
  match s.budgetRoot workItemId with
  | none => (s, .failed)
  | some root =>
    match s.loadRunnable workItemId with
    | none => (s, .failed)
    | some held =>
      if held.state ≠ .none then reserveExisting now workItemId owner root held s else
      let runnable := fun w : WorkItem => w.state = "active" && w.pauseReason = ""
      let reply := fun (amount : ℚ≥0) allowed => Reply.ok
        { rootId := root.workItemId, maxUsd := root.workItemMaxCostUsd, amount := amount,
          allowed := allowed, busy := false, replayOnly := false : BudgetReply }
      let reserve := fun (amount : ℚ≥0) (w : WorkItem) =>
        { w with reservation :=
          { reservedCostUsd := amount, state := .reserved, owner := owner,
            leaseUntil := some (leaseFrom now) } }
      if root.workItemMaxCostUsd ≤ 0 then
        -- Uncapped: nothing to divide, but ownership and a lease are still recorded.
        let hit := fun w : WorkItem => w.workItemId = workItemId &&
          (runnable w && w.reservation.state = .none : Bool)
        if s.items.matched hit ≠ 1 then (s, .failed) else
        (s.updateItems hit (reserve 0) fun _ => rfl, reply 0 true)
      else
        let remaining : ℚ := root.workItemMaxCostUsd - s.treeSpent root.workItemId -
          s.treeReserved root.workItemId
        if remaining ≤ 0 then (s, reply 0 false) else
        let amount := (remaining / max 1 (s.treeRunnable root.workItemId)).toNNRat
        let hit := fun w : WorkItem => w.workItemId = workItemId &&
          (runnable w && w.reservation.reservedCostUsd = 0 : Bool)
        if s.items.matched hit ≠ 1 then (s, .failed) else
        (s.updateItems hit (reserve amount) fun _ => rfl, reply amount true)

/-! ## Releasing, extending and reconciling -/

/-- Drops only an estimate: an actual or unresolved reservation is spend that has happened. -/
def wfeBudgetRelease (workItemId owner : String) (s : Store) : Store × Reply Unit :=
  if workItemId = "" then (s, .invalid) else
  (s.updateItems (fun w => w.workItemId = workItemId &&
      (w.reservation.owner = owner && w.reservation.state = .reserved : Bool))
    (fun w => { w with reservation := clearReservation }) fun _ => rfl, .ok ())

def wfeBudgetHeartbeat (now : Time) (workItemId owner : String) (s : Store) : Store × Reply Unit :=
  if workItemId = "" then (s, .invalid) else
  (s.updateItems (fun w => w.workItemId = workItemId &&
      (w.reservation.owner = owner && w.reservation.state ∈ reservationHeld : Bool))
    (fun w => { w with reservation := { w.reservation with leaseUntil := some (leaseFrom now) } })
    fun _ => rfl, .ok ())

/-- Replaces an estimate with a measured actual. The answer says whether the tree can afford it. -/
def wfeBudgetReconcile (workItemId owner : String) (actual : ℚ) (s : Store) : Store × Reply Bool :=
  if workItemId = "" ∨ actual < 0 then (s, .invalid) else
  match s.budgetRoot workItemId with
  | none => (s, .failed)
  | some root =>
    match s.item? workItemId with
    | none => (s, .failed)
    | some w =>
      let held := w.reservation
      if held.owner ≠ owner then (s, .failed) else
      if held.state = .none then (s, .failed) else
      -- A replay must reproduce the cost that was already recorded.
      if held.state = .actual ∧ (held.reservedCostUsd : ℚ) ≠ actual then (s, .failed) else
      let allowed := root.workItemMaxCostUsd ≤ 0 ∨
        (s.treeSpent root.workItemId + s.treeReservedExcept root.workItemId workItemId : ℚ) +
          actual ≤ root.workItemMaxCostUsd
      if held.state = .actual then (s, .ok allowed) else
      (s.updateItems (fun w => w.workItemId = workItemId &&
          (w.reservation.owner = owner && w.reservation.state ∈ reservationReplaceable : Bool))
        (fun w => { w with reservation :=
          { w.reservation with reservedCostUsd := actual.toNNRat, state := .actual } })
        fun _ => rfl, .ok allowed)

end Workflow
