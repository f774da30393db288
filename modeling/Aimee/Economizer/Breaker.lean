-- SUMMARY: The gateway's session breaker: disabling with a sweep and an eviction, lazy expiry, and the record of calls it is judged by.
import Mathlib.Data.List.Induction
import Aimee.Lib.KeyMap

/-!
# The session breaker

`modules/economizer/breaker.go`. Times are nanoseconds. The sequence number counts insertions; it
is a natural number, since 2^64 insertions do not happen. The mutex makes each call one step.
-/

namespace Breaker

/-! ## The source -/

def breakerCap : ℕ := 10000

def breakerSweepAbove : ℕ := breakerCap / 2

structure BreakerEntry where
  expires : ℤ
  seq : ℕ
  reason : String
deriving DecidableEq, Repr

structure SessionBreaker where
  entries : KeyMap String BreakerEntry
  seq : ℕ

def newSessionBreaker : SessionBreaker := { entries := KeyMap.empty, seq := 0 }

/-- `time.Duration(ttlMS) * time.Millisecond`, in 64 bits. -/
def duration (ttlMs : ℤ) : ℤ := (ttlMs * 1000000).bmod (2 ^ 64)

/-- `IsDisabled`, with the table after the lazy expiry. -/
def SessionBreaker.isDisabled (b : SessionBreaker) (key : String) (now : ℤ) : Bool × SessionBreaker :=
  if key = "" then (false, b)
  else match b.entries.get? key with
    | none => (false, b)
    | some e => if now < e.expires then (true, b) else (false, { b with entries := b.entries.erase key })

def SessionBreaker.sweepLocked (b : SessionBreaker) (now : ℤ) : SessionBreaker :=
  { b with entries := b.entries.keep fun e => decide (now < e.expires) }

/-- The loop of `evictOldestLocked`. Go walks the map in any order; sequence numbers are distinct. -/
def oldest (rows : List (String × BreakerEntry)) : Option (String × BreakerEntry) :=
  rows.foldl (fun best r => match best with
    | none => some r
    | some o => if r.2.seq < o.2.seq then some r else some o) none

def SessionBreaker.evictOldestLocked (b : SessionBreaker) : SessionBreaker :=
  match oldest b.entries.rows with
  | none => b
  | some o => { b with entries := b.entries.erase o.1 }

/-- The table before an insertion: swept when it is more than half full. -/
def SessionBreaker.swept (b : SessionBreaker) (now : ℤ) : SessionBreaker :=
  if breakerSweepAbove < b.entries.size then b.sweepLocked now else b

def SessionBreaker.disable (b : SessionBreaker) (key : String) (ttlMs : ℤ) (reason : String) (now : ℤ) :
    SessionBreaker :=
  if key = "" ∨ ttlMs ≤ 0 then b
  else
    let reason := if reason = "" then "unknown" else reason
    match b.entries.get? key with
    | some e => { b with entries := b.entries.put key { e with expires := now + duration ttlMs, reason := reason } }
    | none =>
      let b := b.swept now
      let b := if breakerCap ≤ b.entries.size then b.evictOldestLocked else b
      { entries := b.entries.put key ⟨now + duration ttlMs, b.seq + 1, reason⟩, seq := b.seq + 1 }

/-- The session that a `Disable` evicts. -/
def SessionBreaker.victim (b : SessionBreaker) (key : String) (ttlMs now : ℤ) : Option String :=
  if key = "" ∨ ttlMs ≤ 0 then none
  else match b.entries.get? key with
    | some _ => none
    | none => if breakerCap ≤ (b.swept now).entries.size then (oldest (b.swept now).entries.rows).map Prod.fst else none

/-! ## Calls and their record -/

inductive Op where
  | disable (key : String) (ttlMs : ℤ) (reason : String) (now : ℤ)
  | isDisabled (key : String) (now : ℤ)

def Op.now : Op → ℤ
  | .disable _ _ _ now => now
  | .isDisabled _ now => now

/-- The window that the latest accepted `Disable` of a session opened: the number of that call, the
    number of the call that put the session into the table, and where the window ends. -/
structure Window where
  entered : ℕ
  latest : ℕ
  expires : ℤ

/-- The breaker beside the record of the calls. A session loses its window when it is evicted. -/
structure World where
  breaker : SessionBreaker
  windows : String → Option Window
  calls : ℕ

def World.empty : World := { breaker := newSessionBreaker, windows := fun _ => none, calls := 0 }

/-- The call that put a session into the table: this one, unless its entry is there already. -/
def World.entered (w : World) (key : String) : ℕ :=
  if (w.breaker.entries.get? key).isSome then ((w.windows key).map Window.entered).getD w.calls else w.calls

def World.step (w : World) : Op → World
  | .disable key ttlMs reason now =>
    { breaker := w.breaker.disable key ttlMs reason now
      windows := fun k =>
        if key = "" ∨ ttlMs ≤ 0 then w.windows k
        else if k = key then some ⟨w.entered key, w.calls, now + ttlMs * 1000000⟩
        else if w.breaker.victim key ttlMs now = some k then none
        else w.windows k
      calls := w.calls + 1 }
  | .isDisabled key now => { w with breaker := (w.breaker.isDisabled key now).2, calls := w.calls + 1 }

def stateAfter (ops : List Op) : World := ops.foldl World.step World.empty

/-- The session's window is open. -/
def World.Open (w : World) (k : String) (now : ℤ) (x : Window) : Prop := w.windows k = some x ∧ now < x.expires

/-- `breakerCap` sessions other than `key` are disabled. -/
def World.Crowded (w : World) (key : String) (now : ℤ) : Prop :=
  ∃ keys : List String, keys.Nodup ∧ breakerCap ≤ keys.length ∧ key ∉ keys ∧ ∀ k ∈ keys, ∃ x, w.Open k now x

/-- What is asked of one call: a lookup answers whether the latest window is open, and an eviction
    happens in a crowd and takes the session whose latest `Disable` is the oldest. -/
def RightStep (w : World) : Op → Prop
  | .isDisabled key now => (w.breaker.isDisabled key now).1 = true ↔ ∃ x, w.Open key now x
  | .disable key ttlMs _ now => ∀ v, w.breaker.victim key ttlMs now = some v →
      w.Crowded key now ∧ ∃ x, w.Open v now x ∧ ∀ k y, w.Open k now y → x.latest ≤ y.latest

end Breaker
