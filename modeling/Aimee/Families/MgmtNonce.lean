-- SUMMARY: The management challenge store: issue, consume and the high-water mark, as scripts over a store with row locks.
import Aimee.Families.Cells
import Aimee.Lib.Sessions

/-!
# Management challenges

`mgmt_nonce.go`. Each operation is a script of its statements, with its answer for every reply. The
store has the outstanding challenges and the revocation high-water mark.
-/

namespace Families

/-! ## Rows and writes -/

/-- What a challenge is bound to. -/
structure NonceBinding where
  peerIssuer : Cell
  peerSerial : Cell
  peerFingerprint : Cell
  channelBinding : Cell
  targetServerId : Cell
  purpose : Cell
  deriving DecidableEq

structure NonceRow where
  nonce : List UInt8
  binding : NonceBinding
  expiresAt : ℤ
  deriving DecidableEq

structure NonceStore where
  rows : List NonceRow := []
  mark : ℤ := 0

/-- The uncommitted writes of a transaction: the keys of committed rows it deleted, the rows it
    inserted, and the mark it wrote. -/
structure NonceWrites where
  deleted : List (List UInt8) := []
  inserted : List NonceRow := []
  mark : Option ℤ := none

/-- The committed rows that a transaction has not deleted. -/
def NonceWrites.kept (w : NonceWrites) (store : NonceStore) : List NonceRow :=
  store.rows.filter fun r => r.nonce ∉ w.deleted

/-- The rows a statement of the transaction sees. -/
def NonceWrites.view (w : NonceWrites) (store : NonceStore) : List NonceRow := w.kept store ++ w.inserted

def NonceWrites.viewMark (w : NonceWrites) (store : NonceStore) : ℤ := w.mark.getD store.mark

/-- The keys of the rows that the transaction has locked. -/
def NonceWrites.locks (w : NonceWrites) : List (List UInt8) := w.deleted ++ w.inserted.map (·.nonce)

/-! ## Statements -/

inductive NonceStmt where
  | begin_
  | sweep (now : ℤ)
  | count
  | insert (row : NonceRow)
  | lookup (nonce : List UInt8)
  | delete (nonce : List UInt8)
  | clear
  | hwmRead
  | hwmBump (generation : ℤ)
  | hwmSet (generation : ℤ)

inductive NonceReply where
  | failed
  | done
  | affected (rows : ℕ)
  | count (rows : ℕ)
  | noRows
  | row (r : NonceRow)
  | mark (generation : ℤ)

/-- A delete waits for the writers of the committed rows it matches. -/
def deleteWhere (store : NonceStore) (others : List NonceWrites) (w : NonceWrites) (p : NonceRow → Bool) :
    Option (NonceWrites × NonceReply) :=
  let hit := (w.kept store).filter p
  if hit.any fun r => others.any fun o => r.nonce ∈ o.locks then none
  else some ({ w with
      deleted := hit.map (·.nonce) ++ w.deleted
      inserted := w.inserted.filter fun r => !p r },
    .affected (hit.length + (w.inserted.filter p).length))

def nonceExec (store : NonceStore) (others : List NonceWrites) (w : NonceWrites) :
    NonceStmt → Option (NonceWrites × NonceReply)
  | .begin_ => some (w, .done)
  | .sweep now => deleteWhere store others w fun r => r.expiresAt < now
  | .count => some (w, .count (w.view store).length)
  | .insert row =>
    if others.any fun o => row.nonce ∈ o.locks then none
    else if (w.view store).any fun r => r.nonce = row.nonce then some (w, .failed)
    else some ({ w with inserted := row :: w.inserted }, .affected 1)
  | .lookup nonce =>
    match (w.view store).find? fun r => r.nonce = nonce with
    | some r => some (w, .row r)
    | none => some (w, .noRows)
  | .delete nonce => deleteWhere store others w fun r => r.nonce = nonce
  | .clear => deleteWhere store others w fun _ => true
  | .hwmRead => some (w, .mark (w.viewMark store))
  | .hwmBump generation =>
    if others.any (·.mark.isSome) then none
    else some ({ w with mark := some (max (w.viewMark store) generation) }, .affected 1)
  | .hwmSet generation =>
    -- A row that does not match the guard is not waited for.
    if generation < w.viewMark store then some (w, .affected 0)
    else if others.any (·.mark.isSome) then none
    else some ({ w with mark := some generation }, .affected 1)

def nonceCommit (store : NonceStore) (w : NonceWrites) : NonceStore where
  rows := w.view store
  mark := w.viewMark store

/-- READ COMMITTED, with row locks. -/
def nonceEngine : Engine NonceStmt NonceReply NonceStore NonceWrites where
  fresh := {}
  exec := nonceExec
  failed := .failed
  commit := nonceCommit

/-! ## Operations -/

inductive NonceAnswer where
  | ok
  | notFound
  | mismatch
  | expired
  | rollback
  | invalid
  | saturated
  | storage
  | statusOk
  | statusInvalid
  | statusFailed
  | statusMark (generation : ℤ)
  | error
  deriving DecidableEq

abbrev NonceScript := Script NonceStmt NonceReply NonceAnswer

def nonceCap : ℕ := 128

def nonceTTL : ℤ := 15

def hexValue (c : UInt8) : UInt8 := if digit c then c - 48 else c - 87

def hexBytes : Cell → List UInt8
  | hi :: lo :: rest => (hexValue hi * 16 + hexValue lo) :: hexBytes rest
  | _ => []

def decodeNonce (field : Cell) : Option (List UInt8) :=
  if lowercaseHex field 64 64 then some (hexBytes field) else none

/-- `int64` addition. -/
def addInt64 (a b : ℤ) : ℤ := (a + b).bmod (2 ^ 64)

def commitWith (code : NonceAnswer) : NonceScript :=
  .commit fun
    | true => .answer code
    | false => .answer .storage

def nonceIssue (f : Vector Cell 8) : NonceScript :=
  match decodeNonce f[0], atoi64 f[7] with
  | some nonce, some now =>
    .exec .begin_ fun
    | .failed => .answer .storage
    | _ => .exec (.sweep now) fun
      | .failed => .answer .storage
      | _ => .exec .count fun
        | .count live =>
          if nonceCap ≤ live then commitWith .saturated
          else .exec (.insert ⟨nonce, ⟨f[1], f[2], f[3], f[4], f[5], f[6]⟩, addInt64 now nonceTTL⟩) fun
            | .failed => .answer .storage
            | _ => commitWith .ok
        | _ => .answer .storage
  | _, _ => .answer .invalid

/-- The request of a consume. -/
structure ConsumeRequest where
  nonce : List UInt8
  binding : NonceBinding
  now : ℤ
  generation : ℤ
  valid : ℤ

def consumeRequest (f : Vector Cell 10) : Option ConsumeRequest := do
  let nonce ← decodeNonce f[0]
  let now ← atoi64 f[7]
  let generation ← atoi64 f[8]
  let valid ← atoi64 f[9]
  some { nonce, binding := ⟨f[1], f[2], f[3], f[4], f[5], f[6]⟩, now, generation, valid }

/-- The transaction of `nonceConsume`. -/
def consumeNonce (r : ConsumeRequest) : NonceScript :=
  .exec .begin_ fun
  | .failed => .answer .storage
  | _ => .exec (.lookup r.nonce) fun
    | .noRows => commitWith .notFound
    | .row found => .exec (.delete r.nonce) fun
      | .affected 1 =>
        if found.binding ≠ r.binding then commitWith .mismatch
        else if found.expiresAt < 0 ∨ found.expiresAt < r.now then commitWith .expired
        else if r.valid = 0 then commitWith .invalid
        else .exec .hwmRead fun
          | .mark hwm =>
            if r.generation < hwm then commitWith .rollback
            else .exec (.hwmBump r.generation) fun
              | .affected 1 => commitWith .ok
              | _ => .answer .storage
          | _ => .answer .storage
      | _ => .answer .storage
    | _ => .answer .storage

def nonceConsume (f : Vector Cell 10) : NonceScript :=
  match consumeRequest f with
  | none => .answer .invalid
  | some r => consumeNonce r

/-- A statement in a transaction of its own, committed if it says so. -/
def singleStatement (stmt : NonceStmt) (accepts : NonceReply → Bool) : NonceScript :=
  .exec .begin_ fun
  | .failed => .answer .error
  | _ => .exec stmt fun
    | .failed => .answer .error
    | reply =>
      if accepts reply then
        .commit fun
          | true => .answer .statusOk
          | false => .answer .error
      else .answer .statusFailed

def nonceClear : NonceScript := singleStatement .clear fun _ => true

def hwmRead : NonceScript :=
  .exec .hwmRead fun
  | .mark generation => .answer (.statusMark generation)
  | _ => .answer .error

def hwmSet (f : Vector Cell 1) : NonceScript :=
  match atoi64 f[0] with
  | none => .answer .statusInvalid
  | some generation =>
    if generation < 0 then .answer .statusInvalid
    else singleStatement (.hwmSet generation) fun
      | .affected n => n = 1
      | _ => false

inductive NonceRequest where
  | clear
  | issue (f : Vector Cell 8)
  | consume (f : Vector Cell 10)
  | hwmRead
  | hwmSet (f : Vector Cell 1)

def nonceProgram : NonceRequest → NonceScript
  | .clear => nonceClear
  | .issue f => nonceIssue f
  | .consume f => nonceConsume f
  | .hwmRead => hwmRead
  | .hwmSet f => hwmSet f

/-! ## Runs -/

abbrev NonceState := Engine.State NonceRequest NonceStmt NonceReply NonceAnswer NonceStore NonceWrites

abbrev NonceEntry := Engine.Entry NonceRequest NonceAnswer NonceWrites

abbrev NonceAction := Engine.Action NonceRequest

/-- The state after actions, from the seeded schema. -/
def nonceRun (actions : List NonceAction) : Option NonceState := nonceEngine.run nonceProgram { store := {} } actions

end Families
