-- SUMMARY: Scoped knowledge epochs: the slot table, its lookups and advances, and the freshness of a basis.
import Aimee.Lib.Bytes

/-!
# Scoped knowledge epochs

The knowledge half of `turn_integrity.c`. The table has a fixed number of slots and the
name fields of a slot are buffers of a fixed size, while the calls take strings of any
length. A call holds the registry lock for its whole effect on the table, so it is one
step from table to table.

Turn manifests, effect contracts and the session registry do not touch the table and are
left out.
-/

namespace TurnIntegrity

/-! ## Buffers -/

/-- `TI_DOMAIN_MAX`, `TI_SCOPE_MAX`, `TI_EVENT_MAX`, `TI_ID_MAX`, `TI_PRINCIPAL_MAX`,
    `TI_DETAIL_MAX` and `TI_KNOWLEDGE_SLOTS`. -/
abbrev domainMax : Nat := 48
abbrev scopeMax : Nat := 128
abbrev eventMax : Nat := 48
abbrev idMax : Nat := 128
abbrev principalMax : Nat := 128
abbrev detailMax : Nat := 384
abbrev knowledgeSlots : Nat := 256

instance domainMax_neZero : NeZero domainMax := ⟨by decide⟩
instance scopeMax_neZero : NeZero scopeMax := ⟨by decide⟩

/-- A `char[cap]` that holds a string. -/
abbrev CBuffer (cap : Nat) := { s : CString // s.val.length < cap }

def copyBounded {cap : Nat} [NeZero cap] (src : Option CString) : CBuffer cap :=
  ⟨(src.getD .empty).truncate (cap - 1), by
    have hcap : 0 < cap := NeZero.pos cap
    simp only [CString.truncate, List.length_take]
    omega⟩

/-! ## The table -/

structure KnowledgeSlot where
  domain : CBuffer domainMax
  scopeId : CBuffer scopeMax
  epoch : UInt64
  inUse : Bool
  deriving DecidableEq

/-- A slot of zero bytes. -/
def KnowledgeSlot.zero : KnowledgeSlot where
  domain := copyBounded none
  scopeId := copyBounded none
  epoch := 0
  inUse := false

/-- `g_knowledge`. -/
abbrev Registry := { slots : List KnowledgeSlot // slots.length = knowledgeSlots }

def Registry.initial : Registry := ⟨List.replicate knowledgeSlots .zero, by simp⟩

def Registry.set (slots : Registry) (i : Nat) (slot : KnowledgeSlot) : Registry :=
  ⟨slots.val.set i slot, by rw [List.length_set, slots.property]⟩

/-- The slot is in use under exactly these names. -/
def KnowledgeSlot.named (domain scopeId : CString) (slot : KnowledgeSlot) : Bool :=
  slot.inUse ∧ slot.domain.val = domain ∧ slot.scopeId.val = scopeId

/-- `knowledge_find_locked`. The names are compared in full and stored cut to the size of
    the buffers. -/
def knowledgeFindLocked (domain scopeId : CString) (create : Bool) (slots : Registry) :
    Option (Nat × KnowledgeSlot) × Registry :=
  match slots.val.findIdx? (·.named domain scopeId) with
  | some i => (slots.val[i]?.map fun slot => (i, slot), slots)
  | none =>
    if ¬ create then (none, slots)
    else
      match slots.val.findIdx? (¬ ·.inUse) with
      | none => (none, slots)
      | some i =>
        let slot : KnowledgeSlot :=
          { domain := copyBounded (some domain), scopeId := copyBounded (some scopeId),
            epoch := 0, inUse := true }
        (some (i, slot), slots.set i slot)

/-- A pointer to a string that is not empty. -/
def present? (s : Option CString) : Option CString := s.filter (· ≠ .empty)

/-- `ti_knowledge_epoch_current`. -/
def knowledgeEpochCurrent (domain scopeId : Option CString) (slots : Registry) : UInt64 :=
  match present? domain, present? scopeId with
  | some domain, some scopeId =>
    match (knowledgeFindLocked domain scopeId false slots).1 with
    | some (_, slot) => slot.epoch
    | none => 0
  | _, _ => 0

/-- `ti_turn_state_t`. -/
inductive TurnState where
  | received | contextualized | contracted | authorized | executing | verifying | reviewing
  | completed | blocked | failed | cancelled
  deriving DecidableEq

/-- `ti_event_t`. -/
structure Event where
  event : CBuffer eventMax
  turnId : CBuffer idMax
  sessionId : CBuffer idMax
  principal : CBuffer principalMax
  detail : CBuffer detailMax
  state : TurnState
  sequence : UInt64

/-- The event of an advance: `knowledge.invalidated`. -/
def invalidated (domain scopeId : CString) (reason : Option CString) (epoch : UInt64) : Event where
  event := copyBounded (some (.ofAscii "knowledge.invalidated"))
  turnId := copyBounded (some scopeId)
  sessionId := copyBounded (some domain)
  principal := copyBounded none
  detail := copyBounded reason
  state := .received
  sequence := epoch

/-- What an advance returns, hands to a registered callback, and leaves in the table. -/
structure Advanced where
  epoch : UInt64
  event : Option Event
  slots : Registry

/-- `ti_knowledge_epoch_advance`. -/
def knowledgeEpochAdvance (domain scopeId reason : Option CString) (slots : Registry) : Advanced :=
  match present? domain, present? scopeId with
  | some domain, some scopeId =>
    match knowledgeFindLocked domain scopeId true slots with
    | (some (i, slot), slots') =>
      let epoch := slot.epoch + 1
      { epoch := epoch
        event := if epoch ≠ 0 then some (invalidated domain scopeId reason epoch) else none
        slots := slots'.set i { slot with epoch := epoch } }
    | (none, slots') => { epoch := 0, event := none, slots := slots' }
  | _, _ => { epoch := 0, event := none, slots := slots }

/-! ## Freshness -/

/-- `ti_freshness_t`. -/
inductive Freshness where
  | unknown | current | stale
  deriving DecidableEq

/-- `ti_knowledge_basis_t`. -/
structure KnowledgeBasis where
  domain : CBuffer domainMax
  scopeId : CBuffer scopeMax
  epoch : UInt64

/-- `ti_knowledge_basis_freshness`. -/
def knowledgeBasisFreshness (basis : KnowledgeBasis) (slots : Registry) : Freshness :=
  if basis.domain.val = .empty ∨ basis.scopeId.val = .empty then .unknown
  else if knowledgeEpochCurrent (some basis.domain.val) (some basis.scopeId.val) slots = basis.epoch
  then .current
  else .stale

/-- A basis that records the names and the epoch they have now. -/
def recordBasis (domain scopeId : CString) (slots : Registry) : KnowledgeBasis where
  domain := copyBounded (some domain)
  scopeId := copyBounded (some scopeId)
  epoch := knowledgeEpochCurrent (some domain) (some scopeId) slots

end TurnIntegrity
