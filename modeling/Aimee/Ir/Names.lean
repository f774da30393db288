-- SUMMARY: Members that spell their field exactly: what the typed decoding reads is what a lookup by name finds.
import Aimee.Ir.Messages
import Aimee.Lib.TableRewrite

/-!
# Member names

The typed decoder takes a member by its name up to letter case, a reader of the tree by the exact
name. Where the names that fold to a field are the field's own, the two read the same value.
-/

namespace Ir

open Economizer

/-! ## One field along a decoding -/

variable {value old : JsonValue} {name : Text}

section Members

variable {S γ : Type} {fields : List String} {assign : S → String → JsonValue → Option S} {s s' : S}
  {members : List (Text × JsonValue)} {p : S → γ} {f : String}

theorem decodeMembers_step (hfield : fieldOf fields name = some f)
    (hassign : assign s f value = some s') :
    decodeMembers fields assign s ((name, value) :: members) = decodeMembers fields assign s' members := by
  rw [decodeMembers, List.foldlM_cons, hfield, Option.bind_some, hassign]
  rfl

end Members

/-! ## Unique names -/

variable {depth : ℕ} {items : List JsonValue} {names : List Text} {α β : Type}

theorem validJson_of_mem (h : validItems depth items = true)
    {item : JsonValue} (hitem : item ∈ items) : validJson depth item = true := by
  induction items with
  | nil => cases hitem
  | cons head items ih =>
    simp only [validItems, Bool.and_eq_true] at h
    rcases List.mem_cons.mp hitem with rfl | hitem
    · exact h.1
    · exact ih h.2 hitem

theorem validJson_of_lookup {members : List (Text × JsonValue)}
    (h : validMembers depth names members = true)
    (hlookup : members.lookup name = some value) : validJson depth value = true := by
  induction members generalizing names with
  | nil => cases hlookup
  | cons e members ih =>
    simp only [validMembers, Bool.and_eq_true] at h
    rw [List.lookup_cons] at hlookup
    split at hlookup
    · cases hlookup
      exact h.1.2
    · exact ih h.2 hlookup

theorem validMembers_setMember {members : List (Text × JsonValue)}
    (h : validMembers depth names members = true)
    (hlookup : members.lookup name = some old) (hvalue : validJson depth value = true) :
    validMembers depth names (JsonValue.setMember name value members) = true := by
  induction members generalizing names with
  | nil => cases hlookup
  | cons e members ih =>
    simp only [validMembers, Bool.and_eq_true] at h
    rw [JsonValue.setMember]
    split
    · rw [validMembers, h.1.1.1, h.1.1.2, hvalue, h.2]
      rfl
    · next hk =>
      rw [List.lookup_cons, beq_false_of_ne (Ne.symm hk)] at hlookup
      rw [validMembers, h.1.1.1, h.1.1.2, h.1.2, ih h.2 hlookup]
      rfl

/-- A value that stays well formed with another member in place. -/
theorem validJson_set {v : JsonValue} {key : String} (h : validJson depth v = true)
    (hget : v.get key = some old) (hvalue : validJson (depth + 1) value = true) :
    validJson depth (v.set key value) = true := by
  cases v with
  | object members =>
    rw [validJson, Bool.and_eq_true] at h
    rw [JsonValue.set, validJson, h.1]
    exact validMembers_setMember h.2 hget hvalue
  | _ => cases hget

/-! ## Blocks -/

theorem fieldOf_type : fieldOf blockFields (utf8 "type") = some "type" := by decide

theorem fieldOf_content : fieldOf blockFields (utf8 "content") = some "content" := by decide

/-! ## Messages -/

theorem fieldOf_role : fieldOf messageFields (utf8 "role") = some "role" := by decide

theorem fieldOf_blocks : fieldOf messageFields (utf8 "blocks") = some "blocks" := by decide

/-! ## One message at a time -/

/-- What `DecodeMessages` asks of one message. -/
def admissible (m : JsonValue) : Bool := validJson 1 m && (decodeMessage m).any (·.valid)

theorem validItems_iff :
    validItems depth items = true ↔ ∀ item ∈ items, validJson depth item = true := by
  induction items with
  | nil => exact iff_of_true rfl (List.forall_mem_nil _)
  | cons item items ih => rw [validItems, Bool.and_eq_true, ih, List.forall_mem_cons]

theorem exists_forall₂_iff {f : α → Option β} {p : β → Bool} {items : List α} :
    (∃ values, List.Forall₂ (fun item value => f item = some value) items values ∧ values.all p = true) ↔
      ∀ item ∈ items, (f item).any p = true := by
  induction items with
  | nil => exact iff_of_true ⟨[], .nil, rfl⟩ (List.forall_mem_nil _)
  | cons item items ih =>
    rw [List.forall_mem_cons, ← ih, Option.any_eq_true]
    constructor
    · rintro ⟨_, _ | ⟨hvalue, hvalues⟩, hall⟩
      rw [List.all_cons, Bool.and_eq_true] at hall
      exact ⟨⟨_, hvalue, hall.1⟩, _, hvalues, hall.2⟩
    · rintro ⟨⟨value, hvalue, hp⟩, values, hvalues, hall⟩
      exact ⟨value :: values, .cons hvalue hvalues, by rw [List.all_cons, hp, hall]; rfl⟩

/-- The decoder accepts an array when it accepts each message and there are not too many. -/
theorem decodeMessages_isSome_iff :
    (decodeMessages (.array items)).isSome = true ↔
      items.length ≤ maxMessages ∧ ∀ m ∈ items, admissible m = true := by
  have htree : validJson 0 (.array items) = validItems 1 items := by
    exact Bool.true_and _
  have hadmissible : (∀ m ∈ items, admissible m = true) ↔
      validItems 1 items = true ∧ ∀ m ∈ items, (decodeMessage m).any (·.valid) = true := by
    rw [validItems_iff, ← forall₂_and]
    exact forall₂_congr fun m _ => Bool.and_eq_true_iff
  rw [decodeMessages, htree, hadmissible, ← exists_forall₂_iff]
  cases hvalid : validItems 1 items with
  | false => exact iff_of_false nofun fun h => nomatch h.2.1
  | true =>
    change ((items.mapM decodeMessage).bind fun messages =>
      if messages.length ≤ maxMessages ∧ messages.all (·.valid) = true then some messages
        else none).isSome = true ↔ _
    constructor
    · intro hsome
      obtain ⟨messages, hsome⟩ := Option.isSome_iff_exists.mp hsome
      obtain ⟨decoded, hdecode, hsome⟩ := Option.bind_eq_some_iff.mp hsome
      have hpairs := List.mapM_eq_some_iff_forall₂.mp hdecode
      split at hsome
      · next hchecks => exact ⟨hpairs.length_eq ▸ hchecks.1, rfl, decoded, hpairs, hchecks.2⟩
      · cases hsome
    · rintro ⟨hlen, -, decoded, hpairs, hall⟩
      rw [List.mapM_eq_some_iff_forall₂.mpr hpairs, Option.bind_some, if_pos ⟨hpairs.length_eq ▸ hlen, hall⟩]
      rfl

end Ir
