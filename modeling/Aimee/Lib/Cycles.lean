-- SUMMARY: Sequences of messages that make calls and carry results: every call answered once before its run ends.
import Mathlib.Data.List.Infix
import Mathlib.Data.List.Perm.Subperm

/-!
# Cycles of calls and results

A message may make calls and may carry results. A call is open in the run of result-carrying
messages directly after it. A sequence is settled when every result answers an open call and every
call is answered exactly once before its run ends.
-/

namespace Cycles

variable {α β : Type*} (calls results : α → List β)

variable {calls results}

section Settling

variable [BEq β]

variable (calls results) in
/-- The calls that are open after a message: one without results ends every run. -/
def openAfter (opened : List β) (m : α) : List β :=
  (if results m = [] then [] else opened.diff (results m)) ++ calls m

variable (calls results) in
/-- Every call is answered exactly once, with nothing but messages with results in between, and
    every result answers an open call. -/
def Settled : List β → List α → Prop
  | opened, [] => opened = []
  | opened, m :: ms =>
    (results m = [] → opened = []) ∧ (results m).Subperm opened ∧ (openAfter calls results opened m).Nodup ∧
      Settled (openAfter calls results opened m) ms

/-- Answering every open call, one message for each, closes the run. -/
theorem settled_replies [LawfulBEq β] {reply : β → α} (hcalls : ∀ t, calls (reply t) = [])
    (hresults : ∀ t, results (reply t) = [t]) {opened : List β} (hnodup : opened.Nodup) {ms : List α} :
    Settled calls results opened (opened.map reply ++ ms) ↔ Settled calls results [] ms := by
  induction opened with
  | nil => rfl
  | cons t opened ih =>
    have hafter : openAfter calls results (t :: opened) (reply t) = opened := by
      rw [openAfter, hcalls, hresults, if_neg (List.cons_ne_nil _ _), List.append_nil, List.diff_cons,
        List.erase_cons_head, List.diff_nil]
    rw [List.map_cons, List.cons_append, Settled, hafter, hresults]
    constructor
    · rintro ⟨-, -, -, hrest⟩
      exact (ih hnodup.of_cons).mp hrest
    · intro hrest
      exact ⟨nofun, List.singleton_subperm_iff.mpr List.mem_cons_self, hnodup.of_cons,
        (ih hnodup.of_cons).mpr hrest⟩

end Settling

end Cycles
