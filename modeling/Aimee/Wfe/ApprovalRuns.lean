-- SUMMARY: Over every run of the event log, approvals are neither forged nor lost while their strings survive the message, the detail and the cells.
import Mathlib.Data.List.Induction
import Aimee.Wfe.Approval

/-!
# Approvals over runs of the log

A message is read back as the fields it was made from only while these hold no separator and the message
fits its buffer; a detail is read back only while the hash needs no escape. Under these conditions a valid
row is one that an approval was asked for, and an approval that was recorded is found.
-/

namespace Wfe

open AuditWorm (hex32 length_hex32 hex32_plain)

variable {H : HashFn} {key : Block 32}

/-! ## The message -/

variable {c : ApprovalCall}

theorem call_of_message (hc : c.Legible) {wi gate hash actor ts : CString}
    (h : approvalMsg wi gate hash actor ts = c.message) : c = ⟨wi, gate, hash, actor⟩ := by
  have hfields : ∀ s ∈ [ascii "v1", c.workItemId.val, c.gate.val, c.contentHash.val, c.actor.val,
      (c.contentHash.truncate 39).val], bar ∉ s := by
    have hversion : bar ∉ ascii "v1" := by decide
    have hstamp : bar ∉ (c.contentHash.truncate 39).val := fun hm =>
      hc.bars c.contentHash (by simp) (List.mem_of_mem_take hm)
    simp only [List.forall_mem_cons]
    exact ⟨hversion, hc.bars _ (by simp), hc.bars _ (by simp), hc.bars _ (by simp), hc.bars _ (by simp), hstamp,
      List.forall_mem_nil _⟩
  have hshort : ([bar].intercalate [ascii "v1", c.workItemId.val, c.gate.val, c.contentHash.val, c.actor.val,
      (c.contentHash.truncate 39).val]).length < 2047 := by
    have hversion : (ascii "v1").length = 2 := by decide
    have hstamp : (c.contentHash.truncate 39).val.length ≤ 39 := List.length_take_le ..
    have hsum := hc.short
    simp only [List.intercalate_cons_cons, List.intercalate_singleton, List.length_append, List.length_cons,
      List.length_nil, hversion]
    omega
  rw [ApprovalCall.message, approvalMsg, approvalMsg, List.take_of_length_le hshort.le] at h
  -- What is cut to fit has the length of the buffer, which the message of a call stays below.
  have hwhole : [bar].intercalate [ascii "v1", wi.val, gate.val, hash.val, actor.val, ts.val] =
      [bar].intercalate [ascii "v1", c.workItemId.val, c.gate.val, c.contentHash.val, c.actor.val,
        (c.contentHash.truncate 39).val] := by
    rw [← h, eq_comm]
    refine List.take_of_length_le ?_
    have hlength := congrArg List.length h
    rw [List.length_take] at hlength
    omega
  have hsame := Wire.intercalate_inj (by simp) hfields hwhole
  simp only [List.cons.injEq, and_true, true_and] at hsame
  obtain ⟨hwi, hgate, hhash, hactor, -⟩ := hsame
  cases c
  simp only [ApprovalCall.mk.injEq]
  exact ⟨Subtype.ext hwi.symm, Subtype.ext hgate.symm, Subtype.ext hhash.symm, Subtype.ext hactor.symm⟩

/-! ## The row of an approval -/

/-- The row of a call. -/
def ApprovalCall.row (H : HashFn) (key : Block 32) (c : ApprovalCall) : LogRow :=
  approvalRow H key c.workItemId c.gate c.contentHash (some c.actor)

theorem approvalRow_eq (wi gate hash : CString) (actor : Option CString) :
    approvalRow H key wi gate hash actor =
      ApprovalCall.row H key ⟨wi, gate, hash, actor.getD (.ofAscii "user")⟩ := rfl

theorem detail_row (H : HashFn) (key : Block 32) (c : ApprovalCall) : (c.row H key).detail.val =
    123 :: (34 :: (CString.ofAscii "ts").val ++ 34 :: 58 :: 34 :: (c.contentHash.truncate 39).val ++ 34 :: 44 ::
      (34 :: (CString.ofAscii "sig").val ++ 34 :: 58 :: 34 :: (hex32 (hmacSha256 H key c.message)).val ++
        [34, 125])) := by
  have h₁ : (CString.ofAscii "\x7b\"ts\":\"").val = 123 :: 34 :: (CString.ofAscii "ts").val ++ [34, 58, 34] := by decide
  have h₂ : (CString.ofAscii "\",\"sig\":\"").val = 34 :: 44 :: 34 :: (CString.ofAscii "sig").val ++ [34, 58, 34] := by
    decide
  have h₃ : (CString.ofAscii "\"\x7d").val = [34, 125] := by decide
  have hts : (CString.ofAscii "ts").val.length = 2 := by decide
  have hsig : (CString.ofAscii "sig").val.length = 3 := by decide
  have hstamp : (c.contentHash.truncate 39).val.length ≤ 39 := List.length_take_le ..
  have hhex := length_hex32 (hmacSha256 H key c.message)
  have hpieces : (CString.concat [.ofAscii "\x7b\"ts\":\"", c.contentHash.truncate 39, .ofAscii "\",\"sig\":\"",
      hex32 (hmacSha256 H key c.message), .ofAscii "\"\x7d"]).val =
      123 :: (34 :: (CString.ofAscii "ts").val ++ 34 :: 58 :: 34 :: (c.contentHash.truncate 39).val ++ 34 :: 44 ::
      (34 :: (CString.ofAscii "sig").val ++ 34 :: 58 :: 34 :: (hex32 (hmacSha256 H key c.message)).val ++
        [34, 125])) := by
    simp [CString.concat, h₁, h₂, h₃]
  refine (congrArg Subtype.val (CString.truncate_of_length_le ?_)).trans hpieces
  refine (congrArg List.length hpieces).trans_le ?_
  simp only [List.length_cons, List.length_append, List.length_nil, hts, hsig, hhex]
  omega

theorem stamp_row (hc : ∀ b ∈ c.contentHash.val.take 39, CJson.Plain b) :
    (c.row H key).stamp? = some (c.contentHash.truncate 39, hex32 (hmacSha256 H key c.message)) := by
  have hplain : ∀ b ∈ (CString.ofAscii "ts").val ++ (CString.ofAscii "sig").val, CJson.Plain b :=
    CJson.plain_of_all (by decide)
  have hparse := CJson.parse_two_plain_members (fun b hb => hplain b (List.mem_append_left _ hb)) hc
    (fun b hb => hplain b (List.mem_append_right _ hb)) (fun b hb => hex32_plain hb) (detail_row H key c)
  have hne : CString.ofAscii "ts" ≠ .ofAscii "sig" := by decide
  rw [LogRow.stamp?, hparse]
  simp [CJson.getObjectItemCaseSensitive, CJson.stringValue?, hne]

theorem valid_row (H : HashFn) (key : Block 32) (hc : c.Legible) : (c.row H key).valid H (some key) = true := by
  rw [LogRow.valid, stamp_row hc.plain]
  simp [approvalVerify, approvalSign, length_hex32, ApprovalCall.row, approvalRow, ApprovalCall.message]

section

variable (hc : c.gate.val.length < 64 ∧ c.actor.val.length < 64 ∧ c.contentHash.val.length < 72)
include hc

theorem fits_row :
    (c.row H key).fits = true := by
  have hts : (CString.ofAscii "ts").val.length = 2 := by decide
  have hsig : (CString.ofAscii "sig").val.length = 3 := by decide
  have hkind : approveKind.val.length = 7 := by decide
  have hstamp : (c.contentHash.truncate 39).val.length ≤ 39 := List.length_take_le ..
  have hdetail : (c.row H key).detail.val.length < 512 := by
    rw [detail_row]
    simp only [List.length_cons, List.length_append, List.length_nil, hts, hsig, length_hex32]
    omega
  obtain ⟨hgate, hactor, hhash⟩ := hc
  simp only [LogRow.fits, Bool.and_eq_true, decide_eq_true_eq]
  refine ⟨⟨⟨⟨hgate, ?_⟩, hactor⟩, hdetail⟩, hhash⟩
  rw [show (c.row H key).kind = approveKind from rfl]
  omega

theorem fits_copy {hash actor : CString} (hactor : actor.val.length < 64)
    (hhash : hash.val.length < 72) : LogRow.fits { c.row H key with contentHash := hash, actor := actor } = true := by
  have hfits : (c.row H key).fits = true := fits_row hc
  simp only [LogRow.fits, Bool.and_eq_true, decide_eq_true_eq] at hfits ⊢
  obtain ⟨⟨⟨⟨hstage, hkind⟩, -⟩, hdetail⟩, -⟩ := hfits
  exact ⟨⟨⟨⟨hstage, hkind⟩, hactor⟩, hdetail⟩, hhash⟩

end

/-! ## Rows of a run -/

/-- The message of a row, with the time stamp it carries. -/
def LogRow.message (row : LogRow) (ts : CString) : List UInt8 :=
  approvalMsg row.workItemId row.stage row.contentHash row.actor ts

/-- A row that fits its cells, and whose signature, if it is valid, was made for a call. -/
structure Vouched (H : HashFn) (key : Block 32) (calls : List ApprovalCall) (row : LogRow) : Prop where
  fits : row.fits = true
  signed : ∀ ts sig, row.stamp? = some (ts, sig) → hex32 (hmacSha256 H key (row.message ts)) = sig →
    ∃ c ∈ calls, row.message ts = c.message

variable {row : LogRow}

theorem Vouched.mono {calls calls' : List ApprovalCall} (h : Vouched H key calls row)
    (hsub : calls ⊆ calls') : Vouched H key calls' row := by
  refine ⟨h.fits, fun ts sig hstamp hsig => ?_⟩
  obtain ⟨c, hc, hmessage⟩ := h.signed ts sig hstamp hsig
  exact ⟨c, hsub hc, hmessage⟩

theorem vouched_row {calls : List ApprovalCall} (hc : c.Legible) (hmem : c ∈ calls) :
    Vouched H key calls (c.row H key) := by
  refine ⟨fits_row hc.cells, fun ts sig hstamp hsig => ⟨c, hmem, ?_⟩⟩
  rw [stamp_row hc.plain, Option.some.injEq, Prod.mk.injEq] at hstamp
  rw [← hstamp.1]
  rfl

theorem logRun_snoc (steps : List LogStep) (e : LogStep) :
    logRun H key (steps ++ [e]) = LogStep.apply H key (logRun H key steps) e := by
  rw [logRun, logRun, List.foldl_append, List.foldl_cons, List.foldl_nil]

theorem approvalCalls_append (steps more : List LogStep) :
    approvalCalls (steps ++ more) = approvalCalls steps ++ approvalCalls more :=
  List.filterMap_append ..

variable {before : List LogStep}

section Run

variable {steps : List LogStep}

theorem vouched_of_mem (hforged : Unforged H key steps) (hlegible : Legible H key steps)
    (hbefore : before <+: steps) (hrow : row ∈ logRun H key before) :
    Vouched H key (approvalCalls before) row := by
  induction before using List.reverseRecOn generalizing row with
  | nil => cases hrow
  | append_singleton before e ih =>
    have hearlier : before <+: steps := (List.prefix_append before [e]).trans hbefore
    have hsub : approvalCalls before ⊆ approvalCalls (before ++ [e]) := by
      rw [approvalCalls_append]
      exact List.subset_append_left ..
    rw [logRun_snoc] at hrow
    cases e with
    | record wi gate hash actor stored =>
      have hcall : (⟨wi, gate, hash, actor.getD (.ofAscii "user")⟩ : ApprovalCall) ∈
          approvalCalls (before ++ [.record wi gate hash actor stored]) := by
        rw [approvalCalls_append]
        exact List.mem_append_right _ List.mem_cons_self
      have hlegal := hlegible.calls _ (((List.IsPrefix.filterMap LogStep.call? hbefore).subset) hcall)
      simp only [LogStep.apply, approvalRecord] at hrow
      split at hrow
      · rcases List.mem_append.mp hrow with hold | hnew
        · exact (ih hearlier hold).mono hsub
        · rw [List.mem_singleton.mp hnew]
          exact vouched_row hlegal hcall
      · exact (ih hearlier hrow).mono hsub
    | append row' =>
      rcases List.mem_append.mp hrow with hold | hnew
      · exact (ih hearlier hold).mono hsub
      · rw [List.mem_singleton.mp hnew]
        refine Vouched.mono ⟨hlegible.rows row' ?_, fun ts sig => ?_⟩ hsub
        · exact hbefore.subset (List.mem_append_right _ List.mem_cons_self)
        · exact hforged before row' hbefore ts sig
    | delete keep => exact (ih hearlier (List.mem_filter.mp hrow).1).mono hsub

/-- The rows of a work item are read back whole. -/
theorem lifecycleEventList_eq (hforged : Unforged H key steps) (hlegible : Legible H key steps)
    (hbefore : before <+: steps) {wi : CString} (hwi : wi ≠ CString.empty) :
    lifecycleEventList (logRun H key before) wi = some ((logRun H key before).filter (·.workItemId = wi)) := by
  have hall : ((logRun H key before).filter (·.workItemId = wi)).all (·.fits) = true := by
    rw [List.all_eq_true]
    intro row hrow
    exact (vouched_of_mem hforged hlegible hbefore (List.mem_filter.mp hrow).1).fits
  unfold lifecycleEventList
  rw [List.take_of_length_le (hlegible.few before hbefore wi), if_pos ⟨hwi, hall⟩]

theorem call_of_valid (hforged : Unforged H key steps) (hlegible : Legible H key steps)
    (hbefore : before <+: steps) (hrow : row ∈ logRun H key before)
    (hvalid : row.valid H (some key) = true) :
    ⟨row.workItemId, row.stage, row.contentHash, row.actor⟩ ∈ approvalCalls before := by
  rw [LogRow.valid, Option.any_eq_true] at hvalid
  obtain ⟨⟨ts, sig⟩, hstamp, hverify⟩ := hvalid
  simp only [approvalVerify, approvalSign, Option.map_some, Bool.and_eq_true, decide_eq_true_eq] at hverify
  obtain ⟨c, hc, hmessage⟩ := (vouched_of_mem hforged hlegible hbefore hrow).signed ts sig hstamp hverify.2
  have hlegal := hlegible.calls c ((List.IsPrefix.filterMap LogStep.call? hbefore).subset hc)
  rw [← call_of_message hlegal hmessage]
  exact hc

/-- Approvals hold in every run whose strings stay legible. -/
theorem approvalsHold (hforged : Unforged H key steps) (hlegible : Legible H key steps) :
    ApprovalsHold H key steps := by
  constructor
  · intro before hbefore wi gate hash hpresent
    unfold approvalPresent lifecycleEventList at hpresent
    dsimp only at hpresent
    split at hpresent
    · cases hpresent
    · next rows hrows =>
      split at hrows
      · cases hrows
        rw [List.any_eq_true] at hpresent
        obtain ⟨row, hmem, hmatch⟩ := hpresent
        simp only [Bool.and_eq_true, decide_eq_true_eq] at hmatch
        obtain ⟨⟨⟨hkind, hstage⟩, hhash⟩, hvalid⟩ := hmatch
        obtain ⟨hrow, hwi⟩ := List.mem_filter.mp (List.mem_of_mem_take hmem)
        have hwi := of_decide_eq_true hwi
        have hcall := call_of_valid hforged hlegible hbefore hrow hvalid
        rw [hwi, hstage, hhash] at hcall
        exact ⟨row, hrow, hwi, hstage, hhash, hkind, hvalid, _, hcall, rfl⟩
      · cases hrows
  · intro before hbefore wi gate hash actor hstep hwi hrow
    have hcall : ⟨wi, gate, hash, actor.getD (.ofAscii "user")⟩ ∈ approvalCalls steps :=
      List.mem_filterMap.mpr ⟨_, hbefore.subset hstep, rfl⟩
    unfold approvalPresent
    rw [lifecycleEventList_eq hforged hlegible hbefore hwi]
    refine List.any_eq_true.mpr ⟨_, List.mem_filter.mpr ⟨hrow, decide_eq_true rfl⟩, ?_⟩
    have hvalid := valid_row H key (hlegible.calls _ hcall)
    rw [← approvalRow_eq] at hvalid
    simp only [Bool.and_eq_true, decide_eq_true_eq]
    exact ⟨⟨⟨rfl, rfl⟩, rfl⟩, hvalid⟩

end Run

theorem length_logRun_le (H : HashFn) (key : Block 32) (steps : List LogStep) :
    (logRun H key steps).length ≤ steps.length := by
  induction steps using List.reverseRecOn with
  | nil => exact Nat.le_refl 0
  | append_singleton steps e ih =>
    rw [logRun_snoc, List.length_append, List.length_singleton]
    cases e with
    | record wi gate hash actor stored =>
      simp only [LogStep.apply, approvalRecord]
      split
      · rw [List.length_append, List.length_singleton]
        omega
      · exact ih.trans (Nat.le_succ _)
    | append row =>
      rw [LogStep.apply, List.length_append, List.length_singleton]
      omega
    | delete keep =>
      have hle : ((logRun H key steps).filter keep).length ≤ _ := List.length_filter_le ..
      rw [LogStep.apply]
      omega

/-! ## An approval that is found, and one that is transferred -/

def operatorKey : Block 32 := ⟨List.replicate 32 7, rfl⟩

def approvedCall : ApprovalCall := ⟨.ofAscii "wi_1", .ofAscii "review", .ofAscii "9f3c", .ofAscii "alice"⟩

/-- The row of the approval, copied for another content. -/
def copiedRow : LogRow := { approvedCall.row sha256 operatorKey with contentHash := .ofAscii "b7e1" }

/-- One approval, as an operator gives it, and a copy of its row. -/
def approvedSteps : List LogStep :=
  [.record approvedCall.workItemId approvedCall.gate approvedCall.contentHash (some approvedCall.actor) true,
    .append copiedRow]

theorem unforged_approvedSteps : Unforged sha256 operatorKey approvedSteps := by
  rintro before row ⟨after, hsteps⟩ ts sig hstamp hsig
  have hmem : LogStep.append row ∈ approvedSteps := by
    rw [← hsteps]
    simp
  obtain rfl : row = copiedRow := by simpa [approvedSteps] using hmem
  have hstamp' : copiedRow.stamp? = _ := stamp_row (c := approvedCall) (CJson.plain_of_all (by decide))
  rw [hstamp', Option.some.injEq, Prod.mk.injEq] at hstamp
  obtain ⟨rfl, rfl⟩ := hstamp
  exact absurd hsig (by decide +kernel)

theorem legible_approvedSteps : Legible sha256 operatorKey approvedSteps := by
  refine ⟨fun c hc => ?_, fun row hrow => ?_, fun before hbefore wi => ?_⟩
  · obtain rfl : c = approvedCall := List.mem_singleton.mp hc
    exact ⟨by decide, CJson.plain_of_all (by decide), by decide, by decide⟩
  · obtain rfl : row = copiedRow := by simpa [approvedSteps] using hrow
    exact fits_copy (by decide) (by decide) (by decide)
  · have hrows := length_logRun_le sha256 operatorKey before
    have hsteps : before.length ≤ 2 := hbefore.length_le
    exact (List.length_filter_le ..).trans (by omega)

/-- The approval is found, and the copy of its row approves nothing. -/
theorem approved_present :
    approvalPresent sha256 (some operatorKey) (logRun sha256 operatorKey approvedSteps) (.ofAscii "wi_1")
      (.ofAscii "review") (.ofAscii "9f3c") = true ∧
    approvalPresent sha256 (some operatorKey) (logRun sha256 operatorKey approvedSteps) (.ofAscii "wi_1")
      (.ofAscii "review") (.ofAscii "b7e1") = false := by
  have hold := approvalsHold unforged_approvedSteps legible_approvedSteps
  constructor
  · exact hold.complete approvedSteps (List.prefix_refl _) _ _ _ _ List.mem_cons_self (by decide) List.mem_cons_self
  · refine Bool.eq_false_iff.mpr fun hpresent => ?_
    obtain ⟨row, -, -, -, -, -, -, c, hc, rfl⟩ := hold.genuine approvedSteps (List.prefix_refl _) _ _ _ hpresent
    have hhash : CString.ofAscii "b7e1" = .ofAscii "9f3c" :=
      congrArg ApprovalCall.contentHash (List.mem_singleton.mp hc)
    exact absurd hhash (by decide)

/-- An approval by an actor whose name holds a separator. -/
def dividedCall : ApprovalCall := ⟨.ofAscii "wi_1", .ofAscii "review", .ofAscii "9f3c", .ofAscii "alice|ops"⟩

/-- The row of the approval, with the separator read at another place. -/
def transferredRow : LogRow :=
  { dividedCall.row sha256 operatorKey with contentHash := .ofAscii "9f3c|alice", actor := .ofAscii "ops" }

def transferredSteps : List LogStep :=
  [.record dividedCall.workItemId dividedCall.gate dividedCall.contentHash (some dividedCall.actor) true,
    .append transferredRow]

theorem message_transferredRow :
    transferredRow.message (dividedCall.contentHash.truncate 39) = dividedCall.message := by
  decide

theorem stamp_transferredRow : transferredRow.stamp? =
    some (dividedCall.contentHash.truncate 39, hex32 (hmacSha256 sha256 operatorKey dividedCall.message)) := by
  exact stamp_row (c := dividedCall) (CJson.plain_of_all (by decide))

theorem valid_transferredRow : transferredRow.valid sha256 (some operatorKey) = true := by
  have hmessage : approvalMsg transferredRow.workItemId transferredRow.stage transferredRow.contentHash
      transferredRow.actor (dividedCall.contentHash.truncate 39) = dividedCall.message := message_transferredRow
  rw [LogRow.valid, stamp_transferredRow]
  simp [approvalVerify, approvalSign, hmessage, length_hex32]

/-- The approval of one content is found for another, which nobody asked for. -/
theorem transferred_present :
    Unforged sha256 operatorKey transferredSteps ∧ ¬ApprovalsHold sha256 operatorKey transferredSteps := by
  have hcalls : approvalCalls transferredSteps = [dividedCall] := rfl
  constructor
  · intro before row hbefore ts sig hstamp hsig
    -- The only row that is appended comes after the call.
    obtain ⟨after, hsteps⟩ := hbefore
    cases before with
    | nil => cases hsteps
    | cons e rest =>
      cases rest with
      | nil =>
        cases hsteps
        rw [stamp_transferredRow, Option.some.injEq, Prod.mk.injEq] at hstamp
        rw [← hstamp.1]
        exact ⟨dividedCall, List.mem_cons_self, message_transferredRow⟩
      | cons e' rest =>
        have hlength := congrArg List.length hsteps
        simp [transferredSteps] at hlength
  · intro h
    have hfits : (dividedCall.row sha256 operatorKey).fits = true := fits_row (by decide)
    have hfits' : transferredRow.fits = true := fits_copy (by decide) (by decide) (by decide)
    have hlist : lifecycleEventList (logRun sha256 operatorKey transferredSteps) (.ofAscii "wi_1") =
        some [dividedCall.row sha256 operatorKey, transferredRow] := by
      have hrows : ((logRun sha256 operatorKey transferredSteps).filter (·.workItemId = .ofAscii "wi_1")).take 512 =
          [dividedCall.row sha256 operatorKey, transferredRow] := rfl
      unfold lifecycleEventList
      dsimp only
      rw [hrows, if_pos]
      exact ⟨by decide, by simp [hfits, hfits']⟩
    have hpresent : approvalPresent sha256 (some operatorKey) (logRun sha256 operatorKey transferredSteps)
        (.ofAscii "wi_1") (.ofAscii "review") (.ofAscii "9f3c|alice") = true := by
      unfold approvalPresent
      rw [hlist]
      refine List.any_eq_true.mpr ⟨transferredRow, by simp, ?_⟩
      simp only [Bool.and_eq_true, decide_eq_true_eq]
      exact ⟨⟨⟨rfl, rfl⟩, rfl⟩, valid_transferredRow⟩
    obtain ⟨row, -, -, -, -, -, -, c, hc, rfl⟩ := h.genuine transferredSteps (List.prefix_refl _) _ _ _ hpresent
    rw [hcalls, List.mem_singleton] at hc
    have hhash : CString.ofAscii "9f3c|alice" = .ofAscii "9f3c" := congrArg ApprovalCall.contentHash hc
    exact absurd hhash (by decide)

end Wfe
