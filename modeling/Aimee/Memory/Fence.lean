-- SUMMARY: What each call of the memory owner does to the fence of an entry: its challenge, its answer, and its admission.
import Aimee.Memory.Accounting

/-!
# The source fence

An entry is released in three calls: a plan asks its owners, an answer set is checked against the
plan, and a receipt takes the admission. The fields that decide this are the fence of the entry.
-/

namespace SourceRelease

open GoText

variable {Ref : Type}

/-- The fields of an entry that decide its release. -/
structure Fence (Ref : Type) where
  sources : List Ref
  executionGrades : String
  binding : String
  pending : String
  admitted : String
  localDigest : String
  sharedDigest : String

def Entry.fence (e : Entry Ref) : Fence Ref where
  sources := e.sources
  executionGrades := e.executionGrades
  binding := e.binding
  pending := e.pending
  admitted := e.admitted
  localDigest := e.pendingLocalDigest
  sharedDigest := e.pendingSharedDigest

/-- The entries that are held were held before; one slot changed its fence. -/
structure Touches (slot : Slot) (f : Fence Ref → Fence Ref) (s s' : State Ref) : Prop where
  others : ∀ slot' e', slot' ≠ slot → s'.at? slot' = some e' → ∃ e, s.at? slot' = some e ∧ e'.fence = e.fence
  slot : ∀ e', s'.at? slot = some e' → ∃ e, s.at? slot = some e ∧ e'.fence = f e.fence

/-- The entries that are held were held before, with the fence they had. -/
def Quiet (s s' : State Ref) : Prop := ∀ slot e', s'.at? slot = some e' → ∃ e, s.at? slot = some e ∧ e'.fence = e.fence

/-- No receipt was added. -/
def NoReceipt (s s' : State Ref) : Prop := ∀ id, s.receipts.get? id = none → s'.receipts.get? id = none

theorem Quiet.refl (s : State Ref) : Quiet s s := fun _ e' h => ⟨e', h, rfl⟩

theorem Quiet.trans {s s' s'' : State Ref} (h : Quiet s s') (h' : Quiet s' s'') : Quiet s s'' := by
  intro slot e'' he''
  obtain ⟨e', he', hfence'⟩ := h' slot e'' he''
  obtain ⟨e, he, hfence⟩ := h slot e' he'
  exact ⟨e, he, hfence'.trans hfence⟩

variable {s s' : State Ref} {slot : Slot} {entry : Entry Ref} {draws : Draws} {args : Args} {now : Time}

theorem Quiet.touches (h : Quiet s s') (slot : Slot) : Touches slot id s s' where
  others slot' e' _ he' := h slot' e' he'
  slot e' he' := h slot e' he'

theorem Touches.quiet (h : Touches slot id s s') : Quiet s s' := by
  intro slot' e' he'
  by_cases hslot : slot' = slot
  · subst hslot
    exact h.slot e' he'
  · exact h.others slot' e' hslot he'

variable {g f : Fence Ref → Fence Ref}

theorem Touches.trans {s s' s'' : State Ref} (h : Touches slot f s s')
    (h' : Touches slot g s' s'') : Touches slot (g ∘ f) s s'' where
  others slot' e'' hslot he'' := by
    obtain ⟨e', he', hfence'⟩ := h'.others slot' e'' hslot he''
    obtain ⟨e, he, hfence⟩ := h.others slot' e' hslot he'
    exact ⟨e, he, hfence'.trans hfence⟩
  slot e'' he'' := by
    obtain ⟨e', he', hfence'⟩ := h'.slot e'' he''
    obtain ⟨e, he, hfence⟩ := h.slot e' he'
    exact ⟨e, he, by rw [hfence', hfence]; rfl⟩

theorem NoReceipt.refl (s : State Ref) : NoReceipt s s := fun _ h => h

theorem NoReceipt.trans {s s' s'' : State Ref} (h : NoReceipt s s') (h' : NoReceipt s' s'') : NoReceipt s s'' :=
  fun id hid => h' id (h id hid)

theorem State.at?_alter (s : State Ref) (slot slot' : Slot) (f : Entry Ref → Entry Ref) :
    (s.alter slot f).at? slot' = (s.at? slot').map fun e => if slot = slot' then f e else e := by
  cases slot with
  | entry ticket =>
    cases slot' with
    | entry ticket' =>
      change (s.entries.alter ticket f).get? ticket' = _
      rw [KeyMap.get?_alter]
      simp only [Slot.entry.injEq]
      rfl
    | fork ticket' =>
      change (s.forks.get? ticket').map Fork.entry = _
      simp [State.at?, Function.comp_def]
  | fork ticket =>
    cases slot' with
    | entry ticket' =>
      change s.entries.get? ticket' = _
      simp [State.at?]
    | fork ticket' =>
      change ((s.forks.alter ticket _).get? ticket').map Fork.entry = ((s.forks.get? ticket').map Fork.entry).map _
      rw [KeyMap.get?_alter, Option.map_map, Option.map_map]
      congr 1
      funext k
      by_cases hticket : ticket = ticket' <;> simp [hticket]

theorem touches_alter (s : State Ref) (slot : Slot) {g : Entry Ref → Entry Ref}
    (h : ∀ e, (g e).fence = f e.fence) : Touches slot f s (s.alter slot g) where
  others slot' e' hslot he' := by
    rw [State.at?_alter] at he'
    simp only [if_neg (Ne.symm hslot), Option.map_id'] at he'
    exact ⟨e', he', rfl⟩
  slot e' he' := by
    rw [State.at?_alter] at he'
    simp only [if_true] at he'
    obtain ⟨e, he, rfl⟩ := Option.map_eq_some_iff.mp he'
    exact ⟨e, he, h e⟩

theorem quiet_alter (s : State Ref) (slot : Slot) {g : Entry Ref → Entry Ref} (h : ∀ e, (g e).fence = e.fence) :
    Quiet s (s.alter slot g) :=
  (touches_alter s slot (f := id) h).quiet

theorem Quiet.of_same (hentries : s'.entries = s.entries) (hforks : s'.forks = s.forks) : Quiet s s' := by
  intro slot e' he'
  refine ⟨e', ?_, rfl⟩
  cases slot with
  | entry ticket =>
    change s'.entries.get? ticket = _ at he'
    rwa [hentries] at he'
  | fork ticket =>
    change (s'.forks.get? ticket).map _ = _ at he'
    rwa [hforks] at he'

/-! ## Calls that leave the fences alone -/

theorem quiet_expire (P : Platform Ref) (s : State Ref) (now : Time) : Quiet s (expire P s now) := by
  intro slot e' he'
  refine ⟨e', ?_, rfl⟩
  cases slot with
  | entry ticket =>
    change (live Entry.expires now s.entries).get? ticket = _ at he'
    rw [get?_live, Option.filter_eq_some_iff] at he'
    exact he'.1
  | fork ticket =>
    change ((live (fun k : Fork Ref => k.entry.expires) now s.forks).get? ticket).map Fork.entry = _ at he'
    rw [get?_live] at he'
    obtain ⟨k, hk, rfl⟩ := Option.map_eq_some_iff.mp he'
    exact Option.map_eq_some_iff.mpr ⟨k, (Option.filter_eq_some_iff.mp hk).1, rfl⟩

theorem noReceipt_expire (P : Platform Ref) (s : State Ref) (now : Time) : NoReceipt s (expire P s now) :=
  fun _ hid => get?_live_none hid

variable {P : Platform Ref}

theorem quiet_dropChain (rounds : ℕ) (s : State Ref) (token binding : String) (ancestors : Bool) :
    Quiet s (dropChain P rounds s token binding ancestors) := by
  induction rounds generalizing s token with
  | zero => exact .refl s
  | succ rounds ih =>
    unfold dropChain
    split
    · exact .refl s
    split
    · exact .refl s
    next e _ =>
    split
    · exact .refl s
    have hdrop : Quiet s
        { s with
          entries := s.entries.erase token
          bytes := s.bytes - P.sourceReleaseBytes e
          healthBytes := s.healthBytes - e.healthSize } := by
      intro slot e' he'
      refine ⟨e', ?_, rfl⟩
      cases slot with
      | entry ticket =>
        change (s.entries.erase token).get? ticket = _ at he'
        rw [KeyMap.get?_erase] at he'
        split at he'
        · cases he'
        · exact he'
      | fork ticket => exact he'
    split
    · exact hdrop.trans (ih _ _)
    · exact hdrop

theorem receipts_dropChain (rounds : ℕ) (s : State Ref) (token binding : String) (ancestors : Bool) :
    (dropChain P rounds s token binding ancestors).receipts = s.receipts := by
  induction rounds generalizing s token with
  | zero => rfl
  | succ rounds ih =>
    unfold dropChain
    split
    · rfl
    split
    · rfl
    split
    · rfl
    split
    · exact ih _ _
    · rfl

theorem quiet_drop (s : State Ref) (token binding : String) (ancestors : Bool) :
    Quiet s (drop P s token binding ancestors) :=
  quiet_dropChain _ _ _ _ _

theorem noReceipt_drop (s : State Ref) (token binding : String) (ancestors : Bool) :
    NoReceipt s (drop P s token binding ancestors) := by
  intro id hid
  rw [drop, receipts_dropChain, hid]

theorem noReceipt_alter (s : State Ref) (slot : Slot) (f : Entry Ref → Entry Ref) : NoReceipt s (s.alter slot f) := by
  cases slot <;> exact fun _ hid => hid

/-- No entry changes its fence, and no receipt is added. -/
structure Calm (s s' : State Ref) : Prop where
  quiet : Quiet s s'
  receipts : NoReceipt s s'

theorem Calm.refl (s : State Ref) : Calm s s := ⟨.refl s, .refl s⟩

theorem Calm.trans {s s' s'' : State Ref} (h : Calm s s') (h' : Calm s' s'') : Calm s s'' :=
  ⟨h.quiet.trans h'.quiet, h.receipts.trans h'.receipts⟩

theorem calm_expire (s : State Ref) (now : Time) :
    Calm s (expire P s now) := ⟨quiet_expire P s now, noReceipt_expire P s now⟩

theorem calm_drop (s : State Ref) (token binding : String) (ancestors : Bool) :
    Calm s (drop P s token binding ancestors) :=
  ⟨quiet_drop s token binding ancestors, noReceipt_drop s token binding ancestors⟩

theorem calm_alterReceipt (s : State Ref) (id : String) (f : Receipt → Receipt) (receiptBytes : ℤ) :
    Calm s { s with receipts := s.receipts.alter id f, receiptBytes } :=
  ⟨.of_same rfl rfl, fun _ hid => get?_alter_none.mpr hid⟩

theorem calm_receiptRoom (P : Platform Ref) (s : State Ref) (entries bytes : ℕ) :
    Calm s (receiptRoom s entries bytes).1 := by
  have hsame := (receiptRoom_made P [] s entries bytes).same
  exact ⟨.of_same hsame.entries hsame.forks, fun _ hid => makeRoom_absent _ s entries bytes hid⟩

theorem Calm.of_room (P : Platform Ref) {entries bytes : ℕ} {ok : Bool} (h : receiptRoom s entries bytes = (s', ok)) :
    Calm s s' := by
  have hcalm := calm_receiptRoom P s entries bytes
  rwa [h] at hcalm

theorem calm_receiptObservation (s : State Ref) (args : Args) (now : Time) :
    Calm s (receiptObservation P s args now).1 := by
  unfold receiptObservation
  dsimp only
  split
  · exact .refl s
  split
  · exact .refl s
  split
  · exact .refl s
  split
  · exact .refl s
  split
  · exact .refl s
  split
  · exact .refl s
  split
  · split <;> exact .refl s
  split
  · exact .refl s
  split
  · next hroom => exact .of_room P hroom
  · next hroom => exact (Calm.of_room P hroom).trans (calm_alterReceipt _ _ _ _)

theorem calm_receiptStored (s : State Ref) (args : Args) (now : Time) : Calm s (receiptStored P s args now).1 := by
  unfold receiptStored
  dsimp only
  split
  · exact .refl s
  split
  · exact .refl s
  split
  · exact .refl s
  split
  · exact calm_alterReceipt _ _ _ _
  · exact .refl s

theorem calm_recordStarted (P : Platform Ref) (s : State Ref) (id : String) (event : ReceiptEvent) :
    Calm s (recordStarted s id event).1 := by
  unfold recordStarted
  split
  · exact .refl s
  split
  · next hroom => exact .of_room P hroom
  · next hroom => exact (Calm.of_room P hroom).trans (calm_alterReceipt _ _ _ _)

theorem calm_receiptStarted (s : State Ref) (args : Args) (now : Time) : Calm s (receiptStarted P s args now).1 := by
  unfold receiptStarted
  dsimp only
  split
  · exact .refl s
  split
  · exact .refl s
  split
  · exact .refl s
  split
  · split
    · exact calm_recordStarted P _ _ _
    · split
      · next hroom => exact (Calm.of_room P hroom).trans (calm_recordStarted P _ _ _)
      · next hroom => exact (Calm.of_room P hroom).trans (calm_recordStarted P _ _ _)
  · exact calm_recordStarted P _ _ _

theorem calm_forgetHealthRelease (s : State Ref) (attempt : String) : Calm s (forgetHealthRelease s attempt) :=
  calm_alterReceipt _ _ _ _

theorem calm_healthGuardObserved (s : State Ref) (entry : Entry Ref) (check : String) (now : Time) :
    Calm s (healthGuardObserved P s entry check now) := by
  unfold healthGuardObserved
  split
  · exact .refl s
  · exact calm_alterReceipt _ _ _ _

/-! ## Plans and answers -/

/-- What a change of one fence and then calls that leave the fences alone do. -/
theorem Touches.calm {s s' s'' : State Ref} (h : Touches slot f s s') (h' : Calm s' s'') :
    Touches slot f s s'' :=
  h.trans (h'.quiet.touches slot)

/-- The fence of an entry that is planned. -/
def Fence.planned (check localDigest sharedDigest : String) (f : Fence Ref) : Fence Ref :=
  { f with pending := check, admitted := "", localDigest, sharedDigest }

/-- The fence of an entry after an answer set. -/
def Fence.answered (admitted : String) (f : Fence Ref) : Fence Ref :=
  { f with pending := "", admitted, localDigest := "", sharedDigest := "" }

/-- The fence of an entry whose admission was taken. -/
def Fence.taken (f : Fence Ref) : Fence Ref := { f with admitted := "" }

theorem touches_reachFence (s : State Ref) (slot : Slot) (entry : Entry Ref) :
    Touches slot Fence.taken s (reachFence P s slot entry) ∧ NoReceipt s (reachFence P s slot entry) := by
  have hforget := calm_forgetHealthRelease s entry.healthAttempt
  have hunadmit := touches_alter (forgetHealthRelease s entry.healthAttempt) slot (g := Entry.unadmit)
    (f := Fence.taken) fun _ => rfl
  have hdrop := calm_drop (P := P) ((forgetHealthRelease s entry.healthAttempt).alter slot Entry.unadmit) entry.previous
    entry.binding true
  have hunlink := quiet_alter (drop P ((forgetHealthRelease s entry.healthAttempt).alter slot Entry.unadmit)
    entry.previous
    entry.binding true) slot (g := Entry.unlink) fun _ => rfl
  exact ⟨(((hforget.quiet.touches slot).trans hunadmit).calm hdrop).trans (hunlink.touches slot),
    ((hforget.receipts.trans (noReceipt_alter _ _ _)).trans hdrop.receipts).trans (noReceipt_alter _ _ _)⟩

theorem Touches.congr (h : Touches slot f s s')
    (heq : ∀ e, s.at? slot = some e → f e.fence = g e.fence) : Touches slot g s s' where
  others := h.others
  slot e' he' := by
    obtain ⟨e, he, hfence⟩ := h.slot e' he'
    exact ⟨e, he, hfence.trans (heq e he)⟩

/-- The digests an answer set has to echo are those of all sources, or no answer set is accepted. -/
def Fence.Asked (P : Platform Ref) (f : Fence Ref) : Prop :=
  (f.localDigest = ownerDigest P (P.localSources f.sources) ∧
    f.sharedDigest = ownerDigest P (P.sharedSources f.sources)) ∨
    (f.localDigest = "" ∧ f.sharedDigest = "" ∧ (f.executionGrades = "" ∨ P.decodeGrades f.executionGrades = none))

variable {check binding : String}

/-- A plan that drew its check. The digests stay as they were when the send guard does not decode. -/
theorem touches_sourceReleasePlan {s : State Ref} (args : Args)
    (hheld : s.at? slot = some entry) (hcheck : draws.check = some check) :
    NoReceipt s (sourceReleasePlan P s args slot entry draws).1 ∧
      ∃ localDigest sharedDigest, Touches slot (Fence.planned check localDigest sharedDigest) s
          (sourceReleasePlan P s args slot entry draws).1 ∧
        (Fence.Asked P { entry.fence with localDigest, sharedDigest } ∨
          args.sendGuard = .malformed ∧ localDigest = entry.pendingLocalDigest ∧
            sharedDigest = entry.pendingSharedDigest) := by
  obtain ⟨hreach, hreceipts⟩ := touches_reachFence (P := P) s slot entry
  have hsame : ∀ e, s.at? slot = some e → e = entry := fun e he => Option.some_inj.mp (he.symm.trans hheld)
  have hask := hreach.trans (touches_alter (reachFence P s slot entry) slot (g := fun e => e.ask check)
    (f := fun f => { f with pending := check }) fun _ => rfl)
  have hask' := hreceipts.trans (noReceipt_alter (reachFence P s slot entry) slot fun e => e.ask check)
  unfold sourceReleasePlan
  rw [hcheck]
  dsimp only
  split
  · next hguard =>
    refine ⟨hask', entry.pendingLocalDigest, entry.pendingSharedDigest, hask.congr fun e he =>
      ?_, .inr ⟨hguard, rfl, rfl⟩⟩
    rw [hsame e he]
    rfl
  have hclear := hask.trans (touches_alter ((reachFence P s slot entry).alter slot fun e => e.ask check) slot
    (g := fun e => e.askGuard (args.sendGuard.orElse false)) (f := fun f =>
      { f with localDigest := "", sharedDigest := "" })
    fun _ => rfl)
  have hclear' := hask'.trans (noReceipt_alter ((reachFence P s slot entry).alter slot fun e => e.ask check) slot
    fun e => e.askGuard (args.sendGuard.orElse false))
  split
  · next hgrades =>
    exact ⟨hclear', "", "", hclear.congr fun _ _ => rfl, .inl (.inr ⟨rfl, rfl, .inr hgrades.2⟩)⟩
  · refine ⟨hclear'.trans (noReceipt_alter _ _ _), _, _, (hclear.trans (touches_alter _ slot (f := fun f =>
      { f with
        localDigest := ownerDigest P (P.localSources entry.sources)
        sharedDigest := ownerDigest P (P.sharedSources entry.sources) }) fun _ => rfl)).congr
          fun _ _ => rfl, .inl (.inl ⟨rfl, rfl⟩)⟩

theorem touches_sourceReleaseResult (s : State Ref) (args : Args) (slot : Slot) (entry : Entry Ref) (now : Time) :
    NoReceipt s (sourceReleaseResult P s args slot entry now).1 ∧
      Touches slot (Fence.answered (if answerVerdict P entry args = .admitted then entry.pending else "")) s
        (sourceReleaseResult P s args slot entry now).1 := by
  have hclear := touches_alter s slot (g := Entry.answered) (f := Fence.answered "") fun _ => rfl
  have hclear' := noReceipt_alter s slot Entry.answered
  unfold sourceReleaseResult
  split
  · next hverdict => exact ⟨hclear', by rwa [hverdict, if_neg (by decide)]⟩
  · next hverdict => exact ⟨hclear', by rwa [hverdict, if_neg (by decide)]⟩
  · next hverdict =>
    have hgranted := (hclear.trans (touches_alter (s.alter slot Entry.answered) slot (g := fun e =>
      e.setAdmitted entry.pending)
      (f := fun f => { f with admitted := entry.pending }) fun _ => rfl)).congr (g :=
        Fence.answered entry.pending) fun _ _ => rfl
    have hgranted' := hclear'.trans (noReceipt_alter (s.alter slot Entry.answered) slot fun e =>
      e.setAdmitted entry.pending)
    unfold admitAnswer
    split
    · have hguard := quiet_alter ((s.alter slot Entry.answered).alter slot fun e => e.setAdmitted entry.pending) slot
        (g := fun e => e.guard entry.pending now) fun _ => rfl
      have hobserved := calm_healthGuardObserved (P := P)
        (((s.alter slot Entry.answered).alter slot fun e => e.setAdmitted entry.pending).alter slot fun e =>
          e.guard entry.pending now)
        entry entry.pending now
      exact ⟨(hgranted'.trans (noReceipt_alter _ _ _)).trans hobserved.receipts,
        (hgranted.trans (hguard.touches slot)).calm hobserved⟩
    · exact ⟨hgranted', hgranted⟩

/-! ## Accepted answers -/

/-- The owner of some sources echoed the check and their digest, and found them eligible. -/
def OwnerAccepted (P : Platform Ref) (check : String) (refs : List Ref) (reply : Option OwnerReply) : Prop :=
  ∃ r, reply = some r ∧ r.status = "ok" ∧ r.checkId = check ∧
    r.sourcesDigest = P.releaseDigest (P.refsJson refs) ∧ r.eligible = true

/-- An answer set that releases an entry under a check. -/
structure Accepted (P : Platform Ref) (f : Fence Ref) (check : String) (args : Args) : Prop where
  binding : P.releaseBinding args = f.binding
  asked : f.sources ≠ [] ∨ f.executionGrades ≠ ""
  localOwner : P.localSources f.sources ≠ [] → OwnerAccepted P check (P.localSources f.sources) args.localResponse
  sharedOwner : P.sharedSources f.sources ≠ [] → OwnerAccepted P check (P.sharedSources f.sources) args.ownerResponse
  grades : f.executionGrades ≠ "" → ∃ g, P.decodeGrades args.executionGradeResponse = some g ∧ g.checkId = check ∧
    executionGradeSourcesEqual P f.executionGrades args.executionGradeResponse = true

theorem releaseDigest_ne_empty (P : Platform Ref) (value : Json) : P.releaseDigest value ≠ "" := by
  intro h
  have hvalid := receiptDigestValid_releaseDigest P value
  rw [h] at hvalid
  cases hvalid

variable {refs : List Ref} {b b' : ReceiptBinding} {token : String}

theorem ownerDigest_of_ne_nil {P : Platform Ref} (h : refs ≠ []) :
    ownerDigest P refs = P.releaseDigest (P.refsJson refs) := by
  unfold ownerDigest
  rw [if_neg (by simpa using h)]

theorem ownerAccepted_of_answers {digest : String} {guarded : Bool} {reply : Option OwnerReply}
    (hdigest : digest = P.releaseDigest (P.refsJson refs)) (hanswers : ownerAnswers check digest guarded reply = true)
    (heligible : reply.any OwnerReply.eligible = true) : OwnerAccepted P check refs reply := by
  cases reply with
  | none => cases hanswers
  | some r =>
    simp only [ownerAnswers, Bool.and_eq_true, decide_eq_true_eq] at hanswers
    exact ⟨r, rfl, hanswers.1.1.1, hanswers.1.1.2, hanswers.1.2.trans hdigest, heligible⟩

theorem accepted_of_verdict (hverdict : answerVerdict P entry args = .admitted)
    (hasked : entry.fence.Asked P) (hbinding : P.releaseBinding args = entry.binding) :
    entry.pending ≠ "" ∧ Accepted P entry.fence entry.pending args := by
  unfold answerVerdict at hverdict
  dsimp only at hverdict
  split at hverdict
  · cases hverdict
  next hpending =>
  split at hverdict
  · cases hverdict
  next hparts =>
  split at hverdict
  swap
  · cases hverdict
  next hadmitted =>
  rw [not_or, not_and, not_and] at hpending
  rw [Bool.and_eq_true] at hadmitted
  simp only [Bool.not_eq_true', Bool.not_eq_false, List.all_eq_true, List.mem_filter, decide_eq_true_eq]
    at hparts hadmitted
  obtain ⟨hgrades, heligible⟩ := hadmitted
  -- The reply to one of the two digests.
  have howner : ∀ refs reply digest, (digest, reply) ∈ [(entry.pendingLocalDigest, args.localResponse),
      (entry.pendingSharedDigest, args.ownerResponse)] → digest = ownerDigest P refs → refs ≠ [] →
      OwnerAccepted P entry.pending refs reply := by
    intro refs reply digest hmem hdigest hrefs
    rw [ownerDigest_of_ne_nil hrefs] at hdigest
    have hpart := And.intro hmem (hdigest ▸ releaseDigest_ne_empty P _ : (digest, reply).1 ≠ "")
    exact ownerAccepted_of_answers hdigest (hparts _ hpart) (heligible _ hpart)
  have hgraded : entry.executionGrades ≠ "" → ∃ g, P.decodeGrades args.executionGradeResponse = some g ∧
      g.checkId = entry.pending ∧
      executionGradeSourcesEqual P entry.executionGrades args.executionGradeResponse = true := by
    intro hsome
    rw [gradesAnswered, if_neg hsome, Bool.and_eq_true] at hgrades
    cases hdecode : P.decodeGrades args.executionGradeResponse with
    | none =>
      rw [hdecode] at hgrades
      exact absurd hgrades.1 Bool.false_ne_true
    | some g =>
      rw [hdecode] at hgrades
      exact ⟨g, rfl, of_decide_eq_true hgrades.1, hgrades.2⟩
  rcases hasked with ⟨hlocal, hshared⟩ | ⟨hlocal, hshared, hungraded⟩
  · refine ⟨hpending.1, hbinding, ?_, howner _ _ _ List.mem_cons_self hlocal,
      howner _ _ _ (List.mem_cons_of_mem _ List.mem_cons_self) hshared, hgraded⟩
    by_contra hnothing
    rw [not_or, not_not, not_not] at hnothing
    have hempty : entry.fence.sources = [] := hnothing.1
    rw [hempty] at hlocal hshared
    exact hpending.2 hlocal hshared hnothing.2
  · -- Nothing was asked of the owners, and the grades of the entry cannot be answered for.
    have hsome : entry.executionGrades ≠ "" := fun hempty => hpending.2 hlocal hshared hempty
    obtain ⟨g, -, -, hequal⟩ := hgraded hsome
    have hnone : P.decodeGrades entry.executionGrades = none := hungraded.resolve_left hsome
    rw [executionGradeSourcesEqual, hnone] at hequal
    cases hequal

/-! ## Receipts -/

/-- What a binding says about the release of its entry. -/
def ReceiptBinding.release (b : ReceiptBinding) : String × String × String × String × String :=
  (b.sourceCheckId, b.sourceCoverage, b.requestBinding, b.sources, b.sourcesDigest)

theorem release_ownedBinding (h : ownedBinding P args entry b = some b') :
    b'.release = b.release := by
  unfold ownedBinding at h
  dsimp only at h
  split at h
  · rw [← Option.some_inj.mp h]
  · split at h
    · cases h
    · rw [← Option.some_inj.mp h]
      rfl

theorem release_retainedBinding (h : retainedBinding P args now b = .ok b') :
    b'.release = b.release := by
  unfold retainedBinding at h
  dsimp only at h
  split at h
  · cases h
  split at h
  · split at h
    · cases h
    · rw [← Except.ok.inj h]
      rfl
  · rw [← Except.ok.inj h]

/-- A receipt that a call added is bound to a release. -/
def AddsBound (release : String × String × String × String × String) (s s' : State Ref) : Prop :=
  ∀ id r, s.receipts.get? id = none → s'.receipts.get? id = some r →
    ∃ b, r.prepared.binding = some b ∧ b.release = release

theorem AddsBound.of_noReceipt {release : String × String × String × String × String} (h : NoReceipt s s') :
    AddsBound release s s' := by
  intro id r hid hr
  rw [h id hid] at hr
  cases hr

theorem quiet_linkAttempt (s : State Ref) (slot : Option Slot) (attempt : String) :
    Quiet s (linkAttempt s slot attempt) ∧ (linkAttempt s slot attempt).receipts = s.receipts := by
  cases slot with
  | none => exact ⟨.refl s, rfl⟩
  | some slot => exact ⟨quiet_alter s slot fun _ => rfl, by cases slot <;> rfl⟩

theorem adds_receiptCommit (s : State Ref) (args : Args) (slot : Option Slot) (entry : Entry Ref)
    (now : Time) (attempt : String)
    (binding : ReceiptBinding) : Quiet s (receiptCommit P s args slot entry now attempt binding).1 ∧
      AddsBound binding.release s (receiptCommit P s args slot entry now attempt binding).1 := by
  unfold receiptCommit
  dsimp only
  split
  · exact ⟨.refl s, .of_noReceipt (.refl s)⟩
  split
  · exact ⟨.refl s, .of_noReceipt (.refl s)⟩
  split
  · next hroom => exact ⟨(Calm.of_room P hroom).quiet, .of_noReceipt (Calm.of_room P hroom).receipts⟩
  next s' hroom =>
  have hadd : ∀ handle, Quiet s (linkAttempt (addReceipt s' attempt
        { newReceipt P entry now attempt binding with healthTurnHandle := handle }) slot attempt) ∧
      AddsBound binding.release s (linkAttempt (addReceipt s' attempt
        { newReceipt P entry now attempt binding with healthTurnHandle := handle }) slot attempt) := by
    intro handle
    obtain ⟨hquiet, hreceipts⟩ := quiet_linkAttempt (addReceipt s' attempt
      { newReceipt P entry now attempt binding with healthTurnHandle := handle }) slot attempt
    refine ⟨((Calm.of_room P hroom).quiet.trans (.of_same rfl rfl)).trans hquiet, fun id r hid hr => ?_⟩
    rw [hreceipts, addReceipt, KeyMap.get?_put] at hr
    split at hr
    · rw [← Option.some_inj.mp hr]
      exact ⟨binding, rfl, rfl⟩
    · rw [(Calm.of_room P hroom).receipts id hid] at hr
      cases hr
  split <;> exact hadd _

theorem adds_receiptPrepare (s : State Ref) (args : Args) (slot : Option Slot) (entry : Entry Ref)
    (check coverage : String)
    (now : Time) (draws : Draws) : Quiet s (receiptPrepare P s args slot entry check coverage now draws).1 ∧
      AddsBound (check, if entry.executionGrades = "" then coverage else
        "retained_inputs_with_configured_tests", entry.binding,
        P.sourcesText entry, entry.digest) s (receiptPrepare P s args slot entry check coverage now draws).1 := by
  unfold receiptPrepare
  dsimp only
  split
  · exact ⟨.refl s, .of_noReceipt (.refl s)⟩
  split
  · exact ⟨.refl s, .of_noReceipt (.refl s)⟩
  split
  · exact ⟨.refl s, .of_noReceipt (.refl s)⟩
  next attempt _ _ producer _ =>
  have hproducer : Calm s { s with receiptProducer := producer } := ⟨.of_same rfl rfl, fun _ hid => hid⟩
  split
  · exact ⟨hproducer.quiet, .of_noReceipt hproducer.receipts⟩
  next b howned =>
  split
  · exact ⟨hproducer.quiet, .of_noReceipt hproducer.receipts⟩
  next b' hretained =>
  obtain ⟨hquiet, hadds⟩ :=
    adds_receiptCommit (P := P) { s with receiptProducer := producer } args slot entry now attempt b'
  refine ⟨hproducer.quiet.trans hquiet, fun id r hid hr => ?_⟩
  obtain ⟨b'', hb'', hrelease⟩ := hadds id r hid hr
  exact ⟨b'', hb'', hrelease.trans ((release_retainedBinding hretained).trans (release_ownedBinding howned))⟩

/-- The release a receipt of an entry is bound to. -/
def Entry.release (P : Platform Ref) (e : Entry Ref) (check coverage : String) :
    String × String × String × String × String :=
  (check, if e.executionGrades = "" then coverage else "retained_inputs_with_configured_tests", e.binding,
    P.sourcesText e, e.digest)

/-- A receipt plan takes the admission of its entry, and adds a receipt only if there is one. -/
theorem adds_receiptPlan (s : State Ref) (args : Args) (slot : Slot) (entry : Entry Ref) (now : Time) (draws : Draws) :
    Touches slot Fence.taken s (receiptPlan P s args (some (slot, entry)) now draws).1 ∧
      AddsBound (entry.release P entry.admitted "retained_versioned_inputs") s
        (receiptPlan P s args (some (slot, entry)) now draws).1 ∧
      (entry.admitted = "" → NoReceipt s (receiptPlan P s args (some (slot, entry)) now draws).1) := by
  have htake := touches_alter s slot (g := Entry.take) (f := Fence.taken) fun _ => rfl
  have htake' := noReceipt_alter s slot Entry.take
  simp only [receiptPlan]
  split
  · exact ⟨htake, .of_noReceipt htake', fun _ => htake'⟩
  · next hadmitted =>
    obtain ⟨hquiet, hadds⟩ :=
      adds_receiptPrepare (P := P) (s.alter slot Entry.take) args (some slot) entry.take entry.admitted
      "retained_versioned_inputs" now draws
    exact ⟨htake.trans (hquiet.touches slot), fun id r hid hr => hadds id r (htake' id hid) hr, fun h =>
      absurd h hadmitted⟩

theorem adds_receiptPlan_none (s : State Ref) (args : Args) (now : Time) (draws : Draws) :
    Quiet s (receiptPlan P s args none now draws).1 ∧ ∀ id r, s.receipts.get? id = none →
      (receiptPlan P s args none now draws).1.receipts.get? id = some r →
      ∃ b, r.prepared.binding = some b ∧ b.sourceCoverage = "no_versioned_source_handle" := by
  obtain ⟨hquiet, hadds⟩ := adds_receiptPrepare (P := P) s args none
    { binding := P.releaseBinding args, digest := P.releaseDigest (P.refsJson []) } ""
      "no_versioned_source_handle" now draws
  refine ⟨hquiet, fun id r hid hr => ?_⟩
  obtain ⟨b, hb, hrelease⟩ := hadds id r hid hr
  exact ⟨b, hb, congrArg (fun release => release.2.1) hrelease⟩

/-! ## New entries -/

/-- An entry that was not asked for and not admitted. -/
structure Fence.Blank (f : Fence Ref) : Prop where
  pending : f.pending = ""
  admitted : f.admitted = ""
  localDigest : f.localDigest = ""
  sharedDigest : f.sharedDigest = ""

/-- A slot that may hold something new, beside slots that changed nothing. -/
structure Adds (slot : Slot) (new : Entry Ref → Prop) (s s' : State Ref) : Prop where
  others : ∀ slot' e', slot' ≠ slot → s'.at? slot' = some e' → ∃ e, s.at? slot' = some e ∧ e'.fence = e.fence
  slot : ∀ e', s'.at? slot = some e' → new e'

theorem Slot.entry_ne {ticket ticket' : String} (h : Slot.entry ticket' ≠ Slot.entry ticket) : ticket ≠ ticket' :=
  fun hticket => h (by rw [hticket])

theorem adds_retain {s : State Ref} {assembly : Assembly Ref} {prior : Option (Entry Ref)} {grades : String}
    {replaceNative : Bool} {token previous workspace project : String} :
    Calm s (retain P s assembly prior refs grades replaceNative token previous workspace project binding now).1 ∨
      Adds (.entry token) (fun e => e.fence.Blank) s
        (retain P s assembly prior refs grades replaceNative token previous workspace project binding now).1 ∧
      NoReceipt s (retain P s assembly prior refs grades replaceNative token previous workspace project
        binding now).1 := by
  have hcommit : ∀ part kept,
      Calm s (retain.commit P s assembly prior refs grades token previous workspace project binding now part kept).1 ∨
      Adds (.entry token) (fun e => e.fence.Blank) s
        (retain.commit P s assembly prior refs grades token previous workspace project binding now part kept).1 ∧
      NoReceipt s (retain.commit P s assembly prior refs grades token previous workspace project binding now
        part kept).1 := by
    intro part kept
    unfold retain.commit
    split
    · exact .inl (.refl s)
    dsimp only
    split
    · exact .inl (.refl s)
    refine .inr ⟨⟨fun slot' e' hslot he' => ?_, fun e' he' => ?_⟩, fun id hid => hid⟩
    · refine ⟨e', ?_, rfl⟩
      cases slot' with
      | entry ticket =>
        change (s.entries.put token _).get? ticket = _ at he'
        rwa [KeyMap.get?_put, if_neg (Slot.entry_ne hslot)] at he'
      | fork ticket => exact he'
    · change (s.entries.put token _).get? token = _ at he'
      rw [KeyMap.get?_put_self] at he'
      rw [← Option.some_inj.mp he']
      exact ⟨rfl, rfl, rfl, rfl⟩
  unfold retain
  dsimp only
  split
  · split
    · exact .inl (.refl s)
    · exact hcommit _ _
  · exact hcommit _ _

/-- A preparation leaves the fences alone, or adds an entry under the ticket that was drawn. -/
theorem adds_prepare (s : State Ref) (args : Args) (assembly : Assembly Ref) (now : Time) (draws : Draws) :
    Calm s (prepare P s args assembly now draws).1 ∨
      ∃ token, draws.ticket = some token ∧
        Adds (.entry token) (fun e => e.fence.Blank) s (prepare P s args assembly now draws).1 ∧
        NoReceipt s (prepare P s args assembly now draws).1 := by
  unfold prepare
  dsimp only
  split
  · exact .inl (.refl s)
  split
  · exact .inl (.refl s)
  next token htoken =>
  split
  · exact .inl (.refl s)
  have hexpire := calm_expire (P := P) s now
  unfold prepareLocked
  dsimp only
  generalize (if args.sourceReleaseTicket.orElse "" = "" then none
    else (expire P s now).entries.get? (args.sourceReleaseTicket.orElse "")) = prior
  split
  · exact .inl hexpire
  split
  · exact .inl hexpire
  split
  · exact .inl hexpire
  split
  · exact .inl hexpire
  refine adds_retain.imp hexpire.trans fun ⟨hadds, hreceipts⟩ =>
    ⟨token, htoken, ⟨?_, hadds.slot⟩, hexpire.receipts.trans hreceipts⟩
  intro slot' e' hslot he'
  obtain ⟨e, he, hfence⟩ := hadds.others slot' e' hslot he'
  obtain ⟨e₀, he₀, hfence₀⟩ := hexpire.quiet slot' e he
  exact ⟨e₀, he₀, hfence.trans hfence₀⟩

/-! ## Forks -/

/-- Among entries and forks, at most one pending fork changed. -/
structure OnlyFork (token : String) (s s' : State Ref) : Prop where
  entries : s'.entries = s.entries
  others : ∀ t, t ≠ token → s'.forks.get? t = s.forks.get? t
  receipts : NoReceipt s s'

theorem OnlyFork.refl (token : String) (s : State Ref) : OnlyFork token s s := ⟨rfl, fun _ _ => rfl, .refl s⟩

theorem OnlyFork.trans {s s' s'' : State Ref} (h : OnlyFork token s s') (h' : OnlyFork token s' s'') :
    OnlyFork token s s'' :=
  ⟨h'.entries.trans h.entries, fun t ht => (h'.others t ht).trans (h.others t ht), h.receipts.trans h'.receipts⟩

theorem onlyFork_alter (token : String) (s : State Ref) (f : Entry Ref → Entry Ref) :
    OnlyFork token s (s.alter (.fork token) f) where
  entries := rfl
  others t ht := by
    change (s.forks.alter token _).get? t = _
    rw [KeyMap.get?_alter]
    simp only [if_neg (Ne.symm ht), Option.map_id']
  receipts := noReceipt_alter s _ f

theorem onlyFork_reachFence (token : String) (s : State Ref) (hprevious : entry.previous = "") :
    OnlyFork token s (reachFence P s (.fork token) entry) := by
  unfold reachFence
  rw [hprevious]
  have hforget : OnlyFork token s (forgetHealthRelease s entry.healthAttempt) :=
    ⟨rfl, fun _ _ => rfl, (calm_forgetHealthRelease s entry.healthAttempt).receipts⟩
  exact (hforget.trans (onlyFork_alter token _ _)).trans (onlyFork_alter token _ _)

theorem onlyFork_sourceReleasePlan (token : String) (s : State Ref) (args : Args) (draws : Draws)
    (hprevious : entry.previous = "") : OnlyFork token s (sourceReleasePlan P s args (.fork token) entry draws).1 := by
  have hreach := onlyFork_reachFence (P := P) token s hprevious
  unfold sourceReleasePlan
  dsimp only
  split
  · exact hreach
  next check _ =>
  have hask := hreach.trans (onlyFork_alter token (reachFence P s (.fork token) entry) fun e => e.ask check)
  split
  · exact hask
  have hguard := hask.trans
    (onlyFork_alter token ((reachFence P s (.fork token) entry).alter (.fork token) fun e => e.ask check)
    fun e => e.askGuard (args.sendGuard.orElse false))
  split
  · exact hguard
  · dsimp only
    exact hguard.trans (onlyFork_alter token _ _)

theorem onlyFork_healthGuardObserved (token : String) (s : State Ref) (entry : Entry Ref) (check : String)
    (now : Time) :
    OnlyFork token s (healthGuardObserved P s entry check now) := by
  have hcalm := calm_healthGuardObserved (P := P) s entry check now
  unfold healthGuardObserved at hcalm ⊢
  split
  · exact .refl token s
  · next henabled =>
    rw [if_neg henabled] at hcalm
    exact ⟨rfl, fun _ _ => rfl, hcalm.receipts⟩

theorem onlyFork_sourceReleaseResult (token : String) (s : State Ref) (args : Args) (entry : Entry Ref) (now : Time) :
    OnlyFork token s (sourceReleaseResult P s args (.fork token) entry now).1 := by
  have hclear := onlyFork_alter token s Entry.answered
  unfold sourceReleaseResult
  split
  · exact hclear
  · exact hclear
  · unfold admitAnswer
    have hgranted := hclear.trans (onlyFork_alter token (s.alter (.fork token) Entry.answered) fun e =>
      e.setAdmitted entry.pending)
    split
    · exact (hgranted.trans (onlyFork_alter token _ _)).trans (onlyFork_healthGuardObserved token _ _ _ _)
    · exact hgranted

theorem onlyFork_openFork (token : String) (s : State Ref) (fork : Fork Ref) :
    OnlyFork token s (openFork P s token fork) where
  entries := rfl
  others t ht := by
    change (s.forks.put token fork).get? t = _
    rw [KeyMap.get?_put, if_neg (Ne.symm ht)]
  receipts := .refl s

theorem onlyFork_dropFork (token : String) (s : State Ref) : OnlyFork token s (dropFork P s token) := by
  unfold dropFork
  split
  · exact .refl token s
  · refine ⟨rfl, fun t ht => ?_, .refl s⟩
    rw [KeyMap.get?_erase, if_neg (Ne.symm ht)]

theorem get?_dropFork (token : String) (s : State Ref) : (dropFork P s token).forks.get? token = none := by
  unfold dropFork
  split
  · assumption
  · rw [KeyMap.get?_erase, if_pos rfl]

theorem handleTicket_held {s : State Ref}
    (hheld : s.at? slot = some entry) (hfinish : args.operation ≠ .sourceReleaseFinish)
    (hdiscard : args.operation ≠ .sourceReleaseDiscard) (hbinding : entry.binding = P.releaseBinding args) :
    handleTicket P s args slot now draws = handleEntry P s args slot entry now draws := by
  unfold handleTicket
  rw [if_neg fun h => hfinish h.1, if_neg fun h => hdiscard h.1, hheld]
  exact if_neg (not_not.mpr hbinding)

theorem handleSourceReleaseLocked_fork {s : State Ref}
    (hheld : s.at? (.fork token) = some entry) (hop : args.operation = .sourceReleasePlan ∨
      args.operation = .sourceReleaseResult)
    (hbinding : entry.binding = P.releaseBinding args) :
    handleSourceReleaseLocked P s args (some (.fork token)) now draws =
      handleEntry P s args (.fork token) entry now draws := by
  have hfinish : args.operation ≠ .sourceReleaseFinish := by rcases hop with hop | hop <;> simp [hop]
  have hdiscard : args.operation ≠ .sourceReleaseDiscard := by rcases hop with hop | hop <;> simp [hop]
  have hticket : handleTicket P s args (.fork token) now draws = handleEntry P s args (.fork token) entry now draws :=
    handleTicket_held hheld hfinish hdiscard hbinding
  unfold handleSourceReleaseLocked
  rcases hop with hop | hop <;> rw [hop] <;> exact hticket

theorem challenge_sourceReleasePlan {c : Challenge Ref}
    (h : sourceReleasePlan P s args slot entry draws = (s', .challenge c)) :
    ∃ check, draws.check = some check ∧ args.sendGuard ≠ .malformed := by
  unfold sourceReleasePlan at h
  split at h
  · cases congrArg Prod.snd h
  next check hcheck =>
  split at h
  · cases congrArg Prod.snd h
  next hguard => exact ⟨check, hcheck, hguard⟩

/-- What a fork plan does under the ticket that was drawn: it leaves nothing, or a fork with its challenge. -/
theorem forkPlan_spec (s : State Ref) (args : Args) (parentToken : String) (parent : Entry Ref) (newId : String)
    (now : Time) (draws : Draws) (hbinding : binding = P.releaseBinding (sourceForkArgs args newId "" .other)) :
    (forkPlan P s args parentToken parent newId binding now draws).1 = s ∨
      ∃ token, draws.ticket = some token ∧
        OnlyFork token s (forkPlan P s args parentToken parent newId binding now draws).1 ∧
        ((forkPlan P s args parentToken parent newId binding now draws).1.forks.get? token = none ∨
          ∃ check, draws.check = some check ∧
            ∀ e, (forkPlan P s args parentToken parent newId binding now draws).1.at? (.fork token) = some e →
              ∃ localDigest sharedDigest, e.fence = (forkCandidate parent binding).fence.planned check
                localDigest sharedDigest ∧
                e.fence.Asked P) := by
  unfold forkPlan
  split
  · exact .inl rfl
  split
  · exact .inl rfl
  split
  · exact .inl rfl
  split
  · exact .inl rfl
  next token htoken =>
  dsimp only
  generalize hfork : Fork.mk parentToken parent.binding newId binding (forkCandidate parent binding) = fork
  have hheld : (openFork P s token fork).at? (.fork token) = some (forkCandidate parent binding) := by
    change ((s.forks.put token fork).get? token).map Fork.entry = _
    rw [KeyMap.get?_put_self, Option.map_some, ← hfork]
  have hhandle : handleSourceReleaseLocked P (openFork P s token fork)
      (sourceForkArgs args newId token .sourceReleasePlan)
      (some (.fork token)) now draws = sourceReleasePlan P (openFork P s token fork)
        (sourceForkArgs args newId token .sourceReleasePlan) (.fork token) (forkCandidate parent binding) draws :=
    handleSourceReleaseLocked_fork hheld (.inl rfl) hbinding
  have honly := (onlyFork_openFork (P := P) token s fork).trans (onlyFork_sourceReleasePlan (P := P) token
    (openFork P s token fork) (sourceForkArgs args newId token .sourceReleasePlan) draws
      (show (forkCandidate parent binding).previous = "" from rfl))
  rw [hhandle]
  refine .inr ⟨token, htoken, ?_⟩
  split
  · next s' c hresult =>
    obtain ⟨check, hcheck, hguard⟩ := challenge_sourceReleasePlan hresult
    obtain ⟨-, localDigest, sharedDigest, htouches, hasked⟩ := touches_sourceReleasePlan (P := P)
      (sourceForkArgs args newId token .sourceReleasePlan) hheld hcheck
    rw [hresult] at honly htouches
    refine ⟨honly, .inr ⟨check, hcheck, fun e he => ?_⟩⟩
    obtain ⟨e', he', hfence⟩ := htouches.slot e he
    obtain rfl := Option.some_inj.mp (he'.symm.trans hheld)
    refine ⟨localDigest, sharedDigest, hfence, ?_⟩
    rw [hfence]
    exact hasked.resolve_right fun hmalformed => hguard hmalformed.1
  · next s' reply _ hresult =>
    rw [hresult] at honly
    exact ⟨honly.trans (onlyFork_dropFork token s'), .inl (get?_dropFork token s')⟩

/-- Only an accepted answer set is answered with an admission. -/
theorem admitted_sourceReleaseResult
    (h : sourceReleaseResult P s args slot entry now = (s', .admitted)) : answerVerdict P entry args = .admitted := by
  unfold sourceReleaseResult at h
  split at h
  · cases congrArg Prod.snd h
  · cases congrArg Prod.snd h
  · assumption

/-- What a fork result does under its ticket: nothing, or it uses the fork up. An entry is made of the
    fork only by an accepted answer set. -/
theorem forkResult_spec (s : State Ref) (args : Args) (parentToken : String) (parent : Entry Ref)
    (newId binding : String) (now : Time) (draws : Draws) :
    (forkResult P s args parentToken parent newId binding now draws).1 = s ∨
      ∃ k, s.forks.get? (args.forkTicket.orElse "") = some k ∧
        (forkResult P s args parentToken parent newId binding now draws).1.forks.get?
          (args.forkTicket.orElse "") = none ∧
        (∀ t, t ≠ args.forkTicket.orElse "" →
          (forkResult P s args parentToken parent newId binding now draws).1.forks.get? t = s.forks.get? t) ∧
        NoReceipt s (forkResult P s args parentToken parent newId binding now draws).1 ∧
        ((forkResult P s args parentToken parent newId binding now draws).1.entries = s.entries ∨
          answerVerdict P k.entry
            (sourceForkArgs args newId (args.forkTicket.orElse "") .sourceReleaseResult) = .admitted ∧
          k.entry.binding = P.releaseBinding (sourceForkArgs args newId (args.forkTicket.orElse "")
            .sourceReleaseResult) ∧
          ∃ e : Entry Ref, e.fence = k.entry.fence.answered "" ∧ e.guardedAdmission = "" ∧ e.guardedAdmissionAt = none ∧
            (forkResult P s args parentToken parent newId binding now draws).1.entries =
              s.entries.put (args.forkTicket.orElse "") e) := by
  unfold forkResult
  dsimp only
  generalize args.forkTicket.orElse "" = token
  split
  · exact .inl rfl
  next k hk =>
  split
  · exact .inl rfl
  refine .inr ⟨k, hk, ?_⟩
  have hheld : s.at? (.fork token) = some k.entry := Option.map_eq_some_iff.mpr ⟨k, hk, rfl⟩
  have hdropped : ∀ s', OnlyFork token s s' → (dropFork P s' token).forks.get? token = none ∧
      (∀ t, t ≠ token → (dropFork P s' token).forks.get? t = s.forks.get? t) ∧ NoReceipt s (dropFork P s' token) ∧
      (dropFork P s' token).entries = s.entries := by
    intro s' honly
    have hdrop := honly.trans (onlyFork_dropFork (P := P) token s')
    exact ⟨get?_dropFork token s', hdrop.others, hdrop.receipts, hdrop.entries⟩
  by_cases hbinding : k.entry.binding = P.releaseBinding (sourceForkArgs args newId token .sourceReleaseResult)
  · have hhandle : handleSourceReleaseLocked P s (sourceForkArgs args newId token .sourceReleaseResult)
        (some (.fork token)) now draws =
        sourceReleaseResult P s (sourceForkArgs args newId token .sourceReleaseResult) (.fork token) k.entry now :=
      handleSourceReleaseLocked_fork hheld (.inr rfl) hbinding
    have honly := onlyFork_sourceReleaseResult (P := P) token s
      (sourceForkArgs args newId token .sourceReleaseResult) k.entry now
    obtain ⟨-, htouches⟩ :=
      touches_sourceReleaseResult (P := P) s (sourceForkArgs args newId token .sourceReleaseResult)
      (.fork token) k.entry now
    rw [hhandle]
    split
    · next s' hresult =>
      have hverdict := admitted_sourceReleaseResult hresult
      rw [hresult] at honly htouches
      unfold promoteFork
      split
      · next hnone => exact ⟨hnone, honly.others, honly.receipts, .inl honly.entries⟩
      next k' hk' =>
      obtain ⟨e, he, hfence⟩ := htouches.slot k'.entry (Option.map_eq_some_iff.mpr ⟨k', hk', rfl⟩)
      obtain rfl := Option.some_inj.mp (he.symm.trans hheld)
      refine ⟨?_, fun t ht => ?_, honly.receipts, .inr ⟨hverdict, hbinding, k'.entry.unadmit, ?_, rfl, rfl, ?_⟩⟩
      · rw [KeyMap.get?_erase, if_pos rfl]
      · rw [KeyMap.get?_erase, if_neg (Ne.symm ht), honly.others t ht]
      · change k'.entry.fence.taken = _
        rw [hfence]
        rfl
      · rw [honly.entries]
    · next s' reply _ hresult =>
      rw [hresult] at honly
      obtain ⟨hforks, hothers, hreceipts, hentries⟩ := hdropped s' honly
      exact ⟨hforks, hothers, hreceipts, .inl hentries⟩
  · -- The candidate has another binding than the request: the handler refuses it.
    have hhandle : handleSourceReleaseLocked P s (sourceForkArgs args newId token .sourceReleaseResult)
        (some (.fork token)) now draws =
        (s, unavailable "source release handle unavailable") := by
      change handleTicket P s (sourceForkArgs args newId token .sourceReleaseResult) (.fork token) now draws = _
      unfold handleTicket
      rw [hheld]
      exact if_pos hbinding
    rw [hhandle]
    obtain ⟨hforks, hothers, hreceipts, hentries⟩ := hdropped s (.refl token s)
    exact ⟨hforks, hothers, hreceipts, .inl hentries⟩

end SourceRelease
