-- SUMMARY: The blockers of a review as a set of fingerprints: what the engine sends, what the store accepts, and how two sets compare.
import Mathlib.Data.String.Basic
import Mathlib.Data.Finset.Sort
import Aimee.Workflow.Transitions

/-!
# Blocker fingerprints

The engine hashes each blocking finding of a review and sends the set in the convergence payload
(`convergence.go`). The store takes it when it is canonical, and compares it with the set of the
round before.
-/

namespace Workflow

open String

/-! ## The producer -/

/-- The tables of package unicode that a fingerprint is made with. -/
structure RuneTables where
  isLetter : Char → Bool
  isNumber : Char → Bool
  toLower : Char → Char

abbrev Digest := { bytes : List UInt8 // bytes.length = 32 }

structure Finding where
  id : String
  persona : String
  severity : String
  location : String
  summary : String
  deriving DecidableEq

variable (tables : RuneTables) (sha256 : String → Digest)

/-- The loop of `normalizeBlockerField`: what is written so far, and whether a gap is pending. -/
def normalizeRunes : List Char → Bool → List Char → List Char
  | out, _, [] => out
  | out, space, r :: rest =>
    if tables.isLetter r || tables.isNumber r then
      let out := if space && !out.isEmpty then out ++ [' '] else out
      normalizeRunes (out ++ [tables.toLower r]) false rest
    else normalizeRunes out true rest

def normalizeBlockerField (value : String) : String :=
  ofList (normalizeRunes tables [] false (trimSpace value.toList))

def isBlockingFinding (finding : Finding) : Bool :=
  let severity := ofList ((trimSpace finding.severity.toList).map tables.toLower)
  (severity = "foundational" || severity = "blocking") && trimSpace finding.summary.toList ≠ []

/-- `hex.EncodeToString`. -/
def hexText (bytes : List UInt8) : String :=
  ofList (bytes.flatMap fun b => [Nat.digitChar (b.toNat / 16), Nat.digitChar (b.toNat % 16)])

/-- The hash of a finding. Its id is not part of it: a reviewer mints ids at will. -/
def fingerprint (gate : String) (finding : Finding) : String :=
  let fields := ["v1", normalizeBlockerField tables gate, normalizeBlockerField tables finding.persona,
    normalizeBlockerField tables finding.severity, normalizeBlockerField tables finding.location,
    normalizeBlockerField tables finding.summary]
  hexText (sha256 ("\x00".intercalate fields)).val

def maxConvergenceBlockers : ℕ := 64

/-- The loop of `blockerFingerprintSet`, which gives up at the first hash too many. -/
def collectBlockers (gate : String) : Finset String → List Finding → Option (Finset String)
  | unique, [] => some unique
  | unique, finding :: rest =>
    if isBlockingFinding tables finding then
      let unique := insert (fingerprint tables sha256 gate finding) unique
      if maxConvergenceBlockers < unique.card then none else collectBlockers gate unique rest
    else collectBlockers gate unique rest

/-- The findings of the feedback, where there is one. -/
def blockerFingerprintSet (gate : String) (feedback : Option (List Finding)) : String :=
  match feedback with
  | none => ""
  | some findings =>
    match collectBlockers tables sha256 gate ∅ findings with
    | none => ""
    | some unique => if unique.card = 0 then "" else ",".intercalate unique.sort

variable {tables sha256} {gate gate' raw previous current : String} {findings findings' : List Finding}

/-! ## What is collected -/

/-- The hashes of the blocking findings. -/
def fingerprints (tables : RuneTables) (sha256 : String → Digest) (gate : String)
    (findings : List Finding) : Finset String :=
  ((findings.filter (isBlockingFinding tables)).map (fingerprint tables sha256 gate)).toFinset

theorem mem_fingerprints {h : String} :
    h ∈ fingerprints tables sha256 gate findings ↔
      ∃ f ∈ findings, isBlockingFinding tables f = true ∧ fingerprint tables sha256 gate f = h := by
  simp [fingerprints, and_assoc]

theorem fingerprints_cons (f : Finding) (findings : List Finding) :
    fingerprints tables sha256 gate (f :: findings) =
      if isBlockingFinding tables f then
        insert (fingerprint tables sha256 gate f) (fingerprints tables sha256 gate findings)
      else fingerprints tables sha256 gate findings := by
  by_cases hf : isBlockingFinding tables f <;> simp [fingerprints, hf]

/-- The early exit is taken exactly when the whole set is too large, wherever the hash too many stands. -/
theorem collectBlockers_eq (gate : String) (unique : Finset String) (findings : List Finding)
    (hunique : unique.card ≤ maxConvergenceBlockers) :
    collectBlockers tables sha256 gate unique findings =
      if (unique ∪ fingerprints tables sha256 gate findings).card ≤ maxConvergenceBlockers then
        some (unique ∪ fingerprints tables sha256 gate findings)
      else none := by
  induction findings generalizing unique with
  | nil => simp [collectBlockers, fingerprints, hunique]
  | cons f rest ih =>
    rw [collectBlockers, fingerprints_cons]
    by_cases hf : isBlockingFinding tables f
    · have hunion : unique ∪ insert (fingerprint tables sha256 gate f) (fingerprints tables sha256 gate rest) =
          insert (fingerprint tables sha256 gate f) unique ∪ fingerprints tables sha256 gate rest := by
        rw [Finset.union_insert, Finset.insert_union]
      simp only [hf, if_true, hunion]
      by_cases hlarge : maxConvergenceBlockers < (insert (fingerprint tables sha256 gate f) unique).card
      · have hle : (insert (fingerprint tables sha256 gate f) unique).card ≤
          (_ ∪ fingerprints tables sha256 gate rest).card :=
          Finset.card_le_card Finset.subset_union_left
        rw [if_pos hlarge, if_neg (by omega)]
      · rw [if_neg hlarge]
        exact ih _ (not_lt.mp hlarge)
    · simp only [hf, if_false, Bool.false_eq_true]
      exact ih unique hunique

theorem blockerFingerprintSet_some (gate : String) (findings : List Finding) :
    blockerFingerprintSet tables sha256 gate (some findings) =
      if (fingerprints tables sha256 gate findings).card ≤ maxConvergenceBlockers ∧
          (fingerprints tables sha256 gate findings).Nonempty then
        ",".intercalate (fingerprints tables sha256 gate findings).sort
      else "" := by
  have hcollect : collectBlockers tables sha256 gate ∅ findings = _ :=
    collectBlockers_eq gate ∅ findings (Nat.zero_le _)
  simp only [blockerFingerprintSet, hcollect, ← Finset.card_pos]
  by_cases hsmall : (fingerprints tables sha256 gate findings).card ≤ maxConvergenceBlockers
  · rcases Nat.eq_zero_or_pos (fingerprints tables sha256 gate findings).card with hzero | hpos
    · simp [hzero]
    · simp [hsmall, hpos, hpos.ne']
  · simp [hsmall]

/-! ## Texts split at a character -/

theorem splitOnAux_singleton (c : Char) (l m r : List Char) (acc : List String) :
    String.splitOnAux (ofList (l ++ m ++ r)) (ofList [c]) ⟨utf8Len l⟩ ⟨utf8Len l + utf8Len m⟩ 0 acc =
      acc.reverse ++ (List.splitOnPPrepend (· == c) r m.reverse).map ofList := by
  have hend := atEnd_of_valid (l ++ m) r
  have hpart := extract_of_valid l m r
  rw [utf8Len_append] at hend
  rw [String.splitOnAux]
  cases r with
  | nil =>
    rw [if_pos (hend.mpr rfl), hpart]
    simp
  | cons d r =>
    have hget := get_of_valid (l ++ m) (d :: r)
    have hnext := next_of_valid (l ++ m) d r
    rw [utf8Len_append] at hget hnext
    have hsep : (0 : Pos.Raw).get (ofList [c]) = c := by simpa using get_of_valid [] [c]
    have hsepNext : (0 : Pos.Raw).next (ofList [c]) = ⟨c.utf8Size⟩ := by simpa using next_of_valid [] c []
    have hsepEnd : Pos.Raw.atEnd (ofList [c]) ⟨c.utf8Size⟩ := by
      simpa using (atEnd_of_valid [c] []).mpr rfl
    rw [if_neg (by simpa using hend)]
    simp only [hget, hnext, hsep, hsepNext, hsepEnd, List.headD_cons, beq_iff_eq, if_true]
    by_cases hd : d = c
    · -- a part ends here, and the next one starts behind the separator
      have hoff : Pos.Raw.unoffsetBy ⟨utf8Len l + utf8Len m + d.utf8Size⟩ ⟨c.utf8Size⟩ =
          (⟨utf8Len l + utf8Len m⟩ : Pos.Raw) := by
        simp [Pos.Raw.unoffsetBy, hd]
      have ih := splitOnAux_singleton c (l ++ m ++ [d]) [] r (ofList m :: acc)
      rw [hoff, hpart]
      simpa [List.splitOnPPrepend_cons_eq_if, hd, Nat.add_assoc] using ih
    · have hoff : Pos.Raw.unoffsetBy ⟨utf8Len l + utf8Len m⟩ 0 = (⟨utf8Len l + utf8Len m⟩ : Pos.Raw) := rfl
      have ih := splitOnAux_singleton c l (m ++ [d]) r acc
      rw [hoff, hnext]
      simpa [List.splitOnPPrepend_cons_eq_if, hd, Nat.add_assoc] using ih
termination_by r.length

theorem splitOn_comma (raw : String) : raw.splitOn "," = (raw.toList.splitOn ',').map ofList := by
  have h := splitOnAux_singleton ',' [] [] raw.toList []
  rw [List.splitOn_eq_splitOnP]
  simpa [String.splitOn] using h

/-! ## What the store accepts -/

/-- Sixty-four lower case hexadecimal digits. -/
def IsFingerprint (h : String) : Prop := h.toList.length = 64 ∧ ∀ c ∈ h.toList, isLowerHex c = true

theorem isFingerprint_hexText (digest : Digest) : IsFingerprint (hexText digest.val) := by
  have hdigit : ∀ n < 16, isLowerHex (Nat.digitChar n) = true := by decide
  constructor
  · simp [hexText, digest.property, List.length_flatMap]
  · intro c hc
    rw [hexText, toList_ofList, List.mem_flatMap] at hc
    obtain ⟨b, -, hc⟩ := hc
    have hb := b.toNat_lt
    rcases List.mem_pair.mp hc with rfl | rfl
    · exact hdigit _ (by omega)
    · exact hdigit _ (Nat.mod_lt _ (by decide))

theorem isFingerprint_of_mem {h : String} (hmem : h ∈ fingerprints tables sha256 gate findings) : IsFingerprint h := by
  obtain ⟨f, -, -, rfl⟩ := mem_fingerprints.mp hmem
  exact isFingerprint_hexText _

theorem utf8ByteSize_of_ascii {s : String} (h : ∀ c ∈ s.toList, c.val ≤ 127) : s.utf8ByteSize = s.toList.length := by
  have hlist : ∀ cs : List Char, (∀ c ∈ cs, c.val ≤ 127) → utf8Len cs = cs.length := by
    intro cs hcs
    induction cs with
    | nil => rfl
    | cons c cs ih =>
      rw [utf8Len_cons, ih fun d hd => hcs d (List.mem_cons_of_mem c hd), List.length_cons,
        Char.utf8Size_eq_one_iff.mpr (hcs c List.mem_cons_self)]
  rw [← hlist _ h, ← utf8ByteSize_ofList, ofList_toList]

theorem ascii_of_isLowerHex {c : Char} (h : isLowerHex c = true) : c.val ≤ 127 := by
  simp only [isLowerHex, Bool.or_eq_true, Bool.and_eq_true, decide_eq_true_eq, Char.le_def] at h
  have h9 : ('9' : Char).val ≤ 127 := by decide
  have hf : ('f' : Char).val ≤ 127 := by decide
  rcases h with h | h
  · exact UInt32.le_trans h.2 h9
  · exact UInt32.le_trans h.2 hf

/-- A comma-separated text of single texts is read back. -/
theorem splitOn_intercalate {parts : List String} (hne : parts ≠ []) (hcomma : ∀ p ∈ parts, ',' ∉ p.toList) :
    (",".intercalate parts).splitOn "," = parts := by
  have hsep : (",").toList = [','] := rfl
  rw [splitOn_comma, toList_intercalate, hsep, List.splitOn_intercalate]
  · simp [Function.comp_def]
  · intro l hl
    obtain ⟨p, hp, rfl⟩ := List.mem_map.mp hl
    exact hcomma p hp
  · simpa using hne

theorem length_intercalate {parts : List (List Char)} (h : ∀ p ∈ parts, p.length = 64) :
    ([','].intercalate parts).length ≤ 65 * parts.length - 1 := by
  induction parts with
  | nil => simp
  | cons p rest ih =>
    have hp := h p List.mem_cons_self
    have ih := ih fun q hq => h q (List.mem_cons_of_mem p hq)
    cases rest with
    | nil => simp [hp]
    | cons q rest =>
      rw [List.intercalate_cons_cons]
      simp only [List.length_append, List.length_cons, List.length_nil] at ih ⊢
      omega

theorem mem_intercalate {parts : List (List Char)} {c : Char} (h : c ∈ [','].intercalate parts) :
    c = ',' ∨ ∃ p ∈ parts, c ∈ p := by
  induction parts with
  | nil => simp at h
  | cons p rest ih =>
    cases rest with
    | nil => exact .inr ⟨p, List.mem_cons_self, by simpa using h⟩
    | cons q rest =>
      rw [List.intercalate_cons_cons, List.mem_append, List.mem_append, List.mem_singleton] at h
      rcases h with (h | h) | h
      · exact .inr ⟨p, List.mem_cons_self, h⟩
      · exact .inl h
      · exact (ih h).imp id fun ⟨p', hp', hc⟩ => ⟨p', List.mem_cons_of_mem p hp', hc⟩

theorem canonicalBlockerSet_intercalate {set : Finset String} (hne : set.Nonempty)
    (hcard : set.card ≤ maxConvergenceBlockers)
    (hset : ∀ h ∈ set, IsFingerprint h) : canonicalBlockerSet (",".intercalate set.sort) = true := by
  have hpart : ∀ h ∈ set.sort, IsFingerprint h := fun h hh => hset h ((Finset.mem_sort _).mp hh)
  have hsortne : set.sort ≠ [] := by
    rw [← List.length_pos_iff, Finset.length_sort]
    exact hne.card_pos
  have hsplit : (",".intercalate set.sort).splitOn "," = set.sort :=
    splitOn_intercalate hsortne fun p hp hcomma => absurd ((hpart p hp).2 _ hcomma) (by decide)
  have hascii : ∀ h, IsFingerprint h → h.utf8ByteSize = 64 := fun h hh =>
    (utf8ByteSize_of_ascii fun c hc => ascii_of_isLowerHex (hh.2 c hc)).trans hh.1
  have hsize : (",".intercalate set.sort).utf8ByteSize ≤ 4160 := by
    have hlength : ∀ p ∈ set.sort.map toList, p.length = 64 := by
      intro p hp
      obtain ⟨h, hh, rfl⟩ := List.mem_map.mp hp
      exact (hpart h hh).1
    have hbound := length_intercalate hlength
    rw [List.length_map, Finset.length_sort] at hbound
    rw [utf8ByteSize_of_ascii, toList_intercalate]
    · exact hbound.trans (by rw [maxConvergenceBlockers] at hcard; omega)
    · intro c hc
      rw [toList_intercalate] at hc
      rcases mem_intercalate hc with rfl | ⟨p, hp, hc⟩
      · decide
      · obtain ⟨h, hh, rfl⟩ := List.mem_map.mp hp
        exact ascii_of_isLowerHex ((hpart h hh).2 c hc)
  have hnonempty : ",".intercalate set.sort ≠ "" := by
    intro h
    rw [h] at hsplit
    have hmem : "" ∈ set.sort := by
      rw [← hsplit, splitOn_comma]
      decide
    exact absurd (hpart _ hmem).1 (by decide)
  simp only [canonicalBlockerSet, hsplit, Bool.and_eq_true, decide_eq_true_eq, List.all_eq_true]
  refine ⟨⟨⟨⟨hnonempty, hsize⟩, ?_⟩, fun h hh => ⟨hascii h (hpart h hh), fun c hc => (hpart h hh).2 c hc⟩⟩, ?_⟩
  · rw [Finset.length_sort]
    exact hcard
  · exact (Finset.sortedLT_sort set).pairwise

/-! ## How two sets compare -/

/-- The fingerprints of a set in its written form. -/
def blockerMembers (raw : String) : Finset String := (raw.splitOn ",").toFinset

theorem blockerSetRelationship_eq (previous current : String) :
    blockerSetRelationship previous current =
      if blockerMembers current ⊂ blockerMembers previous then "progress"
      else if blockerMembers current = blockerMembers previous then "stalled"
      else if blockerMembers previous ⊂ blockerMembers current then "regression"
      else "churn" := by
  have hinside (a b : String) : ((a.splitOn ",").dedup.all (· ∈ (b.splitOn ",").dedup)) = true ↔
    blockerMembers a ⊆ blockerMembers b := by
    simp [blockerMembers, Finset.subset_iff]
  have hcard (a : String) : (a.splitOn ",").dedup.length = (blockerMembers a).card := (List.card_toFinset _).symm
  have hproper (a b : String) : blockerMembers a ⊂ blockerMembers b ↔
      blockerMembers a ⊆ blockerMembers b ∧ (blockerMembers a).card < (blockerMembers b).card :=
    ⟨fun h => ⟨h.1, Finset.card_lt_card h⟩, fun h => h.1.ssubset_of_ne fun heq => h.2.ne (congrArg Finset.card heq)⟩
  simp only [blockerSetRelationship, Bool.and_eq_true, hinside, hcard, decide_eq_true_eq, ← hproper]
  by_cases hsub : blockerMembers current ⊂ blockerMembers previous
  · rw [if_pos hsub, if_pos hsub]
  by_cases heq : blockerMembers current = blockerMembers previous
  · rw [if_neg hsub, if_neg hsub, if_pos heq, if_pos ⟨heq.subset, heq.symm.subset⟩]
  have hsup : blockerMembers previous ⊆ blockerMembers current ↔ blockerMembers previous ⊂ blockerMembers current :=
    ⟨fun h => h.ssubset_of_ne (Ne.symm heq), fun h => h.1⟩
  rw [if_neg hsub, if_neg hsub, if_neg heq, if_neg fun h => heq (h.1.antisymm h.2)]
  simp only [hsup]

/-- The findings pass the same test of severity and summary, and differ in nothing that a hash is made of. -/
structure Alike (tables : RuneTables) (f f' : Finding) : Prop where
  blocking : isBlockingFinding tables f = isBlockingFinding tables f'
  persona : normalizeBlockerField tables f.persona = normalizeBlockerField tables f'.persona
  severity : normalizeBlockerField tables f.severity = normalizeBlockerField tables f'.severity
  location : normalizeBlockerField tables f.location = normalizeBlockerField tables f'.location
  summary : normalizeBlockerField tables f.summary = normalizeBlockerField tables f'.summary

theorem Alike.symm {f f' : Finding} (h : Alike tables f f') : Alike tables f' f :=
  ⟨h.1.symm, h.2.symm, h.3.symm, h.4.symm, h.5.symm⟩

/-- Every finding of the one list has its like in the other: the order, the number of times a finding
    stands there and the ids do not matter. -/
def SameFindings (tables : RuneTables) (findings findings' : List Finding) : Prop :=
  (∀ f ∈ findings, ∃ f' ∈ findings', Alike tables f f') ∧ ∀ f' ∈ findings', ∃ f ∈ findings, Alike tables f f'

section

variable (hgate : normalizeBlockerField tables gate = normalizeBlockerField tables gate')
include hgate

theorem fingerprint_eq_of_alike {f f' : Finding}
    (h : Alike tables f f') : fingerprint tables sha256 gate f = fingerprint tables sha256 gate' f' := by
  rw [fingerprint, fingerprint, hgate, h.persona, h.severity, h.location, h.summary]

theorem fingerprints_subset (h : ∀ f ∈ findings, ∃ f' ∈ findings', Alike tables f f') :
    fingerprints tables sha256 gate findings ⊆ fingerprints tables sha256 gate' findings' := by
  intro hash hhash
  obtain ⟨f, hf, hblocking, rfl⟩ := mem_fingerprints.mp hhash
  obtain ⟨f', hf', halike⟩ := h f hf
  exact mem_fingerprints.mpr
    ⟨f', hf', halike.blocking ▸ hblocking, (fingerprint_eq_of_alike hgate halike).symm⟩

theorem fingerprints_eq (h : SameFindings tables findings findings') :
    fingerprints tables sha256 gate findings = fingerprints tables sha256 gate' findings' := by
  refine (fingerprints_subset hgate h.1).antisymm (fingerprints_subset hgate.symm fun f' hf' => ?_)
  obtain ⟨f, hf, halike⟩ := h.2 f' hf'
  exact ⟨f, hf, halike.symm⟩

end

theorem empty_or_canonical (gate : String) (feedback : Option (List Finding)) :
    blockerFingerprintSet tables sha256 gate feedback = "" ∨
      canonicalBlockerSet (blockerFingerprintSet tables sha256 gate feedback) = true := by
  cases feedback with
  | none => exact .inl rfl
  | some findings =>
    rw [blockerFingerprintSet_some]
    split_ifs with h
    · exact .inr (canonicalBlockerSet_intercalate h.2 h.1 fun _ => isFingerprint_of_mem)
    · exact .inl rfl

/-- A fingerprint set is empty or canonical, does not depend on order, repetition, ids or presentation,
    and two sets are related as their members are. -/
theorem blockerSets_sound (tables : RuneTables) (sha256 : String → Digest) :
    (∀ gate feedback, blockerFingerprintSet tables sha256 gate feedback = "" ∨
      canonicalBlockerSet (blockerFingerprintSet tables sha256 gate feedback) = true) ∧
    (∀ gate gate' findings findings', normalizeBlockerField tables gate = normalizeBlockerField tables gate' →
      SameFindings tables findings findings' →
      blockerFingerprintSet tables sha256 gate (some findings) = blockerFingerprintSet tables sha256 gate'
        (some findings')) ∧
    ∀ previous current, canonicalBlockerSet previous = true → canonicalBlockerSet current = true →
      (blockerSetRelationship previous current = "progress" ↔ blockerMembers current ⊂ blockerMembers previous) ∧
      (blockerSetRelationship previous current = "stalled" ↔ blockerMembers current = blockerMembers previous) ∧
      (blockerSetRelationship previous current = "regression" ↔ blockerMembers previous ⊂ blockerMembers current) ∧
      (blockerSetRelationship previous current = "churn" ↔ ¬blockerMembers current ⊂ blockerMembers previous ∧
        blockerMembers current ≠ blockerMembers previous ∧ ¬blockerMembers previous ⊂ blockerMembers current) := by
  refine ⟨empty_or_canonical, fun gate gate' findings findings' hgate hsame => ?_, fun previous current _ _ => ?_⟩
  · rw [blockerFingerprintSet_some, blockerFingerprintSet_some, fingerprints_eq hgate hsame]
  · rw [blockerSetRelationship_eq]
    by_cases hsub : blockerMembers current ⊂ blockerMembers previous
    · simp [hsub, hsub.ne, hsub.not_subset, ssubset_iff_subset_not_subset]
    by_cases heq : blockerMembers current = blockerMembers previous
    · simp [heq]
    by_cases hsup : blockerMembers previous ⊂ blockerMembers current
    · simp [hsub, heq, hsup]
    · simp [hsub, heq, hsup]

/-! ## Samples -/

def asciiTables : RuneTables := ⟨Char.isAlpha, Char.isDigit, Char.toLower⟩

theorem length_zeroDigest : (List.replicate 32 (0 : UInt8)).length = 32 := by decide

def zeroDigest : Digest := ⟨List.replicate 32 0, length_zeroDigest⟩

def blockingFinding : Finding := ⟨"f1", "security", "blocking", "main.go", "leaks a secret"⟩

/-- The same finding under another id and in other letters. -/
def mintedFinding : Finding := { blockingFinding with id := "f2", persona := "Security", location := "main go" }

theorem blockerSets_sound_minted :
    blockerFingerprintSet asciiTables (fun _ => zeroDigest) "Review" (some [blockingFinding, mintedFinding]) =
      blockerFingerprintSet asciiTables (fun _ => zeroDigest) "review!" (some [mintedFinding]) := by
  have halike : Alike asciiTables blockingFinding mintedFinding := by constructor <;> decide
  refine (blockerSets_sound asciiTables fun _ => zeroDigest).2.1 _ _ _ _ (by decide) ⟨fun f hf => ?_, fun f hf => ?_⟩
  · rcases List.mem_pair.mp hf with rfl | rfl
    · exact ⟨mintedFinding, List.mem_singleton_self _, halike⟩
    · exact ⟨mintedFinding, List.mem_singleton_self _, ⟨rfl, rfl, rfl, rfl, rfl⟩⟩
  · rw [List.mem_singleton.mp hf]
    exact ⟨blockingFinding, List.mem_cons_self, halike⟩

/-- The severity is told from `blocking` by the test alone: normalized, it is the same. -/
def markedFinding : Finding := { blockingFinding with severity := "blocking!" }

theorem blockerFingerprintSet_of_markedFinding :
    normalizeBlockerField asciiTables markedFinding.severity =
      normalizeBlockerField asciiTables blockingFinding.severity ∧
    blockerFingerprintSet asciiTables (fun _ => zeroDigest) "review" (some [markedFinding]) = "" ∧
    blockerFingerprintSet asciiTables (fun _ => zeroDigest) "review" (some [blockingFinding]) ≠ "" := by
  refine ⟨by decide, ?_, fun h => ?_⟩
  · have hmarked : isBlockingFinding asciiTables markedFinding = false := by decide
    have hset : fingerprints asciiTables (fun _ => zeroDigest) "review" [markedFinding] = ∅ := by
      rw [fingerprints_cons, if_neg (by simp [hmarked])]
      rfl
    simp [blockerFingerprintSet_some, hset]
  · have hblocking : isBlockingFinding asciiTables blockingFinding = true := by decide
    have hset : fingerprints asciiTables (fun _ => zeroDigest) "review" [blockingFinding] =
      {hexText zeroDigest.val} := by
      rw [fingerprints_cons, if_pos hblocking]
      rfl
    have hcanonical := canonicalBlockerSet_intercalate (Finset.singleton_nonempty (hexText zeroDigest.val)) (by decide)
      fun _ hmem => Finset.mem_singleton.mp hmem ▸ isFingerprint_hexText zeroDigest
    rw [blockerFingerprintSet_some, hset, if_pos ⟨by decide, Finset.singleton_nonempty _⟩] at h
    rw [h] at hcanonical
    exact absurd hcanonical (by decide)

end Workflow
