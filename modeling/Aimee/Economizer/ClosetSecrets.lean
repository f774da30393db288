-- SUMMARY: The secrets of the Coordinate Closet: which mentions of a value decide whether it is printed.
import Aimee.Economizer.Closet
import Mathlib.Data.List.Pairwise

/-!
# Secrets of the closet

A set of coordinates keeps the first mention of a value in a lane, and the rendering redacts by the
label of the mention that was kept. The texts are taken in the order in which they are scanned, each
from its front.
-/

namespace Economizer

/-! ## Mentions -/

/-- A coordinate of a text, where the scan finds it. -/
structure Mention where
  value : Text
  label : Text
  kind : CoordKind
  prov : Provenance
  offset : ℕ
  deriving DecidableEq

/-- The coordinates that `nominateFrom` comes upon. -/
def mentionsFrom (prov : Provenance) : Text → (skip : ℕ) → (boundary : Bool) → (offset : ℕ) → List Mention
  | [], _, _, _ => []
  | c :: rest, skip + 1, _, offset => mentionsFrom prov rest skip (isIdentBoundary c) (offset + 1)
  | c :: rest, 0, false, offset => mentionsFrom prov rest 0 (isIdentBoundary c) (offset + 1)
  | c :: rest, 0, true, offset =>
    match coordAt (c :: rest) with
    | some (m, value, label, kind) =>
      { value := value, label := label, kind := kind, prov := prov, offset := offset } ::
        mentionsFrom prov rest (m - 1) (isIdentBoundary c) (offset + 1)
    | none => mentionsFrom prov rest 0 (isIdentBoundary c) (offset + 1)

/-- What one call of `NominateInto` scans. -/
structure Scan where
  raw : Text
  prov : Provenance

def mentions (scans : List Scan) : List Mention := scans.flatMap fun s => mentionsFrom s.prov s.raw 0 true 0

/-- A sequence of calls of `NominateInto` into one set. -/
def nominateAll (scans : List Scan) : CoordSet := scans.foldl (fun set s => nominateInto s.raw s.prov set) []

def CoordSet.note (set : CoordSet) (m : Mention) : CoordSet := set.add m.value m.label m.kind m.prov m.offset

theorem nominateFrom_eq (prov : Provenance) (s : Text) (skip : ℕ) (boundary : Bool) (offset : ℕ) (set : CoordSet) :
    nominateFrom prov s skip boundary offset set =
      (mentionsFrom prov s skip boundary offset).foldl CoordSet.note set := by
  induction s generalizing skip boundary offset set with
  | nil => cases skip <;> cases boundary <;> rfl
  | cons c rest ih =>
    cases skip with
    | succ skip => exact ih skip _ _ _
    | zero =>
      cases boundary with
      | false => exact ih 0 _ _ _
      | true =>
        rw [nominateFrom, mentionsFrom]
        cases coordAt (c :: rest) with
        | some coord => exact ih _ _ _ _
        | none => exact ih 0 _ _ _

theorem nominateAll_eq (scans : List Scan) : nominateAll scans = (mentions scans).foldl CoordSet.note [] := by
  have hfold : ∀ set : CoordSet, scans.foldl (fun set s => nominateInto s.raw s.prov set) set =
      (mentions scans).foldl CoordSet.note set := by
    induction scans with
    | nil => exact fun _ => rfl
    | cons s scans ih =>
      intro set
      have hcons : mentions (s :: scans) = mentionsFrom s.prov s.raw 0 true 0 ++ mentions scans := rfl
      rw [List.foldl_cons, ih, hcons, List.foldl_append, nominateInto, nominateFrom_eq]
  exact hfold []

/-- A value stands in a lane. -/
def Mention.isOf (lane : Lane) (value : Text) (m : Mention) : Bool := m.prov.lane = lane && m.value = value

def CoordEntry.isOf (lane : Lane) (value : Text) (e : CoordEntry) : Bool := e.prov.lane = lane && e.value = value

def Mention.entry (m : Mention) : CoordEntry where
  value := m.value
  label := m.label
  kind := m.kind
  prov := m.prov
  firstOffset := m.offset

/-- The first mention of a value in a lane. -/
def firstMention (scans : List Scan) (lane : Lane) (value : Text) : Option Mention :=
  (mentions scans).find? (Mention.isOf lane value)

theorem note_eq (set : CoordSet) (m : Mention) :
    set.note m = if m.value = [] ∨ set.any (CoordEntry.isOf m.prov.lane m.value) then set else set ++ [m.entry] := rfl

theorem isOf_entry (lane : Lane) (value : Text) (m : Mention) : m.entry.isOf lane value = m.isOf lane value := rfl

variable {lane : Lane} {value : Text} {scans : List Scan} {e : CoordEntry} {s : Text} {c : UInt8} {p : Text}
     {es : List CoordEntry}

variable {m : Mention} {set : CoordSet} {b : UInt8} {userDiv : Bool} {denylist : Text} {header : Text}
     {note : List Text} {l : Text} {cfg : ClosetConfig} {rawLen : ℕ}

theorem isOf_iff :
    m.isOf lane value ↔ m.prov.lane = lane ∧ m.value = value := by
  rw [Mention.isOf, Bool.and_eq_true, decide_eq_true_eq, decide_eq_true_eq]

theorem find_note (hvalue : value ≠ []) (set : CoordSet) (m : Mention) :
    (set.note m).find? (CoordEntry.isOf lane value) =
      (set.find? (CoordEntry.isOf lane value)).or ([m].find? (Mention.isOf lane value) |>.map Mention.entry) := by
  have hentry : [m.entry].find? (CoordEntry.isOf lane value) =
      ([m].find? (Mention.isOf lane value)).map Mention.entry := by
    rw [List.find?_singleton, List.find?_singleton, isOf_entry, apply_ite (Option.map Mention.entry)]
    rfl
  rw [note_eq]
  split
  · next hskip =>
    by_cases hm : m.isOf lane value
    · obtain ⟨rfl, rfl⟩ := isOf_iff.mp hm
      obtain ⟨e, he⟩ := Option.isSome_iff_exists.mp
        (List.find?_isSome.mpr (List.any_eq_true.mp (hskip.resolve_left hvalue)))
      rw [he]
      rfl
    · rw [List.find?_singleton, if_neg hm]
      exact (Option.or_none).symm
  · rw [List.find?_append, hentry]

/-- A set keeps the first entry of a value in a lane. -/
theorem find_foldl_note (hvalue : value ≠ []) (ms : List Mention) (set : CoordSet) :
    (ms.foldl CoordSet.note set).find? (CoordEntry.isOf lane value) =
      (set.find? (CoordEntry.isOf lane value)).or ((ms.find? (Mention.isOf lane value)).map Mention.entry) := by
  induction ms generalizing set with
  | nil => exact (Option.or_none).symm
  | cons m ms ih =>
    have hcons : (m :: ms).find? (Mention.isOf lane value) =
        ([m].find? (Mention.isOf lane value)).or (ms.find? (Mention.isOf lane value)) := by
      rw [← List.find?_append, List.singleton_append]
    rw [List.foldl_cons, ih, find_note hvalue, Option.or_assoc, hcons, Option.map_or]

theorem find_nominateAll (hvalue : value ≠ []) (scans : List Scan) :
    (nominateAll scans).find? (CoordEntry.isOf lane value) = (firstMention scans lane value).map Mention.entry := by
  rw [nominateAll_eq, find_foldl_note hvalue]
  rfl

theorem pairwise_foldl_note (ms : List Mention)
    (h : set.Pairwise fun a b => ¬(a.prov.lane = b.prov.lane ∧ a.value = b.value)) :
    (ms.foldl CoordSet.note set).Pairwise fun a b => ¬(a.prov.lane = b.prov.lane ∧ a.value = b.value) := by
  induction ms generalizing set with
  | nil => exact h
  | cons m ms ih =>
    rw [List.foldl_cons]
    refine ih ?_
    rw [note_eq]
    split
    · exact h
    · next hnew =>
      refine List.pairwise_append.mpr ⟨h, List.pairwise_singleton _ _, fun a ha b hb => ?_⟩
      obtain rfl := List.mem_singleton.mp hb
      intro hab
      refine hnew (.inr (List.any_eq_true.mpr ⟨a, ha, ?_⟩))
      rw [CoordEntry.isOf, Bool.and_eq_true, decide_eq_true_eq, decide_eq_true_eq]
      exact hab

theorem firstMention_of_mem (he : e ∈ nominateAll scans) (hvalue : e.value ≠ []) :
    ∃ m, firstMention scans e.prov.lane e.value = some m ∧ m.entry = e := by
  have hdistinct := pairwise_foldl_note (mentions scans) List.Pairwise.nil
  rw [← nominateAll_eq] at hdistinct
  have hself : e.isOf e.prov.lane e.value := by simp [CoordEntry.isOf]
  obtain ⟨first, hfirst⟩ := Option.isSome_iff_exists.mp (List.find?_isSome.mpr ⟨e, he, hself⟩)
  have hof := List.find?_some hfirst
  rw [CoordEntry.isOf, Bool.and_eq_true, decide_eq_true_eq, decide_eq_true_eq] at hof
  have heq : first = e := by
    have hsymm : Std.Symm fun a b : CoordEntry => ¬(a.prov.lane = b.prov.lane ∧ a.value = b.value) :=
      ⟨fun a b hab h => hab ⟨h.1.symm, h.2.symm⟩⟩
    by_contra hne
    exact hdistinct.forall (List.mem_of_find?_eq_some hfirst) he hne hof
  rw [find_nominateAll hvalue, Option.map_eq_some_iff, heq] at hfirst
  exact hfirst

theorem mem_foldl_note {ms : List Mention} (h : e ∈ ms.foldl CoordSet.note set) :
    e ∈ set ∨ ∃ m ∈ ms, m.entry = e := by
  induction ms generalizing set with
  | nil => exact .inl h
  | cons m ms ih =>
    rcases ih h with hset | ⟨m', hm', hentry⟩
    · rw [note_eq] at hset
      split at hset
      · exact .inl hset
      · rcases List.mem_append.mp hset with hset | hset
        · exact .inl hset
        · exact .inr ⟨m, List.mem_cons_self, (List.mem_singleton.mp hset).symm⟩
    · exact .inr ⟨m', List.mem_cons_of_mem _ hm', hentry⟩

theorem mem_mentionsFrom {prov : Provenance} {skip offset : ℕ} {boundary : Bool}
    (h : m ∈ mentionsFrom prov s skip boundary offset) :
    m.prov = prov ∧ ∃ p len, coordAt p = some (len, m.value, m.label, m.kind) := by
  induction s generalizing skip boundary offset with
  | nil => cases skip <;> cases boundary <;> exact nomatch h
  | cons c rest ih =>
    cases skip with
    | succ skip => exact ih h
    | zero =>
      cases boundary with
      | false => exact ih h
      | true =>
        rw [mentionsFrom] at h
        split at h
        · next len value label kind hcoord =>
          rcases List.mem_cons.mp h with rfl | h
          · exact ⟨rfl, c :: rest, len, hcoord⟩
          · exact ih h
        · exact ih h

/-! ## Bytes of a coordinate -/

/-- A byte that may stand in a value or a label. -/
def isCoordByte (c : UInt8) : Bool := aAlnum c || c = 95 || c = 45 || c = 46 || c = 47 || c = 58 || c = 35

theorem isCoordByte_iff :
    isCoordByte c ↔ aAlnum c ∨ c = 95 ∨ c = 45 ∨ c = 46 ∨ c = 47 ∨ c = 58 ∨ c = 35 := by
  simp only [isCoordByte, Bool.or_eq_true, decide_eq_true_eq, or_assoc]

theorem isCoordByte_of_digit (h : aDigit c) : isCoordByte c :=
  isCoordByte_iff.mpr (.inl (by rw [aAlnum, h, Bool.or_true]))

theorem isCoordByte_of_hex (h : isHex c) : isCoordByte c := by
  refine isCoordByte_iff.mpr (.inl ?_)
  simp only [isHex, aAlnum, aAlpha, aDigit, Bool.or_eq_true, Bool.and_eq_true, decide_eq_true_eq,
    UInt8.le_iff_toNat_le, UInt8.reduceToNat] at h ⊢
  omega

theorem coordByte_takeWhile {f : UInt8 → Bool} (hf : ∀ c, f c → isCoordByte c) (s : Text) :
    ∀ c ∈ s.takeWhile f, isCoordByte c :=
  fun c hc => hf c (List.mem_takeWhile_imp hc)

theorem mem_of_mem_trimDots (h : c ∈ trimDots s) : c ∈ s :=
  List.mem_reverse.mp ((List.dropWhile_sublist _).subset (List.mem_reverse.mp h))

theorem trimDots_isPrefix (s : Text) : trimDots s <+: s := by
  have hsuffix := List.dropWhile_suffix (fun c : UInt8 => decide (c = 46)) (l := s.reverse)
  rw [← List.reverse_prefix, List.reverse_reverse] at hsuffix
  exact hsuffix

theorem take_of_prefix {t s : Text} (h : t <+: s) : s.take t.length = t := (List.prefix_iff_eq_take.mp h).symm

theorem isCoordByte_hex (h : s.all isHex) : ∀ c ∈ s, isCoordByte c :=
  fun c hc => isCoordByte_of_hex (List.all_eq_true.mp h c hc)

theorem matchHexGroups_bytes {gs : List ℕ} {s rest : Text} (hne : gs ≠ []) (h : matchHexGroups gs s = some rest) :
    ∃ t, s = t ++ rest ∧ (∀ c ∈ t, isCoordByte c) ∧ t.length + 1 = gs.sum + gs.length := by
  induction gs generalizing s with
  | nil => exact absurd rfl hne
  | cons g gs ih =>
    rw [matchHexGroups] at h
    split at h
    · cases h
    next hgroup =>
    rw [not_or, not_not, Bool.not_eq_true, Bool.not_eq_false'] at hgroup
    obtain ⟨hlength, hhex⟩ := hgroup
    have hbytes := isCoordByte_hex hhex
    have hs := (List.take_append_drop g s).symm
    split at h
    · next hgs =>
      cases h
      refine ⟨s.take g, hs, hbytes, ?_⟩
      rw [hlength, hgs]
      rfl
    · next hgs =>
      split at h
      · next after hafter =>
        obtain ⟨t, rfl, ht, htlength⟩ := ih hgs h
        refine ⟨s.take g ++ 45 :: t, ?_, ?_, ?_⟩
        · rw [List.append_assoc, List.cons_append, ← hafter, List.take_append_drop]
        · exact List.forall_mem_append.mpr ⟨hbytes, List.forall_mem_cons.mpr ⟨rfl, ht⟩⟩
        · rw [List.length_append, hlength, List.length_cons, List.sum_cons, List.length_cons]
          omega
      · cases h

theorem matchUUID_bytes (h : 0 < matchUUID p) : ∀ c ∈ p.take (matchUUID p), isCoordByte c := by
  rw [matchUUID] at h ⊢
  split at h
  · next rest hgroups =>
    obtain ⟨t, rfl, ht, hlength⟩ := matchHexGroups_bytes (List.cons_ne_nil _ _) hgroups
    have h36 : t.length = 36 := by simpa using hlength
    split at h
    · exact absurd h (Nat.lt_irrefl 0)
    · next hend =>
      rw [if_neg hend, ← h36, List.take_left]
      exact ht
  · exact absurd h (Nat.lt_irrefl 0)

theorem handle_bytes {p lead label : Text} {r : ℕ × Text} (hlead : ∀ c ∈ lead, isCoordByte c)
    (hlabel : ∀ c ∈ label, isCoordByte c)
    (h : (if lead.isPrefixOf p && (p.drop lead.length).takeWhile (fun c => aAlnum c || c = 95 || c = 45) ≠ [] then
        some (lead.length + ((p.drop lead.length).takeWhile fun c => aAlnum c || c = 95 || c = 45).length, label)
      else none) = some r) :
    (∀ c ∈ p.take r.1, isCoordByte c) ∧ ∀ c ∈ r.2, isCoordByte c := by
  split at h
  · next hmatch =>
    rw [Bool.and_eq_true] at hmatch
    obtain ⟨after, rfl⟩ := List.isPrefixOf_iff_prefix.mp hmatch.1
    cases h
    refine ⟨?_, hlabel⟩
    dsimp only
    rw [List.drop_left, List.take_length_add_append, take_of_prefix (List.takeWhile_prefix _)]
    refine List.forall_mem_append.mpr ⟨hlead, coordByte_takeWhile (fun c hc => isCoordByte_iff.mpr ?_) _⟩
    simp only [Bool.or_eq_true, decide_eq_true_eq] at hc
    tauto
  · cases h

theorem matchHandle_bytes (h : 0 < (matchHandle p).1) :
    (∀ c ∈ p.take (matchHandle p).1, isCoordByte c) ∧ ∀ c ∈ (matchHandle p).2, isCoordByte c := by
  have hcases : ∀ {P : ℕ × Text → Prop} {a b : Option (ℕ × Text)}, (∀ r, a = some r → P r) → (∀ r, b = some r → P r) →
      0 < ((a.orElse fun _ => b).getD (0, [])).1 → P ((a.orElse fun _ => b).getD (0, [])) := by
    intro P a b ha hb hpos
    cases a with
    | some r => exact ha r rfl
    | none =>
      cases b with
      | some r => exact hb r rfl
      | none => exact absurd hpos (Nat.lt_irrefl 0)
  exact hcases (P := fun r => (∀ c ∈ p.take r.1, isCoordByte c) ∧ ∀ c ∈ r.2, isCoordByte c)
    (fun _ => handle_bytes (List.all_eq_true.mp (by decide)) (List.all_eq_true.mp (by decide)))
    (fun _ => handle_bytes (List.all_eq_true.mp (by decide)) (List.all_eq_true.mp (by decide))) h

theorem aLower_bytes (h : aAlnum b || b = 95) : isCoordByte (aLower b) := by
  unfold aLower
  split
  · next hupper =>
    have htoNat : (b + 32).toNat = b.toNat + 32 := by
      rw [Bool.and_eq_true, decide_eq_true_eq, decide_eq_true_eq, UInt8.le_iff_toNat_le,
        UInt8.le_iff_toNat_le] at hupper
      exact (UInt8.toNat_add b 32).trans
        (Nat.mod_eq_of_lt (Nat.lt_of_le_of_lt (Nat.add_le_add_right hupper.2 32) (by decide)))
    refine isCoordByte_iff.mpr (.inl ?_)
    simp only [aAlnum, aAlpha, aDigit, Bool.or_eq_true, Bool.and_eq_true, decide_eq_true_eq, UInt8.le_iff_toNat_le,
      UInt8.reduceToNat, htoNat] at hupper ⊢
    omega
  · rw [Bool.or_eq_true, decide_eq_true_eq] at h
    exact isCoordByte_iff.mpr (h.imp_right .inl)

theorem trimDots_ne_nil (h : s.any aDigit) : trimDots s ≠ [] := by
  obtain ⟨b, hb, hdigit⟩ := List.any_eq_true.mp h
  intro hnil
  rw [trimDots, List.reverse_eq_nil_iff, List.dropWhile_eq_nil_iff] at hnil
  obtain rfl := of_decide_eq_true (hnil b (List.mem_reverse.mpr hb))
  exact absurd hdigit (by decide)

theorem matchKV_bytes (h : 0 < (matchKV p).1) :
    (∀ c ∈ (matchKV p).2.2, isCoordByte c) ∧ (∀ c ∈ (matchKV p).2.1, isCoordByte c) ∧ (matchKV p).2.2 ≠ [] := by
  rw [matchKV] at h ⊢
  dsimp only at h ⊢
  split at h
  · exact absurd h (Nat.lt_irrefl 0)
  next hstart =>
  rw [if_neg hstart]
  split at h
  · next rest hrest =>
    split at h
    · exact absurd h (Nat.lt_irrefl 0)
    next hdigit =>
    rw [if_neg hdigit]
    refine ⟨fun c hc => ?_, fun c hc => ?_, ?_⟩
    · refine coordByte_takeWhile (fun b hb => isCoordByte_iff.mpr ?_) _ c (mem_of_mem_trimDots hc)
      simp only [Bool.or_eq_true, decide_eq_true_eq] at hb
      tauto
    · obtain ⟨b, hb, rfl⟩ := List.mem_map.mp hc
      exact aLower_bytes (List.mem_takeWhile_imp (p := fun c => aAlnum c || decide (c = 95)) hb)
    · exact trimDots_ne_nil (by simpa using hdigit)
  · exact absurd h (Nat.lt_irrefl 0)

theorem matchPath_bytes (h : 0 < matchPath p) : ∀ c ∈ p.take (matchPath p), isCoordByte c := by
  rw [matchPath] at h ⊢
  split at h
  · exact absurd h (Nat.lt_irrefl 0)
  next hlong =>
  split at h
  · exact absurd h (Nat.lt_irrefl 0)
  next hshape =>
  rw [if_neg hlong, if_neg hshape, take_of_prefix ((trimDots_isPrefix _).trans (List.takeWhile_prefix _))]
  refine fun c hc => coordByte_takeWhile (fun b hb => isCoordByte_iff.mpr ?_) _ c (mem_of_mem_trimDots hc)
  simp only [Bool.or_eq_true, decide_eq_true_eq] at hb
  tauto

theorem matchSHA_bytes (h : 0 < matchSHA p) : ∀ c ∈ p.take (matchSHA p), isCoordByte c := by
  rw [matchSHA] at h ⊢
  split at h
  · exact absurd h (Nat.lt_irrefl 0)
  next hrun =>
  split at h
  · exact absurd h (Nat.lt_irrefl 0)
  next hend =>
  rw [if_neg hrun, if_neg hend, take_of_prefix ((List.takeWhile_prefix _).trans (List.take_prefix _ _))]
  exact coordByte_takeWhile (fun _ => isCoordByte_of_hex) _

theorem matchRef_bytes (h : 0 < matchRef p) : ∀ c ∈ p.take (matchRef p), isCoordByte c := by
  unfold matchRef at h ⊢
  split at h
  · next rest =>
    dsimp only at h ⊢
    split at h
    · exact absurd h (Nat.lt_irrefl 0)
    next hdigits =>
    rw [if_neg hdigits, Nat.add_comm, List.take_succ_cons, take_of_prefix (List.takeWhile_prefix _)]
    exact List.forall_mem_cons.mpr ⟨rfl, coordByte_takeWhile (fun _ => isCoordByte_of_digit) _⟩
  · exact absurd h (Nat.lt_irrefl 0)

theorem coordAt_bytes {len : ℕ} {value label : Text} {kind : CoordKind}
    (h : coordAt p = some (len, value, label, kind)) :
    (∀ c ∈ value, isCoordByte c) ∧ (∀ c ∈ label, isCoordByte c) ∧ (kind = .kv → value ≠ []) := by
  rw [coordAt] at h
  dsimp only at h
  split at h
  · next hm =>
    cases h
    exact ⟨matchUUID_bytes hm, List.all_eq_true.mp (by decide), nofun⟩
  split at h
  · next hm =>
    cases h
    exact ⟨(matchHandle_bytes hm).1, (matchHandle_bytes hm).2, nofun⟩
  split at h
  · next hm =>
    cases h
    exact ⟨(matchKV_bytes hm).1, (matchKV_bytes hm).2.1, fun _ => (matchKV_bytes hm).2.2⟩
  split at h
  · next hm =>
    cases h
    exact ⟨matchPath_bytes hm, List.all_eq_true.mp (by decide), nofun⟩
  split at h
  · next hm =>
    cases h
    exact ⟨matchSHA_bytes hm, List.all_eq_true.mp (by decide), nofun⟩
  split at h
  · next hm =>
    cases h
    exact ⟨matchRef_bytes hm, List.all_eq_true.mp (by decide), nofun⟩
  · cases h

theorem mention_bytes (h : m ∈ mentions scans) :
    (∀ c ∈ m.value, isCoordByte c) ∧ (∀ c ∈ m.label, isCoordByte c) ∧ (m.kind = .kv → m.value ≠ []) := by
  obtain ⟨s, -, hm⟩ := List.mem_flatMap.mp h
  obtain ⟨-, p, len, hcoord⟩ := mem_mentionsFrom hm
  exact coordAt_bytes hcoord

theorem entry_bytes (h : e ∈ nominateAll scans) :
    (∀ c ∈ e.value, isCoordByte c) ∧ ∀ c ∈ e.label, isCoordByte c := by
  rw [nominateAll_eq] at h
  rcases mem_foldl_note h with h | ⟨m, hm, rfl⟩
  · exact nomatch h
  · exact ⟨(mention_bytes hm).1, (mention_bytes hm).2.1⟩

/-! ## Lines -/

def laneSuffix : Lane → Text
  | .agent => []
  | .user => utf8 " (untrusted)"

/-- A line of the closet that shows a text under a label, without its line break. -/
def shownLine (lane : Lane) (shown label : Text) : Text :=
  utf8 "  " ++ shown ++ utf8 " ⟦" ++ label ++ utf8 "⟧" ++ laneSuffix lane

/-- A rendering has a line that shows a value of a lane as it is. -/
def PrintsVerbatim (out : Text) (lane : Lane) (value : Text) : Prop :=
  ∃ label, shownLine lane value label ∈ out.splitOn 10

/-- The value or its label makes an entry a secret. -/
def CoordEntry.isRedacted (e : CoordEntry) (denylist : Text) : Bool :=
  isSecret e.value denylist || labelIsSensitive e.label

def CoordEntry.shown (e : CoordEntry) (denylist : Text) : Text :=
  if e.isRedacted denylist then utf8 "[redacted:" ++ e.label ++ utf8 "]" else e.value

def CoordEntry.line (e : CoordEntry) (denylist : Text) : Text := shownLine e.prov.lane (e.shown denylist) e.label

theorem closetLine_eq (e : CoordEntry) (denylist : Text) : closetLine e denylist = e.line denylist ++ [10] := by
  have hsuffix : (if e.prov.lane = .user then utf8 " (untrusted)" else []) = laneSuffix e.prov.lane := by
    cases e.prov.lane <;> rfl
  rw [closetLine, hsuffix]
  rfl

def headerLine : Text := utf8 "Coordinate Closet (conserved from folded turns):"

def headerPartialLine : Text := utf8 "Coordinate Closet (partial — some identifiers omitted, raise budget):"

def dividerLine : Text := utf8 "  -- user-supplied (untrusted) --"

def truncNoteLine : Text := utf8 "  [...additional identifiers omitted...]"

theorem closetHeader_eq : closetHeader = headerLine ++ [10] := by decide

theorem closetHeaderPartial_eq : closetHeaderPartial = headerPartialLine ++ [10] := by decide

theorem closetDivider_eq : closetDivider = dividerLine ++ [10] := by decide

theorem closetTruncNote_eq : closetTruncNote = truncNoteLine ++ [10] := by decide

/-- The lines of `renderEntries`. -/
def entryLines (denylist : Text) : List CoordEntry → (userDiv : Bool) → List Text
  | [], _ => []
  | e :: rest, userDiv =>
    (if e.prov.lane = .user ∧ !userDiv then [dividerLine] else []) ++
      e.line denylist :: entryLines denylist rest (userDiv || e.prov.lane = .user)

/-- Lines, each with its break. -/
def unlines (lines : List Text) : Text := lines.flatMap (· ++ [10])

theorem splitOn_unlines {lines : List Text} (h : ∀ l ∈ lines, 10 ∉ l) : (unlines lines).splitOn 10 = lines ++ [[]] := by
  induction lines with
  | nil => rfl
  | cons l lines ih =>
    obtain ⟨hl, hlines⟩ := List.forall_mem_cons.mp h
    have hcons : unlines (l :: lines) = l ++ 10 :: unlines lines := by
      rw [unlines, List.flatMap_cons, List.append_assoc]
      rfl
    rw [hcons, List.splitOn_append_cons_self_of_not_mem hl, ih hlines, List.cons_append]

theorem renderEntries_eq (denylist : Text) (es : List CoordEntry) (userDiv : Bool) :
    renderEntries denylist es userDiv = unlines (entryLines denylist es userDiv) := by
  induction es generalizing userDiv with
  | nil => rfl
  | cons e es ih =>
    have hdivider : dividerBefore e userDiv = unlines (if e.prov.lane = .user ∧
      !userDiv then [dividerLine] else []) := by
      rw [dividerBefore, apply_ite unlines, closetDivider_eq]
      rfl
    rw [renderEntries, entryLines, ih, hdivider, closetLine_eq, unlines, unlines, unlines, List.flatMap_append,
      List.flatMap_cons, List.append_assoc]

theorem mem_entryLines {denylist l : Text}
    (h : l ∈ entryLines denylist es userDiv) : l = dividerLine ∨ ∃ e ∈ es, l = e.line denylist := by
  induction es generalizing userDiv with
  | nil => exact nomatch h
  | cons e es ih =>
    rw [entryLines, List.mem_append, List.mem_cons] at h
    rcases h with h | rfl | h
    · split at h
      · exact .inl (List.mem_singleton.mp h)
      · exact nomatch h
    · exact .inr ⟨e, List.mem_cons_self, rfl⟩
    · exact (ih h).imp_right fun ⟨e', he', hl⟩ => ⟨e', List.mem_cons_of_mem _ he', hl⟩

theorem line_mem_entryLines (h : e ∈ es) (userDiv : Bool) :
    e.line denylist ∈ entryLines denylist es userDiv := by
  induction es generalizing userDiv with
  | nil => exact nomatch h
  | cons e' es ih =>
    rw [entryLines, List.mem_append, List.mem_cons]
    rcases List.mem_cons.mp h with rfl | h
    · exact .inr (.inl rfl)
    · exact .inr (.inr (ih h _))

/-- The cap of a rendering. -/
def closetCap (cfg : ClosetConfig) (rawLen : ℕ) : ℕ :=
  let ratio := settingOr cfg.maxRatioPct closetDefaultMaxRatioPct
  min (settingOr cfg.budgetBytes closetDefaultBudgetBytes) (if ratio < 100 then rawLen * ratio / 100 else rawLen)

/-- How many entries a rendering has room for. -/
def closetFit (set : CoordSet) (cfg : ClosetConfig) (rawLen : ℕ) : ℕ :=
  fitEntries cfg.denylist (closetCap cfg rawLen) (sortEntries set) closetHeaderPartial.length false

theorem renderCloset_eq (set : CoordSet) (cfg : ClosetConfig) (rawLen : ℕ) :
    renderCloset set cfg rawLen =
      if set = [] ∨ !cfg.enabled then ([], .none)
      else if closetFit set cfg rawLen = 0 then ([], .fail)
      else if closetFit set cfg rawLen < (sortEntries set).length then
        (closetHeaderPartial ++ renderEntries cfg.denylist ((sortEntries set).take (closetFit set cfg rawLen)) false ++
          closetTruncNote, .fail)
      else (closetHeader ++ renderEntries cfg.denylist (sortEntries set) false, .none) := rfl

theorem mem_sortEntries : e ∈ sortEntries set ↔ e ∈ set := List.mem_insertionSort _

theorem unlines_render (header : Text) (note : List Text) (denylist : Text) (es : List CoordEntry) :
    unlines (header :: entryLines denylist es false ++ note) =
      header ++ [10] ++ renderEntries denylist es false ++ unlines note := by
  rw [renderEntries_eq, unlines, unlines, unlines, List.flatMap_append, List.flatMap_cons]

/-- A rendering is a header, the lines of entries of the set and a note where some were left out. -/
theorem renderCloset_lines (set : CoordSet) (cfg : ClosetConfig) (rawLen : ℕ) :
    (renderCloset set cfg rawLen).1 = [] ∨
      ∃ header ∈ [headerLine, headerPartialLine], ∃ es : List CoordEntry, (∀ e ∈ es, e ∈ set) ∧
        ∃ note, (note = [] ∨ note = [truncNoteLine]) ∧
          (renderCloset set cfg rawLen).1 = unlines (header :: entryLines cfg.denylist es false ++ note) := by
  rw [renderCloset_eq]
  split
  · exact .inl rfl
  split
  · exact .inl rfl
  split
  · refine .inr ⟨headerPartialLine, by simp, (sortEntries set).take (closetFit set cfg rawLen),
      fun e he => mem_sortEntries.mp (List.mem_of_mem_take he), [truncNoteLine], .inr rfl, ?_⟩
    rw [unlines_render, closetHeaderPartial_eq, closetTruncNote_eq]
    rfl
  · refine .inr ⟨headerLine, by simp, sortEntries set, fun e he => mem_sortEntries.mp he, [], .inl rfl, ?_⟩
    rw [unlines_render, closetHeader_eq]
    exact (List.append_nil _).symm

/-! ## Reading a line -/

theorem coordByte_ne {c b : UInt8} (hc : isCoordByte c) (hb : isCoordByte b = false) : c ≠ b := by
  rintro rfl
  exact absurd (hc.symm.trans hb) (by decide)

theorem notMem_coord (hs : ∀ c ∈ s, isCoordByte c) (hb : isCoordByte b = false) : b ∉ s :=
  fun h => coordByte_ne (hs b h) hb rfl

theorem shownLine_eq (lane : Lane) (shown label : Text) :
    shownLine lane shown label =
      32 :: 32 :: (shown ++ 32 :: 226 :: 159 :: 166 :: (label ++ 226 :: 159 :: 167 :: laneSuffix lane)) := by
  have hopen : utf8 " ⟦" = [32, 226, 159, 166] := by decide
  have hclose : utf8 "⟧" = [226, 159, 167] := by decide
  have hindent : utf8 "  " = [32, 32] := by decide
  rw [shownLine, hopen, hclose, hindent]
  simp

def laneMark : Lane → UInt8
  | .agent => 167
  | .user => 41

theorem getLast_shownLine (lane : Lane) (v label : Text) :
    (shownLine lane v label).getLast? = some (laneMark lane) := by
  have hsuffix : ∃ t, utf8 "⟧" ++ laneSuffix lane = t ++ [laneMark lane] := by
    cases lane with
    | agent => exact ⟨[226, 159], by decide⟩
    | user => exact ⟨utf8 "⟧ (untrusted", by decide⟩
  obtain ⟨t, ht⟩ := hsuffix
  rw [shownLine, List.append_assoc, ht, ← List.append_assoc, List.getLast?_append]
  rfl

theorem shownLine_inj {lane lane' : Lane} {v w label label' : Text} (hv : 32 ∉ v) (hw : 32 ∉ w)
    (h : shownLine lane v label = shownLine lane' w label') : v = w ∧ lane = lane' := by
  have hmark : laneMark lane = laneMark lane' := by
    have hlast := congrArg List.getLast? h
    rw [getLast_shownLine, getLast_shownLine] at hlast
    exact Option.some.inj hlast
  rw [shownLine_eq, shownLine_eq, List.cons_inj_right, List.cons_inj_right] at h
  refine ⟨(Wire.append_cons_inj hv hw h).1, ?_⟩
  cases lane <;> cases lane' <;> first | rfl | exact absurd hmark (by decide)

theorem shownLine_ne {v label : Text} (hv : 32 ∉ v) :
    shownLine lane v label ∉ [[], headerLine, headerPartialLine, dividerLine, truncNoteLine] := by
  have hheader : headerLine = 67 :: utf8 "oordinate Closet (conserved from folded turns):" := by decide
  have hpartial : headerPartialLine =
      67 :: utf8 "oordinate Closet (partial — some identifiers omitted, raise budget):" := by decide
  have hdivider : dividerLine = 32 :: 32 :: (utf8 "--" ++ 32 :: utf8 "user-supplied (untrusted) --") := by decide
  have hnote : truncNoteLine = 32 :: 32 :: (utf8 "[...additional" ++ 32 :: utf8 "identifiers omitted...]") := by decide
  rw [shownLine_eq, hheader, hpartial, hdivider, hnote]
  intro h
  simp only [List.mem_cons, List.cons.injEq, List.not_mem_nil, or_false, true_and] at h
  rcases h with h | ⟨h, -⟩ | ⟨h, -⟩ | h | h
  · cases h
  · exact absurd h (by decide)
  · exact absurd h (by decide)
  · have hhead : some 226 = (utf8 "user-supplied (untrusted) --").head? :=
      congrArg List.head? (Wire.append_cons_inj hv (by decide) h).2
    exact absurd hhead (by decide)
  · have hhead : some 226 = (utf8 "identifiers omitted...]").head? :=
      congrArg List.head? (Wire.append_cons_inj hv (by decide) h).2
    exact absurd hhead (by decide)

theorem shown_noBlank (hvalue : ∀ c ∈ e.value, isCoordByte c) (hlabel : ∀ c ∈ e.label, isCoordByte c)
    (denylist : Text) (hb : isCoordByte b = false) (hne : b ∉ utf8 "[redacted:" ++ utf8 "]") :
    b ∉ e.shown denylist := by
  rw [CoordEntry.shown]
  split
  · intro h
    simp only [List.mem_append] at h hne
    rcases h with (h | h) | h
    · exact hne (.inl h)
    · exact notMem_coord hlabel hb h
    · exact hne (.inr h)
  · exact notMem_coord hvalue hb

theorem line_noBreak (hvalue : ∀ c ∈ e.value, isCoordByte c) (hlabel : ∀ c ∈ e.label, isCoordByte c)
    (denylist : Text) : 10 ∉ e.line denylist := by
  have hshown := shown_noBlank hvalue hlabel denylist (b := 10) rfl (by decide)
  have hsuffix : 10 ∉ laneSuffix e.prov.lane := by cases e.prov.lane <;> decide
  have hlabel := notMem_coord hlabel (b := 10) rfl
  rw [CoordEntry.line, shownLine_eq]
  simp [hshown, hlabel, hsuffix]

/-- The lines of a rendering are the static ones and those of the entries. -/
theorem mem_rendering (hheader : header ∈ [headerLine, headerPartialLine])
    (hes : ∀ e ∈ es, e ∈ nominateAll scans) (hnote : note = [] ∨ note = [truncNoteLine])
    (hl : l ∈ header :: entryLines denylist es false ++ note) :
    l ∈ [headerLine, headerPartialLine, dividerLine, truncNoteLine] ∨ ∃ e ∈ nominateAll scans, l = e.line denylist := by
  rw [List.cons_append, List.mem_cons, List.mem_append] at hl
  rcases hl with rfl | hl | hl
  · refine .inl ?_
    simp only [List.mem_cons, List.not_mem_nil, or_false] at hheader ⊢
    exact hheader.elim .inl fun h => .inr (.inl h)
  · rcases mem_entryLines hl with rfl | ⟨e, he, rfl⟩
    · exact .inl (by simp)
    · exact .inr ⟨e, hes e he, rfl⟩
  · rcases hnote with rfl | rfl
    · exact nomatch hl
    · obtain rfl := List.mem_singleton.mp hl
      exact .inl (by simp)

theorem splitOn_rendering (hheader : header ∈ [headerLine, headerPartialLine])
    (hes : ∀ e ∈ es, e ∈ nominateAll scans) (denylist : Text) (hnote : note = [] ∨ note = [truncNoteLine]) :
    (unlines (header :: entryLines denylist es false ++ note)).splitOn 10 =
      header :: entryLines denylist es false ++ note ++ [[]] := by
  have hstatic : ∀ l ∈ [headerLine, headerPartialLine, dividerLine, truncNoteLine], 10 ∉ l := by decide
  refine splitOn_unlines fun l hl => ?_
  rcases mem_rendering hheader hes hnote hl with hl | ⟨e, he, rfl⟩
  · exact hstatic l hl
  · exact line_noBreak (entry_bytes he).1 (entry_bytes he).2 _

theorem mem_splitOn_renderCloset (h : l ∈ (renderCloset (nominateAll scans) cfg rawLen).1.splitOn 10) :
    l ∈ [[], headerLine, headerPartialLine, dividerLine, truncNoteLine] ∨
      ∃ e ∈ nominateAll scans, l = e.line cfg.denylist := by
  rcases renderCloset_lines (nominateAll scans) cfg rawLen with hempty | ⟨header, hheader, es, hes, note, hnote, hout⟩
  · rw [hempty, List.splitOn_nil] at h
    exact .inl (List.mem_cons.mpr (.inl (List.mem_singleton.mp h)))
  · rw [hout, splitOn_rendering hheader hes _ hnote, List.mem_append] at h
    rcases h with h | h
    · exact (mem_rendering hheader hes hnote h).imp_left (List.mem_cons_of_mem _)
    · exact .inl (List.mem_cons.mpr (.inl (List.mem_singleton.mp h)))

/-! ## What is printed -/

/-- A value is printed as it is only if an entry of its own stands in the set, and not as a secret. -/
theorem entry_of_printsVerbatim
    (hvalue : ∀ c ∈ value, isCoordByte c)
    (h : PrintsVerbatim (renderCloset (nominateAll scans) cfg rawLen).1 lane value) :
    ∃ e ∈ nominateAll scans, e.prov.lane = lane ∧ e.value = value ∧ e.isRedacted cfg.denylist = false := by
  obtain ⟨label, h⟩ := h
  have hblank := notMem_coord hvalue (b := 32) rfl
  rcases mem_splitOn_renderCloset h with hstatic | ⟨e, he, hline⟩
  · exact absurd hstatic (shownLine_ne hblank)
  · obtain ⟨hv, hl⟩ := entry_bytes he
    obtain ⟨hshown, hlane⟩ := shownLine_inj hblank (shown_noBlank hv hl cfg.denylist rfl (by decide)) hline
    refine ⟨e, he, hlane.symm, ?_⟩
    rw [CoordEntry.shown] at hshown
    split at hshown
    · have hbracket : (91 : UInt8) ∈ value := by
        rw [hshown, List.mem_append, List.mem_append]
        exact .inl (.inl (by decide))
      exact absurd hbracket (notMem_coord hvalue rfl)
    · next hred => exact ⟨hshown.symm, Bool.eq_false_iff.mpr hred⟩

/-- A configuration under which nothing is left out. -/
def roomy (denylist : Text) (size : ℕ) : ClosetConfig where
  enabled := true
  budgetBytes := size + 1
  maxRatioPct := 100
  denylist := denylist

theorem fitEntries_of_room {cap : ℕ} {total : ℕ}
    (h : total + (renderEntries denylist es userDiv).length + closetTruncNote.length + 1 ≤ cap) :
    fitEntries denylist cap es total userDiv = es.length := by
  induction es generalizing total userDiv with
  | nil => rfl
  | cons e es ih =>
    rw [renderEntries, List.length_append, List.length_append] at h
    rw [fitEntries, if_neg (by omega), ih (by omega), List.length_cons, Nat.add_comm]

theorem closetCap_roomy (denylist : Text) (size : ℕ) : closetCap (roomy denylist size) (size + 1) = size + 1 := by
  have hbudget : settingOr ((size : ℤ) + 1) closetDefaultBudgetBytes = size + 1 := by
    rw [settingOr, if_neg (by omega)]
    rfl
  have hratio : settingOr 100 closetDefaultMaxRatioPct = 100 := rfl
  rw [closetCap, roomy]
  dsimp only
  rw [hbudget, hratio, if_neg (Nat.lt_irrefl 100), Nat.min_self]

/-- Where there is room, every entry of the set has its line. -/
theorem exists_line_mem (scans : List Scan) (denylist : Text) :
    ∃ cfg rawLen, cfg.denylist = denylist ∧
      ∀ e ∈ nominateAll scans, e.line denylist ∈ (renderCloset (nominateAll scans) cfg rawLen).1.splitOn 10 := by
  let set := nominateAll scans
  let size := closetHeaderPartial.length + (renderEntries denylist (sortEntries set) false).length +
    closetTruncNote.length
  refine ⟨roomy denylist size, size + 1, rfl, fun e he => ?_⟩
  have hfit : closetFit set (roomy denylist size) (size + 1) = (sortEntries set).length := by
    rw [closetFit, closetCap_roomy]
    exact fitEntries_of_room (Nat.le_refl _)
  have hpos : (sortEntries set).length ≠ 0 := fun h =>
    absurd (mem_sortEntries.mpr he) (by rw [List.length_eq_zero_iff.mp h]; exact List.not_mem_nil)
  have hopen : ¬(set = [] ∨ (!(roomy denylist size).enabled) = true) :=
    not_or.mpr ⟨List.ne_nil_of_mem he, Bool.false_ne_true⟩
  have hout : (renderCloset set (roomy denylist size) (size + 1)).1 =
      unlines (headerLine :: entryLines denylist (sortEntries set) false ++ []) := by
    rw [renderCloset_eq, if_neg hopen, hfit, if_neg hpos, if_neg (Nat.lt_irrefl _), unlines_render, closetHeader_eq]
    exact (List.append_nil _).symm
  rw [hout, splitOn_rendering (by simp) (fun e he => mem_sortEntries.mp he) _ (.inl rfl), List.append_nil,
    List.mem_append, List.mem_cons]
  exact .inl (.inr (line_mem_entryLines (mem_sortEntries.mpr he) false))

/-- Whether the value that some text gives to a key is ever printed is decided by the first mention of
    the value in its lane, over all the texts, and by the value itself; that the key is a secret's
    does not matter if it is not the first. -/
theorem notPrinted_iff_first (scans : List Scan) (m : Mention) (hm : m ∈ mentions scans) (hkind : m.kind = .kv)
    (denylist : Text) :
    (∀ (cfg : ClosetConfig) (rawLen : ℕ), cfg.denylist = denylist →
        ¬PrintsVerbatim (renderCloset (nominateAll scans) cfg rawLen).1 m.prov.lane m.value) ↔
      isSecret m.value denylist ∨
        ∃ first, firstMention scans m.prov.lane m.value = some first ∧ labelIsSensitive first.label := by
  obtain ⟨hbytes, -, hne⟩ := mention_bytes hm
  have hself : m.isOf m.prov.lane m.value := isOf_iff.mpr ⟨rfl, rfl⟩
  obtain ⟨first, hfirst⟩ := Option.isSome_iff_exists.mp (List.find?_isSome.mpr ⟨m, hm, hself⟩)
  have hfirst : firstMention scans m.prov.lane m.value = some first := hfirst
  constructor
  · intro h
    by_contra hnot
    obtain ⟨hsecret, hsensitive⟩ := not_or.mp hnot
    have hentry : (nominateAll scans).find? (CoordEntry.isOf m.prov.lane m.value) = some first.entry := by
      rw [find_nominateAll (hne hkind), hfirst]
      rfl
    have hof := List.find?_some hentry
    obtain ⟨hlane, hvalue⟩ := isOf_iff.mp hof
    obtain ⟨cfg, rawLen, hdeny, hline⟩ := exists_line_mem scans denylist
    have hplain : first.entry.isRedacted denylist = false := by
      rw [CoordEntry.isRedacted, Bool.or_eq_false_iff]
      have hsecret : isSecret first.value denylist = false := by
        rw [hvalue]
        exact Bool.eq_false_iff.mpr hsecret
      exact ⟨hsecret, Bool.eq_false_iff.mpr fun h => hsensitive ⟨first, hfirst, h⟩⟩
    have hmem := hline first.entry (List.mem_of_find?_eq_some hentry)
    rw [CoordEntry.line, CoordEntry.shown, hplain] at hmem
    refine h cfg rawLen hdeny ⟨first.label, ?_⟩
    rw [← hlane, ← hvalue]
    exact hmem
  · rintro hcond cfg rawLen rfl hprints
    obtain ⟨e, he, hlane, hvalue, hplain⟩ := entry_of_printsVerbatim hbytes hprints
    obtain ⟨first', hfirst', rfl⟩ := firstMention_of_mem he (hvalue ▸ hne hkind)
    rw [hlane, hvalue, hfirst] at hfirst'
    obtain rfl := Option.some.inj hfirst'
    rw [CoordEntry.isRedacted, Bool.or_eq_false_iff, hvalue] at hplain
    rcases hcond with hsecret | ⟨first', hfirst', hsensitive⟩
    · exact absurd (hsecret.symm.trans hplain.1) (by decide)
    · rw [hfirst] at hfirst'
      obtain rfl := Option.some.inj hfirst'
      exact absurd (hsensitive.symm.trans hplain.2) (by decide)

def agentScan (raw : String) : Scan := { raw := utf8 raw, prov := defaultProvenance }

/-- The password is scanned first. -/
theorem notPrinted_password_first :
    ¬PrintsVerbatim (renderCloset (nominateAll [agentScan "password=abc123", agentScan "id=abc123"])
      (roomy [] 2048) 2048).1
      .agent (utf8 "abc123") :=
  (notPrinted_iff_first [agentScan "password=abc123", agentScan "id=abc123"]
    { value := utf8 "abc123", label := utf8 "password", kind := .kv, prov := defaultProvenance, offset := 0 }
    (by decide) rfl []).mpr
    (.inr ⟨{ value := utf8 "abc123", label := utf8 "password", kind := .kv, prov := defaultProvenance, offset := 0 },
      by decide, by decide⟩) (roomy [] 2048) 2048 rfl

/-- The same value is scanned under another label first, and the password is printed. -/
theorem printed_password_second :
    ¬∀ (scans : List Scan) (m : Mention), m ∈ mentions scans → m.kind = .kv → labelIsSensitive m.label →
      ∀ (cfg : ClosetConfig) (rawLen : ℕ),
        ¬PrintsVerbatim (renderCloset (nominateAll scans) cfg rawLen).1 m.prov.lane m.value := by
  intro h
  refine h [agentScan "id=abc123", agentScan "password=abc123"]
    { value := utf8 "abc123", label := utf8 "password", kind := .kv, prov := defaultProvenance, offset := 0 }
    (by decide) rfl (by decide) (roomy [] 2048) 2048 ⟨utf8 "id", ?_⟩
  decide

end Economizer
