-- SUMMARY: The conservation of the Coordinate Closet: spans of the scan, the bound of the rendering, its order and what it leaves out.
import Aimee.Economizer.ClosetSecrets
import Mathlib.Data.List.Lex
import Mathlib.Data.List.Perm.Subperm
import Mathlib.Data.Prod.Lex

/-!
# Conservation

The scan consumes one span of its text after the other, and a coordinate lies in its span. The
rendering reserves the longest header and the note, so that what it writes is under the cap.
-/

namespace Economizer

/-! ## Spans -/

theorem matchUUID_le (p : Text) : matchUUID p ≤ p.length := by
  unfold matchUUID
  split
  · next rest hgroups =>
    obtain ⟨t, rfl, -, hlength⟩ := matchHexGroups_bytes (List.cons_ne_nil _ _) hgroups
    have h36 : t.length = 36 := by simpa using hlength
    rw [List.length_append, h36]
    split_ifs
    · exact Nat.zero_le _
    · exact Nat.le_add_right _ _
  · exact Nat.zero_le _

theorem matchHandle_le (p : Text) : (matchHandle p).1 ≤ p.length := by
  have hattempt : ∀ (lead : Text) (label : Text) r, (if lead.isPrefixOf p &&
      (p.drop lead.length).takeWhile (fun c => aAlnum c || c = 95 || c = 45) ≠ [] then
        some (lead.length + ((p.drop lead.length).takeWhile fun c => aAlnum c || c = 95 || c = 45).length, label)
      else none) = some r → r.1 ≤ p.length := by
    intro lead label r h
    split_ifs at h with hmatch
    obtain rfl := Option.some.inj h
    rw [Bool.and_eq_true] at hmatch
    have hlead := (List.isPrefixOf_iff_prefix.mp hmatch.1).length_le
    have hid := (List.takeWhile_prefix (l := p.drop lead.length) fun c => aAlnum c || c = 95 || c = 45).length_le
    rw [List.length_drop] at hid
    dsimp only
    omega
  have horElse : ∀ a b : Option (ℕ × Text), (∀ r, a = some r → r.1 ≤ p.length) → (∀ r, b = some r → r.1 ≤ p.length) →
      ((a.orElse fun _ => b).getD (0, [])).1 ≤ p.length := by
    intro a b ha hb
    cases a with
    | some r => exact ha r rfl
    | none =>
      cases b with
      | some r => exact hb r rfl
      | none => exact Nat.zero_le _
  exact horElse _ _ (hattempt _ _) (hattempt _ _)

theorem matchKV_span (p : Text) : (matchKV p).1 ≤ p.length ∧ (matchKV p).2.2 <:+: p.take (matchKV p).1 := by
  rw [matchKV]
  dsimp only
  split_ifs
  · exact ⟨Nat.zero_le _, List.nil_infix⟩
  split
  · next rest hrest =>
    split_ifs
    · exact ⟨Nat.zero_le _, List.nil_infix⟩
    dsimp only
    generalize hkey : p.takeWhile (fun c => aAlnum c || decide (c = 95)) = key at hrest ⊢
    generalize hvalue : rest.takeWhile (fun c =>
      aAlnum c || decide (c = 46) || decide (c = 45) || decide (c = 58) || decide (c = 95)) = value
    have hkeyPrefix : key <+: p := hkey ▸ List.takeWhile_prefix _
    obtain ⟨tail, htail⟩ : value <+: rest := hvalue ▸ List.takeWhile_prefix _
    have hp : p = (key ++ 61 :: value) ++ tail := by
      conv_lhs => rw [← List.take_append_drop key.length p, take_of_prefix hkeyPrefix, hrest, ← htail]
      simp
    have hlen : (key ++ 61 :: value).length = key.length + 1 + value.length := by
      rw [List.length_append, List.length_cons]
      omega
    obtain ⟨dots, hdots⟩ := trimDots_isPrefix value
    have hle := (List.prefix_append (key ++ 61 :: value) tail).length_le
    rw [← hlen, hp, List.take_left]
    exact ⟨hle, key ++ [61], dots, by simp [hdots]⟩
  · exact ⟨Nat.zero_le _, List.nil_infix⟩

theorem matchPath_le (p : Text) : matchPath p ≤ p.length := by
  unfold matchPath
  dsimp only
  split_ifs
  · exact Nat.zero_le _
  · exact Nat.zero_le _
  · exact ((trimDots_isPrefix _).trans (List.takeWhile_prefix _)).length_le

theorem matchSHA_le (p : Text) : matchSHA p ≤ p.length := by
  unfold matchSHA
  dsimp only
  split_ifs
  · exact Nat.zero_le _
  · exact Nat.zero_le _
  · exact ((List.takeWhile_prefix _).trans (List.take_prefix _ _)).length_le

theorem matchRef_le (p : Text) : matchRef p ≤ p.length := by
  unfold matchRef
  split
  · next rest =>
    have hdigits := (rest.takeWhile_prefix aDigit).length_le
    dsimp only
    rw [List.length_cons]
    split_ifs <;> omega
  · exact Nat.zero_le _

theorem coordAt_span {p : Text} {len : ℕ} {value label : Text} {kind : CoordKind}
    (h : coordAt p = some (len, value, label, kind)) :
    0 < len ∧ len ≤ p.length ∧ value <:+: p.take len := by
  rw [coordAt] at h
  dsimp only at h
  split_ifs at h with huuid hhandle hkv hpath hsha href
  · cases h
    exact ⟨huuid, matchUUID_le p, List.infix_rfl⟩
  · cases h
    exact ⟨hhandle, matchHandle_le p, List.infix_rfl⟩
  · cases h
    exact ⟨hkv, matchKV_span p⟩
  · cases h
    exact ⟨hpath, matchPath_le p, List.infix_rfl⟩
  · cases h
    exact ⟨hsha, matchSHA_le p, List.infix_rfl⟩
  · cases h
    exact ⟨href, matchRef_le p, List.infix_rfl⟩

/-! ## The scan -/

/-- A match may start at an index. -/
def startsAt (raw : Text) (i : ℕ) : Bool := i = 0 || (raw[i - 1]?).any isIdentBoundary

/-- The loop of `NominateInto` over an index, for so many rounds at most. -/
def scanLoop (raw : Text) (prov : Provenance) : (rounds i : ℕ) → CoordSet → Option CoordSet
  | 0, i, set => if i < raw.length then none else some set
  | rounds + 1, i, set =>
    if raw.length ≤ i then some set
    else if !startsAt raw i then scanLoop raw prov rounds (i + 1) set
    else match coordAt (raw.drop i) with
    | some (m, value, label, kind) => scanLoop raw prov rounds (i + m) (set.add value label kind prov i)
    | none => scanLoop raw prov rounds (i + 1) set

variable {raw s t : Text} {i skip offset : ℕ}

theorem startsAt_succ {c : UInt8} {rest : Text} (h : raw.drop i = c :: rest) :
    startsAt raw (i + 1) = isIdentBoundary c ∧ raw.drop (i + 1) = rest ∧ i < raw.length := by
  have hget : raw[i]? = some c := by
    rw [← List.head?_drop, h]
    rfl
  refine ⟨by simp [startsAt, hget], ?_, (List.getElem?_eq_some_iff.mp hget).1⟩
  rw [← List.drop_drop, h, List.drop_succ_cons, List.drop_zero]

theorem nominateFrom_skip (prov : Provenance) (raw : Text) (h : i + skip ≤ raw.length) (set : CoordSet) :
    nominateFrom prov (raw.drop i) skip (startsAt raw i) i set =
      nominateFrom prov (raw.drop (i + skip)) 0 (startsAt raw (i + skip)) (i + skip) set := by
  induction skip generalizing i with
  | zero => rfl
  | succ skip ih =>
    cases hdrop : raw.drop i with
    | nil =>
      have hlen := List.drop_eq_nil_iff.mp hdrop
      omega
    | cons c rest =>
      obtain ⟨hstarts, hrest, -⟩ := startsAt_succ hdrop
      rw [nominateFrom, ← hstarts, ← hrest, ih (by omega), Nat.add_assoc, Nat.add_comm 1]

theorem nominateFrom_done (prov : Provenance) (h : raw.length ≤ i) (set : CoordSet) :
    nominateFrom prov (raw.drop i) 0 (startsAt raw i) i set = set := by
  rw [List.drop_eq_nil_iff.mpr h]
  rfl

/-- Every round advances: as many rounds as there are bytes end the loop. -/
theorem scanLoop_eq (prov : Provenance) (raw : Text) {rounds : ℕ} (h : raw.length - i ≤ rounds) (set : CoordSet) :
    scanLoop raw prov rounds i set = some (nominateFrom prov (raw.drop i) 0 (startsAt raw i) i set) := by
  induction rounds generalizing i set with
  | zero => rw [scanLoop, if_neg (by omega), nominateFrom_done prov (by omega)]
  | succ rounds ih =>
    rw [scanLoop]
    by_cases hi : raw.length ≤ i
    · rw [if_pos hi, nominateFrom_done prov hi]
    rw [if_neg hi]
    cases hdrop : raw.drop i with
    | nil => exact absurd (List.drop_eq_nil_iff.mp hdrop) hi
    | cons c rest =>
      obtain ⟨hstarts, hrest, -⟩ := startsAt_succ hdrop
      have hnext : ∀ set, scanLoop raw prov rounds (i + 1) set =
        some (nominateFrom prov rest 0 (isIdentBoundary c) (i + 1) set) := by
        intro set
        rw [← hstarts, ← hrest]
        exact ih (by omega) set
      cases hstart : startsAt raw i with
      | false => simpa [nominateFrom] using hnext set
      | true =>
        rw [Bool.not_true, if_neg (by decide), nominateFrom]
        cases hcoord : coordAt (c :: rest) with
        | none => exact hnext set
        | some coord =>
          obtain ⟨m, value, label, kind⟩ := coord
          obtain ⟨hpos, hlen, -⟩ := coordAt_span hcoord
          rw [← hdrop, List.length_drop] at hlen
          have hskip := nominateFrom_skip prov raw (by omega : i + 1 + (m - 1) ≤ raw.length)
            (set.add value label kind prov i)
          have hsum : i + 1 + (m - 1) = i + m := by omega
          rw [hrest, hstarts, hsum] at hskip
          dsimp only
          rw [hskip]
          exact ih (by omega) _

/-- How many bytes the scan consumes where it finds a coordinate. -/
def spanAt (raw : Text) (offset : ℕ) : ℕ := ((coordAt (raw.drop offset)).map (·.1)).getD 0

theorem mention_found {prov : Provenance} {boundary : Bool} {m : Mention} (hs : raw.drop offset = s)
    (h : m ∈ mentionsFrom prov s skip boundary offset) :
    offset + skip ≤ m.offset ∧ coordAt (raw.drop m.offset) = some (spanAt raw m.offset, m.value, m.label, m.kind) := by
  induction s generalizing skip offset boundary with
  | nil => cases skip <;> cases boundary <;> exact nomatch h
  | cons c rest ih =>
    have hrest := (startsAt_succ hs).2.1
    cases skip with
    | succ skip =>
      obtain ⟨hle, hcoord⟩ := ih hrest h
      exact ⟨by omega, hcoord⟩
    | zero =>
      have hskip : ∀ {n b}, m ∈ mentionsFrom prov rest n b (offset + 1) →
          offset + 0 ≤ m.offset ∧
            coordAt (raw.drop m.offset) = some (spanAt raw m.offset, m.value, m.label, m.kind) := by
        intro n b hm
        obtain ⟨hle, hcoord⟩ := ih hrest hm
        exact ⟨by omega, hcoord⟩
      cases boundary with
      | false => exact hskip h
      | true =>
        rw [mentionsFrom] at h
        split at h
        · next len value label kind hcoord =>
          rcases List.mem_cons.mp h with rfl | h
          · refine ⟨Nat.le_refl _, ?_⟩
            rw [spanAt, hs, hcoord]
            rfl
          · exact hskip h
        · exact hskip h

/-- A span ends before the next begins. -/
theorem mentions_disjoint (prov : Provenance) (skip : ℕ) (boundary : Bool) (hs : raw.drop offset = s) :
    (mentionsFrom prov s skip boundary offset).Pairwise fun a b => a.offset + spanAt raw a.offset ≤ b.offset := by
  induction s generalizing skip offset boundary with
  | nil => cases skip <;> cases boundary <;> exact List.Pairwise.nil
  | cons c rest ih =>
    have hrest := (startsAt_succ hs).2.1
    cases skip with
    | succ skip => exact ih skip _ hrest
    | zero =>
      cases boundary with
      | false => exact ih 0 _ hrest
      | true =>
        rw [mentionsFrom]
        split
        · next len value label kind hcoord =>
          refine List.pairwise_cons.mpr ⟨fun b hb => ?_, ih _ _ hrest⟩
          have hspan : spanAt raw offset = len := by
            rw [spanAt, hs, hcoord]
            rfl
          have hle := (mention_found hrest hb).1
          dsimp only
          omega
        · exact ih 0 _ hrest

/-- What one call adds to a set: the loop ends, its spans are disjoint and in the text, and each new entry
    lies in the span it starts. -/
theorem nominateInto_spans (raw : Text) (prov : Provenance) (set : CoordSet) :
    scanLoop raw prov raw.length 0 set = some (nominateInto raw prov set) ∧
      ((mentionsFrom prov raw 0 true 0).Pairwise fun a b => a.offset + spanAt raw a.offset ≤ b.offset) ∧
      (∀ m ∈ mentionsFrom prov raw 0 true 0, 0 < spanAt raw m.offset ∧ m.offset + spanAt raw m.offset ≤ raw.length ∧
        m.value <:+: (raw.drop m.offset).take (spanAt raw m.offset)) ∧
      ∀ e ∈ nominateInto raw prov set, e ∈ set ∨ ∃ m ∈ mentionsFrom prov raw 0 true 0, m.entry = e := by
  refine ⟨scanLoop_eq prov raw (i := 0) (Nat.le_refl _) set, mentions_disjoint prov 0 true rfl, fun m hm =>
    ?_, fun e he => ?_⟩
  · obtain ⟨hpos, hlen, hvalue⟩ := coordAt_span (mention_found (List.drop_zero (l := raw)) hm).2
    rw [List.length_drop] at hlen
    exact ⟨hpos, by omega, hvalue⟩
  · rw [nominateInto, nominateFrom_eq] at he
    exact mem_foldl_note he

/-! ## The order -/

theorem map_toNat_lt_iff : s.map UInt8.toNat < t.map UInt8.toNat ↔ s < t := by
  induction s generalizing t with
  | nil => cases t <;> simp
  | cons a s ih =>
    cases t with
    | nil => simp
    | cons b t => rw [List.map_cons, List.map_cons, List.cons_lt_cons_iff, List.cons_lt_cons_iff, ih,
        UInt8.lt_iff_toNat_lt, UInt8.toNat_inj]

/-- What entries are ordered by. -/
def CoordEntry.key (e : CoordEntry) : ℕ ×ₗ List ℕ ×ₗ ℕ ×ₗ ℤ ×ₗ ℤ ×ₗ ℤ ×ₗ List ℕ :=
  toLex (if e.prov.lane = .agent then 0 else
    1, toLex (e.label.map UInt8.toNat, toLex (e.firstOffset, toLex (e.prov.turnId,
    toLex (e.prov.toolCallId, toLex (e.prov.resultIndex, e.value.map UInt8.toNat))))))

theorem lexStep {α β : Type*} [LinearOrder α] [LinearOrder β] {a b : α} {s t : β} :
    toLex (a, s) < toLex (b, t) ↔ if a = b then s < t else a < b := by
  rw [Prod.Lex.toLex_lt_toLex]
  split_ifs with h
  · simp [h]
  · simp [h]

theorem laneRank_inj {a b : Lane} : (if a = .agent then 0 else 1 : ℕ) = (if b = .agent then 0 else 1) ↔ a = b := by
  cases a <;> cases b <;> decide

theorem map_toNat_inj : s.map UInt8.toNat = t.map UInt8.toNat ↔ s = t :=
  (List.map_injective_iff.mpr fun _ _ => UInt8.toNat_inj.mp).eq_iff

theorem entryLess_iff (x y : CoordEntry) : entryLess x y ↔ x.key < y.key := by
  have hrank : ∀ a b : Lane, a ≠ b → ((if a = .agent then 0 else 1 : ℕ) < (if b = .agent then 0 else 1) ↔
    a = .agent) := by
    intro a b
    cases a <;> cases b <;> simp
  simp only [CoordEntry.key, lexStep, laneRank_inj, map_toNat_inj, map_toNat_lt_iff, entryLess, ne_eq, ite_not]
  by_cases hlane : x.prov.lane = y.prov.lane
  · simp only [if_pos hlane]
    split_ifs <;> simp
  · rw [if_neg hlane, if_neg hlane, hrank _ _ hlane, decide_eq_true_eq]

theorem sortEntries_pairwise (set : CoordSet) : (sortEntries set).Pairwise fun x y => x.key ≤ y.key := by
  have hle : ∀ x y : CoordEntry, (!entryLess y x) = true ↔ x.key ≤ y.key := fun x y => by
    rw [Bool.not_eq_true', ← Bool.not_eq_true, entryLess_iff, not_lt]
  have htotal : Std.Total fun x y : CoordEntry => (!entryLess y x) = true :=
    ⟨fun x y => by simpa only [hle] using le_total x.key y.key⟩
  have htrans : IsTrans CoordEntry fun x y => (!entryLess y x) = true :=
    ⟨fun x y z => by simpa only [hle] using le_trans⟩
  exact (List.pairwise_insertionSort _ set).imp fun {x y} => (hle x y).mp

/-- No value stands twice in a lane. -/
def CoordSet.Distinct (set : CoordSet) :
    Prop := set.Pairwise fun a b => ¬(a.prov.lane = b.prov.lane ∧ a.value = b.value)

theorem nominateAll_distinct (scans : List Scan) : (nominateAll scans).Distinct :=
  nominateAll_eq scans ▸ pairwise_foldl_note _ List.Pairwise.nil

theorem CoordSet.Distinct.eq_of_key {set : CoordSet} (h : set.Distinct) {x y : CoordEntry} (hx : x ∈ set)
    (hy : y ∈ set) (hkey : x.key = y.key) :
    x = y := by
  have hsymm : Std.Symm fun a b : CoordEntry => ¬(a.prov.lane = b.prov.lane ∧ a.value = b.value) :=
    ⟨fun a b hab h => hab ⟨h.1.symm, h.2.symm⟩⟩
  simp only [CoordEntry.key, EmbeddingLike.apply_eq_iff_eq, Prod.mk.injEq, laneRank_inj, map_toNat_inj] at hkey
  by_contra hne
  exact h.forall hx hy hne ⟨hkey.1, hkey.2.2.2.2.2.2⟩

variable {set set' : CoordSet} {es : List CoordEntry} {scans : List Scan}

/-- One order of the rendering for every order of insertion. -/
theorem sortEntries_eq_of_perm (hset : set.Distinct) (h : set'.Perm set) : sortEntries set' = sortEntries set := by
  refine List.Perm.eq_of_pairwise (fun a b ha hb hab hba => ?_) (sortEntries_pairwise set')
    (sortEntries_pairwise set) ?_
  · exact hset.eq_of_key (h.mem_iff.mp (mem_sortEntries.mp ha)) (mem_sortEntries.mp hb) (le_antisymm hab hba)
  · exact (List.perm_insertionSort _ _).trans (h.trans (List.perm_insertionSort _ _).symm)

theorem renderCloset_eq_of_perm (hset : set.Distinct) (h : set'.Perm set) (cfg : ClosetConfig) (rawLen : ℕ) :
    renderCloset set' cfg rawLen = renderCloset set cfg rawLen := by
  have hnil : set' = [] ↔ set = [] := by
    rw [← List.length_eq_zero_iff, h.length_eq, List.length_eq_zero_iff]
  rw [renderCloset_eq, renderCloset_eq, closetFit, closetFit, sortEntries_eq_of_perm hset h]
  exact if_congr (or_congr_left hnil) rfl rfl

/-! ## The bound -/

/-- What fits leaves room for the note. -/
theorem length_renderEntries_fit {denylist : Text} {cap : ℕ} {total : ℕ} {userDiv : Bool}
    (h : 0 < fitEntries denylist cap es total userDiv) :
    total + (renderEntries denylist (es.take (fitEntries denylist cap es total userDiv)) userDiv).length +
      closetTruncNote.length + 1 ≤ cap := by
  induction es generalizing total userDiv with
  | nil => exact absurd h (Nat.lt_irrefl 0)
  | cons e es ih =>
    rw [fitEntries] at h ⊢
    split_ifs at h ⊢ with hfull
    · exact absurd h (Nat.lt_irrefl 0)
    rw [Nat.add_comm 1, List.take_succ_cons, renderEntries, List.length_append, List.length_append]
    rcases Nat.eq_zero_or_pos
      (fitEntries denylist cap es (total + ((dividerBefore e userDiv).length + (closetLine e denylist).length))
      (userDiv || decide (e.prov.lane = .user))) with hzero | hpos
    · rw [hzero, List.take_zero, renderEntries, List.length_nil]
      omega
    · have hrest := ih hpos
      omega

theorem length_renderCloset (set : CoordSet) (cfg : ClosetConfig) (rawLen : ℕ) :
    (renderCloset set cfg rawLen).1.length ≤ closetCap cfg rawLen := by
  have hheader : closetHeader.length ≤ closetHeaderPartial.length := by decide
  rw [renderCloset_eq]
  split_ifs with hclosed hnone hsome
  · exact Nat.zero_le _
  · exact Nat.zero_le _
  · have hfit := length_renderEntries_fit (Nat.pos_of_ne_zero hnone)
    rw [List.length_append, List.length_append]
    unfold closetFit
    omega
  · have hfit := length_renderEntries_fit (Nat.pos_of_ne_zero hnone)
    rw [closetFit] at hsome
    rw [List.take_of_length_le (Nat.le_of_not_lt hsome)] at hfit
    rw [List.length_append]
    omega

theorem closetCap_le (cfg : ClosetConfig) (rawLen : ℕ) :
    closetCap cfg rawLen ≤
      min (settingOr cfg.budgetBytes closetDefaultBudgetBytes)
        (rawLen * settingOr cfg.maxRatioPct closetDefaultMaxRatioPct / 100) := by
  refine min_le_min_left _ ?_
  split_ifs with hratio
  · exact Nat.le_refl _
  · exact (Nat.le_div_iff_mul_le (by decide)).mpr (Nat.mul_le_mul_left rawLen (Nat.le_of_not_lt hratio))

/-! ## What is left out -/

/-- Each entry has a line of its own, verbatim or redacted. -/
def AllRendered (set : CoordSet) (denylist out : Text) : Prop := (set.map (·.line denylist)).Subperm (out.splitOn 10)

def isEntryLine (l : Text) : Bool := !([[], headerLine, headerPartialLine, dividerLine, truncNoteLine].contains l)

theorem isEntryLine_line {e : CoordEntry} (he : e ∈ nominateAll scans) (denylist : Text) :
    isEntryLine (e.line denylist) := by
  have hshown := shown_noBlank (entry_bytes he).1 (entry_bytes he).2 denylist (b := 32) rfl (by decide)
  have hline : shownLine e.prov.lane (e.shown denylist) e.label ∉ _ := shownLine_ne hshown
  simpa [isEntryLine, CoordEntry.line] using hline

theorem countP_entryLines (hes : ∀ e ∈ es, e ∈ nominateAll scans) (denylist : Text) (userDiv : Bool) :
    (entryLines denylist es userDiv).countP isEntryLine = es.length := by
  have hdivider : isEntryLine dividerLine = false := by decide
  induction es generalizing userDiv with
  | nil => rfl
  | cons e es ih =>
    obtain ⟨he, hes⟩ := List.forall_mem_cons.mp hes
    rw [entryLines, List.countP_append, List.countP_cons_of_pos (isEntryLine_line he denylist), ih hes,
      List.length_cons]
    split_ifs <;> simp [hdivider]

theorem countP_entries (denylist : Text) :
    ((nominateAll scans).map (·.line denylist)).countP isEntryLine = (nominateAll scans).length := by
  rw [List.countP_eq_length.mpr, List.length_map]
  intro l hl
  obtain ⟨e, he, rfl⟩ := List.mem_map.mp hl
  exact isEntryLine_line he denylist

theorem map_line_sublist (denylist : Text) (es : List CoordEntry) (userDiv : Bool) :
    (es.map (·.line denylist)).Sublist (entryLines denylist es userDiv) := by
  induction es generalizing userDiv with
  | nil => exact List.Sublist.slnil
  | cons e es ih => exact ((ih _).cons_cons _).trans (List.sublist_append_right _ _)

/-- Nothing is reported lost exactly where there is nothing to render or every entry is rendered. -/
theorem evict_none_iff (scans : List Scan) (cfg : ClosetConfig) (rawLen : ℕ) :
    (renderCloset (nominateAll scans) cfg rawLen).2 = .none ↔
      (nominateAll scans = [] ∨ cfg.enabled = false) ∨
        AllRendered (nominateAll scans) cfg.denylist (renderCloset (nominateAll scans) cfg rawLen).1 := by
  have hsorted : (sortEntries (nominateAll scans)).Perm (nominateAll scans) := List.perm_insertionSort _ _
  have hmem : ∀ e ∈ sortEntries (nominateAll scans), e ∈ nominateAll scans := fun e he => mem_sortEntries.mp he
  have hcount : ∀ {out : Text}, AllRendered (nominateAll scans) cfg.denylist out →
      (nominateAll scans).length ≤ (out.splitOn 10).countP isEntryLine := fun h => by
    rw [← countP_entries cfg.denylist]
    exact h.countP_le _
  have hstatic : ∀ l ∈ [[], headerLine, headerPartialLine, truncNoteLine], isEntryLine l = false := by decide
  simp only [List.forall_mem_cons] at hstatic
  obtain ⟨hnil, hheader, hcut, hnote, -⟩ := hstatic
  have hclosed : (nominateAll scans = [] ∨ (!cfg.enabled) = true) ↔
    nominateAll scans = [] ∨ cfg.enabled = false := by simp
  rw [renderCloset_eq]
  split_ifs with hoff hnone hsome
  · exact iff_of_true rfl (.inl (hclosed.mp hoff))
  · refine iff_of_false (by decide) (not_or.mpr ⟨hclosed.not.mp hoff, fun hall => hoff (.inl ?_)⟩)
    have hle := hcount hall
    rw [List.splitOn_nil, List.countP_singleton, hnil] at hle
    exact List.length_eq_zero_iff.mp (Nat.le_zero.mp hle)
  · refine iff_of_false (by decide) (not_or.mpr ⟨hclosed.not.mp hoff, fun hall => ?_⟩)
    have hle := hcount hall
    have htake : ∀ e ∈ (sortEntries (nominateAll scans)).take (closetFit (nominateAll scans) cfg rawLen),
      e ∈ nominateAll scans :=
      fun e he => hmem e (List.mem_of_mem_take he)
    have hlines := splitOn_rendering (show headerPartialLine ∈ _ by simp) htake cfg.denylist
      (show [truncNoteLine] = [] ∨ _ from .inr rfl)
    rw [unlines_render, ← closetHeaderPartial_eq] at hlines
    have hout : unlines [truncNoteLine] = closetTruncNote := by
      rw [closetTruncNote_eq]
      rfl
    rw [← hout, hlines] at hle
    simp [hcut, hnote, hnil, countP_entryLines htake] at hle
    rw [hsorted.length_eq] at hsome
    omega
  · refine iff_of_true rfl (.inr ?_)
    have hlines := splitOn_rendering (show headerLine ∈ _ by simp) hmem cfg.denylist (show [] = [] ∨ _ from .inl rfl)
    rw [unlines_render, ← closetHeader_eq] at hlines
    have hout : closetHeader ++ renderEntries cfg.denylist (sortEntries (nominateAll scans)) false =
        closetHeader ++ renderEntries cfg.denylist (sortEntries (nominateAll scans)) false ++ unlines [] :=
          (List.append_nil _).symm
    rw [AllRendered, hout, hlines]
    refine ((hsorted.map _).symm.subperm_right.mpr ?_)
    refine ((map_line_sublist cfg.denylist _ false).trans ?_).subperm
    rw [List.append_nil, List.cons_append]
    exact (List.sublist_append_left _ _).trans (List.sublist_cons_self _ _)

/-- Conservation: the bound, what is left out, one rendering of a set in any order, and the spans of the scan. -/
theorem closet_conservation :
    (∀ (set : CoordSet) (cfg : ClosetConfig) (rawLen : ℕ), (renderCloset set cfg rawLen).1.length ≤
        min (settingOr cfg.budgetBytes closetDefaultBudgetBytes)
          (rawLen * settingOr cfg.maxRatioPct closetDefaultMaxRatioPct / 100)) ∧
      (∀ (scans : List Scan) (cfg : ClosetConfig) (rawLen : ℕ),
        (renderCloset (nominateAll scans) cfg rawLen).2 = .none ↔
        (nominateAll scans = [] ∨ cfg.enabled = false) ∨
          AllRendered (nominateAll scans) cfg.denylist (renderCloset (nominateAll scans) cfg rawLen).1) ∧
      (∀ (scans : List Scan) (set' : CoordSet) (cfg : ClosetConfig) (rawLen : ℕ), set'.Perm (nominateAll scans) →
        renderCloset set' cfg rawLen = renderCloset (nominateAll scans) cfg rawLen) ∧
      ∀ (raw : Text) (prov : Provenance) (set : CoordSet), scanLoop raw prov raw.length 0 set =
        some (nominateInto raw prov set) ∧
        ((mentionsFrom prov raw 0 true 0).Pairwise fun a b => a.offset + spanAt raw a.offset ≤ b.offset) ∧
        (∀ m ∈ mentionsFrom prov raw 0 true 0, 0 < spanAt raw m.offset ∧ m.offset + spanAt raw m.offset ≤ raw.length ∧
          m.value <:+: (raw.drop m.offset).take (spanAt raw m.offset)) ∧
        ∀ e ∈ nominateInto raw prov set, e ∈ set ∨ ∃ m ∈ mentionsFrom prov raw 0 true 0, m.entry = e := by
  refine ⟨fun set cfg rawLen => (length_renderCloset set cfg rawLen).trans (closetCap_le cfg rawLen),
    evict_none_iff, ?_, nominateInto_spans⟩
  exact fun scans set' cfg rawLen h => renderCloset_eq_of_perm (nominateAll_distinct scans) h cfg rawLen

def sampleText : Text := utf8 "see #12, id=7"

def sampleSet : CoordSet := nominateAll [⟨sampleText, defaultProvenance⟩]

/-- Two coordinates of a text: in the other order, with room for both, with room for neither, and where
    the scan finds them. -/
theorem closet_conservation_sampleText :
    renderCloset sampleSet.reverse (roomy [] 2048) 2048 = renderCloset sampleSet (roomy [] 2048) 2048 ∧
      AllRendered sampleSet [] (renderCloset sampleSet (roomy [] 2048) 2048).1 ∧
      (renderCloset sampleSet (roomy [] 99) 99).1.length ≤ 99 ∧
      ¬AllRendered sampleSet [] (renderCloset sampleSet (roomy [] 99) 99).1 ∧
      (mentionsFrom defaultProvenance sampleText 0 true 0).map (·.offset) = [4, 9] ∧
      ∀ e ∈ sampleSet, ∃ m ∈ mentionsFrom defaultProvenance sampleText 0 true 0, m.entry = e := by
  obtain ⟨hbound, hnone, horder, hspans⟩ := closet_conservation
  refine ⟨horder [⟨sampleText, defaultProvenance⟩] _ _ _ (List.reverse_perm _), ?_, ?_, fun h => ?_, by decide +kernel,
    fun e he => ((hspans sampleText defaultProvenance []).2.2.2 e he).resolve_left List.not_mem_nil⟩
  · have hall : (renderCloset sampleSet (roomy [] 2048) 2048).2 = .none := by decide +kernel
    have hopen : ¬(sampleSet = [] ∨ (roomy [] 2048).enabled = false) := by decide +kernel
    exact ((hnone [⟨sampleText, defaultProvenance⟩] (roomy [] 2048) 2048).mp hall).resolve_left hopen
  · have hcap : min (settingOr (roomy [] 99).budgetBytes closetDefaultBudgetBytes)
        (99 * settingOr (roomy [] 99).maxRatioPct closetDefaultMaxRatioPct / 100) ≤ 99 := by decide +kernel
    exact (hbound sampleSet (roomy [] 99) 99).trans hcap
  · have hcut : (renderCloset sampleSet (roomy [] 99) 99).2 ≠ .none := by decide +kernel
    exact hcut ((hnone [⟨sampleText, defaultProvenance⟩] (roomy [] 99) 99).mpr (.inr h))

end Economizer
