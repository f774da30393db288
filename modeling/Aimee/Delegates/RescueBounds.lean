-- SUMMARY: No slice of the rescue parser is out of range and its loops end; a tagged call shows one of the literal marks.
import Aimee.Delegates.RescueParse

/-!
# Offsets of the rescue parser

What each scan gives, as bounds on the offsets it hands on. The rounds of a scanner keep the offset
within the text and move it forward.
-/

namespace Delegates

open Slices
open Economizer (Text utf8 JsonValue)

variable {s scan block tag attr openTag closeTag : Text} {names : List Text} {out : RescueResult} {p : ℕ}

/-! ## Reasoning blocks -/

variable {i e blockEnd bodyEnd : ℕ}

theorem le_of_indexCI {haystack needle : Text} (h : indexCI haystack needle = some i) :
    needle ≠ [] ∧ i + needle.length ≤ haystack.length := by
  rw [indexCI] at h
  split_ifs at h with hempty
  rw [not_or] at hempty
  have hle := le_of_index (fun hmap => hempty.2 (List.map_eq_nil_iff.mp hmap)) h
  rw [List.length_map, List.length_map] at hle
  exact ⟨hempty.2, hle⟩

theorem returns_removeReasoningBlock (s openTag closeTag : Text) :
    Returns (removeReasoningBlock s openTag closeTag) fun _ => True := by
  refine returns_loop (I := fun _ => True) (m := List.length) (fun s _ => ?_) _ s trivial (Nat.lt_succ_self _)
  rw [removeReasoningStep]
  cases hopen : indexCI s openTag with
  | none => exact .ok trivial
  | some start =>
    obtain ⟨hne, hstart⟩ := le_of_indexCI hopen
    have hpos := List.length_pos_iff.mpr hne
    refine (returns_sliceFrom hstart).bind fun rest hrest => ?_
    refine (returns_slice (Nat.zero_le _) (by omega)).bind fun before hbefore => ?_
    cases hclose : indexCI rest closeTag with
    | none => exact .ok trivial
    | some stop =>
      obtain ⟨-, hstop⟩ := le_of_indexCI hclose
      refine (returns_sliceFrom hstop).bind fun behind hbehind => .ok ⟨trivial, ?_⟩
      rw [List.length_append, hbefore.length, hbehind.length, hrest.length]
      omega

theorem returns_stripReasoningBlocks (text : Text) : Returns (stripReasoningBlocks text) fun _ => True := by
  refine (returns_removeReasoningBlock _ _ _).bind fun s _ => ?_
  exact (returns_removeReasoningBlock _ _ _).bind fun s _ => .ok trivial

/-! ## Tags -/

/-- A span within a text, with room for its closing tag behind it. -/
structure SpanIn (s : Text) (room : ℕ) (a b : ℕ) : Prop where
  le : a ≤ b
  bound : b + room ≤ s.length

theorem length_openTag (tag : Text) : (utf8 "<" ++ tag ++ utf8 ">").length = tag.length + 2 := by
  rw [List.length_append, List.length_append, show (utf8 "<").length = 1 from rfl, show (utf8 ">").length = 1 from rfl]
  omega

theorem length_closeTag (tag : Text) : (utf8 "</" ++ tag ++ utf8 ">").length = tag.length + 3 := by
  rw [List.length_append, List.length_append, show (utf8 "</").length = 2 from rfl, show (utf8 ">").length = 1 from rfl]
  omega

theorem returns_findXMLTag (s tag : Text) :
    Returns (findXMLTag s tag) fun r => ∀ a b, r = some (a, b) →
      SpanIn s (tag.length + 3) a b ∧ utf8 "<" ++ tag ++ utf8 ">" <:+: s := by
  have hopen := length_openTag tag
  have hclose := length_closeTag tag
  rw [findXMLTag]
  cases hi : index s (utf8 "<" ++ tag ++ utf8 ">") with
  | none => exact .ok fun a b h => nomatch h
  | some i =>
    have hstart := le_of_index (List.ne_nil_of_length_pos (by omega)) hi
    refine (returns_sliceFrom hstart).bind fun rest hrest => .ok fun a b h => ?_
    obtain ⟨j, hj, heq⟩ := Option.map_eq_some_iff.mp h
    obtain ⟨rfl, rfl⟩ := Prod.mk.inj heq
    have hstop := le_of_index (List.ne_nil_of_length_pos (by omega)) hj
    rw [hrest.length] at hstop
    exact ⟨⟨Nat.le_add_right _ _, by omega⟩, infix_of_index hi⟩

theorem returns_namespaceStart (n : ℕ) (h : n ≤ s.length) :
    Returns (namespaceStart s n) fun r => ∀ k, r = some k → k ≤ n := by
  induction n with
  | zero => exact .ok fun k hk => nomatch hk
  | succ n ih =>
    refine (returns_item (i := n) (by omega)).bind fun c _ => ?_
    split_ifs with hlt hname
    · exact .ok fun k hk => (Option.some.inj hk).symm.le
    · exact (ih (by omega)).mono fun r hr k hk => (hr k hk).trans (Nat.le_succ n)
    · exact .ok fun k hk => nomatch hk

theorem returns_findNamespacedToolCall (s : Text) :
    Returns (findNamespacedToolCall s) fun r => ∀ a b, r = some (a, b) →
      SpanIn s 12 a b ∧ namespacedMark <:+: s := by
  rw [findNamespacedToolCall]
  cases hi : index s namespacedMark with
  | none => exact .ok fun a b h => nomatch h
  | some marker =>
    have hmarker := le_of_index (by decide) hi
    refine (returns_namespaceStart marker (by omega)).bind fun r hr => ?_
    cases r with
    | none => exact .ok fun a b h => nomatch h
    | some start =>
      have hstart := hr start rfl
      dsimp only
      split_ifs with hlen
      · exact .ok fun a b h => nomatch h
      · refine (returns_slice hstart (by omega)).bind fun ns hns => ?_
        refine (returns_sliceFrom hmarker).bind fun rest hrest => .ok fun a b h => ?_
        obtain ⟨j, hj, heq⟩ := Option.map_eq_some_iff.mp h
        obtain ⟨rfl, rfl⟩ := Prod.mk.inj heq
        have hclose : (utf8 "</" ++ ns ++ namespacedMark).length = 2 + ns.length + 11 := by
          rw [List.length_append, List.length_append]
          rfl
        have hstop := le_of_index (List.ne_nil_of_length_pos (by omega)) hj
        rw [hrest.length] at hstop
        exact ⟨⟨Nat.le_add_right _ _, by omega⟩, infix_of_index hi⟩

variable {rest : Text}

/-- A byte of a slice that reaches to the end stands at the offset it was found at. -/
theorem lt_of_indexByte {c : UInt8} {lo : ℕ} (hrest : IsSlice s lo s.length rest)
    (h : indexByte rest c = some i) : lo + i < s.length ∧ s[lo + i]? = some c := by
  obtain ⟨hlt, hc⟩ := indexByte_eq_some h
  rw [hrest.length] at hlt
  refine ⟨by omega, ?_⟩
  rw [← hrest.getElem? hlt, hc]

theorem returns_findLocalXMLTag (s name : Text) :
    Returns (findLocalXMLTag s name) fun r => ∀ a b n, r = some (a, b, n) → 0 < a ∧ SpanIn s n a b := by
  refine returns_loop (I := fun _ => True) (m := fun p => s.length - p) (fun p _ => ?_) _ 0 trivial
    (Nat.lt_succ_of_le (Nat.sub_le _ _))
  have hnone : Returns (.ok (.inr none) : Run (ℕ ⊕ Option (ℕ × ℕ × ℕ))) (Round (fun _ => True) (fun p => s.length - p)
      (fun r => ∀ a b n, r = some (a, b, n) → 0 < a ∧ SpanIn s n a b) p) := .ok fun a b n h => nomatch h
  refine .ite (fun _ => hnone) fun hp => ?_
  refine (returns_sliceFrom (by omega)).bind fun rest hrest => ?_
  cases hlt : indexByte rest 60 with
  | none => exact hnone
  | some lt =>
    refine .ite (fun _ => hnone) fun hend => ?_
    have hnext : Returns (.ok (.inl (p + lt + 1)) : Run (ℕ ⊕ Option (ℕ × ℕ × ℕ))) (Round (fun _ => True)
        (fun p => s.length - p) (fun r => ∀ a b n, r = some (a, b, n) → 0 < a ∧ SpanIn s n a b) p) :=
      .ok ⟨trivial, Nat.sub_lt_sub_left (by omega) (by omega)⟩
    refine (returns_item (by omega)).bind fun c _ => ?_
    refine .ite (fun _ => hnext) fun hc => ?_
    generalize htag : advance (fun c => decide (c ≠ 62) && !isCSpace c) s (p + lt + 1) = tagEnd
    have hle : p + lt + 1 ≤ tagEnd := htag ▸ le_advance _ _ _
    refine .ite (fun _ => hnone) fun htagEnd => ?_
    refine (returns_slice hle (by omega)).bind fun tag _ => ?_
    refine .ite (fun _ => hnext) fun hname => ?_
    refine (returns_sliceFrom (by omega)).bind fun rest hrest => ?_
    cases hgt : indexByte rest 62 with
    | none => exact hnone
    | some gt =>
      have hgtlen := (lt_of_indexByte hrest hgt).1
      refine (returns_sliceFrom (by omega)).bind fun rest hrest => ?_
      cases hj : index rest (utf8 "</" ++ tag ++ utf8 ">") with
      | none => exact hnext
      | some j =>
        have hclose := length_closeTag tag
        have hstop := le_of_index (List.ne_nil_of_length_pos (by omega)) hj
        rw [hrest.length] at hstop
        refine .ok fun a b n h => ?_
        obtain ⟨rfl, h'⟩ := Prod.mk.inj (Option.some.inj h)
        obtain ⟨rfl, rfl⟩ := Prod.mk.inj h'
        exact ⟨Nat.succ_pos _, Nat.le_add_right _ _, by omega⟩

theorem returns_startsWord (h : i < tag.length) : Returns (startsWord tag i) fun _ => True := by
  rw [startsWord]
  split_ifs with h0
  · exact .ok trivial
  · obtain ⟨c, hc, -⟩ := returns_item (s := tag) (i := i - 1) (by omega)
    rw [hc]
    exact .ok trivial

theorem returns_xmlAttrValue (tag : Text) (hattr : attr ≠ []) : Returns (xmlAttrValue tag attr) fun _ => True := by
  have hpos := List.length_pos_iff.mpr hattr
  have hloop : Returns (loop (attrStep tag attr) (tag.length + 1) 0) fun r => ∀ eq, r = some eq → eq < tag.length := by
    refine returns_loop (I := fun p => p ≤ tag.length) (m := fun p => tag.length - p) (fun p hp => ?_) _ 0
      (Nat.zero_le _) (Nat.lt_succ_of_le (Nat.sub_le _ _))
    refine (returns_sliceFrom hp).bind fun rest hrest => ?_
    cases hi : index rest attr with
    | none => exact .ok fun eq h => nomatch h
    | some i =>
      have hle := le_of_index hattr hi
      rw [hrest.length] at hle
      refine (returns_startsWord (by omega)).bind fun fresh _ => ?_
      have hnext : Returns (.ok (.inl (p + i + attr.length)) : Run (ℕ ⊕ Option ℕ)) (Round (fun p => p ≤ tag.length)
          (fun p => tag.length - p) (fun r => ∀ eq, r = some eq → eq < tag.length) p) :=
        .ok ⟨by omega, Nat.sub_lt_sub_left (by omega) (by omega)⟩
      by_cases hin : (fresh && decide (p + i + attr.length < tag.length)) = true
      · rw [if_pos hin]
        rw [Bool.and_eq_true, decide_eq_true_eq] at hin
        refine (returns_item hin.2).bind fun c _ => ?_
        exact .ite (fun _ => .ok fun eq h => by rw [← Option.some.inj h]; exact hin.2) fun _ => hnext
      · rw [if_neg hin]
        exact hnext
  refine hloop.bind fun r hr => ?_
  cases r with
  | none => exact .ok trivial
  | some eq =>
    refine .ite (fun _ => .ok trivial) fun hp => ?_
    refine (returns_item (by omega)).bind fun quote _ => ?_
    refine .ite (fun _ => .ok trivial) fun hquote => ?_
    refine .ite (fun _ => .ok trivial) fun hstop => ?_
    exact (returns_slice (le_advance _ _ _) (by omega)).bind fun value _ => .ok trivial

/-! ## Objects -/

theorem bounds_of_objectEndFrom {depth : ℕ} {inString escaped : Bool}
    (h : objectEndFrom rest p depth inString escaped = some e) : p ≤ e ∧ e < p + rest.length := by
  induction rest generalizing p depth inString escaped with
  | nil => cases inString <;> exact nomatch h
  | cons c rest ih =>
    have hstep : ∀ {depth inString escaped}, objectEndFrom rest (p + 1) depth inString escaped = some e →
        p ≤ e ∧ e < p + (c :: rest).length := fun h => by
      have := ih h
      rw [List.length_cons]
      omega
    cases inString with
    | true =>
      rw [objectEndFrom] at h
      split_ifs at h
      · exact hstep h
      · exact hstep h
      · exact hstep h
    | false =>
      rw [objectEndFrom] at h
      split_ifs at h
      · exact hstep h
      · exact hstep h
      · rw [← Option.some.inj h, List.length_cons]
        omega
      · exact hstep h
      · exact hstep h

/-- An object ends behind its brace, within the text. -/
theorem bounds_of_findJSONObjectEnd {start : ℕ} (h : findJSONObjectEnd s start = some e) :
    start < e ∧ e < s.length := by
  rw [findJSONObjectEnd] at h
  split_ifs at h with hopen
  obtain ⟨hlt, hget⟩ := List.getElem?_eq_some_iff.mp hopen
  rw [List.drop_eq_getElem_cons hlt, hget, objectEndFrom] at h
  have hbounds := bounds_of_objectEndFrom h
  rw [List.length_drop] at hbounds
  omega

/-! ## Scanners -/

@[simp] theorem calls_appendCall (r : RescueResult) (name arguments : Text) :
    (r.appendCall name arguments).calls.length = r.calls.length + 1 := List.length_append

@[simp] theorem calls_setContentIfEmpty (r : RescueResult) (pre : Text) :
    (r.setContentIfEmpty pre).calls = r.calls := by
  rw [RescueResult.setContentIfEmpty]
  split_ifs <;> rfl

@[simp] theorem calls_markFound (r : Found) : (markFound r).1.calls = r.1.calls := by
  rw [markFound]
  split_ifs <;> rfl

@[simp] theorem found_markFound (r : Found) : (markFound r).2 = r.2 := by
  rw [markFound]
  split_ifs <;> rfl

/-- A scanner stands within the text, has collected the calls it has counted, and has seen a mark if
    there are any. -/
structure Standing (scan : Text) (start : ℕ) (mark : Prop) (s : Scanning) : Prop where
  within : s.p ≤ scan.length
  calls : s.out.calls.length = start + s.found
  seen : 0 < s.found → mark

/-- What a scanner leaves. -/
structure Collected (start : ℕ) (mark : Prop) (r : Found) : Prop where
  calls : r.1.calls.length = start + r.2
  seen : 0 < r.2 → mark

theorem Collected.markFound {start : ℕ} {mark : Prop} {r : Found} (h : Collected start mark r) :
    Collected start mark (markFound r) where
  calls := by rw [calls_markFound, found_markFound, h.calls]
  seen hfound := h.seen (by rwa [found_markFound] at hfound)

theorem Collected.setContent {start : ℕ} {mark : Prop} {r : Found} (h : Collected start mark r) (pre : Text) :
    Collected start mark (r.1.setContentIfEmpty pre, r.2) where
  calls := by rw [calls_setContentIfEmpty, h.calls]
  seen := h.seen

/-- What a round of a scanner over a text has to do. -/
abbrev ScanRound (scan : Text) (start : ℕ) (mark : Prop) (s : Scanning) : Scanning ⊕ Found → Prop :=
  Round (Standing scan start mark) (fun s => scan.length - s.p) (Collected start mark) s

section

variable {start : ℕ} {mark : Prop} {st : Scanning}

theorem Standing.leave (h : Standing scan start mark st) : Returns st.leave (ScanRound scan start mark st) :=
  .ok ⟨h.calls, h.seen⟩

theorem Standing.goOn (h : Standing scan start mark st) (hlt : st.p < p) (hle : p ≤ scan.length) :
    Returns (st.goOn p) (ScanRound scan start mark st) :=
  .ok ⟨⟨hle, h.calls, h.seen⟩, Nat.sub_lt_sub_left (Nat.lt_of_lt_of_le hlt hle) hlt⟩

theorem Standing.call_goOn {out : RescueResult} (h : Standing scan start mark st)
    (hcalls : out.calls.length = st.out.calls.length + 1) (hmark : mark) (hlt : st.p < p) (hle : p ≤ scan.length) :
    Returns ((st.call out).goOn p) (ScanRound scan start mark st) := by
  refine .ok ⟨⟨hle, ?_, fun _ => hmark⟩, Nat.sub_lt_sub_left (Nat.lt_of_lt_of_le hlt hle) hlt⟩
  have hout := h.calls
  show out.calls.length = start + (st.found + 1)
  omega

theorem returns_scanAll {step : Scanning → Run (Scanning ⊕ Found)} {out : RescueResult}
    (hstep : ∀ s, Standing scan out.calls.length mark s → Returns (step s) (ScanRound scan out.calls.length mark s)) :
    Returns (scanAll scan step out) (Collected out.calls.length mark) :=
  returns_loop hstep _ _ ⟨Nat.zero_le _, rfl, fun h => absurd h (Nat.lt_irrefl 0)⟩ (Nat.lt_succ_of_le (Nat.sub_le _ _))

end

theorem hasMark_of_infix {m : Text} (hm : m ∈ [toolCallMark, invokeMark, channelMarker, mistralMarker, namespacedMark])
    (h : m <:+: scan) : hasMark scan = true := by
  rw [hasMark, List.any_eq_true]
  exact ⟨m, hm, contains_iff.mpr h⟩

/-! ## Blocks -/

theorem returns_advanceBlock (h : blockEnd + 12 ≤ scan.length) (namespaced : Bool) :
    Returns (advanceBlock scan blockEnd namespaced) fun next => blockEnd < next ∧ next ≤ scan.length := by
  have hlen : closeToolCall.length = 12 := rfl
  cases namespaced with
  | false => exact .ok ⟨by omega, by omega⟩
  | true =>
    refine (returns_sliceFrom (by omega)).bind fun rest hrest => .ok ?_
    cases hgt : indexByte rest 62 with
    | none => exact ⟨by dsimp only; omega, by dsimp only; omega⟩
    | some gt =>
      have hbound := (lt_of_indexByte hrest hgt).1
      exact ⟨by dsimp only; omega, by dsimp only; omega⟩

variable {bodyStart : ℕ} {span : Option (ℕ × ℕ)} {r : Found}

theorem returns_bodyEndOf {closeTag : Text} (h : bodyStart ≤ block.length)
    (hclose : closeTag[0]? = some 60) :
    Returns (bodyEndOf block bodyStart closeTag) fun e =>
      bodyStart ≤ e ∧ e ≤ block.length ∧ (e = block.length ∨ block[e]? = some 60) := by
  have hlen : 0 < closeTag.length := (List.getElem?_eq_some_iff.mp hclose).1
  refine (returns_sliceFrom h).bind fun rest hrest => .ok ?_
  cases hi : index rest closeTag with
  | none => exact ⟨h, Nat.le_refl _, .inl rfl⟩
  | some i =>
    have hle := le_of_index (List.ne_nil_of_length_pos hlen) hi
    rw [hrest.length] at hle
    have hget := getElem?_of_index hi hlen
    rw [hrest.getElem? (by omega), hclose] at hget
    exact ⟨Nat.le_add_right _ _, by dsimp only; omega, .inr hget⟩

/-- What the parameters of a body need of its end. -/
def BodyEnd (block : Text) (bodyEnd : ℕ) : Prop :=
  bodyEnd ≤ block.length ∧ (bodyEnd = block.length ∨ block[bodyEnd]? = some 60)

theorem returns_qwenParameters {bodyStart : ℕ} (hend : BodyEnd block bodyEnd) (hstart : bodyStart ≤ bodyEnd)
    (args : List (Text × JsonValue)) :
    Returns (loop (qwenParameter block bodyEnd) (block.length + 1) (bodyStart, args)) fun _ => True := by
  obtain ⟨hle, hstop⟩ := hend
  refine returns_loop (I := fun s => s.1 ≤ bodyEnd) (m := fun s => bodyEnd - s.1) (fun s hs => ?_) _ _ hstart
    (by dsimp only; omega)
  obtain ⟨p, args⟩ := s
  refine .ite (fun _ => .ok trivial) fun hp => ?_
  refine (returns_slice hs hle).bind fun window hwindow => ?_
  cases hi : index window parameterMark with
  | none => exact .ok trivial
  | some i =>
    have hkey := le_of_index (by decide) hi
    rw [hwindow.length] at hkey
    refine (returns_sliceFrom (by omega)).bind fun rest hrest => ?_
    cases hgt : indexByte rest 62 with
    | none => exact .ok trivial
    | some gt =>
      obtain ⟨hlt, hbyte⟩ := lt_of_indexByte hrest hgt
      refine .ite (fun _ => .ok trivial) fun hover => ?_
      -- the `>` of the tag is not the `<` at which the body ends
      have hne : p + i + parameterMark.length + gt ≠ bodyEnd := by
        rintro heq
        rcases hstop with hstop | hstop
        · omega
        · rw [heq, hstop] at hbyte
          exact absurd hbyte (by decide)
      refine (returns_slice (by omega) hle).bind fun window hwindow => ?_
      cases hj : index window closeParameter with
      | none => exact .ok trivial
      | some j =>
        have hvalue := le_of_index (by decide) hj
        rw [hwindow.length] at hvalue
        refine (returns_slice (Nat.le_add_right _ _) (by omega)).bind fun key _ => ?_
        refine (returns_slice (Nat.le_add_right _ _) (by omega)).bind fun value _ => ?_
        exact .ok ⟨by dsimp only; omega, by dsimp only; omega⟩

theorem returns_parseQwenFunctionCall (block : Text) (out : RescueResult) :
    Returns (parseQwenFunctionCall block out) fun r => ∀ out', r = some out' →
      out'.calls.length = out.calls.length + 1 := by
  rw [parseQwenFunctionCall]
  cases hi : index block functionMark with
  | none => exact .ok fun out' h => nomatch h
  | some fn =>
    have hfn := le_of_index (by decide) hi
    refine (returns_sliceFrom hfn).bind fun rest hrest => ?_
    cases hgt : indexByte rest 62 with
    | none => exact .ok fun out' h => nomatch h
    | some gt =>
      have hlt := (lt_of_indexByte hrest hgt).1
      refine (returns_slice (Nat.le_add_right _ _) (by omega)).bind fun name _ => ?_
      refine (returns_bodyEndOf (by omega) rfl).bind fun bodyEnd hbody => ?_
      refine (returns_qwenParameters hbody.2 hbody.1 []).bind fun args _ => .ok fun out' h => ?_
      rw [← Option.some.inj h, calls_appendCall]

theorem returns_xmlArguments (h : ∀ a b, span = some (a, b) → a ≤ b ∧ b ≤ scan.length) :
    Returns (xmlArguments scan span) fun _ => True := by
  cases span with
  | none => exact .ok trivial
  | some ab =>
    obtain ⟨a, b⟩ := ab
    obtain ⟨hle, hbound⟩ := h a b rfl
    refine (returns_slice hle hbound).bind fun raw _ => ?_
    dsimp only
    split_ifs <;> exact .ok trivial

theorem bounds_of_withinBlock {blockStart a b : ℕ}
    (hspan : ∀ a b, span = some (a, b) → a ≤ b) (h : withinBlock blockStart blockEnd span = some (a, b)) :
    a ≤ b ∧ b ≤ blockEnd := by
  cases span with
  | none => exact nomatch h
  | some ab =>
    obtain ⟨i, j⟩ := ab
    have hle := hspan i j rfl
    rw [withinBlock] at h
    split_ifs at h with hout
    obtain ⟨rfl, rfl⟩ := Prod.mk.inj (Option.some.inj h)
    omega

theorem returns_nextBlock (hp : p ≤ scan.length) :
    Returns (nextBlock scan p) fun r => ∀ a b, r.1 = some (a, b) →
      p ≤ a ∧ SpanIn scan 12 a b ∧ hasMark scan = true := by
  refine (returns_sliceFrom hp).bind fun rest hrest => ?_
  have hlen := hrest.length
  refine (returns_findXMLTag rest toolCallTag).bind fun plain hplain => ?_
  cases plain with
  | some ab =>
    obtain ⟨a, b⟩ := ab
    obtain ⟨hspan, hmark⟩ := hplain a b rfl
    have hroom : toolCallTag.length + 3 = 12 := rfl
    have hbound := hspan.bound
    refine .ok fun a' b' h => ?_
    obtain ⟨rfl, rfl⟩ := Prod.mk.inj (Option.some.inj h)
    refine ⟨Nat.le_add_left _ _, ⟨Nat.add_le_add_right hspan.le p, by omega⟩, ?_⟩
    exact hasMark_of_infix (m := toolCallMark) (by decide) (hmark.trans hrest.infix)
  | none =>
    refine (returns_findNamespacedToolCall rest).bind fun namespaced hns => ?_
    cases namespaced with
    | none => exact .ok fun a b h => nomatch h
    | some ab =>
      obtain ⟨a, b⟩ := ab
      obtain ⟨hspan, hmark⟩ := hns a b rfl
      have hbound := hspan.bound
      refine .ok fun a' b' h => ?_
      obtain ⟨rfl, rfl⟩ := Prod.mk.inj (Option.some.inj h)
      refine ⟨Nat.le_add_left _ _, ⟨Nat.add_le_add_right hspan.le p, by omega⟩, ?_⟩
      exact hasMark_of_infix (m := namespacedMark) (by decide) (hmark.trans hrest.infix)

theorem returns_xmlBlockStep {start : ℕ} {st : Scanning} (h : Standing scan start (hasMark scan = true) st) :
    Returns (xmlBlockStep scan st) (ScanRound scan start (hasMark scan = true) st) := by
  refine .ite (fun _ => h.leave) fun hfull => ?_
  refine (returns_nextBlock h.within).bind fun r hr => ?_
  obtain ⟨span, namespaced⟩ := r
  cases span with
  | none => exact h.leave
  | some ab =>
    obtain ⟨blockStart, blockEnd⟩ := ab
    obtain ⟨hafter, ⟨hle, hroom⟩, hmark⟩ := hr blockStart blockEnd rfl
    refine (returns_sliceFrom (by omega)).bind fun inner _ => ?_
    refine (returns_findXMLTag inner _).bind fun name hname => ?_
    refine (returns_findXMLTag inner _).bind fun args hargs => ?_
    have hadvance := returns_advanceBlock hroom namespaced
    cases husable : (withinBlock blockStart blockEnd name).filter fun ij => ij.2 - ij.1 ≤ maxRawName with
    | some ij =>
      have hspan := bounds_of_withinBlock (fun a b hab => (hname a b hab).1.le)
        (Option.eq_some_of_filter_eq_some husable)
      refine (returns_slice hspan.1 (by omega)).bind fun raw _ => ?_
      refine .ite (fun _ => hadvance.bind fun next hnext => h.goOn (by omega) hnext.2) fun hempty => ?_
      have hargs' : ∀ a b, withinBlock blockStart blockEnd args = some (a, b) → a ≤ b ∧ b ≤ scan.length := by
        intro a b hab
        have hbounds := bounds_of_withinBlock (fun a b hab => (hargs a b hab).1.le) hab
        omega
      refine (returns_xmlArguments hargs').bind fun arguments _ => ?_
      refine hadvance.bind fun next hnext => ?_
      rw [if_neg (by omega)]
      exact h.call_goOn (calls_appendCall _ _ _) hmark (by omega) hnext.2
    | none =>
      refine (returns_slice hle (by omega)).bind fun block _ => ?_
      refine (returns_parseQwenFunctionCall block st.out).bind fun r hr => ?_
      refine hadvance.bind fun next hnext => ?_
      rw [if_neg (by omega)]
      cases r with
      | some out => exact h.call_goOn (hr out rfl) hmark (by omega) hnext.2
      | none => exact h.goOn (by omega) hnext.2

theorem returns_parseXMLBlocks (scan : Text) (out : RescueResult) :
    Returns (parseXMLBlocks scan out) (Collected out.calls.length (hasMark scan = true)) :=
  returns_scanAll fun _ h => returns_xmlBlockStep h

/-! ## Invocations -/

theorem returns_invokeParameters {bodyStart : ℕ} (hend : bodyEnd ≤ block.length) (hstart : bodyStart ≤ bodyEnd)
    (args : List (Text × JsonValue)) :
    Returns (loop (invokeParameter block bodyEnd) (block.length + 1) (bodyStart, args)) fun _ => True := by
  refine returns_loop (I := fun s => s.1 ≤ bodyEnd) (m := fun s => bodyEnd - s.1) (fun s hs => ?_) _ _ hstart
    (by dsimp only; omega)
  refine .ite (fun _ => .ok trivial) fun hp => ?_
  refine (returns_slice hs hend).bind fun window hwindow => ?_
  cases hi : index window (utf8 "<parameter") with
  | none => exact .ok trivial
  | some i =>
    have htag := le_of_index (by decide) hi
    rw [hwindow.length] at htag
    refine (returns_slice (by omega) hend).bind fun window hwindow => ?_
    cases hj : index window (utf8 ">") with
    | none => exact .ok trivial
    | some j =>
      have hgt := le_of_index (by decide) hj
      rw [hwindow.length, show (utf8 ">").length = 1 from rfl] at hgt
      refine (returns_slice (Nat.le_add_right _ _) (by omega)).bind fun tag _ => ?_
      refine (returns_xmlAttrValue tag (by decide)).bind fun key _ => ?_
      refine (returns_slice (by omega) hend).bind fun window hwindow => ?_
      cases hk : index window closeParameter with
      | none => exact .ok trivial
      | some k =>
        have hvalue := le_of_index (by decide) hk
        rw [hwindow.length] at hvalue
        refine (returns_slice (Nat.le_add_right _ _) (by omega)).bind fun value _ => ?_
        exact .ok ⟨by dsimp only; omega, by dsimp only; omega⟩

theorem returns_parseInvokeCall (names : List Text) (block : Text) (out : RescueResult) :
    Returns (parseInvokeCall names block out) fun r => ∀ out', r = some out' →
      out'.calls.length = out.calls.length + 1 ∧ invokeMark <:+: block := by
  rw [parseInvokeCall]
  have hnone : Returns (.ok none : Run (Option RescueResult)) fun r => ∀ out', r = some out' →
      out'.calls.length = out.calls.length + 1 ∧ invokeMark <:+: block := .ok fun out' h => nomatch h
  cases hi : index block invokeMark with
  | none => exact hnone
  | some invoke =>
    have hinvoke := le_of_index (by decide) hi
    refine (returns_sliceFrom (by omega)).bind fun rest hrest => ?_
    cases hj : index rest (utf8 ">") with
    | none => exact hnone
    | some i =>
      have hgt := le_of_index (by decide) hj
      rw [hrest.length, show (utf8 ">").length = 1 from rfl] at hgt
      refine (returns_slice (Nat.le_add_left _ _) (by omega)).bind fun tag _ => ?_
      refine (returns_xmlAttrValue tag (by decide)).bind fun name _ => ?_
      cases name with
      | none => exact hnone
      | some name =>
        refine .ite (fun _ => hnone) fun hname => ?_
        refine (returns_bodyEndOf (by omega) rfl).bind fun bodyEnd hbody => ?_
        refine (returns_invokeParameters hbody.2.1 hbody.1 []).bind fun args _ => .ok fun out' h => ?_
        rw [← Option.some.inj h, calls_appendCall]
        exact ⟨rfl, infix_of_index hi⟩

theorem bounds_of_invokeEnd (h : IsSlice scan bodyStart scan.length rest) :
    bodyStart ≤ invokeEnd rest bodyStart ∧ invokeEnd rest bodyStart ≤ scan.length := by
  have hle := h.le
  rw [invokeEnd]
  cases hc : index rest closeInvoke with
  | none => exact ⟨Nat.le_refl _, hle⟩
  | some c =>
    have hstop := le_of_index (by decide) hc
    rw [h.length] at hstop
    exact ⟨by dsimp only; omega, by dsimp only; omega⟩

theorem returns_invokeStep {start : ℕ} {st : Scanning} (h : Standing scan start (hasMark scan = true) st) :
    Returns (invokeStep names scan st) (ScanRound scan start (hasMark scan = true) st) := by
  have hmarkLen : invokeMark.length = 7 := rfl
  refine .ite (fun _ => h.leave) fun hfull => ?_
  refine (returns_sliceFrom h.within).bind fun rest hrest => ?_
  cases hi : index rest invokeMark with
  | none => exact h.leave
  | some i =>
    have hmark := hasMark_of_infix (m := invokeMark) (by decide) ((infix_of_index hi).trans hrest.infix)
    have hinvoke := le_of_index (by decide) hi
    rw [hrest.length] at hinvoke
    refine (returns_sliceFrom (by omega)).bind fun rest hrest => ?_
    cases hgt : indexByte rest 62 with
    | none => exact h.leave
    | some gt =>
      have htag := (lt_of_indexByte hrest hgt).1
      refine (returns_sliceFrom (by omega)).bind fun rest hrest => ?_
      have hend := bounds_of_invokeEnd hrest
      refine (returns_slice (by omega) hend.2).bind fun block _ => ?_
      refine (returns_parseInvokeCall names block st.out).bind fun r hr => ?_
      cases r with
      | none => exact h.goOn (by omega) (by omega)
      | some out =>
        refine (returns_slice (Nat.zero_le _) (by omega)).bind fun pre _ => ?_
        exact h.call_goOn (by rw [calls_setContentIfEmpty, (hr out rfl).1]) hmark (by omega) hend.2

theorem returns_parseInvokeCalls (names : List Text) (scan : Text) (out : RescueResult) :
    Returns (parseInvokeCalls names scan out) (Collected out.calls.length (hasMark scan = true)) :=
  (returns_scanAll fun _ h => returns_invokeStep h).bind fun _ hr => .ok hr.markFound

theorem returns_localBlockStep {start : ℕ} {st : Scanning} (h : Standing scan start (hasMark scan = true) st) :
    Returns (localBlockStep names scan st) (ScanRound scan start (hasMark scan = true) st) := by
  refine .ite (fun _ => h.leave) fun hfull => ?_
  refine (returns_sliceFrom h.within).bind fun rest hrest => ?_
  refine (returns_findLocalXMLTag rest toolCallTag).bind fun r hr => ?_
  cases r with
  | none => exact h.leave
  | some abn =>
    obtain ⟨a, b, n⟩ := abn
    obtain ⟨hpos, hle, hroom⟩ := hr a b n rfl
    rw [hrest.length] at hroom
    refine (returns_slice (Nat.add_le_add_right hle _) (by omega)).bind fun block hblock => ?_
    refine (returns_parseInvokeCall names block st.out).bind fun r hr => ?_
    cases r with
    | none => exact h.goOn (by omega) (by omega)
    | some out =>
      have hmark := hasMark_of_infix (m := invokeMark) (by decide) ((hr out rfl).2.trans hblock.infix)
      exact h.call_goOn (hr out rfl).1 hmark (by omega) (by omega)

/-! ## Channels and brackets -/

theorem returns_unquote (value : Text) : Returns (unquote value) fun _ => True := by
  rw [unquote]
  split_ifs with h
  · exact (returns_slice (by omega) (by omega)).mono fun _ _ => trivial
  · exact .ok trivial

theorem returns_channelArgsToJSON (inside : Text) : Returns (channelArgsToJSON inside) fun _ => True := by
  rw [channelArgsToJSON]
  split
  · exact .ok trivial
  · cases hcolon : indexByte (decodeChannelArgText inside) 58 with
    | none => exact .ok trivial
    | some colon =>
      have hlt := (indexByte_eq_some hcolon).1
      refine (returns_slice (Nat.zero_le _) (by omega)).bind fun key _ => ?_
      refine (returns_sliceFrom (by omega)).bind fun value _ => ?_
      exact (returns_unquote _).bind fun value _ => .ok trivial

theorem returns_channelStep {start : ℕ} {st : Scanning} (h : Standing scan start (hasMark scan = true) st) :
    Returns (channelStep scan st) (ScanRound scan start (hasMark scan = true) st) := by
  refine .ite (fun _ => h.leave) fun hfull => ?_
  refine (returns_sliceFrom h.within).bind fun rest hrest => ?_
  cases hi : index rest channelMarker with
  | none => exact h.leave
  | some i =>
    have hmark := hasMark_of_infix (m := channelMarker) (by decide) ((infix_of_index hi).trans hrest.infix)
    have hmarker := le_of_index (by decide) hi
    have hp := h.within
    rw [hrest.length] at hmarker
    dsimp only
    generalize hname : advance isCSpace scan (st.p + i + channelMarker.length) = nameStart
    have hstart : st.p + i + channelMarker.length ≤ nameStart := hname ▸ le_advance _ _ _
    have hstart' : nameStart ≤ scan.length := hname ▸ advance_le (by omega)
    generalize hstop : advance (fun c => c ≠ 123 && !isCSpace c && c ≠ 60) scan nameStart = nameEnd
    have hle : nameStart ≤ nameEnd := hstop ▸ le_advance _ _ _
    have hle' : nameEnd ≤ scan.length := hstop ▸ advance_le hstart'
    refine (returns_sliceFrom hle').bind fun rest hrest => ?_
    cases hbrace : indexByte rest 123 with
    | none => exact h.leave
    | some brace =>
      dsimp only
      cases hclose : findJSONObjectEnd scan (nameEnd + brace) with
      | none => exact h.leave
      | some argsClose =>
        have hargs := bounds_of_findJSONObjectEnd hclose
        refine (returns_slice hle hle').bind fun name _ => ?_
        refine (returns_slice hargs.1 (by omega)).bind fun inside _ => ?_
        refine (returns_channelArgsToJSON inside).bind fun args _ => ?_
        exact h.call_goOn (calls_appendCall _ _ _) hmark (by omega) hargs.2

theorem returns_prosePreceding {marker : Text} {start : ℕ} {mark : Prop} (hmarker : marker ≠ [])
    (h : Collected start mark r) : Returns (prosePreceding scan marker r) (Collected start mark) := by
  refine .ite (fun _ => .ok h) fun hnone => ?_
  cases hi : index scan marker with
  | none => exact .ok h.markFound
  | some first =>
    have hle := le_of_index hmarker hi
    exact .ite (fun _ => .ok h.markFound) fun _ =>
      (returns_slice (Nat.zero_le _) (by omega)).bind fun pre _ => .ok (h.setContent pre).markFound

theorem returns_parseChannelCalls (scan : Text) (out : RescueResult) :
    Returns (parseChannelCalls scan out) (Collected out.calls.length (hasMark scan = true)) :=
  (returns_scanAll fun _ h => returns_channelStep h).bind fun _ hr => returns_prosePreceding (by decide) hr

theorem returns_mistralStep {start : ℕ} {st : Scanning} (h : Standing scan start (hasMark scan = true) st) :
    Returns (mistralStep names scan st) (ScanRound scan start (hasMark scan = true) st) := by
  refine .ite (fun _ => h.leave) fun hfull => ?_
  refine (returns_sliceFrom h.within).bind fun rest hrest => ?_
  cases hi : index rest mistralMarker with
  | none => exact h.leave
  | some i =>
    have hmark := hasMark_of_infix (m := mistralMarker) (by decide) ((infix_of_index hi).trans hrest.infix)
    have hmarker := le_of_index (by decide) hi
    have hp := h.within
    rw [hrest.length] at hmarker
    dsimp only
    generalize hname : advance (fun c => isCSpace c || c = 44) scan (st.p + i + mistralMarker.length) = nameStart
    have hstart : st.p + i + mistralMarker.length ≤ nameStart := hname ▸ le_advance _ _ _
    have hstart' : nameStart ≤ scan.length := hname ▸ advance_le (by omega)
    generalize hstop : advance (fun c => isAlnum c || c = 95 || c = 45 || c = 46 || c = 58) scan nameStart = nameEnd
    have hle : nameStart ≤ nameEnd := hstop ▸ le_advance _ _ _
    have hle' : nameEnd ≤ scan.length := hstop ▸ advance_le hstart'
    refine .ite (fun _ => h.leave) fun hempty => ?_
    generalize hopen : advance isCSpace scan nameEnd = argsOpen
    have hafter : nameEnd ≤ argsOpen := hopen ▸ le_advance _ _ _
    refine .ite (fun _ => h.leave) fun hbrace => ?_
    cases hclose : findJSONObjectEnd scan argsOpen with
    | none => exact h.leave
    | some argsClose =>
      have hargs := bounds_of_findJSONObjectEnd hclose
      refine (returns_slice hle hle').bind fun raw _ => ?_
      by_cases hknown : (!known names (trimC raw)) = true
      · rw [if_pos hknown]
        exact h.goOn (by omega) hargs.2
      · rw [if_neg hknown]
        refine (returns_slice (by omega) hargs.2).bind fun args _ => ?_
        exact h.call_goOn (calls_appendCall _ _ _) hmark (by omega) hargs.2

theorem returns_parseMistralBracketCalls (names : List Text) (scan : Text) (out : RescueResult) :
    Returns (parseMistralBracketCalls names scan out) (Collected out.calls.length (hasMark scan = true)) :=
  (returns_scanAll fun _ h => returns_mistralStep h).bind fun _ hr => returns_prosePreceding (by decide) hr

/-! ## Bare JSON -/

theorem returns_nextObject (hp : p ≤ scan.length) :
    Returns (nextObject scan p) fun r => ∀ a b, r = some (a, b) → p ≤ a ∧ a < b ∧ b < scan.length := by
  refine (returns_sliceFrom hp).bind fun rest hrest => .ok fun a b h => ?_
  cases hi : indexByte rest 123 with
  | none => rw [hi] at h; exact nomatch h
  | some i =>
    rw [hi] at h
    obtain ⟨stop, hstop, heq⟩ := Option.map_eq_some_iff.mp h
    obtain ⟨rfl, rfl⟩ := Prod.mk.inj heq
    have hbounds := bounds_of_findJSONObjectEnd hstop
    exact ⟨Nat.le_add_left _ _, hbounds.1, hbounds.2⟩

theorem calls_parseJSONToolObject {text : Text} {out' : RescueResult}
    (h : parseJSONToolObject names text out = some out') : out'.calls.length = out.calls.length + 1 := by
  rw [parseJSONToolObject] at h
  split at h
  · exact nomatch h
  split at h
  · dsimp only at h
    split at h
    · split_ifs at h
      rw [← Option.some.inj h, calls_appendCall]
    · exact nomatch h
  · exact nomatch h

theorem returns_bareStep {start : ℕ} {st : Scanning} (h : Standing scan start True st) :
    Returns (bareStep names scan st) (ScanRound scan start True st) := by
  refine .ite (fun _ => h.leave) fun hfull => ?_
  refine (returns_nextObject h.within).bind fun r hr => ?_
  cases r with
  | none => exact h.leave
  | some ab =>
    obtain ⟨a, b⟩ := ab
    have hbounds := hr a b rfl
    refine (returns_slice (by omega) (by omega)).bind fun object _ => ?_
    cases hcall : parseJSONToolObject names object st.out with
    | none => exact h.goOn (by omega) (by omega)
    | some out =>
      refine (returns_slice (Nat.zero_le _) (by omega)).bind fun pre _ => ?_
      exact h.call_goOn (by rw [calls_setContentIfEmpty, calls_parseJSONToolObject hcall]) trivial
        (by omega) hbounds.2.2

theorem returns_parseBareJSONCalls (names : List Text) (scan : Text) (out : RescueResult) :
    Returns (parseBareJSONCalls names scan out) (Collected out.calls.length True) :=
  (returns_scanAll fun _ h => returns_bareStep h).bind fun _ hr => .ok hr.markFound

/-! ## The tagged dialects -/

theorem returns_backToTag (n : ℕ) (h : n < scan.length) : Returns (backToTag scan n) fun k => k < scan.length := by
  induction n with
  | zero => exact .ok h
  | succ n ih =>
    refine (returns_item h).bind fun c _ => ?_
    split_ifs with hc
    · exact .ok h
    · exact ih (by omega)

theorem returns_firstBlock (scan : Text) : Returns (firstBlock scan) fun r => ∀ k, r = some k → k ≤ scan.length := by
  rw [firstBlock]
  cases hi : index scan toolCallMark with
  | some first =>
    have hle := le_of_index (by decide) hi
    exact .ok fun k h => by rw [← Option.some.inj h]; omega
  | none =>
    cases hns : index scan namespacedMark with
    | none => exact .ok fun k h => nomatch h
    | some mark =>
      have hle := le_of_index (by decide) hns
      have hlen : namespacedMark.length = 11 := rfl
      refine (returns_backToTag mark (by omega)).bind fun start hstart => .ok fun k h => ?_
      split_ifs at h
      rw [← Option.some.inj h]
      exact Nat.le_of_lt hstart

theorem returns_blockProse {start : ℕ} {mark : Prop} (h : Collected start mark r) :
    Returns (blockProse scan r) (Collected start mark) := by
  refine .ite (fun _ => .ok h) fun hnone => ?_
  refine (returns_firstBlock scan).bind fun first hfirst => ?_
  cases first with
  | none => exact .ok h.markFound
  | some first =>
    exact .ite (fun _ => .ok h.markFound) fun _ =>
      (returns_slice (Nat.zero_le _) (hfirst first rfl)).bind fun pre _ => .ok (h.setContent pre).markFound

theorem returns_orTry {mark : Prop} {dialect : RescueResult → Run Found} (h : Collected 0 mark r)
    (hdialect : ∀ out, Returns (dialect out) (Collected out.calls.length mark)) :
    Returns (orTry r dialect) (Collected 0 mark) := by
  rw [orTry]
  by_cases hnone : r.2 = 0
  · rw [if_pos hnone]
    have hcalls : r.1.calls.length = 0 := by rw [h.calls, hnone]
    have hd := hdialect r.1
    rwa [hcalls] at hd
  · rw [if_neg hnone]
    exact .ok h

/-- The tagged dialects return, and a call they find shows a mark of the text they read. -/
theorem returns_taggedCalls (names : List Text) (scan : Text) :
    Returns (taggedCalls names scan) (Collected 0 (hasMark scan = true)) := by
  refine (returns_parseXMLBlocks scan .empty).bind fun r hr => ?_
  refine (returns_orTry hr fun out => returns_scanAll fun _ h => returns_localBlockStep h).bind fun r hr => ?_
  refine (returns_blockProse hr).bind fun r hr => ?_
  refine (returns_orTry hr fun out => returns_parseChannelCalls scan out).bind fun r hr => ?_
  refine (returns_orTry hr fun out => returns_parseInvokeCalls names scan out).bind fun r hr => ?_
  exact returns_orTry hr fun out => returns_parseMistralBracketCalls names scan out

end Delegates
