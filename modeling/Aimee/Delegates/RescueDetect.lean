-- SUMMARY: The rescue parser returns on every text, and the detector misses its calls exactly where a cut joins a mark.
import Aimee.Delegates.RescueBounds

/-!
# Parser and detector

The parser reads the text with its reasoning blocks cut out, the detector looks for literal marks in
the text as it came. For bare JSON they go over the same objects.
-/

namespace Delegates

open Slices
open Economizer (Text utf8 JsonValue)

variable {text scan : Text} {names : List Text} {allowJSON : Bool} {out : RescueResult} {p : ℕ}

/-! ## Bare JSON -/

theorem isSome_parseJSONToolObject (object : Text) (hfull : out.full = false) :
    (parseJSONToolObject names object out).isSome = (parseJSONToolObject names object .empty).isSome := by
  have hempty : RescueResult.empty.full = false := by decide
  rw [parseJSONToolObject, parseJSONToolObject, hfull, hempty, if_neg Bool.false_ne_true, if_neg Bool.false_ne_true]
  split
  · dsimp only
    split
    · split_ifs <;> rfl
    · rfl
  · rfl

theorem returns_probeJSON (names : List Text) (scan : Text) : Returns (probeJSON names scan) fun _ => True := by
  refine returns_loop (I := fun p => p ≤ scan.length) (m := fun p => scan.length - p) (fun p hp => ?_) _ 0
    (Nat.zero_le _) (Nat.lt_succ_of_le (Nat.sub_le _ _))
  refine (returns_nextObject hp).bind fun r hr => ?_
  cases r with
  | none => exact .ok trivial
  | some ab =>
    obtain ⟨a, b⟩ := ab
    have hbounds := hr a b rfl
    refine (returns_slice (by omega) (by omega)).bind fun object _ => ?_
    by_cases hcall : (parseJSONToolObject names object .empty).isSome = true
    · rw [if_pos hcall]
      exact .ok trivial
    · rw [if_neg hcall]
      exact .ok ⟨by omega, Nat.sub_lt_sub_left (by omega) (by omega)⟩

/-- Where the probe finds nothing, the scanner goes over the same objects and finds nothing. -/
theorem bareJSON_of_probe {rounds : ℕ} {st : Scanning} (hfull : st.out.full = false)
    (h : loop (probeStep names scan) rounds st.p = .ok false) :
    loop (bareStep names scan) rounds st = .ok (st.out, st.found) := by
  induction rounds generalizing st with
  | zero => cases h
  | succ rounds ih =>
    rw [loop, probeStep] at h
    rw [loop, bareStep, hfull]
    cases hnext : nextObject scan st.p with
    | error fault => rw [hnext] at h; cases h
    | ok r =>
      rw [hnext] at h
      cases r with
      | none => rfl
      | some ab =>
        obtain ⟨a, b⟩ := ab
        cases hobject : slice scan a (b + 1) with
        | error fault =>
          simp only [hobject, bind, Except.bind] at h
          cases h
        | ok object =>
          have hsome : (parseJSONToolObject names object st.out).isSome = _ := isSome_parseJSONToolObject object hfull
          simp only [hobject, bind, Except.bind] at h ⊢
          by_cases hcall : (parseJSONToolObject names object .empty).isSome = true
          · rw [if_pos hcall] at h
            have hfound : (.ok true : Run Bool) = .ok false := h
            cases hfound
          · rw [if_neg hcall] at h
            rw [Bool.not_eq_true] at hcall
            rw [hcall] at hsome
            rw [Option.isSome_eq_false_iff.mp hsome |> Option.isNone_iff_eq_none.mp]
            exact @ih { st with p := a + 1 } hfull h

theorem probe_of_bareJSON {r : Found} (h : parseBareJSONCalls names scan out = .ok r) (hfull : out.full = false)
    (hfound : 0 < r.2) : probeJSON names scan = .ok true := by
  obtain ⟨b, hb, -⟩ := returns_probeJSON names scan
  cases b with
  | true => exact hb
  | false =>
    have hbare := @bareJSON_of_probe scan names _ { p := 0, out := out, found := 0 } hfull hb
    rw [parseBareJSONCalls, scanAll, hbare] at h
    rw [← Except.ok.inj h] at hfound
    exact absurd hfound (Nat.lt_irrefl 0)

/-! ## What the detector misses -/

/-- Cutting the reasoning blocks out of a text joins a mark that the text does not hold. -/
def JoinsMark (text scan : Text) : Prop := stripReasoningBlocks text = .ok scan ∧ hasMark scan = true ∧
    hasMark text = false

/-- A tagged dialect reads calls from a text, and not too many of them. -/
def ReadsTagged (names : List Text) (scan : Text) : Prop :=
  ∃ r, taggedCalls names scan = .ok r ∧ 0 < r.2 ∧ r.2 ≤ 4096

/-- A joined mark at which calls are read, and no bare JSON that shows them. -/
def Hidden (text : Text) (names : List Text) (allowJSON : Bool) : Prop :=
  ∃ scan, JoinsMark text scan ∧ ReadsTagged names scan ∧ ¬ (allowJSON = true ∧ probeJSON names scan = .ok true)

/-- What the detector answers for a text that holds no mark. -/
theorem rescueHasToolCalls_eq {b : Bool} (hne : text ≠ []) (hmark : hasMark text = false)
    (hscan : stripReasoningBlocks text = .ok scan) (hprobe : probeJSON names scan = .ok b) :
    rescueHasToolCalls text names allowJSON = .ok (allowJSON && b) := by
  rw [rescueHasToolCalls, if_neg hne, hmark]
  cases allowJSON with
  | false => rfl
  | true =>
    rw [hscan]
    exact hprobe

/-- The bare half of the parser, where the tagged one has found nothing. -/
theorem returns_bareHalf (hout : out.calls.length = 0) :
    Returns (if allowJSON = true then parseBareJSONCalls names scan out else .ok (out, 0)) fun r =>
      r.1.calls.length = r.2 ∧ (0 < r.2 → allowJSON = true ∧ probeJSON names scan = .ok true) := by
  have hfull : out.full = false := by rw [RescueResult.full, hout]; decide
  cases allowJSON with
  | false => exact .ok ⟨hout, fun h => absurd h (Nat.lt_irrefl 0)⟩
  | true =>
    obtain ⟨r, hr, hcollected⟩ := returns_parseBareJSONCalls names scan out
    refine ⟨r, hr, ?_, fun hfound => ⟨rfl, probe_of_bareJSON hr hfull hfound⟩⟩
    rw [hcollected.calls, hout, Nat.zero_add]

/-- The calls that are handed on: none where there are too many. -/
theorem calls_ne_nil_iff {r : Found} (hcalls : r.1.calls.length = r.2) :
    (if 4096 < r.1.calls.length then (RescueResult.empty, (-1 : ℤ)) else (r.1, (r.2 : ℤ))).1.calls ≠ [] ↔
      0 < r.2 ∧ r.2 ≤ 4096 := by
  rw [← List.length_pos_iff]
  split_ifs with hmany
  · show 0 < 0 ↔ _
    omega
  · dsimp only
    omega

/-- On every text parser and detector return; the detector misses calls of the parser exactly where
    cutting the reasoning blocks out joins a mark at which a tagged dialect reads calls. -/
theorem rescue_detected_iff (text : Text) (names : List Text) (allowJSON : Bool) :
    ∃ out n detected, rescueParseToolCalls text names allowJSON = .ok (out, n) ∧
      rescueHasToolCalls text names allowJSON = .ok detected ∧
      ((out.calls ≠ [] → detected = true) ↔ ¬ Hidden text names allowJSON) := by
  by_cases hne : text = []
  · subst hne
    refine ⟨.empty, 0, false, rfl, rfl, ?_⟩
    have hstrip : stripReasoningBlocks [] = .ok [] := by decide
    have hmark : hasMark [] = false := by decide
    refine ⟨fun _ ⟨scan, hjoins, _⟩ => ?_, fun _ hcalls => absurd rfl hcalls⟩
    rw [JoinsMark, hstrip] at hjoins
    rw [← Except.ok.inj hjoins.1, hmark] at hjoins
    exact Bool.false_ne_true hjoins.2.1
  obtain ⟨scan, hscan, -⟩ := returns_stripReasoningBlocks text
  obtain ⟨r, hr, hcollected⟩ := returns_taggedCalls names scan
  obtain ⟨probed, hprobe, -⟩ := returns_probeJSON names scan
  have hhidden : Hidden text names allowJSON ↔
      hasMark text = false ∧ (0 < r.2 ∧ r.2 ≤ 4096) ∧ ¬ (allowJSON && probed) = true := by
    constructor
    · rintro ⟨scan', ⟨hscan', -, htext⟩, ⟨r', hr', hfound⟩, hbare⟩
      rw [hscan] at hscan'
      rw [← Except.ok.inj hscan'] at hr' hbare
      rw [hr] at hr'
      rw [hprobe, Except.ok.injEq] at hbare
      rw [← Except.ok.inj hr'] at hfound
      exact ⟨htext, hfound, by rwa [Bool.and_eq_true]⟩
    · rintro ⟨htext, hfound, hbare⟩
      refine ⟨scan, ⟨hscan, hcollected.seen hfound.1, htext⟩, ⟨r, hr, hfound⟩, ?_⟩
      rwa [hprobe, Except.ok.injEq, ← Bool.and_eq_true]
  have hcalls : r.1.calls.length = r.2 := by rw [hcollected.calls, Nat.zero_add]
  -- what the parser gives: the tagged calls, or the bare ones where there are none
  have hparse : ∃ out n, rescueParseToolCalls text names allowJSON = .ok (out, n) ∧
      (out.calls ≠ [] → (0 < r.2 ∧ r.2 ≤ 4096) ∨ (allowJSON && probed) = true) ∧
      (0 < r.2 ∧ r.2 ≤ 4096 → out.calls ≠ []) := by
    rw [rescueParseToolCalls, if_neg hne, hscan]
    simp only [bind, Except.bind, hr]
    by_cases hnone : r.2 = 0
    · rw [orTry, if_pos hnone]
      have hout : r.1.calls.length = 0 := by rw [hcalls, hnone]
      obtain ⟨r', hr', hcalls', hbare⟩ := @returns_bareHalf scan names allowJSON r.1 hout
      rw [hr']
      refine ⟨_, _, rfl, fun hsome => .inr ?_, fun hfound => by omega⟩
      have hfound := (calls_ne_nil_iff hcalls').mp hsome
      have hshown := hbare hfound.1
      rw [hprobe, Except.ok.injEq] at hshown
      rw [Bool.and_eq_true]
      exact hshown
    · rw [orTry, if_neg hnone]
      exact ⟨_, _, rfl, fun hsome => .inl ((calls_ne_nil_iff hcalls).mp hsome), (calls_ne_nil_iff hcalls).mpr⟩
  obtain ⟨out, n, hparsed, hsome, hread⟩ := hparse
  cases hmark : hasMark text with
  | true =>
    refine ⟨out, n, true, hparsed, by rw [rescueHasToolCalls, if_neg hne, hmark, if_pos rfl], ?_⟩
    rw [hhidden, hmark]
    exact ⟨fun _ h => Bool.noConfusion h.1, fun _ _ => rfl⟩
  | false =>
    refine ⟨out, n, allowJSON && probed, hparsed, rescueHasToolCalls_eq hne hmark hscan hprobe, ?_⟩
    rw [hhidden, hmark]
    constructor
    · rintro hdetect ⟨-, hfound, hbare⟩
      exact hbare (hdetect (hread hfound))
    · intro hshown hcallsNe
      by_contra hbare
      rcases hsome hcallsNe with hfound | hbare'
      · exact hshown ⟨rfl, hfound, hbare⟩
      · exact hbare hbare'

/-! ## A mark with a block inside -/

def splitMark : Text := utf8 "<tool<think></think>_call><name>x</name></tool_call>"

theorem not_detected_splitMark :
    ¬ ∀ (text : Text) (names : List Text) (allowJSON : Bool) (out : RescueResult) (n : ℤ),
      rescueParseToolCalls text names allowJSON = .ok (out, n) → out.calls ≠ [] →
      rescueHasToolCalls text names allowJSON = .ok true := by
  intro hall
  have hdetect := hall splitMark [] false
    { isToolCall := true, content := [], calls := [⟨utf8 "xml_call_1", utf8 "x", utf8 "\x7b\x7d"⟩] } 1
    (by decide) (by decide)
  have hmissed : rescueHasToolCalls splitMark [] false = .ok false := by decide
  rw [hmissed] at hdetect
  exact nomatch hdetect

end Delegates
