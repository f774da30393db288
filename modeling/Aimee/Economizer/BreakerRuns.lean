-- SUMMARY: Runs of the session breaker: the table follows the record of the calls, and evictions are right exactly where no refresh came late.
import Aimee.Economizer.Breaker

/-!
# Runs of the session breaker

Every open window has its entry in the table with the same end, and entries are numbered in the
order in which sessions entered the table. A refresh moves the window and leaves that number: this
is where the eviction can go wrong.
-/

namespace Breaker

variable {b : SessionBreaker} {w : World} {key k : String} {ttlMs now : ℤ} {reason : String} {e : BreakerEntry}

/-! ## The table under each operation -/

theorem oldest_append (rows : List (String × BreakerEntry)) (r : String × BreakerEntry) :
    oldest (rows ++ [r]) = match oldest rows with
      | none => some r
      | some o => if r.2.seq < o.2.seq then some r else some o := by
  rw [oldest, List.foldl_append]
  rfl

theorem oldest_spec (rows : List (String × BreakerEntry)) :
    (oldest rows = none ∧ rows = []) ∨ ∃ o, oldest rows = some o ∧ o ∈ rows ∧ ∀ r ∈ rows, o.2.seq ≤ r.2.seq := by
  induction rows using List.reverseRecOn with
  | nil => exact .inl ⟨rfl, rfl⟩
  | append_singleton rows r ih =>
    refine .inr ?_
    rw [oldest_append]
    rcases ih with ⟨hnone, rfl⟩ | ⟨o, hsome, ho, hmin⟩
    · exact ⟨r, rfl, by simp, by simp⟩
    · rw [hsome]
      by_cases hlt : r.2.seq < o.2.seq
      · refine ⟨r, if_pos hlt, by simp, fun r' hr' => ?_⟩
        rcases List.mem_append.mp hr' with hr' | hr'
        · have := hmin r' hr'
          omega
        · rw [List.mem_singleton.mp hr']
      · refine ⟨o, if_neg hlt, List.mem_append_left _ ho, fun r' hr' => ?_⟩
        rcases List.mem_append.mp hr' with hr' | hr'
        · exact hmin r' hr'
        · rw [List.mem_singleton.mp hr']
          omega

theorem get?_swept_of_some (h : (b.swept now).entries.get? k = some e) : b.entries.get? k = some e := by
  unfold SessionBreaker.swept at h
  split at h
  · rw [SessionBreaker.sweepLocked, KeyMap.get?_keep, Option.filter_eq_some_iff] at h
    exact h.1
  · exact h

theorem get?_swept_of_live (h : b.entries.get? k = some e) (hlive : now < e.expires) :
    (b.swept now).entries.get? k = some e := by
  unfold SessionBreaker.swept
  split
  · rw [SessionBreaker.sweepLocked, KeyMap.get?_keep, h, Option.filter_some, if_pos (decide_eq_true hlive)]
  · exact h

/-- A table that is full after the sweep holds live entries alone. -/
theorem live_of_full (hfull : breakerCap ≤ (b.swept now).entries.size) (h : (b.swept now).entries.get? k = some e) :
    now < e.expires := by
  unfold SessionBreaker.swept at hfull h
  split at hfull
  next habove =>
    rw [if_pos habove, SessionBreaker.sweepLocked, KeyMap.get?_keep, Option.filter_eq_some_iff] at h
    exact of_decide_eq_true h.2
  next hbelow => exact absurd (lt_of_lt_of_le (by decide) hfull) hbelow

@[simp]
theorem swept_seq (b : SessionBreaker) (now : ℤ) : (b.swept now).seq = b.seq := by
  unfold SessionBreaker.swept
  split <;> rfl

variable {v why : String}

/-- Who is evicted: nobody, or the oldest of a full table of live entries. -/
theorem victim_eq_some (h : b.victim key ttlMs now = some v) :
    ¬(key = "" ∨ ttlMs ≤ 0) ∧ b.entries.get? key = none ∧ breakerCap ≤ (b.swept now).entries.size ∧
      ∃ e, oldest (b.swept now).entries.rows = some (v, e) ∧ (b.swept now).entries.get? v = some e ∧
        ∀ k e', (b.swept now).entries.get? k = some e' → e.seq ≤ e'.seq := by
  unfold SessionBreaker.victim at h
  split at h
  · cases h
  next haccepted =>
    split at h
    · cases h
    next habsent =>
      split at h
      next hfull =>
        obtain ⟨⟨v', e⟩, hold, rfl⟩ := Option.map_eq_some_iff.mp h
        rcases oldest_spec (b.swept now).entries.rows with ⟨hnone, -⟩ | ⟨o, hsome, hmem, hmin⟩
        · rw [hnone] at hold
          cases hold
        · rw [hsome] at hold
          cases hold
          refine ⟨haccepted, habsent, hfull, e, hsome, KeyMap.get?_eq_some_iff.mpr hmem, fun k e' hk => ?_⟩
          exact hmin _ (KeyMap.get?_eq_some_iff.mp hk)
      · cases h

/-- What an accepted `Disable` does to the table: a refresh in place, or an insertion. -/
theorem disable_cases (haccepted : ¬(key = "" ∨ ttlMs ≤ 0)) :
    (∃ e, b.entries.get? key = some e ∧ b.victim key ttlMs now = none ∧
      (b.disable key ttlMs reason now).seq = b.seq ∧
      ∃ why, ∀ k, (b.disable key ttlMs reason now).entries.get? k =
        if key = k then some ⟨now + duration ttlMs, e.seq, why⟩ else b.entries.get? k) ∨
    (b.entries.get? key = none ∧ (b.disable key ttlMs reason now).seq = b.seq + 1 ∧
      ∃ why, ∀ k, (b.disable key ttlMs reason now).entries.get? k =
        if key = k then some ⟨now + duration ttlMs, b.seq + 1, why⟩
        else if b.victim key ttlMs now = some k then none else (b.swept now).entries.get? k) := by
  unfold SessionBreaker.disable SessionBreaker.victim
  rw [if_neg haccepted, if_neg haccepted]
  cases hget : b.entries.get? key with
  | some e =>
    refine .inl ⟨e, rfl, rfl, rfl, if reason = "" then "unknown" else reason, fun k => ?_⟩
    exact KeyMap.get?_put _ _ _ _
  | none =>
    refine .inr ⟨rfl, ?_⟩
    by_cases hfull : breakerCap ≤ (b.swept now).entries.size
    · simp only [if_pos hfull]
      unfold SessionBreaker.evictOldestLocked
      cases hold : oldest (b.swept now).entries.rows with
      | none =>
        refine ⟨by simp only [swept_seq], if reason = "" then "unknown" else reason, fun k => ?_⟩
        rw [KeyMap.get?_put, swept_seq, Option.map_none, if_neg (show ¬none = some k by simp)]
      | some o =>
        refine ⟨by simp only [swept_seq], if reason = "" then "unknown" else reason, fun k => ?_⟩
        rw [KeyMap.get?_put, KeyMap.get?_erase, Option.map_some]
        simp [swept_seq]
    · simp only [if_neg hfull]
      refine ⟨by rw [swept_seq], if reason = "" then "unknown" else reason, fun k => ?_⟩
      rw [KeyMap.get?_put, swept_seq, if_neg (show ¬none = some k by simp)]

/-! ## The table and the record -/

/-- The window of the call fits the 64 bits of a duration. -/
def Op.Fits : Op → Prop
  | .disable _ ttlMs _ _ => ttlMs * 1000000 < 2 ^ 63
  | .isDisabled _ _ => True

theorem duration_eq (hpos : 0 < ttlMs) (hfits : ttlMs * 1000000 < 2 ^ 63) : duration ttlMs = ttlMs * 1000000 := by
  rw [duration, Int.bmod_eq_of_le] <;> omega

/-- The table follows the record, from the time `now` on. -/
structure Tracks (w : World) (now : ℤ) : Prop where
  nameless : w.windows "" = none
  stamped : ∀ k x, w.windows k = some x → x.entered ≤ x.latest ∧ x.latest < w.calls
  live : ∀ k x, w.Open k now x → ∃ e, w.breaker.entries.get? k = some e
  known : ∀ k e, w.breaker.entries.get? k = some e → ∃ x, w.windows k = some x ∧ x.expires = e.expires
  numbered : ∀ k e, w.breaker.entries.get? k = some e → e.seq ≤ w.breaker.seq
  order : ∀ k k' e e' x x', w.breaker.entries.get? k = some e → w.breaker.entries.get? k' = some e' →
    w.windows k = some x → w.windows k' = some x' → (e.seq ≤ e'.seq ↔ x.entered ≤ x'.entered)
  distinct : ∀ k k' e e', w.breaker.entries.get? k = some e → w.breaker.entries.get? k' = some e' →
    e.seq = e'.seq → k = k'

theorem Tracks.mono {now' : ℤ} (h : Tracks w now) (hle : now ≤ now') : Tracks w now' :=
  { h with live := fun k x hx => h.live k x ⟨hx.1, lt_of_le_of_lt hle hx.2⟩ }

theorem tracks_empty (now : ℤ) : Tracks World.empty now where
  nameless := rfl
  stamped _ _ h := by cases h
  live _ _ h := by cases h.1
  known _ _ h := by cases h
  numbered _ _ h := by cases h
  order _ _ _ _ _ _ h := by cases h
  distinct _ _ _ _ h := by cases h

/-- A lookup answers whether the window is open. -/
theorem Tracks.isDisabled_iff (h : Tracks w now) (key : String) :
    (w.breaker.isDisabled key now).1 = true ↔ ∃ x, w.Open key now x := by
  unfold SessionBreaker.isDisabled
  by_cases hempty : key = ""
  · subst hempty
    refine ⟨fun h => (by cases h), fun ⟨x, hx, _⟩ => ?_⟩
    rw [h.nameless] at hx
    cases hx
  rw [if_neg hempty]
  cases hget : w.breaker.entries.get? key with
  | none =>
    refine ⟨fun h => (by cases h), fun ⟨x, hx⟩ => ?_⟩
    obtain ⟨e, he⟩ := h.live key x hx
    rw [hget] at he
    cases he
  | some e =>
    obtain ⟨x, hx, hexp⟩ := h.known key e hget
    dsimp only
    split
    next hlive => exact ⟨fun _ => ⟨x, hx, hexp ▸ hlive⟩, fun _ => rfl⟩
    next hdead =>
      refine ⟨fun h => (by cases h), fun ⟨y, hy, hopen⟩ => ?_⟩
      rw [hx] at hy
      cases hy
      exact absurd (hexp ▸ hopen) hdead

/-- A lookup keeps the record and drops at most an expired entry. -/
theorem Tracks.isDisabled (h : Tracks w now) (key : String) : Tracks (w.step (.isDisabled key now)) now := by
  have hsub : ∀ k e, (w.breaker.isDisabled key now).2.entries.get? k = some e → w.breaker.entries.get? k = some e := by
    intro k e hk
    unfold SessionBreaker.isDisabled at hk
    split at hk
    · exact hk
    split at hk
    · exact hk
    split at hk
    · exact hk
    · rw [KeyMap.get?_erase] at hk
      split at hk
      · cases hk
      · exact hk
  have hseq : (w.breaker.isDisabled key now).2.seq = w.breaker.seq := by
    unfold SessionBreaker.isDisabled
    split
    · rfl
    split
    · rfl
    split <;> rfl
  refine ⟨h.nameless, fun k x hx => ?_, fun k x hx => ?_, fun k e hk =>
    h.known k e (hsub k e hk), fun k e hk => ?_, ?_, ?_⟩
  · exact ⟨(h.stamped k x hx).1, Nat.lt_succ_of_lt (h.stamped k x hx).2⟩
  · obtain ⟨e, he⟩ := h.live k x hx
    obtain ⟨x', hx', hexp⟩ := h.known k e he
    rw [show w.windows k = some x from hx.1] at hx'
    cases hx'
    have hlive : now < e.expires := hexp ▸ hx.2
    refine ⟨e, ?_⟩
    change (w.breaker.isDisabled key now).2.entries.get? k = some e
    unfold SessionBreaker.isDisabled
    split
    · exact he
    split
    · exact he
    next e' hget =>
      split
      · exact he
      next hdead =>
        rw [KeyMap.get?_erase, if_neg]
        · exact he
        · rintro rfl
          rw [he] at hget
          cases hget
          exact hdead hlive
  · change e.seq ≤ (w.breaker.isDisabled key now).2.seq
    rw [hseq]
    exact h.numbered k e (hsub k e hk)
  · intro k k' e e' x x' hk hk'
    exact h.order k k' e e' x x' (hsub k e hk) (hsub k' e' hk')
  · intro k k' e e' hk hk'
    exact h.distinct k k' e e' (hsub k e hk) (hsub k' e' hk')

theorem step_disable_windows (haccepted : ¬(key = "" ∨ ttlMs ≤ 0)) (k : String) :
    (w.step (.disable key ttlMs reason now)).windows k =
      if k = key then some ⟨w.entered key, w.calls, now + ttlMs * 1000000⟩
      else if w.breaker.victim key ttlMs now = some k then none else w.windows k := by
  simp only [World.step, if_neg haccepted]

/-- A refresh keeps the number of the entry and the call that made it. -/
theorem Tracks.refresh (h : Tracks w now) (hfits : ttlMs * 1000000 < 2 ^ 63) (haccepted : ¬(key = "" ∨ ttlMs ≤ 0))
    (hget : w.breaker.entries.get? key = some e) (hvictim : w.breaker.victim key ttlMs now = none)
    (hseq : (w.breaker.disable key ttlMs reason now).seq = w.breaker.seq)
    (hentries : ∀ k, (w.breaker.disable key ttlMs reason now).entries.get? k =
      if key = k then some ⟨now + duration ttlMs, e.seq, why⟩ else w.breaker.entries.get? k) :
    Tracks (w.step (.disable key ttlMs reason now)) now := by
  obtain ⟨hkey, hpos⟩ := not_or.mp haccepted
  obtain ⟨x, hx, -⟩ := h.known key e hget
  have hentered : w.entered key = x.entered := by simp [World.entered, hget, hx]
  have hwindows := @step_disable_windows w key ttlMs now reason haccepted
  rw [hvictim, hentered] at hwindows
  -- every entry was there before, with the same number, and so was its session with the same entry call
  have hold : ∀ k e', (w.breaker.disable key ttlMs reason now).entries.get? k = some e' →
      ∃ e₀, w.breaker.entries.get? k = some e₀ ∧ e₀.seq = e'.seq := by
    intro k e' hk
    rw [hentries] at hk
    split at hk
    next heq =>
      cases hk
      exact ⟨e, heq ▸ hget, rfl⟩
    next => exact ⟨e', hk, rfl⟩
  have holdw : ∀ k x', (w.step (.disable key ttlMs reason now)).windows k = some x' →
    ∃ x₀, w.windows k = some x₀ ∧ x₀.entered = x'.entered := by
    intro k x' hk
    rw [hwindows] at hk
    split at hk
    next heq =>
      cases hk
      exact ⟨x, heq ▸ hx, rfl⟩
    next => exact ⟨x', hk, rfl⟩
  have hstamped := h.stamped key x hx
  refine ⟨?_, fun k x' hk => ?_, fun k x' hk => ?_, fun k e' hk => ?_, fun k e' hk => ?_, ?_, ?_⟩
  · rw [hwindows, if_neg (Ne.symm hkey)]
    exact h.nameless
  · rw [hwindows] at hk
    split at hk
    · cases hk
      exact ⟨(hstamped.1.trans_lt hstamped.2).le, Nat.lt_succ_self _⟩
    · exact ⟨(h.stamped k x' hk).1, Nat.lt_succ_of_lt (h.stamped k x' hk).2⟩
  · change ∃ e', (w.breaker.disable key ttlMs reason now).entries.get? k = some e'
    rw [hentries]
    split
    · exact ⟨_, rfl⟩
    next hne =>
      obtain ⟨hk, hopen⟩ := hk
      rw [hwindows, if_neg (Ne.symm hne)] at hk
      exact h.live k x' ⟨hk, hopen⟩
  · change (w.breaker.disable key ttlMs reason now).entries.get? k = some e' at hk
    rw [hentries] at hk
    rw [hwindows]
    split at hk
    next heq =>
      cases hk
      rw [if_pos heq.symm]
      exact ⟨_, rfl, by rw [duration_eq (by omega) hfits]⟩
    next hne =>
      rw [if_neg (Ne.symm hne)]
      exact h.known k e' hk
  · obtain ⟨e₀, he₀, hs⟩ := hold k e' hk
    change e'.seq ≤ (w.breaker.disable key ttlMs reason now).seq
    rw [hseq, ← hs]
    exact h.numbered k e₀ he₀
  · intro k k' e₁ e₂ x₁ x₂ hk hk' hx₁ hx₂
    obtain ⟨e₁', he₁, hs₁⟩ := hold k e₁ hk
    obtain ⟨e₂', he₂, hs₂⟩ := hold k' e₂ hk'
    obtain ⟨x₁', hx₁', ht₁⟩ := holdw k x₁ hx₁
    obtain ⟨x₂', hx₂', ht₂⟩ := holdw k' x₂ hx₂
    rw [← hs₁, ← hs₂, ← ht₁, ← ht₂]
    exact h.order k k' e₁' e₂' x₁' x₂' he₁ he₂ hx₁' hx₂'
  · intro k k' e₁ e₂ hk hk' hs
    obtain ⟨e₁', he₁, hs₁⟩ := hold k e₁ hk
    obtain ⟨e₂', he₂, hs₂⟩ := hold k' e₂ hk'
    exact h.distinct k k' e₁' e₂' he₁ he₂ (by rw [hs₁, hs₂, hs])

/-- An insertion takes the next number, and the call is its entry call. -/
theorem Tracks.insert (h : Tracks w now) (hfits : ttlMs * 1000000 < 2 ^ 63) (haccepted : ¬(key = "" ∨ ttlMs ≤ 0))
    (hget : w.breaker.entries.get? key = none)
    (hseq : (w.breaker.disable key ttlMs reason now).seq = w.breaker.seq + 1)
    (hentries : ∀ k, (w.breaker.disable key ttlMs reason now).entries.get? k =
      if key = k then some ⟨now + duration ttlMs, w.breaker.seq + 1, why⟩
      else if w.breaker.victim key ttlMs now = some k then none else (w.breaker.swept now).entries.get? k) :
    Tracks (w.step (.disable key ttlMs reason now)) now := by
  obtain ⟨hkey, hpos⟩ := not_or.mp haccepted
  have hentered : w.entered key = w.calls := by simp [World.entered, hget]
  have hwindows := @step_disable_windows w key ttlMs now reason haccepted
  rw [hentered] at hwindows
  -- an entry is the new one, or an old one whose session keeps its record
  have hold : ∀ k e', (w.breaker.disable key ttlMs reason now).entries.get? k = some e' →
      (k = key ∧ e'.seq = w.breaker.seq + 1 ∧ e'.expires = now + duration ttlMs) ∨
        (k ≠ key ∧ w.breaker.entries.get? k = some e' ∧
          (w.step (.disable key ttlMs reason now)).windows k = w.windows k) := by
    intro k e' hk
    rw [hentries] at hk
    split at hk
    next heq =>
      cases hk
      exact .inl ⟨heq.symm, rfl, rfl⟩
    next hne =>
      split at hk
      · cases hk
      next hnot => exact .inr ⟨Ne.symm hne, get?_swept_of_some hk, by rw [hwindows, if_neg (Ne.symm hne), if_neg hnot]⟩
  have hnew : ∀ x', (w.step (.disable key ttlMs reason now)).windows key = some x' → x'.entered = w.calls := by
    intro x' hx'
    rw [hwindows, if_pos rfl] at hx'
    cases hx'
    rfl
  refine ⟨?_, fun k x' hk => ?_, fun k x' hk => ?_, fun k e' hk => ?_, fun k e' hk => ?_, ?_, ?_⟩
  · rw [hwindows, if_neg (Ne.symm hkey), h.nameless, ite_self]
  · rw [hwindows] at hk
    split at hk
    · cases hk
      exact ⟨le_refl _, Nat.lt_succ_self _⟩
    split at hk
    · cases hk
    · exact ⟨(h.stamped k x' hk).1, Nat.lt_succ_of_lt (h.stamped k x' hk).2⟩
  · change ∃ e', (w.breaker.disable key ttlMs reason now).entries.get? k = some e'
    rw [hentries]
    split
    · exact ⟨_, rfl⟩
    next hne =>
      obtain ⟨hk, hopen⟩ := hk
      rw [hwindows, if_neg (Ne.symm hne)] at hk
      split at hk
      · cases hk
      next hnot =>
        rw [if_neg hnot]
        obtain ⟨e', he'⟩ := h.live k x' ⟨hk, hopen⟩
        obtain ⟨x₀, hx₀, hexp⟩ := h.known k e' he'
        rw [hk] at hx₀
        cases hx₀
        exact ⟨e', get?_swept_of_live he' (hexp ▸ hopen)⟩
  · rcases hold k e' hk with ⟨rfl, -, hexp⟩ | ⟨-, he', hsame⟩
    · refine ⟨⟨w.calls, w.calls, now + ttlMs * 1000000⟩, by rw [hwindows, if_pos rfl], ?_⟩
      rw [hexp, duration_eq (by omega) hfits]
    · rw [hsame]
      exact h.known k e' he'
  · change e'.seq ≤ (w.breaker.disable key ttlMs reason now).seq
    rw [hseq]
    rcases hold k e' hk with ⟨-, hs, -⟩ | ⟨-, he', -⟩
    · exact hs.le
    · exact (h.numbered k e' he').trans (Nat.le_succ _)
  · intro k k' e₁ e₂ x₁ x₂ hk hk' hx₁ hx₂
    rcases hold k e₁ hk with ⟨rfl, hs₁, -⟩ | ⟨-, he₁, hw₁⟩ <;> rcases hold k' e₂ hk' with ⟨rfl, hs₂, -⟩ | ⟨-, he₂, hw₂⟩
    · rw [hs₁, hs₂, hnew x₁ hx₁, hnew x₂ hx₂]
      exact iff_of_true (le_refl _) (le_refl _)
    · have hn := h.numbered k' e₂ he₂
      have ht := h.stamped k' x₂ (hw₂ ▸ hx₂)
      rw [hnew x₁ hx₁]
      omega
    · have hn := h.numbered k e₁ he₁
      have ht := h.stamped k x₁ (hw₁ ▸ hx₁)
      rw [hnew x₂ hx₂]
      omega
    · exact h.order k k' e₁ e₂ x₁ x₂ he₁ he₂ (hw₁ ▸ hx₁) (hw₂ ▸ hx₂)
  · intro k k' e₁ e₂ hk hk' hs
    rcases hold k e₁ hk with ⟨rfl, hs₁, -⟩ | ⟨-, he₁, -⟩ <;> rcases hold k' e₂ hk' with ⟨rfl, hs₂, -⟩ | ⟨-, he₂, -⟩
    · rfl
    · have := h.numbered k' e₂ he₂
      omega
    · have := h.numbered k e₁ he₁
      omega
    · exact h.distinct k k' e₁ e₂ he₁ he₂ hs

theorem Tracks.step {op : Op} (h : Tracks w op.now) (hfits : op.Fits) : Tracks (w.step op) op.now := by
  cases op with
  | isDisabled key now => exact h.isDisabled key
  | disable key ttlMs reason now =>
    by_cases hrejected : key = "" ∨ ttlMs ≤ 0
    · have hbreaker : w.breaker.disable key ttlMs reason now = w.breaker := by
        rw [SessionBreaker.disable, if_pos hrejected]
      have hstep : w.step (.disable key ttlMs reason now) = { w with calls := w.calls + 1 } := by
        simp only [World.step, hbreaker, if_pos hrejected]
      rw [hstep]
      exact { h with stamped := fun k x hx => ⟨(h.stamped k x hx).1, Nat.lt_succ_of_lt (h.stamped k x hx).2⟩ }
    · rcases @disable_cases w.breaker key ttlMs now reason hrejected with
        ⟨e, hget, hvictim, hseq, why, hentries⟩ | ⟨hget, hseq, why, hentries⟩
      · exact h.refresh hfits hrejected hget hvictim hseq hentries
      · exact h.insert hfits hrejected hget hseq hentries

/-! ## Evictions -/

/-- Of the sessions with an open window, the one that entered the table first was disabled again
    after the latest `Disable` of another one. -/
def LateRefresh (w : World) (now : ℤ) : Prop :=
  ∃ v x, w.Open v now x ∧ (∀ k y, w.Open k now y → x.entered ≤ y.entered) ∧ x.entered < x.latest ∧
    ∃ k y, w.Open k now y ∧ y.latest < x.latest

/-- A `Disable` that meets a full table meets no late refresh. -/
def TimelyStep (w : World) : Op → Prop
  | .isDisabled _ _ => True
  | .disable key ttlMs _ now => (w.breaker.victim key ttlMs now).isSome → ¬LateRefresh w now

/-- An eviction takes the open window that entered the table first. -/
theorem Tracks.victim_first (h : Tracks w now) (hv : w.breaker.victim key ttlMs now = some v) :
    ∃ x, w.Open v now x ∧ ∀ k y, w.Open k now y → x.entered ≤ y.entered ∧ (y.entered ≤ x.entered → k = v) := by
  obtain ⟨-, -, hfull, e, -, hget, hmin⟩ := victim_eq_some hv
  have hentry := get?_swept_of_some hget
  obtain ⟨x, hx, hexp⟩ := h.known v e hentry
  refine ⟨x, ⟨hx, hexp ▸ live_of_full hfull hget⟩, fun k y hy => ?_⟩
  obtain ⟨e', he'⟩ := h.live k y hy
  obtain ⟨y', hy', hexp'⟩ := h.known k e' he'
  rw [show w.windows k = some y from hy.1] at hy'
  cases hy'
  have hle := hmin k e' (get?_swept_of_live he' (hexp' ▸ hy.2))
  refine ⟨(h.order v k e e' x y hentry he' hx hy.1).mp hle, fun hback => ?_⟩
  have hge := (h.order k v e' e y x he' hentry hy.1 hx).mpr hback
  exact h.distinct k v e' e he' hentry (Nat.le_antisymm hge hle)

theorem Tracks.crowded (h : Tracks w now) (hv : w.breaker.victim key ttlMs now = some v) : w.Crowded key now := by
  obtain ⟨-, habsent, hfull, -⟩ := victim_eq_some hv
  refine ⟨(w.breaker.swept now).entries.rows.map Prod.fst, (w.breaker.swept now).entries.nodup, ?_, ?_, fun k hk => ?_⟩
  · rw [List.length_map]
    exact hfull
  · intro hmem
    obtain ⟨⟨k, e⟩, hrow, rfl⟩ := List.mem_map.mp hmem
    have hget := get?_swept_of_some (KeyMap.get?_eq_some_iff.mpr hrow)
    rw [habsent] at hget
    cases hget
  · obtain ⟨⟨k, e⟩, hrow, rfl⟩ := List.mem_map.mp hk
    have hget := KeyMap.get?_eq_some_iff.mpr hrow
    obtain ⟨x, hx, hexp⟩ := h.known k e (get?_swept_of_some hget)
    exact ⟨x, hx, hexp ▸ live_of_full hfull hget⟩

/-- One call does what is asked of it if and only if it meets no late refresh. -/
theorem Tracks.rightStep_iff {op : Op} (h : Tracks w op.now) : RightStep w op ↔ TimelyStep w op := by
  cases op with
  | isDisabled key now => exact iff_of_true (h.isDisabled_iff key) trivial
  | disable key ttlMs reason now =>
    constructor
    · rintro hright hsome ⟨v', x', hopen', hfirst, hlate, k, y, hy, hlt⟩
      obtain ⟨v, hv⟩ := Option.isSome_iff_exists.mp hsome
      obtain ⟨-, x, hopen, holdest⟩ := hright v hv
      obtain ⟨x₀, hopen₀, hmin⟩ := h.victim_first hv
      have hsame : v' = v := (hmin v' x' hopen').2 (hfirst v x₀ hopen₀)
      subst hsame
      have hxx : x = x' := Option.some.inj (hopen.1.symm.trans hopen'.1)
      have := holdest k y hy
      rw [hxx] at this
      omega
    · intro htimely v hv
      have hnot : ¬LateRefresh w now := htimely (Option.isSome_iff_exists.mpr ⟨v, hv⟩)
      obtain ⟨x, hopen, hmin⟩ := h.victim_first hv
      refine ⟨h.crowded hv, x, hopen, fun k y hy => ?_⟩
      by_contra hlt
      have hentered := (hmin k y hy).1
      have hstamped := h.stamped k y hy.1
      exact hnot ⟨v, x, hopen, fun k' y' hy' => (hmin k' y' hy').1, by omega, k, y, hy, by omega⟩

/-! ## Runs -/

/-- The table follows the record in every state of a run with a non-decreasing clock. -/
theorem tracks_stateAfter (ops : List Op) (hclock : (ops.map Op.now).Pairwise (· ≤ ·)) (hfits : ∀ op ∈ ops, op.Fits)
    (hlater : ∀ op ∈ ops, op.now ≤ now) : Tracks (stateAfter ops) now := by
  induction ops using List.reverseRecOn generalizing now with
  | nil => exact tracks_empty now
  | append_singleton ops op ih =>
    rw [List.map_append, List.pairwise_append] at hclock
    have hbefore : ∀ op' ∈ ops, op'.now ≤ op.now := fun op' hop' =>
      hclock.2.2 op'.now (List.mem_map_of_mem hop') op.now (by simp)
    have htracks : Tracks (stateAfter ops) op.now :=
      ih hclock.1 (fun op' hop' => hfits op' (List.mem_append_left _ hop')) hbefore
    have hstate : stateAfter (ops ++ [op]) = (stateAfter ops).step op := by simp [stateAfter]
    rw [hstate]
    exact (htracks.step (hfits op (by simp))).mono (hlater op (by simp))

/-- Along every run with a non-decreasing clock whose windows fit 64 bits, each lookup answers whether
    the latest window is open and each eviction takes the session whose latest `Disable` is the oldest,
    if and only if no `Disable` meets a full table after a late refresh. -/
theorem runs_right_iff (ops : List Op) (hclock : (ops.map Op.now).Pairwise (· ≤ ·)) (hfits : ∀ op ∈ ops, op.Fits) :
    (∀ before op after, ops = before ++ op :: after → RightStep (stateAfter before) op) ↔
      ∀ before op after, ops = before ++ op :: after → TimelyStep (stateAfter before) op := by
  have hstep : ∀ before op after, ops = before ++ op :: after → (RightStep (stateAfter before) op ↔
    TimelyStep (stateAfter before) op) := by
    rintro before op after rfl
    rw [List.map_append, List.map_cons, List.pairwise_append] at hclock
    refine (tracks_stateAfter before hclock.1 (fun op' hop' => hfits op' (by simp [hop']))
      fun op' hop' => ?_).rightStep_iff
    exact hclock.2.2 op'.now (List.mem_map_of_mem hop') op.now (by simp)
  exact ⟨fun h before op after hops => (hstep before op after hops).mp (h before op after hops),
    fun h before op after hops => (hstep before op after hops).mpr (h before op after hops)⟩

/-! ## A full table -/

theorem swept_eq_self (h : ∀ r ∈ b.entries.rows, now < r.2.expires) : b.swept now = b := by
  unfold SessionBreaker.swept
  split
  · have hkeep : (b.entries.keep fun e => decide (now < e.expires)) = b.entries :=
      KeyMap.keep_eq_self fun r hr => decide_eq_true (h r hr)
    rw [SessionBreaker.sweepLocked, hkeep]
  · rfl

theorem disable_of_room (haccepted : ¬(key = "" ∨ ttlMs ≤ 0)) (habsent : b.entries.get? key = none)
    (hlive : ∀ r ∈ b.entries.rows, now < r.2.expires) (hroom : b.entries.size < breakerCap) :
    b.disable key ttlMs "4xx" now =
      { entries := b.entries.put key ⟨now + duration ttlMs, b.seq + 1, "4xx"⟩, seq := b.seq + 1 } ∧
      b.victim key ttlMs now = none := by
  unfold SessionBreaker.disable SessionBreaker.victim
  rw [if_neg haccepted, if_neg haccepted, habsent]
  simp only [swept_eq_self hlive, if_neg (Nat.not_le.mpr hroom)]
  exact ⟨rfl, trivial⟩

/-- A session that is new to a full table makes another one leave. -/
theorem isSome_victim (haccepted : ¬(key = "" ∨ ttlMs ≤ 0)) (habsent : b.entries.get? key = none)
    (hlive : ∀ r ∈ b.entries.rows, now < r.2.expires) (hsize : b.entries.size = breakerCap) :
    (b.victim key ttlMs now).isSome := by
  rw [SessionBreaker.victim, if_neg haccepted, habsent]
  simp only [swept_eq_self hlive, if_pos hsize.ge, Option.isSome_map]
  rcases oldest_spec b.entries.rows with ⟨-, hnil⟩ | ⟨o, hsome, -⟩
  · rw [KeyMap.size, hnil] at hsize
    exact absurd hsize (by decide)
  · rw [hsome]
    rfl

/-- Distinct session keys. -/
def sessionKey (i : ℕ) : String := String.ofList (List.replicate (i + 1) 'k')

theorem sessionKey_injective : Function.Injective sessionKey := by
  intro i j h
  have hlen := congrArg List.length (String.ofList_injective h)
  simpa using hlen

theorem sessionKey_ne_empty (i : ℕ) : sessionKey i ≠ "" := fun h => by
  have hlen := congrArg (fun s => s.toList.length) h
  simp [sessionKey] at hlen

/-- `n` sessions disabled for a minute at time zero, one after the other. -/
def fillOps (n : ℕ) : List Op := (List.range n).map fun i => .disable (sessionKey i) 60000 "4xx" 0

def fillEntry (i : ℕ) : BreakerEntry := ⟨60000000000, i + 1, "4xx"⟩

def fillWindow (i : ℕ) : Window := ⟨i, i, 60000000000⟩

theorem fillOps_succ (n : ℕ) : fillOps (n + 1) = fillOps n ++ [.disable (sessionKey n) 60000 "4xx" 0] := by
  simp [fillOps, List.range_succ]

/-- A table of fresh sessions holds no other one, and none of them has expired. -/
theorem get?_of_fill {n m : ℕ} (hrows : b.entries.rows = (List.range n).map fun i => (sessionKey i, fillEntry i))
    (hm : n ≤ m) : b.entries.get? (sessionKey m) = none := by
  cases hget : b.entries.get? (sessionKey m) with
  | none => rfl
  | some e =>
    have hmem := KeyMap.get?_eq_some_iff.mp hget
    rw [hrows] at hmem
    obtain ⟨i, hi, heq⟩ := List.mem_map.mp hmem
    have hi := List.mem_range.mp hi
    have := sessionKey_injective (congrArg Prod.fst heq)
    omega

theorem live_of_fill {n : ℕ} (hrows : b.entries.rows = (List.range n).map fun i => (sessionKey i, fillEntry i)) :
    ∀ r ∈ b.entries.rows, 0 < r.2.expires := by
  intro r hr
  rw [hrows] at hr
  obtain ⟨i, -, rfl⟩ := List.mem_map.mp hr
  exact (by decide : (0 : ℤ) < 60000000000)

/-- Up to the cap, every session of the fill has its own entry and window, and no window was refreshed. -/
theorem stateAfter_fill {n : ℕ} (hn : n ≤ breakerCap) :
    (stateAfter (fillOps n)).breaker.entries.rows = (List.range n).map (fun i => (sessionKey i, fillEntry i)) ∧
      (stateAfter (fillOps n)).breaker.seq = n ∧ (stateAfter (fillOps n)).calls = n ∧
      (∀ i < n, (stateAfter (fillOps n)).windows (sessionKey i) = some (fillWindow i)) ∧
      ∀ k x, (stateAfter (fillOps n)).windows k = some x → x.entered = x.latest := by
  induction n with
  | zero => exact ⟨rfl, rfl, rfl, fun i hi => absurd hi (Nat.not_lt_zero i), fun k x hx => by cases hx⟩
  | succ n ih =>
    obtain ⟨hrows, hseq, hcalls, hwindows, hfresh⟩ := ih (by omega)
    generalize hw : stateAfter (fillOps n) = w at hrows hseq hcalls hwindows hfresh
    have hstate : stateAfter (fillOps (n + 1)) = w.step (.disable (sessionKey n) 60000 "4xx" 0) := by
      rw [fillOps_succ, ← hw, stateAfter, List.foldl_append]
      rfl
    have habsent := get?_of_fill hrows (le_refl n)
    have haccepted : ¬(sessionKey n = "" ∨ (60000 : ℤ) ≤ 0) := by simp [sessionKey_ne_empty]
    have hsize : w.breaker.entries.size < breakerCap := by
      rw [KeyMap.size, hrows, List.length_map, List.length_range]
      omega
    obtain ⟨hdisable, hvictim⟩ := disable_of_room haccepted habsent (live_of_fill hrows) hsize
    have hbreaker : (stateAfter (fillOps (n + 1))).breaker =
        { entries := w.breaker.entries.put (sessionKey n) (fillEntry n), seq := n + 1 } := by
      rw [hstate]
      change w.breaker.disable (sessionKey n) 60000 "4xx" 0 = _
      rw [hdisable, hseq]
      rfl
    have hentered : w.entered (sessionKey n) = w.calls := by simp [World.entered, habsent]
    refine ⟨?_, by rw [hbreaker], by rw [hstate]; exact congrArg (· + 1) hcalls, fun i hi => ?_, fun k x hx => ?_⟩
    · rw [hbreaker]
      rw [KeyMap.put, Table.rows_upsert_of_find?_none (KeyMap.find?_of_get?_none habsent), hrows,
        List.range_succ, List.map_append]
      rfl
    · rw [hstate, step_disable_windows haccepted, hvictim]
      by_cases hin : i = n
      · rw [if_pos (congrArg sessionKey hin), hentered, hcalls, hin]
        rfl
      · rw [if_neg fun h => hin (sessionKey_injective h)]
        exact hwindows i (by omega)
    · rw [hstate, step_disable_windows haccepted, hvictim] at hx
      split at hx
      · rw [← Option.some.inj hx]
        exact hentered
      · exact hfresh k x hx

theorem now_of_mem_fillOps {n : ℕ} {op : Op} (h : op ∈ fillOps n) : op.now = 0 ∧ op.Fits := by
  obtain ⟨i, -, rfl⟩ := List.mem_map.mp h
  exact ⟨rfl, (by decide : (60000 : ℤ) * 1000000 < 2 ^ 63)⟩

theorem clock_of_now {ops : List Op} (h : ∀ op ∈ ops, op.now = 0) : (ops.map Op.now).Pairwise (· ≤ ·) := by
  refine List.pairwise_iff_forall_sublist.mpr fun {t t'} hsub => ?_
  have hzero : ∀ t ∈ ops.map Op.now, t = 0 := by
    intro t ht
    obtain ⟨op, hop, rfl⟩ := List.mem_map.mp ht
    exact h op hop
  rw [hzero t (hsub.subset (by simp)), hzero t' (hsub.subset (by simp))]

/-- A session that is new to the full table. -/
def newcomer : Op := .disable (sessionKey breakerCap) 60000 "4xx" 0

/-- The first session leaves for it. -/
theorem sampleOps_right : RightStep (stateAfter (fillOps breakerCap)) newcomer ∧
    ((stateAfter (fillOps breakerCap)).breaker.victim (sessionKey breakerCap) 60000 0).isSome := by
  obtain ⟨hrows, -⟩ := stateAfter_fill (le_refl breakerCap)
  have hsize : (stateAfter (fillOps breakerCap)).breaker.entries.size = breakerCap := by
    rw [KeyMap.size, hrows, List.length_map, List.length_range]
  refine ⟨(runs_right_iff (fillOps (breakerCap + 1)) (clock_of_now fun op hop => (now_of_mem_fillOps hop).1)
      (fun op hop => (now_of_mem_fillOps hop).2)).mpr ?_ (fillOps breakerCap) newcomer [] (fillOps_succ breakerCap),
    isSome_victim (by simp [sessionKey_ne_empty]) (get?_of_fill hrows (le_refl _)) (live_of_fill hrows) hsize⟩
  intro before op after hops
  have hbefore : before = fillOps before.length ∧ before.length ≤ breakerCap := by
    have hlength := congrArg List.length hops
    have htake := congrArg (List.take before.length) hops
    simp only [fillOps, List.length_map, List.length_range, List.length_append, List.length_cons] at hlength
    have hmin : min before.length (breakerCap + 1) = before.length := by omega
    rw [List.take_left, fillOps, ← List.map_take, List.take_range, hmin] at htake
    exact ⟨htake.symm, by omega⟩
  obtain ⟨-, -, -, -, hfresh⟩ := stateAfter_fill hbefore.2
  rw [hbefore.1]
  cases op with
  | isDisabled key now => trivial
  | disable key ttlMs reason now =>
    rintro - ⟨v, x, hopen, -, hlate, -⟩
    have := hfresh v x hopen.1
    omega

/-! ## A late refresh -/

/-- The full table, and its first session disabled again. -/
def refreshOps : List Op := fillOps breakerCap ++ [.disable (sessionKey 0) 60000 "5xx" 0]

theorem now_of_mem_refreshOps {op : Op} (h : op ∈ refreshOps ++ [newcomer]) : op.now = 0 ∧ op.Fits := by
  simp only [refreshOps, List.append_assoc, List.mem_append, List.cons_append, List.nil_append,
    List.mem_cons, List.not_mem_nil, or_false] at h
  rcases h with h | rfl | rfl
  · exact now_of_mem_fillOps h
  · exact ⟨rfl, (by decide : (60000 : ℤ) * 1000000 < 2 ^ 63)⟩
  · exact ⟨rfl, (by decide : (60000 : ℤ) * 1000000 < 2 ^ 63)⟩

theorem clock_refreshOps : ((refreshOps ++ [newcomer]).map Op.now).Pairwise (· ≤ ·) :=
  clock_of_now fun _ hop => (now_of_mem_refreshOps hop).1

theorem tracks_refresh : Tracks (stateAfter refreshOps) 0 := by
  have hclock := clock_refreshOps
  rw [List.map_append, List.pairwise_append] at hclock
  refine tracks_stateAfter refreshOps hclock.1
    (fun op hop => (now_of_mem_refreshOps (List.mem_append_left _ hop)).2) fun op hop => ?_
  exact (now_of_mem_refreshOps (List.mem_append_left _ hop)).1.le

/-- The refresh leaves a full table in which the first session has the latest window. -/
theorem late_refresh : ((stateAfter refreshOps).breaker.victim (sessionKey breakerCap) 60000 0).isSome ∧
    LateRefresh (stateAfter refreshOps) 0 := by
  obtain ⟨hrows, hseq, hcalls, hwindows, -⟩ := stateAfter_fill (le_refl breakerCap)
  have hstate : stateAfter refreshOps = (stateAfter (fillOps breakerCap)).step
    (.disable (sessionKey 0) 60000 "5xx" 0) := by
    simp [refreshOps, stateAfter]
  generalize stateAfter (fillOps breakerCap) = w at hrows hseq hcalls hwindows hstate
  have hget : w.breaker.entries.get? (sessionKey 0) = some (fillEntry 0) := by
    refine KeyMap.get?_eq_some_iff.mpr ?_
    rw [hrows]
    exact List.mem_map.mpr ⟨0, List.mem_range.mpr (by decide), rfl⟩
  have haccepted : ¬(sessionKey 0 = "" ∨ (60000 : ℤ) ≤ 0) := by simp [sessionKey_ne_empty]
  have hentries : (stateAfter refreshOps).breaker.entries = w.breaker.entries.put (sessionKey 0)
    ⟨60000000000, 1, "5xx"⟩ := by
    rw [hstate]
    change (w.breaker.disable (sessionKey 0) 60000 "5xx" 0).entries = _
    rw [SessionBreaker.disable, hget]
    rfl
  have hput : ∀ k, (stateAfter refreshOps).breaker.entries.get? k =
      if sessionKey 0 = k then some ⟨60000000000, 1, "5xx"⟩ else w.breaker.entries.get? k := fun k => by
    rw [hentries, KeyMap.get?_put]
  have hsize : (stateAfter refreshOps).breaker.entries.size = breakerCap := by
    have hfind := (Option.map_eq_some_iff.mp hget).choose_spec.1
    rw [hentries, KeyMap.size, KeyMap.put, Table.rows_upsert_of_find?_some hfind, List.length_map, hrows,
      List.length_map, List.length_range]
  have hold : ∀ k e, w.breaker.entries.get? k = some e → ∃ i < breakerCap, k = sessionKey i ∧ e = fillEntry i := by
    intro k e hk
    have hmem := KeyMap.get?_eq_some_iff.mp hk
    rw [hrows] at hmem
    obtain ⟨i, hi, heq⟩ := List.mem_map.mp hmem
    exact ⟨i, List.mem_range.mp hi, (congrArg Prod.fst heq).symm, (congrArg Prod.snd heq).symm⟩
  have hlive : ∀ r ∈ (stateAfter refreshOps).breaker.entries.rows, 0 < r.2.expires := by
    intro r hr
    have hk := KeyMap.get?_eq_some_iff.mpr (show (r.1, r.2) ∈ (stateAfter refreshOps).breaker.entries.rows from hr)
    rw [hput] at hk
    split at hk
    · rw [← Option.some.inj hk]
      exact (by decide : (0 : ℤ) < 60000000000)
    · obtain ⟨i, -, -, he⟩ := hold _ _ hk
      rw [he]
      exact (by decide : (0 : ℤ) < 60000000000)
  have habsent : (stateAfter refreshOps).breaker.entries.get? (sessionKey breakerCap) = none := by
    rw [hput, if_neg fun h => absurd (sessionKey_injective h) (by decide)]
    cases hk : w.breaker.entries.get? (sessionKey breakerCap) with
    | none => rfl
    | some e =>
      obtain ⟨i, hi, heq, -⟩ := hold _ _ hk
      have := sessionKey_injective heq
      omega
  have hvictim0 : w.breaker.victim (sessionKey 0) 60000 0 = none := by
    rw [SessionBreaker.victim, if_neg haccepted, hget]
  have hwindow0 : (stateAfter refreshOps).windows (sessionKey 0) = some ⟨0, breakerCap, 60000000000⟩ := by
    have hentered : w.entered (sessionKey 0) = 0 := by simp [World.entered, hget, hwindows 0 (by decide), fillWindow]
    rw [hstate, step_disable_windows haccepted, hentered, hcalls]
    rfl
  have hwindow1 : (stateAfter refreshOps).windows (sessionKey 1) = some (fillWindow 1) := by
    rw [hstate, step_disable_windows haccepted, if_neg fun h => absurd (sessionKey_injective h) (by decide),
      hvictim0, if_neg (by simp)]
    exact hwindows 1 (by decide)
  refine ⟨?_, sessionKey 0, _, ⟨hwindow0, by decide⟩, fun k y _ =>
    Nat.zero_le _, by decide, sessionKey 1, _, ⟨hwindow1, by decide⟩, by decide⟩
  exact isSome_victim (by simp [sessionKey_ne_empty]) habsent hlive hsize

/-- The session that was disabled last is evicted. -/
theorem not_runs_right :
    ¬∀ ops : List Op, (ops.map Op.now).Pairwise (· ≤ ·) →
      ∀ before op after, ops = before ++ op :: after → RightStep (stateAfter before) op := by
  intro h
  have hright := h (refreshOps ++ [newcomer]) clock_refreshOps refreshOps newcomer [] rfl
  have htimely := (@Tracks.rightStep_iff _ newcomer tracks_refresh).mp hright
  exact htimely late_refresh.1 late_refresh.2

end Breaker
