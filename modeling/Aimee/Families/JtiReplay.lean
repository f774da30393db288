-- SUMMARY: The replay stores of identity and management tokens: the consume transaction, its sweep, and whole runs of calls.
import Aimee.Families.Cells
import Aimee.Lib.Table
import Mathlib.Data.List.Induction
import Mathlib.Data.List.Sort

/-!
# Token replay stores

`jti_replay.go`. The two stores share one transaction and differ in their columns and checks.
-/

namespace Families

/-! ## Rows -/

/-- A consumed token. -/
structure JtiRow (C : Type) where
  jti : Cell
  columns : C
  issuedAt : ℤ
  expiresAt : ℤ
  consumedAt : ℤ
  deriving DecidableEq

structure IdentityColumns where
  issuer : Cell
  kid : Cell
  audience : Cell
  subject : Cell
  teamId : ℤ
  tier : Cell
  deriving DecidableEq

structure ManagementColumns where
  issuer : Cell
  kid : Cell
  audience : Cell
  subject : Cell
  teamId : ℤ
  capability : Cell
  peerIssuer : Cell
  peerSerial : Cell
  peerFingerprint : Cell
  requestSha256 : Cell
  correlationId : Cell
  deriving DecidableEq

abbrev JtiTable (C : Type) := Table (JtiRow C) JtiRow.jti

inductive JtiResult where
  | ok
  | replay
  | saturated
  | storage
  | invalid
  deriving DecidableEq

/-! ## The transaction -/

def jtiLiveLimit : ℕ := 4096

/-- The most rows one sweep deletes. -/
def jtiSweepLimit : ℕ := 4096

def jtiTimes (issuedAt expiresAt consumedAt : ℤ) : Bool :=
  0 ≤ issuedAt && issuedAt < expiresAt && issuedAt ≤ consumedAt && consumedAt < expiresAt

/-- The statement of a transaction that fails. A commit that fails may have been applied. -/
inductive JtiFault where
  | begin_
  | gc
  | count
  | insert
  | commit (applied : Bool)
  deriving DecidableEq

section Transaction

variable {C : Type} (collation : Cell → Cell → Bool)

/-- The keys of the expired rows, oldest first, at most a sweep's worth. -/
def expiredJtis (t : JtiTable C) (now : ℤ) : List Cell :=
  let expired := t.rows.filter fun r => r.expiresAt < now
  let sorted := expired.mergeSort fun r r' =>
    r.expiresAt < r'.expiresAt || r.expiresAt = r'.expiresAt && collation r.jti r'.jti
  (sorted.take jtiSweepLimit).map (·.jti)

def gc (t : JtiTable C) (now : ℤ) : JtiTable C := t.delete fun r => r.jti ∈ expiredJtis collation t now

/-- The table and the answer after the commit of a transaction. -/
def commitConsume (fault : Option JtiFault) (before after : JtiTable C) (result : JtiResult) :
    JtiTable C × JtiResult :=
  match fault with
  | some (.commit applied) => (if applied then after else before, .storage)
  | _ => (after, result)

def consume (fault : Option JtiFault) (t : JtiTable C) (row : JtiRow C) : JtiTable C × JtiResult :=
  if fault = some .begin_ ∨ fault = some .gc ∨ fault = some .count then (t, .storage)
  else
    let swept := gc collation t row.consumedAt
    if jtiLiveLimit ≤ swept.rows.length then commitConsume fault t swept .saturated
    else if fault = some .insert then (t, .storage)
    else match swept.insert row with
      | none => (t, .replay)
      | some next => commitConsume fault t next .ok

end Transaction

/-! ## The two operations -/

def validTier (s : Cell) : Bool := s = ascii "off" || s = ascii "data" || s = ascii "full"

/-- The row of an identity request, none if a check fails. -/
def identityRow (f : Vector Cell 10) : Option (JtiRow IdentityColumns) := do
  let teamId ← atoi64 (f.get 5)
  let issuedAt ← atoi64 (f.get 7)
  let expiresAt ← atoi64 (f.get 8)
  let consumedAt ← atoi64 (f.get 9)
  if asciiToken (f.get 0) 8 128 && controlFree (f.get 1) 1 255 && asciiToken (f.get 2) 1 64 &&
      asciiToken (f.get 3) 1 127 &&
      controlFree (f.get 4) 1 576 && 0 < teamId && validTier (f.get 6) && jtiTimes issuedAt expiresAt consumedAt then
    some {
      jti := f.get 0, columns := ⟨f.get 1, f.get 2, f.get 3, f.get 4, teamId, f.get 6⟩, issuedAt, expiresAt,
      consumedAt }
  else none

/-- The row of a management request, none if a check fails. -/
def managementRow (f : Vector Cell 15) : Option (JtiRow ManagementColumns) := do
  let teamId ← atoi64 f[5]
  let issuedAt ← atoi64 f[12]
  let expiresAt ← atoi64 f[13]
  let consumedAt ← atoi64 f[14]
  if asciiToken f[0] 16 128 && controlFree f[1] 1 255 && asciiToken f[2] 1 64 && asciiToken f[3] 1 127 &&
      controlFree f[4] 1 576 && 0 < teamId && asciiToken f[6] 1 64 && controlFree f[7] 1 511 &&
      lowercaseHex f[8] 1 79 && lowercaseHex f[9] 64 64 && lowercaseHex f[10] 64 64 && asciiToken f[11] 1 128 &&
      jtiTimes issuedAt expiresAt consumedAt then
    some
      { jti := f[0]
        columns := ⟨f[1], f[2], f[3], f[4], teamId, f[6], f[7], f[8], f[9], f[10], f[11]⟩
        issuedAt, expiresAt, consumedAt }
  else none

/-- A consume operation, with the checks of its store. -/
def consumeFields {C F : Type} (collation : Cell → Cell → Bool) (parse : F → Option (JtiRow C))
    (fault : Option JtiFault) (t : JtiTable C) (f : F) : JtiTable C × JtiResult :=
  match parse f with
  | none => (t, .invalid)
  | some row => consume collation fault t row

def identityConsume (collation : Cell → Cell → Bool) (fault : Option JtiFault) (t : JtiTable IdentityColumns)
    (f : Vector Cell 10) : JtiTable IdentityColumns × JtiResult :=
  consumeFields collation identityRow fault t f

def managementConsume (collation : Cell → Cell → Bool) (fault : Option JtiFault) (t : JtiTable ManagementColumns)
    (f : Vector Cell 15) : JtiTable ManagementColumns × JtiResult :=
  consumeFields collation managementRow fault t f

/-! ## Runs -/

section Runs

variable {C F : Type}

/-- A request, and the statement of its transaction that fails. -/
structure JtiCall (F : Type) where
  fields : F
  fault : Option JtiFault := none

variable (step : Option JtiFault → JtiTable C → F → JtiTable C × JtiResult)

/-- The table after calls, from an empty store. -/
def jtiRun (calls : List (JtiCall F)) : JtiTable C :=
  calls.foldl (fun t c => (step c.fault t c.fields).1) Table.empty

/-- The answer to a call after others. -/
def jtiAnswer (earlier : List (JtiCall F)) (c : JtiCall F) : JtiResult :=
  (step c.fault (jtiRun step earlier) c.fields).2

/-- The times of the calls do not decrease, and a token has one lifetime. -/
def JtiLawful (parse : F → Option (JtiRow C)) (calls : List (JtiCall F)) : Prop :=
  (calls.filterMap fun c => parse c.fields).Pairwise fun r r' =>
    r.consumedAt ≤ r'.consumedAt ∧ (r.jti = r'.jti → r.issuedAt = r'.issuedAt ∧ r.expiresAt = r'.expiresAt)

/-- A store that refuses replays, keeps what could be replayed, and recovers. -/
structure ReplayProtected (parse : F → Option (JtiRow C)) : Prop where
  /-- No token is answered OK twice. -/
  once : ∀ before c between c' r r', JtiLawful parse (before ++ c :: between ++ [c']) →
    parse c.fields = some r → parse c'.fields = some r' → r.jti = r'.jti →
    jtiAnswer step before c = .ok → jtiAnswer step (before ++ c :: between) c' ≠ .ok
  /-- A row that a call removes has expired. -/
  kept : ∀ fault t f, ∀ row ∈ t.rows, row ∉ (step fault t f).1.rows →
    ∃ r, parse f = some r ∧ row.expiresAt < r.consumedAt
  /-- A new token is accepted if and only if fewer entries than the limit have not expired. -/
  recovers : ∀ earlier f r, parse f = some r → (∀ row ∈ (jtiRun step earlier).rows, row.jti ≠ r.jti) →
    jtiAnswer step earlier { fields := f } =
      if (jtiRun step earlier).rows.countP (fun row => r.consumedAt ≤ row.expiresAt) < jtiLiveLimit then .ok
      else .saturated

end Runs

/-! ## The sweep -/

section Sweep

variable {C : Type} {collation : Cell → Cell → Bool} {t : JtiTable C} {now : ℤ}

theorem mem_expiredJtis {jti : Cell} (h : jti ∈ expiredJtis collation t now) :
    ∃ row ∈ t.rows, row.jti = jti ∧ row.expiresAt < now := by
  obtain ⟨row, hrow, rfl⟩ := List.mem_map.mp h
  have hexpired := List.mem_filter.mp (List.mem_mergeSort.mp (List.mem_of_mem_take hrow))
  exact ⟨row, hexpired.1, rfl, of_decide_eq_true hexpired.2⟩

theorem expired_of_swept {row : JtiRow C} (hrow : row ∈ t.rows) (h : row ∉ (gc collation t now).rows) :
    row.expiresAt < now := by
  rw [gc, Table.mem_rows_delete, not_and, Bool.not_eq_false, decide_eq_true_eq] at h
  obtain ⟨row', hrow', hjti, hexpired⟩ := mem_expiredJtis (h hrow)
  rw [t.eq_of_key hrow hrow' hjti.symm]
  exact hexpired

theorem mem_of_mem_gc {row : JtiRow C} (h : row ∈ (gc collation t now).rows) : row ∈ t.rows :=
  (Table.mem_rows_delete.mp h).1

/-- A table within the limit is swept whole. -/
theorem gc_rows (h : t.rows.length ≤ jtiSweepLimit) :
    (gc collation t now).rows = t.rows.filter fun row => now ≤ row.expiresAt := by
  refine List.filter_congr fun row hrow => ?_
  rw [Bool.eq_iff_iff, Bool.not_eq_true', decide_eq_false_iff_not, decide_eq_true_eq, ← not_lt, not_iff_not]
  constructor
  · intro hmem
    obtain ⟨row', hrow', hjti, hexpired⟩ := mem_expiredJtis hmem
    rw [t.eq_of_key hrow hrow' hjti.symm]
    exact hexpired
  · intro hexpired
    refine List.mem_map.mpr ⟨row, ?_, rfl⟩
    rw [List.take_of_length_le]
    · exact List.mem_mergeSort.mpr (List.mem_filter.mpr ⟨hrow, decide_eq_true hexpired⟩)
    · rw [List.length_mergeSort]
      exact (List.length_filter_le _ _).trans h

end Sweep

/-! ## One call -/

section Consume

variable {C : Type} {collation : Cell → Cell → Bool} {fault : Option JtiFault} {t : JtiTable C} {row : JtiRow C}

/-- What a call leaves: the table as it was, the swept table, or the swept table with the token in it. -/
theorem consume_cases (collation : Cell → Cell → Bool) (fault : Option JtiFault) (t : JtiTable C) (row : JtiRow C) :
    ((consume collation fault t row).1 = t ∧ (consume collation fault t row).2 ≠ .ok) ∨
      ((consume collation fault t row).1 = gc collation t row.consumedAt ∧
        (consume collation fault t row).2 ≠ .ok) ∨
      ((gc collation t row.consumedAt).rows.length < jtiLiveLimit ∧
        (gc collation t row.consumedAt).insert row = some (consume collation fault t row).1) := by
  unfold consume
  dsimp only
  split
  · exact .inl ⟨rfl, nofun⟩
  · split
    · unfold commitConsume
      split
      · split
        · exact .inr (.inl ⟨rfl, nofun⟩)
        · exact .inl ⟨rfl, nofun⟩
      · exact .inr (.inl ⟨rfl, nofun⟩)
    · next hroom =>
      split
      · exact .inl ⟨rfl, nofun⟩
      · split
        · exact .inl ⟨rfl, nofun⟩
        · next next hnext =>
          unfold commitConsume
          split
          · split
            · exact .inr (.inr ⟨not_le.mp hroom, hnext⟩)
            · exact .inl ⟨rfl, nofun⟩
          · exact .inr (.inr ⟨not_le.mp hroom, hnext⟩)

theorem expired_of_removed {row' : JtiRow C} (hrow : row' ∈ t.rows)
    (h : row' ∉ (consume collation fault t row).1.rows) :
    row'.expiresAt < row.consumedAt := by
  rcases consume_cases collation fault t row with
    ⟨hsame, -⟩ | ⟨hswept, -⟩ | ⟨-, hinsert⟩
  · rw [hsame] at h
    exact absurd hrow h
  · rw [hswept] at h
    exact expired_of_swept hrow h
  · obtain ⟨hrows, -⟩ := Table.rows_of_insert hinsert
    rw [hrows] at h
    exact expired_of_swept hrow fun hmem => h (List.mem_append_left _ hmem)

theorem length_consume_le (h : t.rows.length ≤ jtiLiveLimit) :
    (consume collation fault t row).1.rows.length ≤ jtiLiveLimit := by
  rcases consume_cases collation fault t row with
    ⟨hsame, -⟩ | ⟨hswept, -⟩ | ⟨hroom, hinsert⟩
  · rw [hsame]
    exact h
  · rw [hswept]
    exact (List.length_filter_le _ _).trans h
  · obtain ⟨hrows, -⟩ := Table.rows_of_insert hinsert
    rw [hrows, List.length_append]
    exact hroom

/-- A token that is answered OK is in the table, and its key was free or expired. -/
theorem consume_ok (h : (consume collation fault t row).2 = .ok) :
    row ∈ (consume collation fault t row).1.rows ∧
      ∀ row' ∈ t.rows, row'.jti = row.jti → row'.expiresAt < row.consumedAt := by
  rcases consume_cases collation fault t row with
    ⟨-, hne⟩ | ⟨-, hne⟩ | ⟨-, hinsert⟩
  · exact absurd h hne
  · exact absurd h hne
  · obtain ⟨hrows, hnone⟩ := Table.rows_of_insert hinsert
    refine ⟨?_, fun row' hrow' hjti => ?_⟩
    · rw [hrows]
      exact List.mem_append_right _ List.mem_cons_self
    · exact expired_of_swept hrow' fun hmem => Table.find?_eq_none_iff.mp hnone row' hmem hjti

/-- The answer to a token whose key is free. -/
theorem consume_new (h : t.rows.length ≤ jtiLiveLimit) (hnew : ∀ row' ∈ t.rows, row'.jti ≠ row.jti) :
    (consume collation none t row).2 =
      if t.rows.countP (fun row' => row.consumedAt ≤ row'.expiresAt) < jtiLiveLimit then .ok else .saturated := by
  have hlength : (gc collation t row.consumedAt).rows.length =
      t.rows.countP fun row' => row.consumedAt ≤ row'.expiresAt := by
    rw [gc_rows h, List.countP_eq_length_filter]
  unfold consume
  rw [if_neg (by nofun)]
  dsimp only
  rw [hlength]
  split
  · next hfull =>
    rw [if_neg (not_lt.mpr hfull)]
    rfl
  · next hroom =>
    rw [if_pos (not_le.mp hroom)]
    cases hinsert : (gc collation t row.consumedAt).insert row with
    | some next => rfl
    | none =>
      unfold Table.insert at hinsert
      split at hinsert
      · next htaken =>
        obtain ⟨row', hrow', hjti⟩ := List.mem_map.mp htaken
        exact absurd hjti (hnew row' (mem_of_mem_gc hrow'))
      · cases hinsert

end Consume

/-! ## Runs of calls -/

section Protection

variable {C F : Type} {collation : Cell → Cell → Bool} {parse : F → Option (JtiRow C)}

theorem jtiRun_snoc (step : Option JtiFault → JtiTable C → F → JtiTable C × JtiResult) (calls : List (JtiCall F))
    (c : JtiCall F) : jtiRun step (calls ++ [c]) = (step c.fault (jtiRun step calls) c.fields).1 := by
  rw [jtiRun, List.foldl_append]
  rfl

theorem expired_of_removed_fields {fault : Option JtiFault} {t : JtiTable C} {f : F} {row : JtiRow C}
    (hrow : row ∈ t.rows) (h : row ∉ (consumeFields collation parse fault t f).1.rows) :
    ∃ r, parse f = some r ∧ row.expiresAt < r.consumedAt := by
  unfold consumeFields at h
  split at h
  · exact absurd hrow h
  · next r hr => exact ⟨r, hr, expired_of_removed hrow h⟩

theorem length_jtiRun_le (calls : List (JtiCall F)) :
    (jtiRun (consumeFields collation parse) calls).rows.length ≤ jtiLiveLimit := by
  induction calls using List.reverseRecOn with
  | nil => exact Nat.zero_le _
  | append_singleton calls c ih =>
    rw [jtiRun_snoc]
    unfold consumeFields
    split
    · exact ih
    · exact length_consume_le ih

/-- A row stays over calls until one of them is later than its expiry. -/
theorem mem_jtiRun_append {before : List (JtiCall F)} (between : List (JtiCall F)) {row : JtiRow C}
    (h : row ∈ (jtiRun (consumeFields collation parse) before).rows) :
    row ∈ (jtiRun (consumeFields collation parse) (before ++ between)).rows ∨
      ∃ c ∈ between, ∃ r, parse c.fields = some r ∧ row.expiresAt < r.consumedAt := by
  induction between using List.reverseRecOn with
  | nil =>
    rw [List.append_nil]
    exact .inl h
  | append_singleton between c ih =>
    rcases ih with hmem | ⟨c', hc', r, hr, hexpired⟩
    · rw [← List.append_assoc, jtiRun_snoc]
      by_contra hgone
      rw [not_or] at hgone
      obtain ⟨r, hr, hexpired⟩ := expired_of_removed_fields hmem hgone.1
      exact hgone.2 ⟨c, List.mem_append_right _ List.mem_cons_self, r, hr, hexpired⟩
    · exact .inr ⟨c', List.mem_append_left _ hc', r, hr, hexpired⟩

theorem answer_of_parse {earlier : List (JtiCall F)} {c : JtiCall F} {r : JtiRow C} (h : parse c.fields = some r) :
    jtiAnswer (consumeFields collation parse) earlier c =
      (consume collation c.fault (jtiRun (consumeFields collation parse) earlier) r).2 := by
  rw [jtiAnswer, consumeFields, h]

/-- The shared body protects a store whose checks refuse tokens that have expired. -/
theorem replayProtected (hparse : ∀ f r, parse f = some r → r.consumedAt < r.expiresAt) :
    ReplayProtected (consumeFields collation parse) parse := by
  refine ⟨?_, ?_, ?_⟩
  · intro before c between c' r r' hlawful hr hr' hjti hok hok'
    rw [answer_of_parse hr] at hok
    rw [answer_of_parse hr'] at hok'
    obtain ⟨hmem, -⟩ := consume_ok hok
    obtain ⟨-, hfree⟩ := consume_ok hok'
    have hvalid := hparse _ _ hr'
    -- The calls before the second are no later than it, and the first has its lifetime.
    rw [JtiLawful, List.filterMap_append, List.pairwise_append] at hlawful
    obtain ⟨-, -, hlater⟩ := hlawful
    have hmem' : r' ∈ [c'].filterMap fun c => parse c.fields := List.mem_filterMap.mpr ⟨c', List.mem_cons_self, hr'⟩
    have hlife : r.expiresAt = r'.expiresAt :=
      ((hlater r (List.mem_filterMap.mpr ⟨c, List.mem_append_right _ List.mem_cons_self, hr⟩) r' hmem').2 hjti).2
    have hafter : r ∈ (jtiRun (consumeFields collation parse) (before ++ [c])).rows := by
      rw [jtiRun_snoc, consumeFields, hr]
      exact hmem
    rcases mem_jtiRun_append between hafter with hstays | ⟨q, hq, rq, hrq, hexpired⟩
    · rw [List.append_assoc] at hstays
      have hswept := hfree r hstays hjti
      omega
    · have hle := (hlater rq (List.mem_filterMap.mpr
        ⟨q, List.mem_append_right _ (List.mem_cons_of_mem _ hq), hrq⟩) r' hmem').1
      omega
  · intro fault t f row hrow hgone
    exact expired_of_removed_fields hrow hgone
  · intro earlier f r hr hnew
    rw [answer_of_parse hr]
    exact consume_new (length_jtiRun_le earlier) hnew

theorem lt_of_jtiTimes {issuedAt expiresAt consumedAt : ℤ} (h : jtiTimes issuedAt expiresAt consumedAt = true) :
    consumedAt < expiresAt := by
  rw [jtiTimes, Bool.and_eq_true, decide_eq_true_eq] at h
  exact h.2

theorem identityRow_times {f : Vector Cell 10} {r : JtiRow IdentityColumns} (h : identityRow f = some r) :
    r.consumedAt < r.expiresAt := by
  simp only [identityRow, Option.bind_eq_bind, Option.bind_eq_some_iff] at h
  obtain ⟨teamId, -, issuedAt, -, expiresAt, -, consumedAt, -, h⟩ := h
  split at h
  · next hchecks =>
    cases h
    rw [Bool.and_eq_true] at hchecks
    exact lt_of_jtiTimes hchecks.2
  · cases h

theorem managementRow_times {f : Vector Cell 15} {r : JtiRow ManagementColumns} (h : managementRow f = some r) :
    r.consumedAt < r.expiresAt := by
  simp only [managementRow, Option.bind_eq_bind, Option.bind_eq_some_iff] at h
  obtain ⟨teamId, -, issuedAt, -, expiresAt, -, consumedAt, -, h⟩ := h
  split at h
  · next hchecks =>
    cases h
    rw [Bool.and_eq_true] at hchecks
    exact lt_of_jtiTimes hchecks.2
  · cases h

end Protection

theorem token_replay_protection (collation : Cell → Cell → Bool) :
    ReplayProtected (identityConsume collation) identityRow ∧
      ReplayProtected (managementConsume collation) managementRow :=
  ⟨replayProtected fun _ _ => identityRow_times, replayProtected fun _ _ => managementRow_times⟩

/-- A token that is valid from 1000 to 2000. -/
def exampleToken (consumedAt : String) : Vector Cell 10 :=
  #v[ascii "abcd1234", ascii "https://issuer.local", ascii "key-1", ascii "aimee.data", ascii "user@example.com",
    ascii "7", ascii "data", ascii "1000", ascii "2000", ascii consumedAt]

/-- The second use of a token is refused, at the last instant it is valid. -/
theorem token_replay_protection_twice :
    jtiAnswer (identityConsume fun _ _ => true) [] { fields := exampleToken "1500" } = .ok ∧
      jtiAnswer (identityConsume fun _ _ => true) [{ fields := exampleToken "1500" }]
        { fields := exampleToken "1999" } ≠ .ok := by
  have hfirst : jtiAnswer (identityConsume fun _ _ => true) [] { fields := exampleToken "1500" } = .ok := by
    decide
  have hlawful : JtiLawful identityRow
      ([] ++ { fields := exampleToken "1500" } :: [] ++ [{ fields := exampleToken "1999" }]) := by
    unfold JtiLawful
    decide
  exact ⟨hfirst, (token_replay_protection fun _ _ => true).1.once [] _ [] _ _ _ hlawful rfl rfl rfl hfirst⟩

end Families
