-- SUMMARY: Lengths of receipt texts whose variable parts are tokens and digests.
import Aimee.Memory.SourceReleaseFork
import Mathlib.Data.String.Basic

/-!
# Lengths of receipt texts

The text of a receipt event is a fixed frame around tokens, digests and the names of a request.
Hexadecimal strings need no escapes, so a length does not depend on which token was drawn.
-/

namespace SourceRelease

open GoText

/-! ## Hexadecimal strings -/

/-- What holds of the sixteen digits holds of every digit. -/
theorem hexDigit_cases {p : Char → Prop} (h : ∀ m < 16, p (Nat.digitChar m)) (n : ℕ) : p (hexDigit n) :=
  h _ (Nat.mod_lt _ (by decide))

theorem hexDigit_lower (n : ℕ) :
    ('0' ≤ hexDigit n && hexDigit n ≤ '9' || 'a' ≤ hexDigit n && hexDigit n ≤ 'f') = true :=
  hexDigit_cases (p := fun c => ('0' ≤ c && c ≤ '9' || 'a' ≤ c && c ≤ 'f') = true) (by decide) n

theorem utf8Size_hexDigit (n : ℕ) : (hexDigit n).utf8Size = 1 :=
  hexDigit_cases (p := fun c => c.utf8Size = 1) (by decide) n

theorem escapeChar_hexDigit (n : ℕ) : escapeChar (hexDigit n) = [hexDigit n] :=
  hexDigit_cases (p := fun c => escapeChar c = [c]) (by decide) n

theorem len_hexText (bytes : List UInt8) : len (hexText bytes) = 2 * bytes.length := by
  rw [len, hexText, String.utf8ByteSize_ofList]
  induction bytes with
  | nil => rfl
  | cons b bytes ih =>
    simp only [List.flatMap_cons, List.cons_append, List.nil_append, String.utf8Len, List.length_cons,
      utf8Size_hexDigit] at ih ⊢
    omega

theorem lowerHex_hexText (bytes : List UInt8) : lowerHex (2 * bytes.length) (hexText bytes) = true := by
  rw [lowerHex, len_hexText, hexText, String.toList_ofList, decide_eq_true rfl, Bool.true_and, List.all_eq_true]
  intro c hc
  obtain ⟨b, -, hb⟩ := List.mem_flatMap.mp hc
  rcases List.mem_cons.mp hb with rfl | hb
  · exact hexDigit_lower _
  · obtain rfl := List.mem_singleton.mp hb
    exact hexDigit_lower _

theorem receiptDigestValid_releaseDigest {Ref : Type} (P : Platform Ref) (value : Json) :
    receiptDigestValid (P.releaseDigest value) = true := by
  have h := lowerHex_hexText (P.hash (marshal value).toUTF8.toList).val
  rw [(P.hash _).property] at h
  exact h

/-! ## Quoted strings -/

theorem len_append (s t : String) : len (s ++ t) = len s + len t := String.utf8ByteSize_append

theorem len_quote_ofList (cs : List Char) :
    len (quote (String.ofList cs)) = 2 + String.utf8Len (cs.flatMap escapeChar) := by
  rw [len, quote, String.toList_ofList, String.utf8ByteSize_ofList, List.cons_append, String.utf8Len_cons,
    String.utf8Len_append]
  change _ + 1 + 1 = _
  omega

theorem len_quote_hexText (bytes : List UInt8) : len (quote (hexText bytes)) = 2 * bytes.length + 2 := by
  have hescape : (bytes.flatMap fun b => [hexDigit (b.toNat / 16), hexDigit b.toNat]).flatMap escapeChar =
      bytes.flatMap fun b => [hexDigit (b.toNat / 16), hexDigit b.toNat] := by
    rw [List.flatMap_assoc]
    simp [escapeChar_hexDigit]
  have hlen := len_hexText bytes
  rw [len, hexText, String.utf8ByteSize_ofList] at hlen
  rw [hexText, len_quote_ofList, hescape]
  omega

theorem len_quote_releaseDigest {Ref : Type} (P : Platform Ref) (value : Json) :
    len (quote (P.releaseDigest value)) = 66 := by
  rw [Platform.releaseDigest, len_quote_hexText, (P.hash _).property]

/-- A string of characters that are escaped to six bytes each. -/
theorem len_quote_replicate (n : ℕ) : len (quote (String.ofList (List.replicate n '<'))) = 6 * n + 2 := by
  rw [len_quote_ofList]
  induction n with
  | zero => rfl
  | succ n ih =>
    rw [List.replicate_succ, List.flatMap_cons, String.utf8Len_append]
    have h : String.utf8Len (escapeChar '<') = 6 := by decide
    omega

theorem digitChar_inj {m n : ℕ} (hm : m < 16) (hn : n < 16) (h : Nat.digitChar m = Nat.digitChar n) : m = n := by
  have hall : ∀ m < 16, ∀ n < 16, Nat.digitChar m = Nat.digitChar n → m = n := by decide
  exact hall m hm n hn h

theorem hexText_inj {b c : List UInt8} (h : hexText b = hexText c) : b = c := by
  have hchars := congrArg String.toList h
  rw [hexText, hexText, String.toList_ofList, String.toList_ofList] at hchars
  clear h
  induction b generalizing c with
  | nil =>
    cases c with
    | nil => rfl
    | cons y c => simp at hchars
  | cons x b ih =>
    cases c with
    | nil => simp at hchars
    | cons y c =>
      simp only [List.flatMap_cons, List.cons_append, List.nil_append, List.cons.injEq] at hchars
      obtain ⟨hhigh, hlow, hrest⟩ := hchars
      have hx := x.toNat_lt
      have hy := y.toNat_lt
      have hhigh' := digitChar_inj (Nat.mod_lt _ (by decide)) (Nat.mod_lt _ (by decide)) hhigh
      have hlow' := digitChar_inj (Nat.mod_lt _ (by decide)) (Nat.mod_lt _ (by decide)) hlow
      rw [ih hrest, UInt8.toNat_inj.mp (by omega : x.toNat = y.toNat)]

/-! ## Sample values -/

/-- The token of a number. -/
def tokenOf (n : ℕ) : String := hexText (Wire.beBytes 16 n)

theorem releaseTokenValid_tokenOf (n : ℕ) : releaseTokenValid (tokenOf n) = true := by
  have h := lowerHex_hexText (Wire.beBytes 16 n)
  rwa [Wire.length_beBytes] at h

theorem tokenOf_inj {m n : ℕ} (hm : m < 256 ^ 16) (hn : n < 256 ^ 16) (h : tokenOf m = tokenOf n) : m = n :=
  Wire.beBytes_inj hm hn (hexText_inj h)

theorem len_quote_tokenOf (n : ℕ) : len (quote (tokenOf n)) = 34 := by
  rw [tokenOf, len_quote_hexText, Wire.length_beBytes]

/-- A versioned reference of the facts channel. -/
structure SampleRef where
  id : String
  kind : String
  deriving DecidableEq

def SampleRef.json (r : SampleRef) : Json :=
  .obj [("channel", .str "facts"), ("stable_id", .str r.id),
    ("source_version", .obj [("record_kind", .str r.kind),
      ("version", .obj [("schema_version", .num 1), ("owner_id", .str "owner"), ("record_id", .str r.id),
        ("record_revision", .str "1")]),
      ("memory_parent_state", .str "observed")])]

/-- The start of the year 2026. -/
def sampleTime : Time := 1767225600 * 10 ^ 9

/-- A platform without grades and without health records, at one reading of the clock. -/
def samplePlatform : Platform SampleRef where
  hash := sha256
  formatTime _ := "2026-01-01T00:00:00Z"
  compact text := text
  decodeGrades _ := none
  itemDigest _ := none
  versioned _ := true
  channel _ := "facts"
  kind := SampleRef.kind
  refJson := SampleRef.json
  admissible _ := true
  rankingArtifactDigest := ""
  healthEnabled := false
  healthFields _ _ _ := []
  receiptMetadata entry _ _ _ _ := (entry.assemblyMetadata, "")

end SourceRelease
