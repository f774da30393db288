-- SUMMARY: The WORM chain primitives: row hashes, checkpoint MACs and the chain key, and what a row hash binds.
import Aimee.Lib.Hash
import Aimee.Vendor.CJson

/-!
# WORM chain primitives

`audit_worm_chain.c`. Every function takes the hash function as a parameter; the
source calls SHA-256 of OpenSSL. The preimage of a row hash is a definition of its
own, because that is what collision freedom is about.
-/

namespace AuditWorm

/-- `AUDIT_WORM_DOMAIN` and `AUDIT_WORM_DOMAIN_V2`. -/
def domain : List UInt8 := ascii "aimee.audit.worm.v1"
def domainV2 : List UInt8 := ascii "aimee.audit.worm.v2"

/-- `AUDIT_WORM_GENESIS_PREV`: 32 zero bytes in hexadecimal. -/
def genesisPrev : CString := ⟨List.replicate 64 48, by decide⟩

/-- `AUDIT_WORM_DETAIL_MAX`. -/
def detailMax : Nat := 16384

/-! ## Hexadecimal -/

def hexDigit (n : Nat) : UInt8 := (ascii "0123456789abcdef").getD n 0

/-- The two digits of a byte. -/
def hexByte (b : UInt8) : List UInt8 := [hexDigit (b.toNat >>> 4), hexDigit (b.toNat &&& 0x0f)]

/-- The digits are distinct characters from `0` to `9` and `a` to `f`. -/
private theorem hexDigit_table : ∀ n < 16,
    48 ≤ hexDigit n ∧ hexDigit n ≤ 102 ∧ hexDigit n ≠ 92 ∧ CJson.hexDigit (hexDigit n) = some n := by
  decide

private theorem nibbles_lt (b : UInt8) : b.toNat >>> 4 < 16 ∧ b.toNat &&& 0x0f < 16 := by
  have hb := b.toNat_lt
  have hand : b.toNat &&& 0x0f ≤ 0x0f := Nat.and_le_right
  omega

private theorem mem_hexByte {b c : UInt8} (h : c ∈ hexByte b) : 48 ≤ c ∧ c ≤ 102 ∧ c ≠ 92 := by
  obtain ⟨hhigh, hlow⟩ := nibbles_lt b
  simp only [hexByte, List.mem_cons, List.not_mem_nil, or_false] at h
  rcases h with rfl | rfl
  · obtain ⟨hlo, hhi, hslash, -⟩ := hexDigit_table _ hhigh
    exact ⟨hlo, hhi, hslash⟩
  · obtain ⟨hlo, hhi, hslash, -⟩ := hexDigit_table _ hlow
    exact ⟨hlo, hhi, hslash⟩

private theorem hexDigit_inj {m n : Nat} (hm : m < 16) (hn : n < 16) (h : hexDigit m = hexDigit n) : m = n := by
  have hread := (hexDigit_table m hm).2.2.2
  rw [h, (hexDigit_table n hn).2.2.2] at hread
  exact (Option.some.inj hread).symm

private theorem hexByte_inj {b c : UInt8} (h : hexByte b = hexByte c) : b = c := by
  simp only [hexByte, List.cons.injEq, and_true] at h
  obtain ⟨hbhigh, hblow⟩ := nibbles_lt b
  obtain ⟨hchigh, hclow⟩ := nibbles_lt c
  have hhigh := hexDigit_inj hbhigh hchigh h.1
  have hlow := hexDigit_inj hblow hclow h.2
  have hmod : ∀ n : Nat, n &&& 0x0f = n % 16 := fun n => Nat.and_two_pow_sub_one_eq_mod n 4
  rw [hmod, hmod] at hlow
  apply UInt8.toNat_inj.mp
  omega

/-- `audit_worm_hex32`. -/
def hex32 (d : Digest) : CString :=
  ⟨d.val.flatMap hexByte, fun h => by
    obtain ⟨b, -, hb⟩ := List.mem_flatMap.mp h
    exact absurd (mem_hexByte hb).1 (by decide)⟩

theorem length_hex32 (d : Digest) : (hex32 d).val.length = 64 := by
  have : ∀ bs : List UInt8, (bs.flatMap hexByte).length = 2 * bs.length := by
    intro bs
    induction bs with
    | nil => rfl
    | cons b bs ih => simp [hexByte, ih]; omega
  rw [hex32, this, d.property]

theorem hex32_inj {d e : Digest} (h : hex32 d = hex32 e) : d = e := by
  have hval : d.val.flatMap hexByte = e.val.flatMap hexByte := congrArg Subtype.val h
  apply Subtype.ext
  have hlen : d.val.length = e.val.length := by rw [d.property, e.property]
  generalize d.val = bs at hval hlen
  generalize e.val = cs at hval hlen
  induction bs generalizing cs with
  | nil => simpa using hlen.symm
  | cons b bs ih =>
    cases cs with
    | nil => simp at hlen
    | cons c cs =>
      obtain ⟨hbc, hrest⟩ := List.append_inj hval rfl
      rw [hexByte_inj hbc, ih cs hrest (by simpa using hlen)]

/-- Hexadecimal text needs no JSON escape. -/
theorem hex32_plain {d : Digest} {c : UInt8} (h : c ∈ (hex32 d).val) : CJson.Plain c := by
  obtain ⟨b, -, hb⟩ := List.mem_flatMap.mp h
  obtain ⟨hlo, -, hslash⟩ := mem_hexByte hb
  refine ⟨UInt8.le_trans (by decide) hlo, ?_, hslash⟩
  rintro rfl
  exact absurd hlo (by decide)

/-! ## Row hashes -/

/-- The bytes both row-hash versions feed to the hash: the domain, the predecessor
    and the fixed list of length-prefixed fields. -/
def canonical (domain prevHash : List UInt8) (fields : List (List UInt8)) : List UInt8 :=
  domain ++ 10 :: prevHash ++ 10 :: fields.flatMap Wire.netstring

theorem canonical_inj {dom dom' prev prev' : List UInt8} {fs fs' : List (List UInt8)}
    (hdom : dom.length = dom'.length) (hprev : prev.length = prev'.length)
    (h : canonical dom prev fs = canonical dom' prev' fs') :
    dom = dom' ∧ prev = prev' ∧ (fs.length = fs'.length → fs = fs') := by
  simp only [canonical, List.append_assoc, List.cons_append] at h
  obtain ⟨hdom, h⟩ := List.append_inj h hdom
  obtain ⟨hprev, h⟩ := List.append_inj (List.cons.inj h).2 hprev
  exact ⟨hdom, hprev, fun hlen => Wire.flatMap_netstring_inj hlen (List.cons.inj h).2⟩

variable (H : HashFn)

/-- The preimage of `audit_worm_row_hash`. -/
def rowPreimage (seq : Int) (actorRole actorPrincipal action subject verdict keyId detail
    prevHash : CString) : List UInt8 :=
  canonical domain prevHash.val
    [Wire.decimalInt seq, actorRole.val, actorPrincipal.val, action.val,
      subject.val, verdict.val, keyId.val, detail.val]

/-- The preimage of `audit_worm_row_hash_v2`. -/
def rowPreimageV2 (seq : Int) (ts actorRole actorPrincipal actorIssuer actorSubject
    transportCn : CString) (teamId : Int) (selectedDefaultFrom action subject verdict keyId detail
    prevHash : CString) : List UInt8 :=
  canonical domainV2 prevHash.val
    [ascii "v2-full", Wire.decimalInt seq, ts.val, actorRole.val, actorPrincipal.val,
      actorIssuer.val, actorSubject.val, transportCn.val, Wire.decimalInt teamId,
      selectedDefaultFrom.val, action.val, subject.val, verdict.val, keyId.val, detail.val]

/-- `audit_worm_row_hash_v2`. -/
def rowHashV2 (seq : Int) (ts actorRole actorPrincipal actorIssuer actorSubject
    transportCn : CString) (teamId : Int) (selectedDefaultFrom action subject verdict keyId detail
    prevHash : CString) : CString :=
  hex32 (H (rowPreimageV2 seq ts actorRole actorPrincipal actorIssuer actorSubject transportCn
    teamId selectedDefaultFrom action subject verdict keyId detail prevHash))

/-! ## Checkpoint MACs -/

/-- `worm_hmac_sha256`. -/
def hmacSha256 (key msg : List UInt8) : Digest :=
  let short := if key.length > 64 then (H key).val else key
  let k := short ++ List.replicate (64 - short.length) 0
  let inner := H (k.map (· ^^^ 0x36) ++ msg)
  H (k.map (· ^^^ 0x5c) ++ inner.val)

/-- `audit_worm_ckpt_mac`. -/
def ckptMac (key : Block 32) (headHash : CString) (headSeq : Int) (keyId : CString) : CString :=
  hex32 (hmacSha256 H key.val
    (domain ++ ascii "|ckpt|" ++
      [headHash.val, Wire.decimalInt headSeq, keyId.val].flatMap Wire.netstring))

/-- The chain key and its identifier, as `audit_worm_chain_key_load` returns them. -/
structure ChainKey where
  key : Block 32
  keyId : CString

/-- `audit_worm_chain_key_load`, behind the file system: the identifier is the first
    16 hexadecimal digits of the hash of the key. -/
def chainKey (key : Block 32) : ChainKey where
  key := key
  keyId := (hex32 (H key.val)).truncate 16

variable {H}

theorem length_chainKey_keyId (key : Block 32) : (chainKey H key).keyId.val.length = 16 := by
  simp [chainKey, CString.truncate, length_hex32]

theorem chainKey_keyId_plain {key : Block 32} {c : UInt8}
    (h : c ∈ (chainKey H key).keyId.val) : CJson.Plain c :=
  hex32_plain (List.mem_of_mem_take h)

end AuditWorm
