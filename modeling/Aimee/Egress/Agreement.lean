-- SUMMARY: The three planes refuse the same destinations, except the 6to4 relay range, which the sandbox table lacks.
import Aimee.Egress.Planes

/-!
# Agreement of the planes

The tables of the egress owner and the web guard are the same. The sandbox table lacks
192.88.99.0/24. An IPv6 address that names an IPv4 address is judged as that address on each plane.
-/

namespace Egress

open Subnet

/-! ## Embedded addresses -/

/-- An IPv6 address that names an IPv4 address, other than `::` and `::1`. -/
inductive Embeds : V6 → V4 → Prop
  | mapped (v : V4) : Embeds ⟨0, 0, 0, 0, 0, 0, 0, 0, 0, 0, 0xff, 0xff, v.a, v.b, v.c, v.d⟩ v
  | compatible (v : V4) (hzero : v ≠ ⟨0, 0, 0, 0⟩) (hone : v ≠ ⟨0, 0, 0, 1⟩) :
      Embeds ⟨0, 0, 0, 0, 0, 0, 0, 0, 0, 0, 0, 0, v.a, v.b, v.c, v.d⟩ v
  | nat64 (v : V4) : Embeds ⟨0x00, 0x64, 0xff, 0x9b, 0, 0, 0, 0, 0, 0, 0, 0, v.a, v.b, v.c, v.d⟩ v
  | nat64Local (v : V4) : Embeds ⟨0x00, 0x64, 0xff, 0x9b, 0x00, 0x01, 0, 0, 0, 0, 0, 0, v.a, v.b, v.c, v.d⟩ v
  | sixToFour (v : V4) (b6 b7 b8 b9 b10 b11 b12 b13 b14 b15 : Octet) :
      Embeds ⟨0x20, 0x02, v.a, v.b, v.c, v.d, b6, b7, b8, b9, b10, b11, b12, b13, b14, b15⟩ v
  | teredo (v : V4) (b4 b5 b6 b7 b8 b9 b10 b11 : Octet) :
      Embeds ⟨0x20, 0x01, 0, 0, b4, b5, b6, b7, b8, b9, b10, b11, ~~~v.a, ~~~v.b, ~~~v.c, ~~~v.d⟩ v

def unspecified : V6 := ⟨0, 0, 0, 0, 0, 0, 0, 0, 0, 0, 0, 0, 0, 0, 0, 0⟩

def loopback : V6 := ⟨0, 0, 0, 0, 0, 0, 0, 0, 0, 0, 0, 0, 0, 0, 0, 1⟩

/-! ## Words -/

theorem append_inj {m n : ℕ} {x x' : BitVec m} {y y' : BitVec n} (h : x ++ y = x' ++ y') : x = x' ∧ y = y' := by
  have hbit : ∀ i, (x ++ y).getLsbD i = (x' ++ y').getLsbD i := fun i => by rw [h]
  simp only [BitVec.getLsbD_append] at hbit
  refine ⟨BitVec.eq_of_getLsbD_eq fun i _ => ?_, BitVec.eq_of_getLsbD_eq fun i hi => ?_⟩
  · have hhigh := hbit (n + i)
    rw [if_neg (by omega), if_neg (by omega), Nat.add_sub_cancel_left] at hhigh
    exact hhigh
  · have hlow := hbit i
    rw [if_pos hi, if_pos hi] at hlow
    exact hlow

theorem beUint32_inj {a b c d a' b' c' d' : Octet} :
    beUint32 a b c d = beUint32 a' b' c' d' ↔ a = a' ∧ b = b' ∧ c = c' ∧ d = d' := by
  constructor
  · intro h
    have happend : a ++ b ++ c ++ d = a' ++ b' ++ c' ++ d' := h
    obtain ⟨habc, hd⟩ := append_inj happend
    obtain ⟨hab, hc⟩ := append_inj habc
    obtain ⟨ha, hb⟩ := append_inj hab
    exact ⟨ha, hb, hc, hd⟩
  · rintro ⟨rfl, rfl, rfl, rfl⟩
    rfl

theorem not_beUint32 (a b c d : Octet) : ~~~beUint32 a b c d = beUint32 (~~~a) (~~~b) (~~~c) (~~~d) := by
  have happend : ~~~(a ++ b ++ c ++ d) = ~~~a ++ ~~~b ++ ~~~c ++ ~~~d := by
    rw [BitVec.not_append, BitVec.not_append, BitVec.not_append]
  exact happend

theorem and_beUint32 (a b c d a' b' c' d' : Octet) :
    beUint32 a b c d &&& beUint32 a' b' c' d' = beUint32 (a &&& a') (b &&& b') (c &&& c') (d &&& d') := by
  have happend : (a ++ b ++ c ++ d) &&& (a' ++ b' ++ c' ++ d') =
      (a &&& a') ++ (b &&& b') ++ (c &&& c') ++ (d &&& d') := by
    rw [BitVec.and_append, BitVec.and_append, BitVec.and_append]
  exact happend

theorem V4.word_inj {v v' : V4} (h : v.word = v'.word) : v = v' := by
  obtain ⟨ha, hb, hc, hd⟩ := beUint32_inj.mp h
  cases v
  cases v'
  subst ha hb hc hd
  rfl

/-- A word above one is not the word of `0.0.0.0` or `0.0.0.1`. -/
theorem V4.one_lt_word {v : V4} (hzero : v ≠ ⟨0, 0, 0, 0⟩) (hone : v ≠ ⟨0, 0, 0, 1⟩) : 1 < v.word := by
  have hzero' : v.word ≠ 0#32 := fun h => hzero (V4.word_inj h)
  have hone' : v.word ≠ 1#32 := fun h => hone (V4.word_inj h)
  bv_omega

/-! ## Embedded addresses are judged as what they embed -/

section Embeds

variable {a : V6} {v : V4}

theorem publicIP_embeds (h : Embeds a v) : publicIP a.bytes = publicIP v.bytes := by
  cases h with
  | compatible _ hzero _ =>
    have htail : v.a ||| v.b ||| v.c ||| v.d ≠ 0 := by
      obtain ⟨a, b, c, d⟩ := v
      intro hor
      simp only [BitVec.ofNat_eq_ofNat, BitVec.or_eq_zero_iff] at hor
      obtain ⟨⟨⟨rfl, rfl⟩, rfl⟩, rfl⟩ := hor
      exact hzero rfl
    have hembedded : egressEmbeddedIPv4 (V6.bytes ⟨0, 0, 0, 0, 0, 0, 0, 0, 0, 0, 0, 0, v.a, v.b, v.c, v.d⟩) =
        some (ipv4 v.a v.b v.c v.d) := if_pos ⟨rfl, htail⟩
    rw [publicIP, hembedded]
    rfl
  | teredo =>
    simp [publicIP, egressEmbeddedIPv4, to4, to16, V6.bytes, V4.bytes, octet, ipv4, v4InV6, nat64, nat64Local]
  | _ => rfl

theorem proxyIPBlocked_embeds (h : Embeds a v) : proxyIPBlocked a.bytes = proxyIPBlocked v.bytes := by
  cases h with
  | compatible _ hzero _ =>
    simp only [proxyIPBlocked, to4, to16, V6.bytes, V4.bytes, wordAt, octet, v4InV6, nat64, nat64Local]
    simp
    obtain ⟨a, b, c, d⟩ := v
    rintro rfl rfl rfl rfl
    exact absurd rfl hzero
  | sixToFour => rfl
  | _ => simp [proxyIPBlocked, to4, to16, V6.bytes, V4.bytes, wordAt, octet, v4InV6, nat64, nat64Local, not_beUint32]

theorem ipEmbeddedIpv4_embeds (h : Embeds a v) : ipEmbeddedIpv4 a = some v.word := by
  cases h with
  | compatible _ hzero hone =>
    have htail : 1#32 < beUint32 v.a v.b v.c v.d := V4.one_lt_word hzero hone
    simp [ipEmbeddedIpv4, V6.bytes, V4.word, htail]
  | _ => simp [ipEmbeddedIpv4, V6.bytes, V4.word, not_beUint32]

theorem webIpv6Blocked_embeds (h : Embeds a v) : webIpv6Blocked a = webIpv4Blocked v.word := by
  have hembedded := ipEmbeddedIpv4_embeds h
  rw [webIpv6Blocked, hembedded]
  cases h with
  | compatible _ hzero hone =>
    have hnative : (decide (v.a = 0#8) && (decide (v.b = 0#8) && decide (v.c = 0#8)) &&
        (decide (v.d = 0#8) || decide (v.d = 1#8))) = false := by
      obtain ⟨a, b, c, d⟩ := v
      by_contra hsmall
      simp only [Bool.not_eq_false, Bool.and_eq_true, Bool.or_eq_true, decide_eq_true_eq] at hsmall
      obtain ⟨⟨rfl, rfl, rfl⟩, rfl | rfl⟩ := hsmall
      · exact hzero rfl
      · exact hone rfl
    simp [V6.bytes, hnative]
  | _ => simp [V6.bytes]

/-- An address embeds at most one IPv4 address. -/
theorem Embeds.unique {v' : V4} (h : Embeds a v) (h' : Embeds a v') : v = v' :=
  V4.word_inj (Option.some.inj ((ipEmbeddedIpv4_embeds h).symm.trans (ipEmbeddedIpv4_embeds h')))

end Embeds

/-! ## IPv4 tables -/

theorem subnetMask_bytes : ∀ ones ≤ 32, subnetMask 32 ones =
    beUint32 (maskByte ones) (maskByte (ones - 8)) (maskByte (ones - 16)) (maskByte (ones - 24)) := by
  decide

/-- A network of the egress owner covers what the same network of the other planes covers. -/
theorem contains_parseCIDR {n v : V4} {ones : ℕ} (h : ones ≤ 32) :
    (parseCIDR n ones).contains v.bytes = Subnet.covers ⟨n.word &&& subnetMask 32 ones, ones⟩ v.word := by
  rw [Bool.eq_iff_iff, Subnet.covers, decide_eq_true_eq, subnetMask_bytes ones h, V4.word, V4.word, and_beUint32,
    and_beUint32, beUint32_inj]
  simp only [IPNet.contains, parseCIDR, cidrMask, V4.bytes, List.zipWith_cons_cons, List.zipWith_nil_left,
    List.length_cons, List.length_nil, Bool.and_eq_true, decide_eq_true_eq, List.cons.injEq, and_true, true_and,
    BitVec.and_assoc, BitVec.and_self]
  simp only [eq_comm]

/-- The networks of the egress owner. -/
def ownerNetworks : List (V4 × ℕ) :=
  [(⟨0, 0, 0, 0⟩, 8), (⟨10, 0, 0, 0⟩, 8), (⟨100, 64, 0, 0⟩, 10), (⟨127, 0, 0, 0⟩, 8), (⟨169, 254, 0, 0⟩, 16),
    (⟨172, 16, 0, 0⟩, 12), (⟨192, 0, 0, 0⟩, 24), (⟨192, 0, 2, 0⟩, 24), (⟨192, 88, 99, 0⟩, 24), (⟨192, 168, 0, 0⟩, 16),
    (⟨198, 18, 0, 0⟩, 15), (⟨198, 51, 100, 0⟩, 24), (⟨203, 0, 113, 0⟩, 24), (⟨224, 0, 0, 0⟩, 4), (⟨240, 0, 0, 0⟩, 4)]

/-- The owner and the web guard have one table. -/
theorem publicIP_v4 (v : V4) : publicIP v.bytes = !webIpv4Blocked v.word := by
  have howner : egressBlockedIPv4 = ownerNetworks.map fun (n, ones) => parseCIDR n ones := rfl
  have hweb : webRanges = ownerNetworks.map fun (n, ones) => ⟨n.word &&& subnetMask 32 ones, ones⟩ := by decide
  have hbits : ∀ e ∈ ownerNetworks, e.2 ≤ 32 := by decide
  change (!egressBlockedIPv4.any (·.contains v.bytes)) = _
  rw [howner, webIpv4Blocked, anyCovers, hweb, List.any_map, List.any_map]
  congr 1
  refine Bool.eq_iff_iff.mpr ?_
  rw [List.any_eq_true, List.any_eq_true]
  refine exists_congr fun e => and_congr_right fun he => ?_
  rw [Function.comp_apply, Function.comp_apply, contains_parseCIDR (hbits e he)]

/-- The 6to4 relay range. -/
def relayRange : Subnet 32 := ⟨0xc0586300, 24⟩

theorem webIpv4Blocked_eq (w : BitVec 32) : webIpv4Blocked w = (relayRange.covers w || ipv4Blocked w) := by
  have hperm : webRanges.Perm (relayRange :: sandboxRanges) := by decide
  rw [webIpv4Blocked, anyCovers, hperm.any_eq]
  rfl

theorem ipv4Blocked_relay {w : BitVec 32} (h : relayRange.covers w = true) : ipv4Blocked w = false := by
  rw [ipv4Blocked, anyCovers_of_covers h (by decide)]
  decide

/-! ## Native addresses -/

/-- An IPv6 address in none of the forms that name an IPv4 address. -/
structure Native (a : V6) : Prop where
  mapped : v4InV6.isPrefixOf a.bytes = false
  nat64 : Egress.nat64.isPrefixOf a.bytes = false
  nat64Local : Egress.nat64Local.isPrefixOf a.bytes = false
  sixToFour : ¬(a.b0 = 0x20 ∧ a.b1 = 0x02)
  teredo : ¬(a.b0 = 0x20 ∧ a.b1 = 0x01 ∧ a.b2 = 0x00 ∧ a.b3 = 0x00)
  zeros : (List.replicate 12 0).isPrefixOf a.bytes = false

/-- The unique-local, link-local and multicast ranges. -/
def nativeRefused (a : V6) : Bool :=
  a.b0 &&& 0xfe = 0xfc || a.b0 = 0xfe && a.b1 &&& 0xc0 = 0x80 || a.b0 = 0xff

theorem address_cases (a : V6) : a = unspecified ∨ a = loopback ∨ (∃ v, Embeds a v) ∨ Native a := by
  obtain ⟨b0, b1, b2, b3, b4, b5, b6, b7, b8, b9, b10, b11, b12, b13, b14, b15⟩ := a
  by_contra hother
  simp only [not_or, not_exists] at hother
  obtain ⟨hunspecified, hloopback, hembeds, hnative⟩ := hother
  refine hnative ⟨?_, ?_, ?_, ?_, ?_, ?_⟩
  · rw [Bool.eq_false_iff]
    intro h
    simp only [v4InV6, V6.bytes, List.isPrefixOf, Bool.and_eq_true, beq_iff_eq] at h
    obtain ⟨rfl, rfl, rfl, rfl, rfl, rfl, rfl, rfl, rfl, rfl, rfl, rfl, -⟩ := h
    exact hembeds _ (.mapped ⟨b12, b13, b14, b15⟩)
  · rw [Bool.eq_false_iff]
    intro h
    simp only [nat64, V6.bytes, List.isPrefixOf, Bool.and_eq_true, beq_iff_eq] at h
    obtain ⟨rfl, rfl, rfl, rfl, rfl, rfl, rfl, rfl, rfl, rfl, rfl, rfl, -⟩ := h
    exact hembeds _ (.nat64 ⟨b12, b13, b14, b15⟩)
  · rw [Bool.eq_false_iff]
    intro h
    simp only [nat64Local, V6.bytes, List.isPrefixOf, Bool.and_eq_true, beq_iff_eq] at h
    obtain ⟨rfl, rfl, rfl, rfl, rfl, rfl, rfl, rfl, rfl, rfl, rfl, rfl, -⟩ := h
    exact hembeds _ (.nat64Local ⟨b12, b13, b14, b15⟩)
  · rintro ⟨h0, h1⟩
    subst h0 h1
    exact hembeds _ (.sixToFour ⟨b2, b3, b4, b5⟩ b6 b7 b8 b9 b10 b11 b12 b13 b14 b15)
  · rintro ⟨h0, h1, h2, h3⟩
    subst h0 h1 h2 h3
    have hteredo := Embeds.teredo ⟨~~~b12, ~~~b13, ~~~b14, ~~~b15⟩ b4 b5 b6 b7 b8 b9 b10 b11
    simp only [BitVec.not_not] at hteredo
    exact hembeds _ hteredo
  · rw [Bool.eq_false_iff]
    intro h
    simp only [List.replicate, V6.bytes, List.isPrefixOf, Bool.and_eq_true, beq_iff_eq] at h
    obtain ⟨rfl, rfl, rfl, rfl, rfl, rfl, rfl, rfl, rfl, rfl, rfl, rfl, -⟩ := h
    refine hembeds _ (.compatible ⟨b12, b13, b14, b15⟩ ?_ ?_)
    · rintro ⟨⟩
      exact hunspecified rfl
    · rintro ⟨⟩
      exact hloopback rfl

section Native

variable {a : V6}

theorem to4_native (h : Native a) : to4 a.bytes = none := by
  rw [to4, if_neg (by simp [V6.bytes]), if_neg]
  rw [h.mapped]
  nofun

theorem to16_bytes (a : V6) : to16 a.bytes = some a.bytes := rfl

theorem take_native (h : Native a) {n : ℕ} (hn : 12 ≤ n) : (a.bytes.take n).all (· = 0) = false := by
  have hzeros := h.zeros
  rw [Bool.eq_false_iff] at hzeros ⊢
  intro hall
  apply hzeros
  rw [List.isPrefixOf_iff_prefix]
  have htake : a.bytes.take 12 = List.replicate 12 0 := by
    rw [List.eq_replicate_iff]
    refine ⟨rfl, fun b hb => ?_⟩
    have hb' : b ∈ a.bytes.take n := List.take_subset_take_left _ hn hb
    simpa using List.all_eq_true.mp hall b hb'
  rw [← htake]
  exact List.take_prefix _ _

theorem take_ne_of_native {l : List Octet} (h : l.isPrefixOf a.bytes = false) : a.bytes.take l.length ≠ l := by
  intro htake
  rw [Bool.eq_false_iff, ne_eq, List.isPrefixOf_iff_prefix, ← htake] at h
  exact h (List.take_prefix _ _)

theorem embedded_native (h : Native a) : egressEmbeddedIPv4 a.bytes = none := by
  have hteredo : [0x20, 0x01, 0x00, 0x00].isPrefixOf a.bytes = false := by
    rw [Bool.eq_false_iff]
    intro hteredo
    simp only [V6.bytes, List.isPrefixOf, Bool.and_eq_true, beq_iff_eq] at hteredo
    exact h.teredo ⟨hteredo.1.symm, hteredo.2.1.symm, hteredo.2.2.1.symm, hteredo.2.2.2.1.symm⟩
  have hsix : ¬(octet a.bytes 0 = 0x20 ∧ octet a.bytes 1 = 0x02) := h.sixToFour
  rw [egressEmbeddedIPv4, to16_bytes]
  dsimp only
  rw [to4_native h, if_neg nofun, h.nat64, h.nat64Local, if_neg nofun, hteredo, if_neg nofun, if_neg hsix, h.zeros,
    if_neg nofun]

theorem publicIP_native (h : Native a) : publicIP a.bytes = !nativeRefused a := by
  have hloopback : a.bytes ≠ List.replicate 15 0 ++ [1] := by
    intro hbytes
    have hzeros := h.zeros
    rw [hbytes] at hzeros
    cases hzeros
  have hunspecified : a.bytes ≠ List.replicate 16 0 := by
    intro hbytes
    have hzeros := h.zeros
    rw [hbytes] at hzeros
    cases hzeros
  rw [publicIP, embedded_native h, Option.getD_none, isLoopback, isPrivate, isUnspecified,
    isLinkLocalMulticast, isLinkLocalUnicast, isMulticast, to4_native h]
  rw [decide_eq_false hloopback, decide_eq_false hunspecified]
  change (!false && !decide (a.b0 &&& 0xfe = 0xfc) && !(false || false) &&
    !(decide (a.b0 = 0xff) && decide (a.b1 &&& 0x0f = 0x02)) &&
    !(decide (a.b0 = 0xfe) && decide (a.b1 &&& 0xc0 = 0x80)) && !decide (a.b0 = 0xff)) = _
  rw [nativeRefused]
  cases decide (a.b0 &&& 0xfe = 0xfc) <;> cases decide (a.b0 = 0xff) <;> simp

theorem proxyIPBlocked_native (h : Native a) : proxyIPBlocked a.bytes = nativeRefused a := by
  have hsix : ¬(octet a.bytes 0 = 0x20 ∧ octet a.bytes 1 = 0x02) := h.sixToFour
  have hteredo : ¬(octet a.bytes 0 = 0x20 ∧ octet a.bytes 1 = 0x01 ∧ octet a.bytes 2 = 0x00 ∧ octet a.bytes 3 = 0x00) :=
    h.teredo
  have hnat64 : a.bytes.take 12 ≠ nat64 := take_ne_of_native h.nat64
  have hnat64Local : a.bytes.take 12 ≠ nat64Local := take_ne_of_native h.nat64Local
  rw [proxyIPBlocked, to4_native h]
  rw [to16_bytes]
  dsimp only
  rw [take_native h le_rfl, decide_eq_false hnat64, decide_eq_false hnat64Local, if_neg hsix,
    if_neg hteredo, take_native h (by decide)]
  rfl

theorem ipEmbeddedIpv4_native (h : Native a) : ipEmbeddedIpv4 a = none := by
  have hmapped : ¬((a.bytes.take 10).all (· = 0) = true ∧ a.b10 = 0xff ∧ a.b11 = 0xff) := by
    rintro ⟨hzeros, h10, h11⟩
    have hmapped := h.mapped
    simp_all [V6.bytes, v4InV6, List.isPrefixOf]
  have hnat64 : ¬((a.b0 = 0x00 ∧ a.b1 = 0x64 ∧ a.b2 = 0xff ∧ a.b3 = 0x9b) ∧
      (((a.bytes.take 12).drop 4).all (· = 0) = true ∨
        a.b4 = 0x00 ∧ a.b5 = 0x01 ∧ ((a.bytes.take 12).drop 6).all (· = 0) = true)) := by
    rintro ⟨hhead, hzeros | ⟨h4, h5, hzeros⟩⟩
    · have hnat64 := h.nat64
      simp_all [V6.bytes, nat64, List.isPrefixOf]
    · have hnat64 := h.nat64Local
      simp_all [V6.bytes, nat64Local, List.isPrefixOf]
  rw [ipEmbeddedIpv4, if_neg hmapped, if_neg hnat64, if_neg h.sixToFour, if_neg h.teredo,
    take_native h le_rfl, if_neg nofun]

theorem webIpv6Blocked_native (h : Native a) : webIpv6Blocked a = nativeRefused a := by
  rw [webIpv6Blocked, take_native h (by decide), if_neg nofun, ipEmbeddedIpv4_native h, nativeRefused]
  split
  · next hlocal =>
    rw [decide_eq_true hlocal]
    rfl
  · next hlocal =>
    split
    · next hlink =>
      rw [decide_eq_true hlink.1, decide_eq_true hlink.2, Bool.true_and, Bool.or_true]
      rfl
    · next hlink =>
      split
      · next hmulticast => rw [decide_eq_true hmulticast, Bool.or_true]
      · next hmulticast =>
        rw [decide_eq_false hlocal, decide_eq_false hmulticast, ← Bool.decide_and, decide_eq_false hlink]
        rfl

end Native

/-! ## Agreement -/

def ownerRefuses (d : Address) : Bool := !publicIP d.ip

def sandboxRefuses (d : Address) : Bool := proxyIPBlocked d.ip

def webRefuses (d : Address) : Bool := webEgressAddrBlocked d

/-- The planes refuse a destination together or not at all. -/
def PlanesAgree (d : Address) : Prop := ownerRefuses d = sandboxRefuses d ∧ sandboxRefuses d = webRefuses d

/-- A destination in the 6to4 relay range, 192.88.99.0/24, or an IPv6 spelling of one. -/
def InRelayRange : Address → Prop
  | .v4 v => relayRange.covers v.word = true
  | .v6 a => ∃ v, Embeds a v ∧ relayRange.covers v.word = true

theorem sandboxRefuses_v4 (v : V4) : sandboxRefuses (.v4 v) = ipv4Blocked v.word := rfl

theorem refuses_embedded {a : V6} {v : V4} (h : Embeds a v) :
    ownerRefuses (.v6 a) = ownerRefuses (.v4 v) ∧ sandboxRefuses (.v6 a) = sandboxRefuses (.v4 v) ∧
      webRefuses (.v6 a) = webRefuses (.v4 v) :=
  ⟨congrArg (!·) (publicIP_embeds h), proxyIPBlocked_embeds h, webIpv6Blocked_embeds h⟩

theorem planesAgree_v4 (v : V4) : PlanesAgree (.v4 v) ↔ ¬relayRange.covers v.word = true := by
  have howner : ownerRefuses (.v4 v) = webIpv4Blocked v.word := by
    change (!publicIP v.bytes) = _
    rw [publicIP_v4, Bool.not_not]
  have hweb : webRefuses (.v4 v) = webIpv4Blocked v.word := rfl
  rw [PlanesAgree, howner, hweb, sandboxRefuses_v4, webIpv4Blocked_eq]
  cases hrelay : relayRange.covers v.word with
  | false => simp
  | true => simp [ipv4Blocked_relay hrelay]

/-- The planes agree on a destination exactly when it is not in the relay range, in any spelling; and each
    plane judges an embedded address as what it embeds. -/
theorem egress_planes_agree (d : Address) :
    (PlanesAgree d ↔ ¬InRelayRange d) ∧
    ∀ a v, d = .v6 a → Embeds a v → ownerRefuses d = ownerRefuses (.v4 v) ∧
      sandboxRefuses d = sandboxRefuses (.v4 v) ∧ webRefuses d = webRefuses (.v4 v) := by
  refine ⟨?_, ?_⟩
  swap
  · rintro a v rfl hembeds
    exact refuses_embedded hembeds
  cases d with
  | v4 v => exact planesAgree_v4 v
  | v6 a =>
    have hout : ipEmbeddedIpv4 a = none → ¬InRelayRange (.v6 a) := by
      rintro hnone ⟨v, hv, -⟩
      rw [ipEmbeddedIpv4_embeds hv] at hnone
      cases hnone
    rcases address_cases a with rfl | rfl | ⟨v, hv⟩ | hnative
    · exact iff_of_true ⟨by decide, by decide⟩ (hout (by decide))
    · exact iff_of_true ⟨by decide, by decide⟩ (hout (by decide))
    · obtain ⟨howner, hsandbox, hweb⟩ := refuses_embedded hv
      rw [PlanesAgree, howner, hsandbox, hweb, ← PlanesAgree, planesAgree_v4, not_iff_not]
      constructor
      · exact fun hrelay => ⟨v, hv, hrelay⟩
      · rintro ⟨v', hv', hrelay⟩
        rw [hv.unique hv']
        exact hrelay
    · refine iff_of_true ?_ (hout (ipEmbeddedIpv4_native hnative))
      rw [PlanesAgree, ownerRefuses, sandboxRefuses, webRefuses, Address.ip, webEgressAddrBlocked,
        publicIP_native hnative, proxyIPBlocked_native hnative, webIpv6Blocked_native hnative, Bool.not_not]
      exact ⟨rfl, rfl⟩

/-- The owner and the web guard refuse 192.88.99.1, and the sandbox proxy does not. -/
theorem relay_planes_disagree : ¬∀ d, PlanesAgree d := by
  intro hagree
  have hrelay := (hagree (.v4 ⟨192, 88, 99, 1⟩)).1
  revert hrelay
  decide

/-- The cloud metadata address in its Teredo spelling. -/
theorem egress_planes_agree_metadata :
    PlanesAgree (.v6 ⟨0x20, 0x01, 0, 0, 1, 2, 3, 4, 5, 6, 7, 8, 0x56, 0x01, 0x56, 0x01⟩) ∧
      sandboxRefuses (.v6 ⟨0x20, 0x01, 0, 0, 1, 2, 3, 4, 5, 6, 7, 8, 0x56, 0x01, 0x56, 0x01⟩) = true := by
  have hembeds : Embeds ⟨0x20, 0x01, 0, 0, 1, 2, 3, 4, 5, 6, 7, 8, 0x56, 0x01, 0x56, 0x01⟩ ⟨169, 254, 169, 254⟩ :=
    .teredo ⟨169, 254, 169, 254⟩ 1 2 3 4 5 6 7 8
  refine ⟨(egress_planes_agree _).1.mpr ?_, ?_⟩
  · rintro ⟨v, hv, hrelay⟩
    rw [← hembeds.unique hv] at hrelay
    revert hrelay
    decide
  · rw [((egress_planes_agree _).2 _ _ rfl hembeds).2.1]
    decide

end Egress
