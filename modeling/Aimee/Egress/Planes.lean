-- SUMMARY: The address checks of the egress owner, the sandbox proxy and the web guard.
import Aimee.Lib.Subnets

/-!
# Egress address checks

`egress.go`, `proxy_policy.go`, `web_egress.c` and `ip_transition.h`. Three planes refuse private and
reserved destinations, each with a table of its own and its own reading of IPv6 addresses that name
an IPv4 address.
-/

namespace Egress

abbrev Octet := BitVec 8

/-! ## Addresses -/

structure V4 where
  (a b c d : Octet)
  deriving DecidableEq

structure V6 where
  (b0 b1 b2 b3 b4 b5 b6 b7 b8 b9 b10 b11 b12 b13 b14 b15 : Octet)
  deriving DecidableEq

/-- The address as a word in host order: `binary.BigEndian.Uint32`, `ntohl`. -/
def beUint32 (a b c d : Octet) : BitVec 32 := a ++ b ++ c ++ d

def V4.word (v : V4) : BitVec 32 := beUint32 v.a v.b v.c v.d

def V4.bytes (v : V4) : List Octet := [v.a, v.b, v.c, v.d]

def V6.bytes (a : V6) : List Octet :=
  [a.b0, a.b1, a.b2, a.b3, a.b4, a.b5, a.b6, a.b7, a.b8, a.b9, a.b10, a.b11, a.b12, a.b13, a.b14, a.b15]

/-- An address of a socket. -/
inductive Address where
  | v4 (v : V4)
  | v6 (a : V6)
  deriving DecidableEq

/-! ## Go addresses -/

/-- `net.IP`: four or sixteen bytes. -/
abbrev IP := List Octet

/-- The first bytes of an IPv4 address written in sixteen. -/
def v4InV6 : List Octet := [0, 0, 0, 0, 0, 0, 0, 0, 0, 0, 0xff, 0xff]

def to4 (ip : IP) : Option IP :=
  if ip.length = 4 then some ip
  else if ip.length = 16 ∧ v4InV6.isPrefixOf ip then some (ip.drop 12)
  else none

def to16 (ip : IP) : Option IP :=
  if ip.length = 4 then some (v4InV6 ++ ip)
  else if ip.length = 16 then some ip
  else none

def ipv4 (a b c d : Octet) : IP := v4InV6 ++ [a, b, c, d]

/-- `ip[i]`. -/
def octet (ip : IP) (i : ℕ) : Octet := ip.getD i 0

def isLoopback (ip : IP) : Bool :=
  match to4 ip with
  | some v4 => octet v4 0 = 127
  | none => ip = List.replicate 15 0 ++ [1]

def isUnspecified (ip : IP) : Bool := to4 ip = some [0, 0, 0, 0] || ip = List.replicate 16 0

def isPrivate (ip : IP) : Bool :=
  match to4 ip with
  | some v4 =>
    octet v4 0 = 10 || octet v4 0 = 172 && octet v4 1 &&& 0xf0 = 16 || octet v4 0 = 192 && octet v4 1 = 168
  | none => ip.length = 16 && octet ip 0 &&& 0xfe = 0xfc

def isLinkLocalMulticast (ip : IP) : Bool :=
  match to4 ip with
  | some v4 => octet v4 0 = 224 && octet v4 1 = 0 && octet v4 2 = 0
  | none => ip.length = 16 && octet ip 0 = 0xff && octet ip 1 &&& 0x0f = 0x02

def isLinkLocalUnicast (ip : IP) : Bool :=
  match to4 ip with
  | some v4 => octet v4 0 = 169 && octet v4 1 = 254
  | none => ip.length = 16 && octet ip 0 = 0xfe && octet ip 1 &&& 0xc0 = 0x80

def isMulticast (ip : IP) : Bool :=
  match to4 ip with
  | some v4 => octet v4 0 &&& 0xf0 = 0xe0
  | none => ip.length = 16 && octet ip 0 = 0xff

/-- The bytes of the address, as the Go planes get it. -/
def Address.ip : Address → IP
  | v4 v => v.bytes
  | v6 a => a.bytes

/-! ## The egress owner -/

structure IPNet where
  ip : IP
  mask : IP

def maskByte (ones : ℕ) : Octet := if 8 ≤ ones then 0xff else ~~~((0xff : Octet) >>> ones)

/-- `net.CIDRMask` of an IPv4 address. -/
def cidrMask (ones : ℕ) : IP := [maskByte ones, maskByte (ones - 8), maskByte (ones - 16), maskByte (ones - 24)]

/-- `net.ParseCIDR` of an IPv4 network. -/
def parseCIDR (v : V4) (ones : ℕ) : IPNet where
  ip := List.zipWith (· &&& ·) v.bytes (cidrMask ones)
  mask := cidrMask ones

/-- `IPNet.Contains` of four bytes. -/
def IPNet.contains (n : IPNet) (ip : IP) : Bool :=
  ip.length = n.ip.length && List.zipWith (· &&& ·) n.ip n.mask = List.zipWith (· &&& ·) ip n.mask

def egressBlockedIPv4 : List IPNet :=
  [parseCIDR ⟨0, 0, 0, 0⟩ 8, parseCIDR ⟨10, 0, 0, 0⟩ 8, parseCIDR ⟨100, 64, 0, 0⟩ 10, parseCIDR ⟨127, 0, 0, 0⟩ 8,
    parseCIDR ⟨169, 254, 0, 0⟩ 16, parseCIDR ⟨172, 16, 0, 0⟩ 12, parseCIDR ⟨192, 0, 0, 0⟩ 24,
    parseCIDR ⟨192, 0, 2, 0⟩ 24, parseCIDR ⟨192, 88, 99, 0⟩ 24, parseCIDR ⟨192, 168, 0, 0⟩ 16,
    parseCIDR ⟨198, 18, 0, 0⟩ 15, parseCIDR ⟨198, 51, 100, 0⟩ 24, parseCIDR ⟨203, 0, 113, 0⟩ 24,
    parseCIDR ⟨224, 0, 0, 0⟩ 4, parseCIDR ⟨240, 0, 0, 0⟩ 4]

def nat64 : List Octet := [0x00, 0x64, 0xff, 0x9b, 0, 0, 0, 0, 0, 0, 0, 0]

def nat64Local : List Octet := [0x00, 0x64, 0xff, 0x9b, 0x00, 0x01, 0, 0, 0, 0, 0, 0]

def egressEmbeddedIPv4 (ip : IP) : Option IP :=
  match to16 ip with
  | none => none
  | some v6 =>
    if (to4 ip).isSome then none
    else if nat64.isPrefixOf v6 || nat64Local.isPrefixOf v6 then
      some (ipv4 (octet v6 12) (octet v6 13) (octet v6 14) (octet v6 15))
    else if [0x20, 0x01, 0x00, 0x00].isPrefixOf v6 then
      some (ipv4 (~~~octet v6 12) (~~~octet v6 13) (~~~octet v6 14) (~~~octet v6 15))
    else if octet v6 0 = 0x20 ∧ octet v6 1 = 0x02 then
      some (ipv4 (octet v6 2) (octet v6 3) (octet v6 4) (octet v6 5))
    else if (List.replicate 12 0).isPrefixOf v6 ∧
        octet v6 12 ||| octet v6 13 ||| octet v6 14 ||| octet v6 15 ≠ 0 then
      some (ipv4 (octet v6 12) (octet v6 13) (octet v6 14) (octet v6 15))
    else none

/-- `publicIP` of an address that is not nil. -/
def publicIP (ip : IP) : Bool :=
  let ip := (egressEmbeddedIPv4 ip).getD ip
  match to4 ip with
  | some v4 => !egressBlockedIPv4.any (·.contains v4)
  | none => !isLoopback ip && !isPrivate ip && !isUnspecified ip && !isLinkLocalMulticast ip &&
      !isLinkLocalUnicast ip && !isMulticast ip

/-! ## The sandbox proxy -/

def sandboxRanges : List (Subnet 32) :=
  [⟨0x00000000, 8⟩, ⟨0x0a000000, 8⟩, ⟨0x64400000, 10⟩, ⟨0x7f000000, 8⟩, ⟨0xa9fe0000, 16⟩, ⟨0xac100000, 12⟩,
    ⟨0xc0000000, 24⟩, ⟨0xc0000200, 24⟩, ⟨0xc0a80000, 16⟩, ⟨0xc6120000, 15⟩, ⟨0xc6336400, 24⟩, ⟨0xcb007100, 24⟩,
    ⟨0xe0000000, 4⟩, ⟨0xf0000000, 4⟩]

/-- `ipv4Blocked` of the sandbox. -/
def ipv4Blocked (address : BitVec 32) : Bool := Subnet.anyCovers sandboxRanges address

/-- The word of four bytes of a slice. -/
def wordAt (ip : IP) (i : ℕ) :
    BitVec 32 := beUint32 (octet ip i) (octet ip (i + 1)) (octet ip (i + 2)) (octet ip (i + 3))

/-- `proxyIPBlocked` of an address that is not nil. -/
def proxyIPBlocked (ip : IP) : Bool :=
  match to4 ip with
  | some v4 => ipv4Blocked (wordAt v4 0)
  | none =>
    match to16 ip with
    | none => true
    | some v6 =>
      let compat := (v6.take 12).all (· = 0)
      if compat && octet v6 12 ||| octet v6 13 ||| octet v6 14 ||| octet v6 15 ≠ 0 || v6.take 12 = nat64 ||
          v6.take 12 = nat64Local then
        ipv4Blocked (wordAt v6 12)
      else if octet v6 0 = 0x20 ∧ octet v6 1 = 0x02 then ipv4Blocked (wordAt v6 2)
      else if octet v6 0 = 0x20 ∧ octet v6 1 = 0x01 ∧ octet v6 2 = 0x00 ∧ octet v6 3 = 0x00 then
        ipv4Blocked (~~~wordAt v6 12)
      else if (v6.take 15).all (· = 0) ∧ (octet v6 15 = 0 ∨ octet v6 15 = 1) then true
      else octet v6 0 &&& 0xfe = 0xfc || octet v6 0 = 0xfe && octet v6 1 &&& 0xc0 = 0x80 || octet v6 0 = 0xff

/-! ## The web guard -/

def webRanges : List (Subnet 32) :=
  [⟨0x00000000, 8⟩, ⟨0x0a000000, 8⟩, ⟨0x64400000, 10⟩, ⟨0x7f000000, 8⟩, ⟨0xa9fe0000, 16⟩, ⟨0xac100000, 12⟩,
    ⟨0xc0000000, 24⟩, ⟨0xc0000200, 24⟩, ⟨0xc0586300, 24⟩, ⟨0xc0a80000, 16⟩, ⟨0xc6120000, 15⟩, ⟨0xc6336400, 24⟩,
    ⟨0xcb007100, 24⟩, ⟨0xe0000000, 4⟩, ⟨0xf0000000, 4⟩]

/-- `ipv4_blocked` of the web guard. -/
def webIpv4Blocked (a : BitVec 32) : Bool := Subnet.anyCovers webRanges a

def ipEmbeddedIpv4 (a : V6) : Option (BitVec 32) :=
  let b := a.bytes
  let tail := beUint32 a.b12 a.b13 a.b14 a.b15
  if (b.take 10).all (· = 0) ∧ a.b10 = 0xff ∧ a.b11 = 0xff then some tail
  else if (a.b0 = 0x00 ∧ a.b1 = 0x64 ∧ a.b2 = 0xff ∧ a.b3 = 0x9b) ∧
      (((b.take 12).drop 4).all (· = 0) ∨ a.b4 = 0x00 ∧ a.b5 = 0x01 ∧ ((b.take 12).drop 6).all (· = 0)) then some tail
  else if a.b0 = 0x20 ∧ a.b1 = 0x02 then some (beUint32 a.b2 a.b3 a.b4 a.b5)
  else if a.b0 = 0x20 ∧ a.b1 = 0x01 ∧ a.b2 = 0x00 ∧ a.b3 = 0x00 then some (~~~tail)
  else if (b.take 12).all (· = 0) ∧ 1 < tail then some tail
  else none

/-- `ipv6_blocked`. -/
def webIpv6Blocked (a : V6) : Bool :=
  if (a.bytes.take 15).all (· = 0) ∧ (a.b15 = 0 ∨ a.b15 = 1) then true
  else if a.b0 &&& 0xfe = 0xfc then true
  else if a.b0 = 0xfe ∧ a.b1 &&& 0xc0 = 0x80 then true
  else if a.b0 = 0xff then true
  else match ipEmbeddedIpv4 a with
    | some embedded => webIpv4Blocked embedded
    | none => false

/-- `web_egress_addr_blocked`, of the two families that name a destination. -/
def webEgressAddrBlocked : Address → Bool
  | .v4 v => webIpv4Blocked v.word
  | .v6 a => webIpv6Blocked a

end Egress
