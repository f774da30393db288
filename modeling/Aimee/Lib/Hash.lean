-- SUMMARY: Hash functions on byte strings, collision freedom on a finite set of inputs, and SHA-256.
import Aimee.Lib.Bytes

/-!
# Hash functions

A protocol built on a hash function is proved for every function of the type
`HashFn`, under the hypothesis that no two of the byte strings it hashes collide.
No function into 32 bytes is injective, so the hypothesis is always about the
finite list of inputs at hand. `sha256` is the function of FIPS 180-4, written so
that it evaluates on concrete inputs.
-/

abbrev Digest := Block 32

abbrev HashFn := List UInt8 → Digest

/-- No two different byte strings of the list have the same digest. -/
def CollisionFree (H : HashFn) (inputs : List (List UInt8)) : Prop :=
  ∀ x ∈ inputs, ∀ y ∈ inputs, H x = H y → x = y

instance (H : HashFn) (inputs : List (List UInt8)) : Decidable (CollisionFree H inputs) :=
  inferInstanceAs (Decidable (∀ x ∈ inputs, ∀ y ∈ inputs, H x = H y → x = y))

theorem CollisionFree.mono {H : HashFn} {xs ys : List (List UInt8)} (h : CollisionFree H ys)
    (hsub : ∀ x ∈ xs, x ∈ ys) : CollisionFree H xs :=
  fun x hx y hy heq => h x (hsub x hx) y (hsub y hy) heq

/-- Two byte strings of a list are hashed only where they differ. -/
theorem CollisionFree.of_pairwise {H : HashFn} {xs : List (List UInt8)}
    (h : xs.Pairwise fun x y => x ≠ y → H x ≠ H y) : CollisionFree H xs := by
  intro x hx y hy heq
  by_contra hne
  have hflip : xs.Pairwise (flip fun x y => x ≠ y → H x ≠ H y) :=
    h.imp fun hab hba hd => hab hba.symm hd.symm
  exact h.forall_of_forall_of_flip (fun _ _ hself => absurd rfl hself) hflip hx hy hne heq

namespace Sha256

/-! ## Words of 32 bits, as natural numbers below `2 ^ 32` -/

private def rotr (n x : Nat) : Nat := (x >>> n ||| x <<< (32 - n)) % 2 ^ 32

private def add (x y : Nat) : Nat := (x + y) % 2 ^ 32

/-- The first 32 bits of the fractional parts of the cube roots of the first 64
    primes. -/
private def roundConstants : List Nat :=
  [0x428a2f98, 0x71374491, 0xb5c0fbcf, 0xe9b5dba5, 0x3956c25b, 0x59f111f1, 0x923f82a4, 0xab1c5ed5,
   0xd807aa98, 0x12835b01, 0x243185be, 0x550c7dc3, 0x72be5d74, 0x80deb1fe, 0x9bdc06a7, 0xc19bf174,
   0xe49b69c1, 0xefbe4786, 0x0fc19dc6, 0x240ca1cc, 0x2de92c6f, 0x4a7484aa, 0x5cb0a9dc, 0x76f988da,
   0x983e5152, 0xa831c66d, 0xb00327c8, 0xbf597fc7, 0xc6e00bf3, 0xd5a79147, 0x06ca6351, 0x14292967,
   0x27b70a85, 0x2e1b2138, 0x4d2c6dfc, 0x53380d13, 0x650a7354, 0x766a0abb, 0x81c2c92e, 0x92722c85,
   0xa2bfe8a1, 0xa81a664b, 0xc24b8b70, 0xc76c51a3, 0xd192e819, 0xd6990624, 0xf40e3585, 0x106aa070,
   0x19a4c116, 0x1e376c08, 0x2748774c, 0x34b0bcb5, 0x391c0cb3, 0x4ed8aa4a, 0x5b9cca4f, 0x682e6ff3,
   0x748f82ee, 0x78a5636f, 0x84c87814, 0x8cc70208, 0x90befffa, 0xa4506ceb, 0xbef9a3f7, 0xc67178f2]

/-- The eight working variables. -/
private structure State where
  a : Nat
  b : Nat
  c : Nat
  d : Nat
  e : Nat
  f : Nat
  g : Nat
  h : Nat

private def State.initial : State where
  a := 0x6a09e667
  b := 0xbb67ae85
  c := 0x3c6ef372
  d := 0xa54ff53a
  e := 0x510e527f
  f := 0x9b05688c
  g := 0x1f83d9ab
  h := 0x5be0cd19

/-- One round; `kw` is the round constant plus the schedule word. -/
private def round (s : State) (kw : Nat) : State :=
  let s1 := rotr 6 s.e ^^^ rotr 11 s.e ^^^ rotr 25 s.e
  let ch := (s.e &&& s.f) ^^^ ((2 ^ 32 - 1 - s.e) &&& s.g)
  let t1 := s.h + s1 + ch + kw
  let s0 := rotr 2 s.a ^^^ rotr 13 s.a ^^^ rotr 22 s.a
  let maj := (s.a &&& s.b) ^^^ (s.a &&& s.c) ^^^ (s.b &&& s.c)
  ⟨add t1 (s0 + maj), s.a, s.b, s.c, add s.d t1, s.e, s.f, s.g⟩

/-- The remaining rounds. The message schedule is kept as a window of sixteen
    words, oldest first: each round consumes one and computes the one that is due
    sixteen rounds later. -/
private def rounds : State → List Nat → List Nat → State
  | s, w0 :: window, k :: ks =>
    let w1 := window.getD 0 0
    let w9 := window.getD 8 0
    let w14 := window.getD 13 0
    let σ0 := rotr 7 w1 ^^^ rotr 18 w1 ^^^ (w1 >>> 3)
    let σ1 := rotr 17 w14 ^^^ rotr 19 w14 ^^^ (w14 >>> 10)
    rounds (round s (k + w0)) (window ++ [add (w0 + σ0 + w9) σ1]) ks
  | s, _, _ => s

private def compress (s : State) (block : List Nat) : State :=
  let t := rounds s block roundConstants
  ⟨add s.a t.a, add s.b t.b, add s.c t.c, add s.d t.d,
    add s.e t.e, add s.f t.f, add s.g t.g, add s.h t.h⟩

/-- The message, one bit, zeros up to eight bytes short of a block boundary, and
    the length in bits. -/
private def pad (m : List UInt8) : List UInt8 :=
  m ++ 0x80 :: List.replicate ((119 - m.length % 64) % 64) 0 ++ Wire.beBytes 8 (8 * m.length)

private def words : List UInt8 → List Nat
  | a :: b :: c :: d :: rest => Wire.beNat [a, b, c, d] :: words rest
  | _ => []

private def blocks : Nat → State → List Nat → State
  | 0, s, _ => s
  | n + 1, s, ws => blocks n (compress s (ws.take 16)) (ws.drop 16)

private def State.bytes (s : State) : List UInt8 :=
  [s.a, s.b, s.c, s.d, s.e, s.f, s.g, s.h].flatMap (Wire.beBytes 4)

end Sha256

/-- SHA-256 (FIPS 180-4). -/
def sha256 : HashFn := fun m =>
  let ws := Sha256.words (Sha256.pad m)
  ⟨(Sha256.blocks (ws.length / 16) .initial ws).bytes, by simp [Sha256.State.bytes]⟩

/-- The digest of `abc`, the first test vector of FIPS 180-4. -/
example : Wire.beNat (sha256 (ascii "abc")).val
    = 0xba7816bf8f01cfea414140de5dae2223b00361a396177a9cb410ff61f20015ad := by
  decide +kernel
