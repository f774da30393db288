-- SUMMARY: Subnets of a fixed address width, and tables of them.
import Mathlib.Data.BitVec

/-!
# Subnets

A subnet is a network and a number of leading bits. An address is covered if it has the network's
leading bits. A table covers what one of its subnets covers.
-/

/-- The mask of the leading bits of a word. -/
def subnetMask (w bits : ℕ) : BitVec w := BitVec.allOnes w <<< (w - bits)

structure Subnet (w : ℕ) where
  network : BitVec w
  bits : ℕ
  deriving DecidableEq

namespace Subnet

variable {w : ℕ} {p q : Subnet w} {table : List (Subnet w)} {address : BitVec w}

def covers (p : Subnet w) (address : BitVec w) : Bool := address &&& subnetMask w p.bits = p.network

/-- One of the subnets covers the address. -/
def anyCovers (table : List (Subnet w)) (address : BitVec w) : Bool := table.any (·.covers address)

theorem subnetMask_and {m n : ℕ} (h : m ≤ n) : subnetMask w n &&& subnetMask w m = subnetMask w m := by
  refine BitVec.eq_of_getLsbD_eq fun i hi => ?_
  simp only [subnetMask, BitVec.getLsbD_and, BitVec.getLsbD_shiftLeft, BitVec.getLsbD_allOnes]
  rw [Bool.eq_iff_iff]
  simp only [Bool.and_eq_true, decide_eq_true_eq, Bool.not_eq_true', decide_eq_false_iff_not]
  omega

/-- Inside a subnet, one with no more bits covers all or nothing. -/
theorem covers_of_covers (hp : p.covers address = true) (h : q.bits ≤ p.bits) :
    q.covers address = q.covers p.network := by
  have hnetwork : address &&& subnetMask w p.bits = p.network := of_decide_eq_true hp
  have hmask : p.network &&& subnetMask w q.bits = address &&& subnetMask w q.bits := by
    rw [← hnetwork, BitVec.and_assoc, subnetMask_and h]
  rw [covers, covers, hmask]

theorem anyCovers_of_covers (hp : p.covers address = true) (h : ∀ q ∈ table, q.bits ≤ p.bits) :
    anyCovers table address = anyCovers table p.network := by
  rw [anyCovers, anyCovers, Bool.eq_iff_iff, List.any_eq_true, List.any_eq_true]
  refine exists_congr fun q => and_congr_right fun hq => ?_
  rw [covers_of_covers hp (h q hq)]

end Subnet
