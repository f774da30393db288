-- SUMMARY: The cells of a request to a served family, and the checks the families make on them.
import Aimee.Lib.Bytes

/-!
# Request cells

`wire.go` and the field checks of `jti_replay.go`. A cell is the bytes of a Go string.
-/

namespace Families

abbrev Cell := List UInt8

/-! ## Numbers -/

def digit (c : UInt8) : Bool := 48 ≤ c && c ≤ 57

def decimal (digits : Cell) : ℕ := digits.foldl (fun n c => 10 * n + (c.toNat - 48)) 0

/-- The digits after an optional sign, and whether the sign is a minus. -/
def splitSign : Cell → Bool × Cell
  | 45 :: digits => (true, digits)
  | 43 :: digits => (false, digits)
  | digits => (false, digits)

/-- `strconv.ParseInt(cell, 10, 64)`. -/
def parseInt (cell : Cell) : Option ℤ :=
  let (negative, digits) := splitSign cell
  let n : ℤ := if negative then -decimal digits else decimal digits
  if digits ≠ [] ∧ digits.all digit ∧ -2 ^ 63 ≤ n ∧ n < 2 ^ 63 then some n else none

/-- `Atoi64`; `Atoi` reads the same range on a 64-bit host. -/
def atoi64 (cell : Cell) : Option ℤ := if cell = [] then some 0 else parseInt cell

/-! ## Alphabets -/

/-- A cell within bounds, of bytes of an alphabet. -/
def bounded (alphabet : UInt8 → Bool) (min max : ℕ) (s : Cell) : Bool :=
  min ≤ s.length && s.length ≤ max && s.all alphabet

def asciiToken (s : Cell) (min max : ℕ) : Bool :=
  bounded (fun c => 65 ≤ c && c ≤ 90 || 97 ≤ c && c ≤ 122 || digit c || c = 46 || c = 95 || c = 45) min max s

def controlFree (s : Cell) (min max : ℕ) : Bool :=
  bounded (fun c => !(c < 0x20 || c = 0x7f)) min max s

def lowercaseHex (s : Cell) (min max : ℕ) : Bool :=
  bounded (fun c => digit c || 97 ≤ c && c ≤ 102) min max s

end Families
