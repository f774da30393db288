-- SUMMARY: Doubles that are integers: rounding to the nearest, decimal spellings to so many digits, and reading a decimal back.
import Aimee.Lib.Bytes
import Mathlib.Data.List.DropRight
import Mathlib.Data.Nat.Log

/-!
# Doubles

Natural numbers as binary64 has them, the `%g` spellings of such a number, and what a decimal is read
as, truncated. Rounding is to the nearest, ties to even. Infinities are left out: no number of the
range of an integer type rounds to one.
-/

namespace Doubles

open Wire (decimal)

/-- The quotient to the nearest, ties to even. -/
def halfEven (m d : ℕ) : ℕ :=
  if 2 * (m % d) < d ∨ 2 * (m % d) = d ∧ m / d % 2 = 0 then m / d else m / d + 1

theorem halfEven_mul (n : ℕ) {d : ℕ} (hd : 0 < d) : halfEven (n * d) d = n := by
  simp [halfEven, hd]

/-- The nearest double. -/
def nearest (n : ℕ) : ℕ :=
  if n < 2 ^ 53 then n else halfEven n (2 ^ (n.log2 - 52)) * 2 ^ (n.log2 - 52)

/-- The nearest double of a quotient, truncated. -/
def truncQuot (num den : ℕ) : ℕ :=
  if 2 ^ 53 * den ≤ num then
    let ulp := 2 ^ ((num / den).log2 - 52)
    halfEven num (den * ulp) * ulp
  else
    let parts := 2 ^ if num < den then 53 else 52 - (num / den).log2
    halfEven (num * parts) den / parts

theorem truncQuot_mul {n d : ℕ} (hd : 0 < d) (hn : n < 2 ^ 53) : truncQuot (n * d) d = n := by
  rw [truncQuot, if_neg (Nat.not_le.mpr ((Nat.mul_lt_mul_right hd).mpr hn))]
  dsimp only
  rw [show ∀ parts, n * d * parts = n * parts * d from fun parts => by ring, halfEven_mul _ hd, Nat.mul_div_cancel]
  positivity

/-! ## Digits -/

def digitsValue (ds : List UInt8) : ℕ := ds.foldl (fun n d => n * 10 + (d.toNat - 48)) 0

def IsDigit (c : UInt8) : Prop := 48 ≤ c ∧ c ≤ 57

instance : DecidablePred IsDigit := fun c => inferInstanceAs (Decidable (48 ≤ c ∧ c ≤ 57))

theorem isDigit_of_mem_decimal {n : ℕ} {c : UInt8} (h : c ∈ decimal n) : IsDigit c := by
  have hc := Wire.mem_decimal h
  exact ⟨UInt8.le_iff_toNat_le.mpr hc.1, UInt8.le_iff_toNat_le.mpr hc.2⟩

theorem decimal_ne_nil (n : ℕ) : decimal n ≠ [] := by
  simp [decimal]

theorem length_decimal_le_iff {n k : ℕ} (hk : 0 < k) : (decimal n).length ≤ k ↔ n < 10 ^ k := by
  rw [decimal, List.length_map, Nat.length_toDigits_le_iff (by decide) hk]

/-- The last digit, and those before it. -/
theorem decimal_snoc {n : ℕ} (h : 10 ≤ n) : decimal n = decimal (n / 10) ++ [UInt8.ofNat (48 + n % 10)] := by
  have htable : ∀ d < 10, UInt8.ofNat (Nat.digitChar d).toNat = UInt8.ofNat (48 + d) := by decide
  rw [decimal, Nat.toDigits_of_base_le (by decide) h, List.map_append, List.map_singleton,
    htable _ (Nat.mod_lt _ (by decide))]
  rfl

theorem decimal_of_lt {n : ℕ} (h : n < 10) : decimal n = [UInt8.ofNat (48 + n)] := by
  have htable : ∀ d < 10, decimal d = [UInt8.ofNat (48 + d)] := by decide
  exact htable n h

theorem digitsValue_snoc (ds : List UInt8) (d : UInt8) :
    digitsValue (ds ++ [d]) = digitsValue ds * 10 + (d.toNat - 48) := by
  simp [digitsValue]

theorem digitsValue_decimal (n : ℕ) : digitsValue (decimal n) = n := by
  have hdigit : ∀ d < 10, (UInt8.ofNat (48 + d)).toNat - 48 = d := by decide
  induction n using Nat.strongRecOn with
  | ind n ih =>
    by_cases hn : n < 10
    · rw [decimal_of_lt hn, ← List.nil_append [_], digitsValue_snoc, hdigit n hn]
      exact Nat.zero_add n
    · rw [decimal_snoc (by omega), digitsValue_snoc, ih (n / 10) (by omega), hdigit _ (Nat.mod_lt _ (by decide))]
      omega

/-- The first digit of a positive number. -/
theorem decimal_eq_cons {n : ℕ} (h : 0 < n) : ∃ d ds, decimal n = d :: ds ∧ d ≠ 48 := by
  have htable : ∀ d < 10, 0 < d → UInt8.ofNat (48 + d) ≠ 48 := by decide
  induction n using Nat.strongRecOn with
  | ind n ih =>
    by_cases hn : n < 10
    · exact ⟨_, [], decimal_of_lt hn, htable n hn h⟩
    · obtain ⟨d, ds, heq, hd⟩ := ih (n / 10) (by omega) (by omega)
      exact ⟨d, ds ++ [UInt8.ofNat (48 + n % 10)], by rw [decimal_snoc (by omega), heq, List.cons_append], hd⟩

/-! ## Spelling -/

/-- A decimal: a sign, digits before and behind the point, and the digits of an exponent. -/
def spelled (neg : Bool) (int frac exp : List UInt8) : List UInt8 :=
  (if neg then [45] else []) ++ int ++ (if frac = [] then [] else 46 :: frac) ++
    (if exp = [] then [] else 101 :: 43 :: exp)

/-- The number to so many significant digits. -/
def roundDigits (prec n : ℕ) : ℕ :=
  halfEven n (10 ^ ((decimal n).length - prec)) * 10 ^ ((decimal n).length - prec)

def trimZeros (ds : List UInt8) : List UInt8 := ds.rdropWhile (· = 48)

/-- `%.{prec}g`: an exponent where there are more digits than that. -/
def spellG (neg : Bool) (prec n : ℕ) : List UInt8 :=
  let ds := decimal (roundDigits prec n)
  if ds.length ≤ prec then spelled neg ds [] []
  else spelled neg (ds.take 1) (trimZeros ds).tail (decimal (ds.length - 1))

theorem roundDigits_of_length_le {prec n : ℕ} (h : (decimal n).length ≤ prec) : roundDigits prec n = n := by
  rw [roundDigits, Nat.sub_eq_zero_of_le h, pow_zero]
  simpa using halfEven_mul n Nat.one_pos

theorem spellG_of_length_le {prec n : ℕ} (neg : Bool) (h : (decimal n).length ≤ prec) :
    spellG neg prec n = spelled neg (decimal n) [] [] := by
  rw [spellG, roundDigits_of_length_le h]
  exact if_pos h

/-! ## Reading -/

/-- The value of a decimal is its mantissa by ten to the power `up - down`. -/
structure Decimal where
  neg : Bool
  mantissa : ℕ
  up : ℕ
  down : ℕ
  deriving DecidableEq

/-- A number of the JSON grammar. -/
def readDecimal (lexeme : List UInt8) : Decimal :=
  let s := lexeme.dropWhile (· = 45)
  let int := s.takeWhile fun c => decide (IsDigit c)
  let s := s.drop int.length
  let frac := if s.head? = some 46 then s.tail.takeWhile fun c => decide (IsDigit c) else []
  let s := if s.head? = some 46 then s.tail.drop frac.length else s
  let sign := s.tail.head?.filter fun c => c = 43 || c = 45
  let power := digitsValue (if sign.isSome then s.tail.tail else s.tail)
  { neg := lexeme.head? = some 45
    mantissa := digitsValue (int ++ frac)
    up := if sign = some 45 then 0 else power
    down := frac.length + if sign = some 45 then power else 0 }

theorem takeWhile_digits {ds rest : List UInt8} (h : ∀ c ∈ ds, IsDigit c) (hrest : ∀ c ∈ rest.head?, ¬ IsDigit c) :
    (ds ++ rest).takeWhile (fun c => decide (IsDigit c)) = ds := by
  rw [List.takeWhile_append_of_pos (fun c hc => decide_eq_true (h c hc))]
  cases rest with
  | nil => simp
  | cons c rest => simp [hrest c rfl]

theorem readDecimal_spelled (neg : Bool) {int frac exp : List UInt8} (hint : ∀ c ∈ int, IsDigit c) (hne : int ≠ [])
    (hfrac : ∀ c ∈ frac, IsDigit c) :
    readDecimal (spelled neg int frac exp) = ⟨neg, digitsValue (int ++ frac), digitsValue exp, frac.length⟩ := by
  obtain ⟨d, ds, rfl⟩ := List.exists_cons_of_ne_nil hne
  have hd : d ≠ 45 := by
    rintro rfl
    exact absurd (hint 45 List.mem_cons_self).1 (by decide)
  let tail := (if frac = [] then [] else 46 :: frac) ++ if exp = [] then [] else 101 :: 43 :: exp
  have htail : ∀ c ∈ tail.head?, ¬ IsDigit c := by
    intro c hc
    simp only [tail] at hc
    split_ifs at hc <;> simp at hc <;> subst hc <;> decide
  have hsign : (spelled neg (d :: ds) frac exp).dropWhile (· = 45) = d :: ds ++ tail ∧
      (decide ((spelled neg (d :: ds) frac exp).head? = some 45)) = neg := by
    cases neg <;> simp [spelled, tail, hd]
  rw [readDecimal]
  simp only [hsign, takeWhile_digits hint htail, List.drop_left]
  have hexpTail : ∀ c ∈ (if exp = [] then [] else 101 :: 43 :: exp : List UInt8).head?, ¬ IsDigit c := by
    intro c hc
    split_ifs at hc <;> simp at hc
    subst hc
    decide
  have hpower : ∀ s : List UInt8, s = (if exp = [] then [] else 101 :: 43 :: exp) →
      digitsValue (if (s.tail.head?.filter fun c => c = 43 || c = 45).isSome then s.tail.tail else s.tail) =
        digitsValue exp ∧
        (s.tail.head?.filter fun c => c = 43 || c = 45) ≠ some 45 := by
    rintro s rfl
    by_cases hnil : exp = []
    · simp [hnil, digitsValue]
    · simp [hnil]
  by_cases hnil : frac = []
  · obtain ⟨hvalue, hminus⟩ := hpower tail (by simp [tail, hnil])
    have hdot : tail.head? ≠ some 46 := by
      simp only [tail, hnil, if_true, List.nil_append]
      split_ifs <;> simp
    simp only [hdot, if_false, hvalue, hminus, hnil, List.length_nil]
  · have hdot : tail = 46 :: (frac ++ if exp = [] then [] else 101 :: 43 :: exp) := by
      simp [tail, hnil]
    obtain ⟨hvalue, hminus⟩ := hpower _ rfl
    simp only [hdot, List.head?_cons, if_true, List.tail_cons, takeWhile_digits hfrac hexpTail,
      List.drop_left, hvalue, hminus, if_false, Nat.add_zero]

theorem digitsValue_append_zeros (ds : List UInt8) (k : ℕ) :
    digitsValue (ds ++ List.replicate k 48) = digitsValue ds * 10 ^ k := by
  induction k with
  | zero => simp
  | succ k ih =>
    rw [List.replicate_succ', ← List.append_assoc, digitsValue_snoc, ih, mul_assoc]
    rfl

theorem trimZeros_cons {d : UInt8} (hd : d ≠ 48) (ds : List UInt8) :
    ∃ t k, trimZeros (d :: ds) = d :: t ∧ ds = t ++ List.replicate k 48 := by
  induction ds using List.reverseRecOn with
  | nil => exact ⟨[], 0, List.rdropWhile_concat_neg _ [] d (by simpa using hd), rfl⟩
  | append_singleton ds c ih =>
    by_cases hc : c = 48
    · obtain ⟨t, k, htrim, rfl⟩ := ih
      refine ⟨t, k + 1, ?_, by rw [hc, List.append_assoc, List.replicate_succ']⟩
      rw [← htrim, trimZeros, ← List.cons_append, List.rdropWhile_concat_pos _ _ c (by simpa using hc), trimZeros]
    · refine ⟨ds ++ [c], 0, ?_, by simp⟩
      rw [trimZeros, ← List.cons_append, List.rdropWhile_concat_neg _ _ c (by simpa using hc)]

/-- A `%g` spelling has the parts of a decimal: all the digits, or the first one, others that do not end in
    a zero, and an exponent. -/
theorem spellG_cases (neg : Bool) {prec : ℕ} (n : ℕ) (hprec : 0 < prec) :
    spellG neg prec n = spelled neg (decimal (roundDigits prec n)) [] [] ∨
      ∃ d t k, d ≠ 48 ∧ decimal (roundDigits prec n) = d :: t ++ List.replicate k 48 ∧
        spellG neg prec n = spelled neg [d] t (decimal (t.length + k)) := by
  by_cases hle : (decimal (roundDigits prec n)).length ≤ prec
  · exact .inl (if_pos hle)
  · have hpos : 0 < roundDigits prec n := by
      by_contra hzero
      rw [Nat.eq_zero_of_not_pos hzero] at hle
      exact hle hprec
    obtain ⟨d, ds, hds, hd⟩ := decimal_eq_cons hpos
    obtain ⟨t, k, htrim, rfl⟩ := trimZeros_cons hd ds
    refine .inr ⟨d, t, k, hd, hds, (if_neg hle).trans ?_⟩
    rw [hds, htrim]
    simp

/-- A `%g` spelling is read as the number with so many digits. -/
theorem readDecimal_spellG (neg : Bool) {prec : ℕ} (n : ℕ) (hprec : 0 < prec) :
    let d := readDecimal (spellG neg prec n)
    d.neg = neg ∧ d.mantissa * 10 ^ d.up = roundDigits prec n * 10 ^ d.down := by
  have hdigits := fun c => @isDigit_of_mem_decimal (roundDigits prec n) c
  rcases spellG_cases neg n hprec with h | ⟨d, t, k, -, hds, h⟩
  · rw [h, readDecimal_spelled neg hdigits (decimal_ne_nil _) (by simp)]
    exact ⟨rfl, by rw [List.append_nil, digitsValue_decimal]; rfl⟩
  · rw [hds] at hdigits
    rw [h, readDecimal_spelled neg (fun c hc => hdigits c (by simp_all)) (by simp) (fun c hc =>
      hdigits c (by simp [hc]))]
    refine ⟨rfl, ?_⟩
    rw [digitsValue_decimal, ← digitsValue_decimal (roundDigits prec n), hds, digitsValue_append_zeros,
      List.singleton_append]
    ring

end Doubles
