import Mathlib.Tactic.Linarith
import OneTimeSig.Params

/-!
# What the test of the parameters secures

The test may look at the size of a proof, which fits a word for any parameters
(`Params.proofSize_lt`). Parameters that pass have at least one digit and trees with `2 ^ depth`
leaves, where the depth is between 1 and 8 (`Params.check_eq_ok`), and the size of their signatures
does not wrap (`signatureSize_toNat`).
-/

namespace OneTimeSig

/-- A power of two below `2 ^ width` has as many zeros below its one bit as its exponent says. -/
theorem trailingZeros_two_pow {width k : Nat} (h : k < width) :
    trailingZeros width (2 ^ k) = k := by
  induction k generalizing width with
  | zero =>
    obtain ⟨width, rfl⟩ : ∃ w, width = w + 1 := ⟨width - 1, by omega⟩
    rfl
  | succ k ih =>
    obtain ⟨width, rfl⟩ : ∃ w, width = w + 1 := ⟨width - 1, by omega⟩
    have heven : 2 ^ (k + 1) % 2 ≠ 1 := by
      rw [pow_succ]
      omega
    have hhalf : 2 ^ (k + 1) / 2 = 2 ^ k := by
      rw [pow_succ]
      omega
    rw [trailingZeros, if_neg heven, hhalf, ih (by omega)]

/-- A number has no more zeros below its lowest one bit than it has bits. -/
theorem trailingZeros_le (width n : Nat) : trailingZeros width n ≤ width := by
  induction width generalizing n with
  | zero => exact Nat.le_refl 0
  | succ width ih =>
    rw [trailingZeros]
    split_ifs
    · exact Nat.zero_le _
    · exact Nat.succ_le_succ (ih _)

/-- The test finds the powers of two. -/
theorem isPowerOfTwo_iff {n : Nat} : isPowerOfTwo n = true ↔ ∃ k, n = 2 ^ k := by
  rw [isPowerOfTwo, beq_iff_eq, Nat.one_shiftLeft]
  constructor
  · intro h
    exact ⟨n.log2, h⟩
  · rintro ⟨k, rfl⟩
    rw [Nat.log2_two_pow]

/-- The test of the shape finds the numbers that are no power of two above one. -/
theorem not_isPowerOfTwo_or_lt_iff {n : Nat} :
    (!isPowerOfTwo n || decide (n < 2)) = true ↔ (∀ k, n ≠ 2 ^ k) ∨ n < 2 := by
  rw [Bool.or_eq_true, decide_eq_true_iff, Bool.not_eq_true', ← Bool.not_eq_true, isPowerOfTwo_iff,
    not_exists]

/-- It lets the powers of two above one through. -/
theorem isPowerOfTwo_and_le_iff {n : Nat} :
    ¬ (!isPowerOfTwo n || decide (n < 2)) = true ↔ (∃ k, n = 2 ^ k) ∧ 2 ≤ n := by
  rw [not_isPowerOfTwo_or_lt_iff, not_or, not_forall_not, not_lt]

/-- The powers of two from 2 to 256 are those with an exponent from 1 to 8. -/
theorem two_pow_mem_iff {k : Nat} : 2 ≤ 2 ^ k ∧ 2 ^ k ≤ 256 ↔ 1 ≤ k ∧ k ≤ 8 := by
  have hlow : 2 ≤ 2 ^ k ↔ 1 ≤ k := Nat.pow_le_pow_iff_right (n := 1) Nat.one_lt_two
  have hhigh : 2 ^ k ≤ 256 ↔ k ≤ 8 := Nat.pow_le_pow_iff_right (m := 8) Nat.one_lt_two
  rw [hlow, hhigh]

/-- The size of a proof fits a machine word whatever the parameters are, so that the test may look
at it. -/
theorem Params.proofSize_lt (p : Params) : p.proofSize < 2 ^ 64 := by
  have hdepth : p.depth ≤ 64 := trailingZeros_le 64 _
  have hproof : p.proofSize = p.depth * 20 + 17 := rfl
  omega

/-- There is a digit when the word of their number is not zero. -/
theorem Params.digits_ne_zero_iff {p : Params} : p.digits ≠ 0 ↔ 1 ≤ p.digits.toNat := by
  rw [Nat.one_le_iff_ne_zero]
  exact not_congr UInt64.toNat_inj.symm

/-- What the test of the parameters finds out, for parameters that pass it. -/
theorem Params.check_eq_ok {p : Params} (h : p.check = .ok ()) :
    0 < p.digits.toNat ∧ 0 < p.depth ∧ p.depth ≤ 8 ∧ p.leafCount.toNat = 2 ^ p.depth ∧
      p.digits.toNat * p.proofSize < 2 ^ 64 := by
  unfold check at h
  dsimp only at h
  split_ifs at h with hdigits hshape hlarge hsize
  obtain ⟨⟨k, hpow⟩, htwo⟩ := isPowerOfTwo_and_le_iff.mp hshape
  -- The number of leaves is between 2 and 256, which leaves the exponents from 1 to 8.
  obtain ⟨hlow, hhigh⟩ : 1 ≤ k ∧ k ≤ 8 := two_pow_mem_iff.mp (hpow ▸ ⟨htwo, not_lt.mp hlarge⟩)
  have hdepth : p.depth = k := by
    rw [depth, hpow]
    exact trailingZeros_two_pow (by omega)
  rw [hdepth]
  exact ⟨digits_ne_zero_iff.mp hdigits, hlow, hhigh, hpow, not_le.mp hsize⟩

namespace Scheme

variable (s : Scheme)

theorem digits_pos : 0 < s.digits := (Params.check_eq_ok s.checked).1

theorem depth_pos : 0 < s.depth := (Params.check_eq_ok s.checked).2.1

theorem depth_le : s.depth ≤ 8 := (Params.check_eq_ok s.checked).2.2.1

theorem leafCount_eq : s.leafCount = 2 ^ s.depth := (Params.check_eq_ok s.checked).2.2.2.1

/-- The parameters of a scheme make that scheme. -/
theorem ofParams_params : ofParams s.params = .ok s := by
  unfold ofParams
  split
  next => rfl
  next e he =>
    rw [s.checked] at he
    nomatch he

/-- A scheme is known by its parameters. -/
theorem eq_of_params {s s' : Scheme} (h : s.params = s'.params) : s = s' := by
  cases s
  cases s'
  cases h
  rfl

/-- The parameters are known by the two numbers. -/
theorem params_eq_of_toNat {s s' : Scheme} (hdigits : s.digits = s'.digits)
    (hleafCount : s.leafCount = s'.leafCount) : s.params = s'.params :=
  calc s.params
    _ = ⟨s.params.digits, s.params.leafCount⟩ := rfl
    _ = ⟨s'.params.digits, s'.params.leafCount⟩ := by
      rw [UInt64.toNat_inj.mp hdigits, UInt64.toNat_inj.mp hleafCount]
    _ = s'.params := rfl

/-- The size of a signature is the product of its parts, as the product does not wrap. -/
theorem signatureSize_toNat :
    s.params.signatureSize.toNat = s.digits * (s.depth * 20 + 17) := by
  have hsize := (Params.check_eq_ok s.checked).2.2.2.2
  have hproof : s.params.proofSize = s.depth * 20 + 17 := rfl
  rw [Params.signatureSize, UInt64.toNat_mul, UInt64.toNat_ofNat_of_lt' s.params.proofSize_lt,
    ← hproof]
  exact Nat.mod_eq_of_lt hsize

/-- The smallest scheme: one digit, which is 0 or 1. -/
def smallest : Scheme := ⟨⟨1, 2⟩, rfl⟩

end Scheme

end OneTimeSig
