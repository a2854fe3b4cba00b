import Mathlib.Algebra.GroupWithZero.Nat
import Mathlib.Data.Nat.Log
import Mathlib.Tactic.Lemma

/-!
# Rounding to a number of binary digits

A natural number that has too many digits is rounded to the nearest one with
few enough, and in the middle between two to the one with an even last digit.
Rounding never goes beyond a number with few enough digits.
-/
namespace NearestEven

/-- The nearest multiple of `2 ^ shift`; in the middle, the even multiple. -/
def roundAt (shift n : Nat) : Nat :=
  let quotient := n / 2 ^ shift
  let remainder := n % 2 ^ shift
  (if 2 * remainder > 2 ^ shift ∨ (2 * remainder = 2 ^ shift ∧ quotient % 2 = 1)
    then quotient + 1 else quotient) * 2 ^ shift

/-- The nearest number with `digits` binary digits in front of its zeros. -/
@[irreducible] def roundTo (digits n : Nat) : Nat := roundAt (n.log2 + 1 - digits) n

lemma roundAt_of_dvd {shift n : Nat} (h : 2 ^ shift ∣ n) : roundAt shift n = n := by
  have hpos : 0 < 2 ^ shift := Nat.two_pow_pos shift
  rw [roundAt, Nat.mod_eq_zero_of_dvd h, if_neg (by omega), Nat.div_mul_cancel h]

/-- A multiple that is not below the number is not below the rounded number. -/
lemma roundAt_le {shift n bound : Nat} (h : n ≤ bound) (multiple : 2 ^ shift ∣ bound) :
    roundAt shift n ≤ bound := by
  obtain ⟨k, rfl⟩ := multiple
  have hdiv := Nat.div_add_mod n (2 ^ shift)
  have hpos : 0 < 2 ^ shift := Nat.two_pow_pos shift
  rw [roundAt, Nat.mul_comm (2 ^ shift) k]
  apply Nat.mul_le_mul_right
  split
  next hup =>
    have hremainder : 0 < n % 2 ^ shift := by omega
    by_contra hlow
    have hle : 2 ^ shift * k ≤ 2 ^ shift * (n / 2 ^ shift) :=
      Nat.mul_le_mul_left _ (by omega)
    omega
  next =>
    exact Nat.le_of_mul_le_mul_left (by omega) hpos

/-- A number with few digits is left as it is. -/
lemma roundTo_small {digits n : Nat} (h : n < 2 ^ digits) : roundTo digits n = n := by
  rw [roundTo]
  by_cases hzero : n = 0
  · subst hzero
    exact roundAt_of_dvd (Nat.dvd_zero _)
  · have hlog : n.log2 < digits := (Nat.log2_lt hzero).mpr h
    rw [(by omega : n.log2 + 1 - digits = 0)]
    exact roundAt_of_dvd (Nat.one_dvd n)

lemma roundTo_two_pow {digits : Nat} (some_digit : 0 < digits) (k : Nat) :
    roundTo digits (2 ^ k) = 2 ^ k := by
  rw [roundTo, Nat.log2_two_pow]
  exact roundAt_of_dvd (Nat.pow_dvd_pow 2 (by omega))

/-- Rounding does not go beyond a bound with few enough digits, also a fractional one. -/
theorem roundTo_mul_le {digits significand n i j : Nat} (few : significand < 2 ^ digits)
    (h : n * 2 ^ i ≤ significand * 2 ^ j) : roundTo digits n * 2 ^ i ≤ significand * 2 ^ j := by
  by_cases hij : i ≤ j
  · obtain ⟨d, rfl⟩ := Nat.exists_eq_add_of_le hij
    rw [Nat.pow_add, ← Nat.mul_assoc, Nat.mul_right_comm] at h ⊢
    have hle : n ≤ significand * 2 ^ d := Nat.le_of_mul_le_mul_right h (Nat.two_pow_pos i)
    apply Nat.mul_le_mul_right
    by_cases hzero : n = 0
    · rw [roundTo_small (by omega : n < 2 ^ digits)]
      exact hle
    rw [roundTo]
    apply roundAt_le hle
    have hlog : n.log2 < digits + d := by
      rw [Nat.log2_lt hzero, Nat.pow_add]
      exact hle.trans_lt (Nat.mul_lt_mul_of_pos_right few (Nat.two_pow_pos d))
    exact Nat.dvd_trans (Nat.pow_dvd_pow 2 (by omega)) (Nat.dvd_mul_left _ _)
  · have hn : n < 2 ^ digits := by
      have hle : n * 2 ^ i ≤ significand * 2 ^ i :=
        h.trans (Nat.mul_le_mul_left _ (Nat.pow_le_pow_right (by omega) (by omega)))
      exact (Nat.le_of_mul_le_mul_right hle (Nat.two_pow_pos i)).trans_lt few
    rwa [roundTo_small hn]

end NearestEven
