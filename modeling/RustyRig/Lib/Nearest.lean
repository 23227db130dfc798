/-
The nearest fraction of a fixed denominator.

`nearest n d m` is the numerator, over `m`, of the fraction nearest to `n / d`: the
quotient is scaled, half the divisor is added, and the division truncates.
-/
import Mathlib.Algebra.Order.Field.Basic
import Mathlib.Algebra.Order.Field.Rat
import Mathlib.Data.Rat.Cast.Order
import Mathlib.Tactic.Ring
import Mathlib.Tactic.Linarith
import Mathlib.Tactic.FieldSimp
import Mathlib.Tactic.Positivity

namespace RustyRig.Lib

variable {n d m : Nat}

def nearest (n d m : Nat) : Nat := (n * m + d / 2) / d

/-- Dividing first and rounding the remainder alone comes to the same. -/
theorem nearest_split (hd : 0 < d) :
    nearest n d m = n / d * m + (n % d * m + d / 2) / d := by
  have hsplit : n * m + d / 2 = n % d * m + d / 2 + d * (n / d * m) := by
    conv_lhs => rw [← Nat.div_add_mod n d]
    ring
  rw [nearest, hsplit, Nat.add_mul_div_left _ _ hd, Nat.add_comm]

/-- The rounded remainder is at most one. -/
theorem rounded_le (hd : 0 < d) (n : Nat) : (n % d * m + d / 2) / d ≤ m := by
  have hmod : n % d + 1 ≤ d := Nat.mod_lt n hd
  rw [← Nat.lt_succ_iff, Nat.div_lt_iff_lt_mul hd]
  have hscaled : (n % d + 1) * m ≤ d * m := Nat.mul_le_mul_right _ hmod
  have hhalf : d / 2 < d := Nat.div_lt_self hd (by decide)
  calc n % d * m + d / 2
      ≤ d * m + d / 2 := by
        have hle : n % d * m ≤ d * m := Nat.mul_le_mul_right _ (by omega)
        omega
    _ < d * m + d := by omega
    _ = (m + 1) * d := by ring

/-- Rounding adds at most one to the quotient. -/
theorem nearest_div_le (hd : 0 < d) (n : Nat) : nearest n d m / m ≤ n / d + 1 := by
  have hrounded := rounded_le (m := m) hd n
  rw [nearest_split hd]
  rcases Nat.eq_zero_or_pos m with hzero | hpos
  · rw [hzero, Nat.div_zero]
    exact Nat.zero_le _
  · rw [Nat.add_comm, Nat.add_mul_div_right _ _ hpos, Nat.add_comm]
    have hone : (n % d * m + d / 2) / d / m ≤ 1 := by
      rw [← Nat.lt_succ_iff, Nat.div_lt_iff_lt_mul hpos]
      omega
    omega

/-- Twice the error of the rounded numerator is at most the divisor. -/
theorem nearest_mul (hd : 0 < d) :
    2 * (nearest n d m * d) ≤ 2 * (n * m) + d ∧
      2 * (n * m) ≤ 2 * (nearest n d m * d) + d := by
  have hdivision := Nat.div_add_mod (n * m + d / 2) d
  have hmod : (n * m + d / 2) % d < d := Nat.mod_lt _ hd
  have hcomm : d * ((n * m + d / 2) / d) = nearest n d m * d := Nat.mul_comm _ _
  rw [hcomm] at hdivision
  constructor
  · omega
  · omega

/-- The fraction is off by at most half a unit of its denominator. -/
theorem abs_nearest_sub_le (hd : 0 < d) (hscale : 0 < m) :
    |(nearest n d m : ℚ) / m - (n : ℚ) / d| ≤ 1 / (2 * m) := by
  obtain ⟨hhigh, hlow⟩ := nearest_mul (n := n) (m := m) hd
  have hd' : (0 : ℚ) < d := by exact_mod_cast hd
  have hscale' : (0 : ℚ) < m := by exact_mod_cast hscale
  have hhigh' : 2 * ((nearest n d m : ℚ) * d) ≤ 2 * ((n : ℚ) * m) + d := by exact_mod_cast hhigh
  have hlow' : 2 * ((n : ℚ) * m) ≤ 2 * ((nearest n d m : ℚ) * d) + d := by exact_mod_cast hlow
  have hquotient : (nearest n d m : ℚ) / m - (n : ℚ) / d =
      ((nearest n d m : ℚ) * d - n * m) / (m * d) := by
    field_simp
  have hbound : (1 : ℚ) / (2 * m) = d / 2 / (m * d) := by
    field_simp
  rw [hquotient, hbound, abs_div, abs_of_pos (mul_pos hscale' hd')]
  apply div_le_div_of_nonneg_right _ (mul_pos hscale' hd').le
  rw [abs_le]
  constructor
  · linarith
  · linarith

end RustyRig.Lib
