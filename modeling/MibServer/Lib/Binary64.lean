import Mathlib.Data.Int.Log
import Mathlib.Algebra.Order.Round
import Mathlib.Data.Rat.Floor
import Mathlib.Tactic.Linarith

/-!
Binary64 numbers below the overflow, as rationals.

The result of an operation is the exact one rounded to a multiple of its unit in the last
place, to the even multiple at a tie. Integers below 2^53 are represented exactly, and any
other result is off by half a unit at most. A rounded number is a whole multiple of a power
of two (`nearest_eq_mul`), and such a multiple stays as it is (`nearest_mul`).
-/

namespace MibServer.Lib

/-- The nearest integer, the even one at a tie. -/
def roundEven (x : ℚ) : ℤ :=
  if Int.fract x = 1 / 2 ∧ ⌊x⌋ % 2 = 0 then ⌊x⌋ else round x

/-- The unit in the last place: 53 significant bits, and no unit below 2^-1074. -/
def ulp (x : ℚ) : ℚ := 2 ^ max (Int.log 2 |x| - 52) (-1074)

/-- The number that stands for a real result. -/
def nearest (x : ℚ) : ℚ := roundEven (x / ulp x) * ulp x

variable {x : ℚ}

theorem abs_sub_roundEven (x : ℚ) : |x - roundEven x| ≤ 1 / 2 := by
  unfold roundEven
  split
  · next htie =>
      have hfract : x - ⌊x⌋ = 1 / 2 := htie.1
      rw [hfract]
      norm_num
  · exact abs_sub_round x

theorem roundEven_intCast (n : ℤ) : roundEven n = n := by
  have hfract : ¬ (Int.fract (n : ℚ) = 1 / 2 ∧ ⌊(n : ℚ)⌋ % 2 = 0) := by
    rw [Int.fract_intCast]
    norm_num
  rw [roundEven, if_neg hfract, round_intCast]

theorem ulp_pos (x : ℚ) : 0 < ulp x := zpow_pos two_pos _

/-- A number is at most half a unit off. -/
theorem abs_sub_nearest (x : ℚ) : |x - nearest x| ≤ ulp x / 2 := by
  have hunit := ulp_pos x
  have hscale : x - nearest x = (x / ulp x - roundEven (x / ulp x)) * ulp x := by
    rw [nearest, sub_mul, div_mul_cancel₀ x (ne_of_gt hunit)]
  rw [hscale, abs_mul, abs_of_pos hunit]
  have hround := mul_le_mul_of_nonneg_right (abs_sub_roundEven (x / ulp x)) (le_of_lt hunit)
  linarith

theorem ulp_le {k : ℤ} (hx : |x| < 2 ^ k) (hk : 1 ≤ k) : ulp x ≤ 2 ^ (k - 53) := by
  have hlog : Int.log 2 |x| < k := by
    by_cases hzero : |x| = 0
    · rw [hzero, Int.log_zero_right]
      omega
    · have hpos : 0 < |x| := lt_of_le_of_ne (abs_nonneg x) (Ne.symm hzero)
      exact (Int.lt_zpow_iff_log_lt one_lt_two hpos).mp hx
  exact zpow_le_zpow_right₀ one_le_two (by omega)

/-- The rounding error of a number of known size. -/
theorem abs_sub_nearest_le {k : ℤ} (hx : |x| < 2 ^ k) (hk : 1 ≤ k) :
    |x - nearest x| ≤ 2 ^ (k - 54) := by
  have hhalf : (2 : ℚ) ^ (k - 53) = 2 ^ (k - 54) * 2 := by
    rw [← zpow_add_one₀ two_ne_zero]
    congr 1
    omega
  have hunit := ulp_le hx hk
  have hround := abs_sub_nearest x
  linarith

/-- Integers below 2^53 are exact. -/
theorem nearest_intCast {n : ℤ} (h : |n| < 2 ^ 53) : nearest n = n := by
  have hsize : |(n : ℚ)| < 2 ^ (53 : ℤ) := by exact_mod_cast h
  have hle : max (Int.log 2 |(n : ℚ)| - 52) (-1074) ≤ 0 := by
    by_cases hzero : |(n : ℚ)| = 0
    · rw [hzero, Int.log_zero_right]
      decide
    · have hpos : 0 < |(n : ℚ)| := lt_of_le_of_ne (abs_nonneg _) (Ne.symm hzero)
      have hlog := (Int.lt_zpow_iff_log_lt one_lt_two hpos).mp hsize
      omega
  obtain ⟨k, hk⟩ := Int.eq_ofNat_of_zero_le (Int.neg_nonneg.mpr hle)
  have hulp : ulp n = ((2 ^ k : ℤ) : ℚ)⁻¹ := by
    rw [ulp, show max (Int.log 2 |(n : ℚ)| - 52) (-1074) = -(k : ℤ) by omega, zpow_neg, zpow_natCast]
    norm_cast
  have hscaled : (n : ℚ) / ulp n = ((n * 2 ^ k : ℤ) : ℚ) := by
    rw [hulp, div_inv_eq_mul]
    norm_cast
  have hunit := ulp_pos n
  rw [nearest, hscaled, roundEven_intCast, ← hscaled, div_mul_cancel₀ _ (ne_of_gt hunit)]

theorem nearest_natCast {n : ℕ} (h : n < 2 ^ 53) : nearest n = n := by
  have hint := nearest_intCast (n := n) (by rw [Nat.abs_cast]; exact_mod_cast h)
  exact_mod_cast hint

/-! ### Numbers that are represented -/

theorem nearest_of_multiple {k : ℤ} (h : x = k * ulp x) : nearest x = x := by
  have hscaled : x / ulp x = k := by
    rw [div_eq_iff (ne_of_gt (ulp_pos x))]
    exact h
  rw [nearest, hscaled, roundEven_intCast]
  exact h.symm

/-- Fewer than 54 significant bits are represented. -/
theorem nearest_mul_of_lt {m e : ℤ} (hm : |m| < 2 ^ 53) (he : -1074 ≤ e) :
    nearest (m * 2 ^ e) = m * 2 ^ e := by
  by_cases hzero : m = 0
  · rw [hzero, Int.cast_zero, zero_mul]
    exact nearest_intCast (n := 0) (by norm_num)
  · have hunit : (0 : ℚ) < 2 ^ e := zpow_pos two_pos e
    have hpos : 0 < |(m : ℚ) * 2 ^ e| := by positivity
    have hsize : |(m : ℚ) * 2 ^ e| < 2 ^ (53 + e) := by
      rw [abs_mul, abs_of_pos hunit, zpow_add₀ two_ne_zero, mul_lt_mul_iff_left₀ hunit]
      exact_mod_cast hm
    have hlog := (Int.lt_zpow_iff_log_lt one_lt_two hpos).mp hsize
    -- the unit of the number divides the given one
    obtain ⟨d, hd⟩ := Int.le.dest (show max (Int.log 2 |(m : ℚ) * 2 ^ e| - 52) (-1074) ≤ e by omega)
    refine nearest_of_multiple (k := m * 2 ^ d) ?_
    calc (m : ℚ) * 2 ^ e
        = m * 2 ^ (max (Int.log 2 |(m : ℚ) * 2 ^ e| - 52) (-1074) + (d : ℤ)) := by rw [hd]
      _ = ((m * 2 ^ d : ℤ) : ℚ) * ulp (m * 2 ^ e) := by
          rw [zpow_add₀ two_ne_zero, zpow_natCast, ulp]
          push_cast
          ring

theorem nearest_mul {m e : ℤ} (hm : |m| ≤ 2 ^ 53) (he : -1074 ≤ e) : nearest (m * 2 ^ e) = m * 2 ^ e := by
  rcases lt_or_eq_of_le hm with hlt | heq
  · exact nearest_mul_of_lt hlt he
  · -- 2^53 is even, so half of it with twice the unit is the same number
    obtain ⟨half, hhalf⟩ : ∃ half, m = half * 2 ∧ |half| < 2 ^ 53 := by
      rcases abs_choice m with hpos | hneg
      · exact ⟨2 ^ 52, by rw [← hpos, heq]; norm_num, by norm_num⟩
      · exact ⟨-2 ^ 52, by omega, by norm_num⟩
    have hdouble : (m : ℚ) * 2 ^ e = half * 2 ^ (e + 1) := by
      rw [hhalf.1, zpow_add_one₀ two_ne_zero]
      push_cast
      ring
    rw [hdouble]
    exact nearest_mul_of_lt hhalf.2 (by omega)

/-- A rounded number is a multiple of a unit with at most 53 significant bits. -/
theorem nearest_eq_mul (x : ℚ) :
    ∃ m e : ℤ, |m| ≤ 2 ^ 53 ∧ -1074 ≤ e ∧ nearest x = m * 2 ^ e := by
  refine ⟨roundEven (x / ulp x), _, ?_, le_max_right _ _, rfl⟩
  have hunit := ulp_pos x
  have hscaled : |x / ulp x| < 2 ^ 53 := by
    have hlog := Int.lt_zpow_succ_log_self (b := 2) one_lt_two |x|
    have hle : (2 : ℚ) ^ (Int.log 2 |x| - 52) ≤ ulp x := zpow_le_zpow_right₀ one_le_two (le_max_left _ _)
    have hsplit : (2 : ℚ) ^ (Int.log 2 |x| + 1) = 2 ^ 53 * 2 ^ (Int.log 2 |x| - 52) := by
      rw [← zpow_natCast, ← zpow_add₀ two_ne_zero]
      congr 1
      omega
    rw [abs_div, abs_of_pos hunit, div_lt_iff₀ hunit]
    push_cast at hlog
    linarith
  have hround := abs_sub_roundEven (x / ulp x)
  have hint : |(roundEven (x / ulp x) : ℚ)| < 2 ^ 53 + 1 := by
    have htriangle := abs_sub_abs_le_abs_sub (roundEven (x / ulp x) : ℚ) (x / ulp x)
    rw [abs_sub_comm] at htriangle
    linarith
  have hlt : |roundEven (x / ulp x)| < 2 ^ 53 + 1 := by exact_mod_cast hint
  omega

theorem nearest_nearest (x : ℚ) : nearest (nearest x) = nearest x := by
  obtain ⟨m, e, hm, he, heq⟩ := nearest_eq_mul x
  rw [heq]
  exact nearest_mul hm he

end MibServer.Lib
