import PwshHost.Numeric.Rounding
import Mathlib.Tactic.Positivity
import Mathlib.Tactic.FieldSimp

/-! How far a chain of roundings can go from what it computes. All numbers are
nonnegative, so the relative errors of a sum are those of its parts. -/
namespace Rounding

variable {p : ℕ}

/-- The relative error of one rounding. -/
def unitError (p : ℕ) : ℚ := 1 / 2 ^ p

/-- The error of one rounding is never nothing, whatever the precision. -/
theorem unitError_pos (p : ℕ) : 0 < unitError p := by
  unfold unitError
  positivity

/-- The error of rounding to the nearest number of `p` bits, in relation to the
number that is rounded. -/
theorem nearest_relative (p : ℕ) (x : ℚ) : |nearest p x - x| ≤ unitError p * |x| := by
  by_cases hZero : x = 0
  · rw [hZero, nearest_zero, sub_zero, abs_zero, mul_zero]
  · have hBelow : (2 : ℚ) ^ Int.log 2 |x| ≤ |x| := by
      exact_mod_cast Int.zpow_log_le_self (b := 2) (by norm_num) (abs_pos.mpr hZero)
    have hSpacing : spacing p x = 2 * unitError p * 2 ^ Int.log 2 |x| := by
      rw [spacing, unitError, zpow_sub₀ (by norm_num), zpow_add₀ (by norm_num), zpow_one,
        zpow_natCast]
      ring
    have hu := spacing_pos p x
    calc |nearest p x - x| = |nearestInt (x / spacing p x) - x / spacing p x| * spacing p x := by
          rw [nearest, scaled_error hu]
      _ ≤ 1 / 2 * spacing p x := mul_le_mul_of_nonneg_right (nearestInt_error _) hu.le
      _ = unitError p * 2 ^ Int.log 2 |x| := by rw [hSpacing]; ring
      _ ≤ unitError p * |x| := mul_le_mul_of_nonneg_left hBelow (unitError_pos p).le

/-- The relative error that `n` roundings one after another can reach. -/
def growth (p n : ℕ) : ℚ := (1 + unitError p) ^ n - 1

/-- More roundings never have a smaller bound. -/
theorem growth_mono {m n : ℕ} (h : m ≤ n) : growth p m ≤ growth p n := by
  have hOne : 1 ≤ 1 + unitError p := by linarith [unitError_pos p]
  exact sub_le_sub_right (pow_le_pow_right₀ hOne h) 1

/-- The bound is one on a distance. -/
theorem growth_nonneg (p n : ℕ) : 0 ≤ growth p n := by
  have hZero : growth p 0 = 0 := by simp [growth]
  exact hZero ▸ growth_mono (Nat.zero_le n)

/-- One more rounding adds its own error, on what has been computed so far. -/
theorem growth_succ (p n : ℕ) :
    growth p (n + 1) = growth p n + unitError p * (1 + growth p n) := by
  unfold growth
  ring

/-- What at most `n` roundings one after another make of `y`. -/
structure Within (p n : ℕ) (x y : ℚ) : Prop where
  nonneg : 0 ≤ y
  error : |x - y| ≤ growth p n * y

namespace Within

variable {n : ℕ} {x y : ℚ}

/-- A number that was not rounded at all is within any number of roundings of
itself. -/
theorem refl (p n : ℕ) {y : ℚ} (h : 0 ≤ y) : Within p n y y := by
  refine ⟨h, ?_⟩
  rw [sub_self, abs_zero]
  exact mul_nonneg (growth_nonneg p n) h

/-- The number of roundings is a bound, so that it may be counted generously. -/
theorem mono (h : Within p n x y) {m : ℕ} (hMore : n ≤ m) : Within p m x y :=
  ⟨h.nonneg, h.error.trans (mul_le_mul_of_nonneg_right (growth_mono hMore) h.nonneg)⟩

/-- A computed value is at most the exact one, grown by the error. -/
theorem abs_le (h : Within p n x y) : |x| ≤ (1 + growth p n) * y := by
  have hTriangle : |x| ≤ |x - y| + |y| := by simpa using abs_add_le (x - y) y
  rw [abs_of_nonneg h.nonneg] at hTriangle
  linarith [h.error]

/-- Rounding counts one more. -/
theorem nearest (h : Within p n x y) : Within p (n + 1) (nearest p x) y := by
  refine ⟨h.nonneg, ?_⟩
  have hRound : |Rounding.nearest p x - x| ≤ unitError p * ((1 + growth p n) * y) :=
    (nearest_relative p x).trans (mul_le_mul_of_nonneg_left h.abs_le (unitError_pos p).le)
  calc |Rounding.nearest p x - y| ≤ |Rounding.nearest p x - x| + |x - y| := abs_sub_le _ _ _
    _ ≤ unitError p * ((1 + growth p n) * y) + growth p n * y := add_le_add hRound h.error
    _ = growth p (n + 1) * y := by rw [growth_succ]; ring

/-- A sum is as accurate as the less accurate of two terms, since none of them is
negative. -/
theorem add {x' y' : ℚ} (h : Within p n x y) (h' : Within p n x' y') :
    Within p n (x + x') (y + y') := by
  refine ⟨add_nonneg h.nonneg h'.nonneg, ?_⟩
  have hSplit : x + x' - (y + y') = (x - y) + (x' - y') := by ring
  calc |x + x' - (y + y')| ≤ |x - y| + |x' - y'| := by rw [hSplit]; exact abs_add_le _ _
    _ ≤ growth p n * y + growth p n * y' := add_le_add h.error h'.error
    _ = growth p n * (y + y') := by ring

/-- A factor that is exact scales the value and its error alike. -/
theorem mul (h : Within p n x y) {c : ℚ} (hc : 0 ≤ c) : Within p n (x * c) (y * c) := by
  refine ⟨mul_nonneg h.nonneg hc, ?_⟩
  calc |x * c - y * c| = |x - y| * c := by rw [← sub_mul, abs_mul, abs_of_nonneg hc]
    _ ≤ growth p n * y * c := mul_le_mul_of_nonneg_right h.error hc
    _ = growth p n * (y * c) := by ring

end Within

end Rounding
