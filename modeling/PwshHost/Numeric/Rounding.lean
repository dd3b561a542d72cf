import Mathlib.Data.Int.Log
import Mathlib.Data.Rat.Floor
import Mathlib.Tactic.Linarith
import Mathlib.Tactic.NormNum
import Mathlib.Tactic.Ring

/-! Rounding to a number of significant bits, to the nearest and halfway to
even. The exponent has no bounds. -/
namespace Rounding

/-- The nearest integer, and the even one of two. -/
def nearestInt (x : ℚ) : ℤ :=
  if x - ⌊x⌋ < 1 / 2 then ⌊x⌋
  else if 1 / 2 < x - ⌊x⌋ then ⌊x⌋ + 1
  else ⌊x⌋ + ⌊x⌋ % 2

/-- Rounding to an integer moves a number by a half at most. -/
theorem nearestInt_error (x : ℚ) : |(nearestInt x : ℚ) - x| ≤ 1 / 2 := by
  have hLow := Int.floor_le x
  have hHigh := Int.lt_floor_add_one x
  have hParity : ((⌊x⌋ % 2 : ℤ) : ℚ) = 0 ∨ ((⌊x⌋ % 2 : ℤ) : ℚ) = 1 := by
    rcases Int.emod_two_eq_zero_or_one ⌊x⌋ with h | h <;> simp [h]
  rw [abs_le]
  unfold nearestInt
  split_ifs
  · constructor <;> linarith
  · push_cast
    constructor <;> linarith
  · push_cast
    rcases hParity with h | h
    · rw [h]
      constructor <;> linarith
    · rw [h]
      constructor <;> linarith

/-- No integer is nearer. -/
theorem nearestInt_nearest (x : ℚ) (n : ℤ) : |(nearestInt x : ℚ) - x| ≤ |(n : ℚ) - x| := by
  by_cases hSame : nearestInt x = n
  · rw [hSame]
  · have hApart : (1 : ℚ) ≤ |(nearestInt x : ℚ) - n| := by
      have hInt : 1 ≤ |nearestInt x - n| := Int.one_le_abs (sub_ne_zero.mpr hSame)
      exact_mod_cast hInt
    have hTriangle := abs_sub_le (nearestInt x : ℚ) x n
    have hError := nearestInt_error x
    rw [abs_sub_comm x] at hTriangle
    linarith

/-- What lies within a half of an even integer goes to it. -/
theorem nearestInt_eq_of_even {x : ℚ} {n : ℤ} (hEven : n % 2 = 0) :
    nearestInt x = n ↔ |x - n| ≤ 1 / 2 := by
  constructor
  · rintro rfl
    rw [abs_sub_comm]
    exact nearestInt_error x
  · intro h
    rw [abs_le] at h
    have hLow := Int.floor_le x
    have hHigh := Int.lt_floor_add_one x
    -- the floor is the integer itself or the one before it
    have hFloor : ⌊x⌋ = n ∨ ⌊x⌋ = n - 1 := by
      have hUpper : ((⌊x⌋ : ℤ) : ℚ) < ((n + 1 : ℤ) : ℚ) := by
        push_cast
        linarith
      have hLower : ((n - 2 : ℤ) : ℚ) < ((⌊x⌋ : ℤ) : ℚ) := by
        push_cast
        linarith
      rw [Int.cast_lt] at hUpper hLower
      omega
    unfold nearestInt
    rcases hFloor with hFloor | hFloor
    · rw [hFloor] at hLow hHigh ⊢
      split_ifs
      · rfl
      · exfalso
        linarith
      · omega
    · rw [hFloor] at hLow hHigh ⊢
      push_cast at hLow hHigh ⊢
      split_ifs
      · exfalso
        linarith
      · omega
      · omega

/-- A number of at most `p` significant bits. -/
def Representable (p : ℕ) (z : ℚ) : Prop := ∃ m e : ℤ, |m| < 2 ^ p ∧ z = m * 2 ^ e

/-- The distance of the numbers of `p` bits about `x`. -/
def spacing (p : ℕ) (x : ℚ) : ℚ := 2 ^ (Int.log 2 |x| + 1 - p)

def nearest (p : ℕ) (x : ℚ) : ℚ := nearestInt (x / spacing p x) * spacing p x

theorem spacing_pos (p : ℕ) (x : ℚ) : 0 < spacing p x := zpow_pos (by norm_num) _

/-- A number is less than `2 ^ p` times the spacing around it, so that its multiple
of the spacing has at most `p` bits. -/
theorem abs_lt_spacing (p : ℕ) (x : ℚ) : |x| < 2 ^ p * spacing p x := by
  have hLog : |x| < ((2 : ℕ) : ℚ) ^ (Int.log 2 |x| + 1) :=
    Int.lt_zpow_succ_log_self (by norm_num) |x|
  have hPower : (2 : ℚ) ^ p * spacing p x = 2 ^ (Int.log 2 |x| + 1) := by
    rw [spacing, ← zpow_natCast, ← zpow_add₀ (by norm_num)]
    congr 1
    ring
  rw [hPower]
  exact_mod_cast hLog

/-- A number from `2 ^ a` on is a multiple of the spacing there. -/
theorem Representable.multiple {p : ℕ} {z : ℚ} (hz : Representable p z) {a : ℤ}
    (ha : (2 : ℚ) ^ a ≤ |z|) : ∃ n : ℤ, z = n * 2 ^ (a + 1 - p) := by
  obtain ⟨m, e, hBits, rfl⟩ := hz
  have hBelow : (2 : ℚ) ^ a < 2 ^ (p + e : ℤ) := by
    have hm : |(m : ℚ)| < 2 ^ p := by exact_mod_cast hBits
    have he : (0 : ℚ) < 2 ^ e := zpow_pos (by norm_num) _
    calc (2 : ℚ) ^ a ≤ |(m : ℚ)| * 2 ^ e := by rwa [abs_mul, abs_of_pos he] at ha
      _ < 2 ^ p * 2 ^ e := mul_lt_mul_of_pos_right hm he
      _ = 2 ^ (p + e : ℤ) := by rw [zpow_add₀ (by norm_num), zpow_natCast]
  have hExponent : a < p + e := (zpow_lt_zpow_iff_right₀ (by norm_num)).mp hBelow
  refine ⟨m * 2 ^ (e - (a + 1 - p)).toNat, ?_⟩
  have hSplit : (2 : ℚ) ^ e = 2 ^ (e - (a + 1 - p)).toNat * 2 ^ (a + 1 - p) := by
    rw [← zpow_natCast, ← zpow_add₀ (by norm_num)]
    congr 1
    omega
  rw [hSplit]
  push_cast
  ring

/-- Two numbers from `2 ^ a` on that are nearer than the spacing there are one. -/
theorem Representable.eq_of_close {p : ℕ} {y z : ℚ} (hy : Representable p y)
    (hz : Representable p z) {a : ℤ} (hay : (2 : ℚ) ^ a ≤ |y|) (haz : (2 : ℚ) ^ a ≤ |z|)
    (hClose : |y - z| < 2 ^ (a + 1 - p)) : y = z := by
  obtain ⟨m, rfl⟩ := hy.multiple hay
  obtain ⟨n, rfl⟩ := hz.multiple haz
  have hGrid : (0 : ℚ) < 2 ^ (a + 1 - p) := zpow_pos (by norm_num) _
  rw [← sub_mul, abs_mul, abs_of_pos hGrid, mul_lt_iff_lt_one_left hGrid] at hClose
  have hInt : |m - n| < 1 := by exact_mod_cast hClose
  have hSame : m = n := by
    rw [Int.abs_lt_one_iff] at hInt
    omega
  rw [hSame]

/-- What is rounded to `p` bits has `p` bits. The one case to look at is a number
that is rounded up to the next power of two. -/
theorem representable_nearest {p : ℕ} (hp : 0 < p) (x : ℚ) : Representable p (nearest p x) := by
  have hBound : |nearestInt (x / spacing p x)| ≤ 2 ^ p := by
    have hQuotient : |x / spacing p x| < 2 ^ p := by
      rw [abs_div, abs_of_pos (spacing_pos p x), div_lt_iff₀ (spacing_pos p x)]
      exact abs_lt_spacing p x
    have hError := nearestInt_error (x / spacing p x)
    have hLess : |(nearestInt (x / spacing p x) : ℚ)| < ((2 ^ p + 1 : ℤ) : ℚ) := by
      rw [abs_lt] at hQuotient ⊢
      rw [abs_le] at hError
      push_cast
      constructor <;> linarith
    have hInt : |nearestInt (x / spacing p x)| < 2 ^ p + 1 := by exact_mod_cast hLess
    omega
  rcases lt_or_eq_of_le hBound with hLess | hTop
  · exact ⟨_, _, hLess, rfl⟩
  · -- the significand is a power of two, and one bit is enough
    refine ⟨(nearestInt (x / spacing p x)).sign, p + (Int.log 2 |x| + 1 - p), ?_, ?_⟩
    · have hOne : |(nearestInt (x / spacing p x)).sign| ≤ 1 := by
        rcases Int.sign_trichotomy (nearestInt (x / spacing p x)) with h | h | h <;> simp [h]
      have hPower : (1 : ℤ) < 2 ^ p := one_lt_pow₀ (by norm_num) hp.ne'
      omega
    · have hSign : nearestInt (x / spacing p x) =
          (nearestInt (x / spacing p x)).sign * 2 ^ p := by
        rw [← hTop, Int.sign_mul_abs]
      have hCast : (nearestInt (x / spacing p x) : ℚ) =
          (nearestInt (x / spacing p x)).sign * 2 ^ p := by exact_mod_cast hSign
      have hPower : (2 : ℚ) ^ (p + (Int.log 2 |x| + 1 - p)) = 2 ^ p * spacing p x := by
        rw [zpow_add₀ (by norm_num), zpow_natCast, spacing]
      rw [hPower, ← mul_assoc, ← hCast, nearest]

/-- The error of a multiple of `u` is `u` times the error of the factor. -/
theorem scaled_error {u : ℚ} (hu : 0 < u) (m x : ℚ) : |m * u - x| = |m - x / u| * u := by
  have hScaled : m * u - x = (m - x / u) * u := by
    rw [sub_mul, div_mul_cancel₀ x hu.ne']
  rw [hScaled, abs_mul, abs_of_pos hu]

theorem nearest_zero (p : ℕ) : nearest p 0 = 0 := by simp [nearest, nearestInt]

/-- No number of `p` bits is nearer. -/
theorem nearest_nearest {p : ℕ} (hp : 0 < p) (x : ℚ) {z : ℚ} (hz : Representable p z) :
    |nearest p x - x| ≤ |z - x| := by
  by_cases hx : x = 0
  · subst hx
    rw [nearest_zero, sub_zero, abs_zero]
    exact abs_nonneg _
  · have hLow : (2 : ℚ) ^ Int.log 2 |x| ≤ |x| := by
      exact_mod_cast Int.zpow_log_le_self (b := 2) (by norm_num) (abs_pos.mpr hx)
    -- some multiple of the spacing is at least as near as `z`
    obtain ⟨n, hNear⟩ : ∃ n : ℤ, |n * spacing p x - x| ≤ |z - x| := by
      rcases le_or_gt ((2 : ℚ) ^ Int.log 2 |x|) |z| with hAbove | hBelow
      · obtain ⟨n, hn⟩ := hz.multiple hAbove
        exact ⟨n, by rw [hn, spacing]⟩
      · have hEdge : (2 ^ (p - 1) : ℚ) * spacing p x = 2 ^ Int.log 2 |x| := by
          rw [spacing, ← zpow_natCast, ← zpow_add₀ (by norm_num)]
          congr 1
          omega
        rw [abs_lt] at hBelow
        rcases lt_or_gt_of_ne hx with hNegative | hPositive
        · refine ⟨-2 ^ (p - 1), ?_⟩
          push_cast
          rw [neg_mul, hEdge]
          rw [abs_of_neg hNegative] at hLow hBelow ⊢
          rw [abs_of_nonneg (by linarith), abs_of_nonneg (by linarith)]
          linarith
        · refine ⟨2 ^ (p - 1), ?_⟩
          push_cast
          rw [hEdge]
          rw [abs_of_pos hPositive] at hLow hBelow ⊢
          rw [abs_of_nonpos (by linarith), abs_of_nonpos (by linarith)]
          linarith
    have hInt := nearestInt_nearest (x / spacing p x) n
    have hu := spacing_pos p x
    rw [scaled_error hu] at hNear
    rw [nearest, scaled_error hu]
    exact (mul_le_mul_of_nonneg_right hInt hu.le).trans hNear

/-- Numbers that are representable are left alone. -/
theorem nearest_of_representable {p : ℕ} (hp : 0 < p) {z : ℚ} (hz : Representable p z) :
    nearest p z = z := by
  have hError := nearest_nearest hp z hz
  rw [sub_self, abs_zero, abs_nonpos_iff] at hError
  exact sub_eq_zero.mp hError

/-- What is nearer to a number above `2 ^ a` than half the spacing there goes to it. -/
theorem nearest_eq_of_close {p : ℕ} (hp : 0 < p) {x z : ℚ} (hz : Representable p z) {a : ℤ}
    (hAbove : (2 : ℚ) ^ a + 2 ^ (a + 1 - p) ≤ z) (hClose : 2 * |z - x| < 2 ^ (a + 1 - p)) :
    nearest p x = z := by
  have hGrid : (0 : ℚ) < 2 ^ (a + 1 - p) := zpow_pos (by norm_num) _
  have hDistance : |nearest p x - z| < 2 ^ (a + 1 - p) := by
    calc |nearest p x - z| ≤ |nearest p x - x| + |x - z| := abs_sub_le _ _ _
      _ ≤ |z - x| + |x - z| := by
          have hError := nearest_nearest hp x hz
          linarith
      _ = 2 * |z - x| := by rw [abs_sub_comm x, two_mul]
      _ < 2 ^ (a + 1 - p) := hClose
  have hNearest : (2 : ℚ) ^ a ≤ nearest p x := by
    rw [abs_lt] at hDistance
    linarith
  have hSelf : (2 : ℚ) ^ a ≤ z := by linarith
  exact (representable_nearest hp x).eq_of_close hz (hNearest.trans (le_abs_self _))
    (hSelf.trans (le_abs_self _)) hDistance

/-- Below `2 ^ a` the error is at most half the spacing there. -/
theorem nearest_error {p : ℕ} {x : ℚ} {a : ℤ} (hx : |x| < 2 ^ a) :
    |nearest p x - x| ≤ 2 ^ (a - p) / 2 := by
  by_cases hZero : x = 0
  · subst hZero
    rw [nearest_zero, sub_zero, abs_zero]
    exact (half_pos (zpow_pos (by norm_num) _)).le
  · have hLog : Int.log 2 |x| < a :=
      (Int.lt_zpow_iff_log_lt (by norm_num) (abs_pos.mpr hZero)).mp (by exact_mod_cast hx)
    have hSpacing : spacing p x ≤ 2 ^ (a - p) :=
      zpow_le_zpow_right₀ (by norm_num) (by omega)
    have hu := spacing_pos p x
    calc |nearest p x - x| = |nearestInt (x / spacing p x) - x / spacing p x| * spacing p x := by
          rw [nearest, scaled_error hu]
      _ ≤ 1 / 2 * spacing p x := mul_le_mul_of_nonneg_right (nearestInt_error _) hu.le
      _ ≤ 2 ^ (a - p) / 2 := by linarith

/-- Rounding does not make a number negative. -/
theorem nearest_nonneg {p : ℕ} {x : ℚ} (hx : 0 ≤ x) : 0 ≤ nearest p x := by
  have hQuotient : 0 ≤ x / spacing p x := div_nonneg hx (spacing_pos p x).le
  have hInt : 0 ≤ nearestInt (x / spacing p x) := by
    have hFloor : 0 ≤ ⌊x / spacing p x⌋ := Int.floor_nonneg.mpr hQuotient
    unfold nearestInt
    split_ifs <;> omega
  exact mul_nonneg (by exact_mod_cast hInt) (spacing_pos p x).le

/-- An integer that is a small multiple of a power of two. -/
theorem representable_of_dvd {p j : ℕ} {n : ℕ} (hDvd : 2 ^ j ∣ n) (hn : n < 2 ^ (p + j)) :
    Representable p n := by
  obtain ⟨m, rfl⟩ := hDvd
  refine ⟨m, j, ?_, ?_⟩
  · rw [Nat.abs_cast]
    rw [pow_add, mul_comm] at hn
    exact_mod_cast Nat.lt_of_mul_lt_mul_right hn
  · push_cast
    rw [zpow_natCast, mul_comm]

end Rounding
