import PwshHost.Numeric.RelativeError
import PwshHost.Time.Spans

/-! How accurate durations are. At most eleven roundings one after another lie
between the text of a component and the sum of all. -/
namespace PwshHost

open Xml (Text)
open Rust
open Rounding (Representable Within growth nearestInt)

/-- The seconds of a text, with months of 30 days and years of twelve such months. -/
def DurationText.nominal (t : DurationText) : ℚ :=
  numberOf t.years * 31104000 + numberOf t.months * 2592000 + numberOf t.days * 86400 +
    numberOf t.hours * 3600 + numberOf t.minutes * 60 + secondsOf t.seconds

/-- Each factor adds a rounding. -/
theorem within_product {n : ℕ} {x y : ℚ} (h : Within 24 n x y) (factors : List ℕ) :
    Within 24 (n + factors.length) (product x factors) (y * (factors.prod : ℕ)) := by
  induction factors generalizing n x y with
  | nil => simpa [product] using h
  | cons factor factors ih =>
      have hFactor : Within 24 (n + 1) (f32 (x * factor)) (y * factor) :=
        (h.mul (Nat.cast_nonneg factor)).nearest
      have hRest := ih hFactor
      rw [List.length_cons, List.prod_cons, Nat.cast_mul, ← mul_assoc, Nat.add_comm factors.length,
        ← Nat.add_assoc]
      exact hRest

/-- A component in seconds. -/
theorem within_component (o : Option Numeral) (factors : List ℕ) :
    Within 24 (1 + factors.length) (product (f32 (numberOf o)) factors)
      (numberOf o * (factors.prod : ℕ)) :=
  within_product (Within.refl 24 0 (Nat.cast_nonneg _)).nearest factors

/-- Eleven roundings lie on the longest way, the one of the years: one to hold them,
five factors and five sums. -/
theorem within_seconds (t : DurationText) : Within 24 11 t.binary.seconds t.nominal := by
  have hYears := within_component t.years [60, 60, 24, 30, 12]
  have hMonths := within_component t.months [60, 60, 24, 30]
  have hDays := within_component t.days [60, 60, 24]
  have hHours := within_component t.hours [60, 60]
  have hMinutes := within_component t.minutes [60]
  have hSeconds : Within 24 1 (f32 (secondsOf t.seconds)) (secondsOf t.seconds) :=
    (Within.refl 24 0 (secondsOf_nonneg t.seconds)).nearest
  have hMonth := (hYears.add (hMonths.mono (by decide))).nearest
  have hDay := (hMonth.add (hDays.mono (by decide))).nearest
  have hHour := (hDay.add (hHours.mono (by decide))).nearest
  have hMinute := (hHour.add (hMinutes.mono (by decide))).nearest
  have hSecond := (hMinute.add (hSeconds.mono (by decide))).nearest
  have hNominal : t.nominal = numberOf t.years * (([60, 60, 24, 30, 12].prod : ℕ) : ℚ) +
      numberOf t.months * (([60, 60, 24, 30].prod : ℕ) : ℚ) +
      numberOf t.days * (([60, 60, 24].prod : ℕ) : ℚ) +
      numberOf t.hours * (([60, 60].prod : ℕ) : ℚ) +
      numberOf t.minutes * (([60].prod : ℕ) : ℚ) + secondsOf t.seconds := by
    norm_num [DurationText.nominal]
  rw [hNominal]
  exact hSecond

/-- Eleven relative errors of `2 ^ -24` stay below `2 ^ -20`. -/
theorem growth_eleven : growth 24 11 ≤ 1 / 2 ^ 20 := by
  norm_num [growth, Rounding.unitError]

/-- The sum in binary32 is accurate to less than a millionth. -/
theorem seconds_error (t : DurationText) : |t.binary.seconds - t.nominal| ≤ t.nominal / 2 ^ 20 := by
  have h := within_seconds t
  calc |t.binary.seconds - t.nominal| ≤ growth 24 11 * t.nominal := h.error
    _ ≤ 1 / 2 ^ 20 * t.nominal := mul_le_mul_of_nonneg_right growth_eleven h.nonneg
    _ = t.nominal / 2 ^ 20 := by ring

/-- From `2 ^ 64` seconds on there is no duration. -/
theorem ofNanoseconds_eq_none {n : Int} (h : 2 ^ 64 * 1000000000 ≤ n) : ofNanoseconds n = none := by
  have hSecs : ¬ (0 ≤ n / 1000000000 ∧ n / 1000000000 ≤ 18446744073709551615) := by omega
  rw [ofNanoseconds, Bounded.ofInt, dif_neg hSecs]
  rfl

/-- A number of 24 bits below `2 ^ 64` lies a unit of its last place below it,
and rounding to nanoseconds does not make up for that. -/
theorem le_of_lt_overflow {secs : ℚ} (hBits : Representable 24 secs) (h : secs < 2 ^ 64) :
    secs ≤ 2 ^ 64 - 1 := by
  by_cases hLarge : secs < 2 ^ 63
  · linarith
  · have hAbs : (2 : ℚ) ^ (63 : ℤ) ≤ |secs| := le_trans (not_lt.mp hLarge) (le_abs_self secs)
    obtain ⟨n, rfl⟩ := hBits.multiple hAbs
    have hGrid : (2 : ℚ) ^ ((63 : ℤ) + 1 - (24 : ℕ)) = 2 ^ 40 := by norm_num
    rw [hGrid] at h ⊢
    have hCount : n < 2 ^ 24 := by
      have hBound : (n : ℚ) < ((2 ^ 24 : ℤ) : ℚ) := by
        push_cast
        linarith
      exact Int.cast_lt.mp hBound
    have hNext : (n : ℚ) ≤ 2 ^ 24 - 1 := by exact_mod_cast Int.le_sub_one_of_lt hCount
    linarith

/-- `Duration::from_secs_f32` panics from `2 ^ 64` seconds on. -/
theorem isSome_fromSecsF32 {secs : ℚ} (hPositive : 0 ≤ secs) (hBits : Representable 24 secs) :
    (fromSecsF32 secs).isSome ↔ secs < 2 ^ 64 := by
  have hNearest := Rounding.nearestInt_error (secs * 1000000000)
  rw [abs_le] at hNearest
  rw [fromSecsF32_of_nonneg hPositive]
  constructor
  · intro hSome
    by_contra hLarge
    have hBound : ((2 ^ 64 * 1000000000 - 1 : ℤ) : ℚ) < nearestInt (secs * 1000000000) := by
      push_cast
      linarith
    have hInt := Int.cast_lt.mp hBound
    rw [ofNanoseconds_eq_none (by omega)] at hSome
    cases hSome
  · intro hSmall
    have hLast := le_of_lt_overflow hBits hSmall
    have hLow : ((-1 : ℤ) : ℚ) < nearestInt (secs * 1000000000) := by
      push_cast
      linarith
    have hHigh : (nearestInt (secs * 1000000000) : ℚ) < ((2 ^ 64 * 1000000000 : ℤ) : ℚ) := by
      push_cast
      linarith
    have hLowInt := Int.cast_lt.mp hLow
    exact isSome_ofNanoseconds (by omega) (Int.cast_lt.mp hHigh)

/-- What overflows is the sum in binary32. -/
theorem isSome_toStd (t : DurationText) : t.binary.toStd.isSome ↔ t.binary.seconds < 2 ^ 64 :=
  isSome_fromSecsF32 (seconds_nonneg t) (Rounding.representable_nearest (by decide) _)

section Parse

variable {ε : Type} {D : DurationCrate} (hD : D.Binary32) {t : DurationText}
  (hSign : t.negative = false)

include hD hSign in
/-- A text without a sign is decoded to its sum of seconds in binary32. -/
theorem parse_eq_ok {d : Duration} (h : fromSecsF32 t.binary.seconds = some d) :
    (parseIso8601Duration D t.text : Except (Panic ε) (Option Duration)) = .ok (some d) := by
  obtain ⟨x, hParse, hStd⟩ := hD.held t
  have hPlain : t.text = t.unsigned := by simp [DurationText.text, hSign]
  rw [BinaryDuration.toStd, h] at hStd
  simp only [parseIso8601Duration, hPlain, hParse, hStd]

include hD hSign in
/-- Where that sum is no duration, the conversion panics. -/
theorem parse_eq_error (h : fromSecsF32 t.binary.seconds = none) :
    (parseIso8601Duration D t.text : Except (Panic ε) (Option Duration)) = .error .overflow := by
  obtain ⟨x, hParse, hStd⟩ := hD.held t
  have hPlain : t.text = t.unsigned := by simp [DurationText.text, hSign]
  rw [BinaryDuration.toStd, h] at hStd
  simp only [parseIso8601Duration, hPlain, hParse, hStd]

include hD hSign in
/-- A duration of up to almost `2 ^ 64` seconds is decoded to within a millionth
of itself, and half a nanosecond. One of a little more makes the parser panic. -/
theorem duration_accurate :
    (t.nominal ≤ 2 ^ 64 - 2 ^ 45 →
      ∃ d, (parseIso8601Duration D t.text : Except (Panic ε) (Option Duration)) = .ok (some d) ∧
        |nanoseconds d - t.nominal * 1000000000| ≤ t.nominal * 1000000000 / 2 ^ 20 + 1 / 2) ∧
    (2 ^ 64 + 2 ^ 45 ≤ t.nominal →
      (parseIso8601Duration D t.text : Except (Panic ε) (Option Duration)) =
        .error .overflow) := by
  have hError := seconds_error t
  rw [abs_le] at hError
  constructor
  · intro hSmall
    obtain ⟨d, hDuration⟩ := Option.isSome_iff_exists.mp ((isSome_toStd t).mpr (by linarith))
    refine ⟨d, parse_eq_ok hD hSign hDuration, ?_⟩
    have hNearest := Rounding.nearestInt_error (t.binary.seconds * 1000000000)
    have hSum : ofNanoseconds (nearestInt (t.binary.seconds * 1000000000)) = some d := by
      rw [← fromSecsF32_of_nonneg (seconds_nonneg t)]
      exact hDuration
    rw [abs_le] at hNearest
    rw [ofNanoseconds_eq_some hSum, abs_le]
    constructor <;> linarith
  · intro hLarge
    apply parse_eq_error hD hSign
    rw [← Option.not_isSome_iff_eq_none]
    intro hSome
    have hSmall := (isSome_toStd t).mp hSome
    linarith

end Parse

/-- `P600000000000Y`. -/
def manyYears : DurationText where
  negative := false
  years := some (numeral 6 (List.replicate 11 0))
  months := none
  days := none
  hours := none
  minutes := none
  seconds := none
  some_component := .inl rfl

/-- A span that binary32 does not hold, and one that is too long. -/
theorem duration_accurate_days :
    (∃ d, (parseIso8601Duration binaryDuration (manyDays 7).text :
        Except (Panic Empty) (Option Duration)) = .ok (some d) ∧
      |nanoseconds d - (manyDays 7).nominal * 1000000000| ≤
        (manyDays 7).nominal * 1000000000 / 2 ^ 20 + 1 / 2) ∧
    (parseIso8601Duration binaryDuration manyYears.text :
      Except (Panic Empty) (Option Duration)) = .error .overflow :=
  ⟨(duration_accurate binaryDuration_binary32 rfl).1 (by decide +kernel),
    (duration_accurate binaryDuration_binary32 rfl).2 (by decide +kernel)⟩

end PwshHost
