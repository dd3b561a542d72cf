import PwshHost.Time.Durations

/-! Time spans by way of binary32. The components of a duration are added up in
seconds with 24 significant bits, so a span comes back as it was only if that
sum is within half a nanosecond of it. -/
namespace PwshHost

open Xml (Text)
open Rust
open Rounding (Representable)

/-- The days, hours and minutes of a text, in seconds. -/
def DurationText.wholeMinutes (t : DurationText) : ℕ :=
  numberOf t.days * 86400 + numberOf t.hours * 3600 + numberOf t.minutes * 60

/-- A text of `k` ticks. -/
structure DurationText.Denotes (t : DurationText) (k : ℕ) : Prop where
  negative : t.negative = false
  years : t.years = none
  months : t.months = none
  seconds : secondsOf t.seconds < 60
  ticks : (k : ℚ) / 10000000 = t.wholeMinutes + secondsOf t.seconds

/-- What is read of a text is exactly `k` ticks. -/
def Decodes (ε : Type) (D : DurationCrate) (t : DurationText) (k : ℕ) : Prop :=
  ∃ d, (parseIso8601Duration D t.text : Except (Panic ε) (Option Duration)) = .ok (some d) ∧
    nanoseconds d = 100 * k

/-- What the days, hours and minutes are off by, in seconds, when each of them and each
product and sum on the way from them to their seconds is rounded to 24 bits. -/
def drift (days hours minutes : ℕ) : ℚ :=
  f32 (f32 (f32 (24 * f32 (60 * f32 (60 * f32 days))) + f32 (60 * f32 (60 * f32 hours))) +
    f32 (60 * f32 minutes)) - (86400 * days + 3600 * hours + 60 * minutes)

def DurationText.drift (t : DurationText) : ℚ :=
  PwshHost.drift (numberOf t.days) (numberOf t.hours) (numberOf t.minutes)

/-- Some number in binary32 is within half a nanosecond of `k` ticks, and the
drift does not move it. -/
def DurationText.Held (t : DurationText) (k : ℕ) : Prop :=
  ∃ z, Representable 24 z ∧ |z - k / 10000000| ≤ 1 / 2000000000 ∧ f32 (z + t.drift) = z

/-- Multiples of four below `2 ^ 26` are held exactly, as days and hours are in
seconds. -/
theorem f32_natCast {n : ℕ} (hDvd : 4 ∣ n) (hn : n < 2 ^ 26) : f32 n = n :=
  Rounding.nearest_of_representable (by norm_num) (Rounding.representable_of_dvd (j := 2) hDvd hn)

/-- So are all numbers below `2 ^ 24`. -/
theorem f32_small {n : ℕ} (hn : n < 2 ^ 24) : f32 n = n :=
  Rounding.nearest_of_representable (by norm_num)
    (Rounding.representable_of_dvd (j := 0) (one_dvd n) hn)

theorem product_zero (factors : List ℕ) : product 0 factors = 0 := by
  induction factors with
  | nil => rfl
  | cons factor factors ih =>
      change product (f32 (0 * factor)) factors = 0
      rw [zero_mul, f32, Rounding.nearest_zero, ih]

/-- Multiplying up to seconds keeps the sign. -/
theorem product_nonneg {component : ℚ} (h : 0 ≤ component) (factors : List ℕ) :
    0 ≤ product component factors := by
  induction factors generalizing component with
  | nil => exact h
  | cons factor factors ih =>
      exact ih (Rounding.nearest_nonneg (mul_nonneg h (Nat.cast_nonneg factor)))

/-- Nothing is lost in products that stay small. -/
theorem product_natCast {factors : List ℕ} (hFactors : ∀ f ∈ factors, 4 ∣ f ∧ 0 < f) {n c : ℕ}
    (hProd : factors.prod = c) (hn : n * c < 2 ^ 26) :
    product n factors = (n * c : ℕ) := by
  induction factors generalizing n c with
  | nil =>
      rw [← hProd]
      simp [product]
  | cons factor factors ih =>
      have hRest : ∀ f ∈ factors, 4 ∣ f ∧ 0 < f := fun f hf =>
        hFactors f (List.mem_cons_of_mem _ hf)
      have hPositive : 0 < factors.prod :=
        List.prod_pos_iff_forall_pos_nat.mpr fun f hf => (hRest f hf).2
      rw [List.prod_cons] at hProd
      rw [← hProd, ← mul_assoc] at hn ⊢
      have hFirst : n * factor < 2 ^ 26 :=
        (Nat.le_mul_of_pos_right _ hPositive).trans_lt hn
      have hDvd : 4 ∣ n * factor := (hFactors factor (by simp)).1.mul_left n
      change product (f32 (n * factor)) factors = _
      rw [← Nat.cast_mul, f32_natCast hDvd hFirst]
      exact ih hRest rfl hn

/-- A small component in seconds. -/
theorem product_f32 {factors : List ℕ} (hFactors : ∀ f ∈ factors, 4 ∣ f ∧ 0 < f) {n c : ℕ}
    (hProd : factors.prod = c) (hc : 4 ≤ c) (hn : n * c < 2 ^ 26) :
    product (f32 n) factors = (n * c : ℕ) := by
  have hSmall : n < 2 ^ 24 := by
    have hLess : n * 4 ≤ n * c := Nat.mul_le_mul_left n hc
    omega
  rw [f32_small hSmall, product_natCast hFactors hProd hn]

/-- Without years and months, the drift is the error of the sum up to the minutes. -/
theorem beforeSeconds_sub {t : DurationText} {k : ℕ} (hText : t.Denotes k) :
    t.binary.beforeSeconds - t.wholeMinutes = t.drift := by
  have hZero : f32 0 = 0 := Rounding.nearest_zero 24
  have hTwice : ∀ x, f32 (f32 x) = f32 x := fun x => Rounding.nearest_of_representable (by norm_num)
    (Rounding.representable_nearest (by norm_num) x)
  have hNone : f32 (numberOf none) = 0 := by simp [numberOf, hZero]
  have hDays : ∀ x : ℚ, product x [60, 60, 24] = f32 (24 * f32 (60 * f32 (60 * x))) := fun x => by
    simp [product, mul_comm]
  have hHours : ∀ x : ℚ, product x [60, 60] = f32 (60 * f32 (60 * x)) := fun x => by
    simp [product, mul_comm]
  have hMinutes : ∀ x : ℚ, product x [60] = f32 (60 * x) := fun x => by simp [product, mul_comm]
  have hWhole : (t.wholeMinutes : ℚ) =
      86400 * numberOf t.days + 3600 * numberOf t.hours + 60 * numberOf t.minutes := by
    rw [DurationText.wholeMinutes]
    push_cast
    ring
  rw [BinaryDuration.beforeSeconds, hWhole]
  simp only [DurationText.binary, hText.years, hText.months, hNone, product_zero, add_zero, hZero,
    zero_add, hDays, hHours, hMinutes, hTwice, DurationText.drift, PwshHost.drift]

/-- Below `2 ^ 26` seconds the days, hours and minutes are added up exactly. -/
theorem beforeSeconds_eq {t : DurationText} {k : ℕ} (hText : t.Denotes k)
    (hSmall : t.wholeMinutes < 2 ^ 26) : t.binary.beforeSeconds = t.wholeMinutes := by
  have hNone : f32 (numberOf none) = 0 := f32_small (n := 0) (by norm_num)
  have hZero : f32 0 = 0 := Rounding.nearest_zero 24
  rw [BinaryDuration.beforeSeconds]
  simp only [DurationText.binary, hText.years, hText.months, hNone, product_zero, add_zero, hZero,
    zero_add]
  unfold DurationText.wholeMinutes at hSmall ⊢
  have hDays : numberOf t.days * 86400 < 2 ^ 26 := by linarith
  have hTwo : numberOf t.days * 86400 + numberOf t.hours * 3600 < 2 ^ 26 := by linarith
  have hHours : numberOf t.hours * 3600 < 2 ^ 26 := by linarith
  have hMinutes : numberOf t.minutes * 60 < 2 ^ 26 := by linarith
  have hDvd : 4 ∣ numberOf t.days * 86400 ∧
      4 ∣ numberOf t.days * 86400 + numberOf t.hours * 3600 ∧
      4 ∣ numberOf t.days * 86400 + numberOf t.hours * 3600 + numberOf t.minutes * 60 := by omega
  have hDay : product (f32 (numberOf t.days)) [60, 60, 24] = (numberOf t.days * 86400 : ℕ) :=
    product_f32 (by decide) (by norm_num) (by norm_num) hDays
  have hHour : product (f32 (numberOf t.hours)) [60, 60] = (numberOf t.hours * 3600 : ℕ) :=
    product_f32 (by decide) (by norm_num) (by norm_num) hHours
  have hMinute : product (f32 (numberOf t.minutes)) [60] = (numberOf t.minutes * 60 : ℕ) :=
    product_f32 (by decide) (by norm_num) (by norm_num) hMinutes
  rw [hDay, hHour, hMinute, f32_natCast hDvd.1 hDays, ← Nat.cast_add, f32_natCast hDvd.2.1 hTwo,
    ← Nat.cast_add, f32_natCast hDvd.2.2 hSmall]

/-- Rounding the seconds first does not move the sum away from a number that is
within half a nanosecond of it. -/
theorem f32_sum_eq {a : ℤ} (hFive : 5 ≤ a) (hSix : a ≤ 6) {x sec z : ℚ}
    (hBits : Representable 24 z) (hNear : |z - (x + sec)| ≤ 1 / 2000000000) (hLow : 0 ≤ sec)
    (hBelow : sec < 2 ^ a) (hAbove : (2 : ℚ) ^ a + 1 ≤ x + sec) : f32 (x + f32 sec) = z := by
  have hFine : (1 : ℚ) / 524288 ≤ 2 ^ (a - 24) := by
    refine le_trans (by norm_num) (zpow_le_zpow_right₀ (m := -19) (by norm_num) ?_)
    omega
  have hCoarse : (2 : ℚ) ^ (a - 24) ≤ 1 / 262144 := by
    refine le_trans (zpow_le_zpow_right₀ (n := -18) (by norm_num) ?_) (by norm_num)
    omega
  have hDouble : (2 : ℚ) ^ (a + 1 - (24 : ℕ)) = 2 * 2 ^ (a - 24) := by
    push_cast
    rw [show a + 1 - 24 = 1 + (a - 24) by ring, zpow_add₀ (by norm_num), zpow_one]
  have hSeconds : |f32 sec - sec| ≤ 2 ^ (a - 24) / 2 :=
    Rounding.nearest_error (by rwa [abs_of_nonneg hLow])
  have hSum : |z - (x + f32 sec)| ≤ 1 / 2000000000 + 2 ^ (a - 24) / 2 := by
    rw [abs_le] at hNear hSeconds ⊢
    constructor <;> linarith
  rw [abs_le] at hNear
  apply Rounding.nearest_eq_of_close (by norm_num) hBits (a := a)
  · rw [hDouble]
    linarith
  · rw [hDouble]
    linarith

/-- Where the whole minutes are exact, the sum is as near as any number in
binary32. -/
theorem exists_near_iff {w : ℕ} (hw : w = 0 ∨ 60 ≤ w) {sec : ℚ} (hLow : 0 ≤ sec)
    (hHigh : sec < 60) : (∃ z, Representable 24 z ∧ |z - (w + sec)| ≤ 1 / 2000000000) ↔
      |f32 (w + f32 sec) - (w + sec)| ≤ 1 / 2000000000 := by
  constructor
  · intro h
    obtain ⟨z, hBits, hNear⟩ := h
    rcases hw with rfl | hMinute
    · have hTwice : f32 (f32 sec) = f32 sec := Rounding.nearest_of_representable (by norm_num)
        (Rounding.representable_nearest (by norm_num) sec)
      rw [Nat.cast_zero, zero_add] at hNear ⊢
      rw [zero_add, hTwice]
      exact (Rounding.nearest_nearest (by norm_num) sec hBits).trans hNear
    · have hMinuteQ : (60 : ℚ) ≤ w := by exact_mod_cast hMinute
      have hFive : (2 : ℚ) ^ (5 : ℤ) = 32 := by norm_num
      have hSix : (2 : ℚ) ^ (6 : ℤ) = 64 := by norm_num
      have hSum : f32 (w + f32 sec) = z := by
        rcases lt_or_ge sec 32 with hEarly | hLate
        · apply f32_sum_eq le_rfl (by norm_num) hBits hNear hLow
          · rw [hFive]
            exact hEarly
          · rw [hFive]
            linarith
        · apply f32_sum_eq (by norm_num) le_rfl hBits hNear hLow
          · rw [hSix]
            linarith
          · rw [hSix]
            linarith
      rw [hSum]
      exact hNear
  · intro h
    exact ⟨_, Rounding.representable_nearest (by norm_num) _, h⟩

/-- From `2 ^ 26` seconds on, a number in binary32 within half a nanosecond of a
number of ticks is that number, and whole. -/
theorem near_large {k : ℕ} (hLarge : (2 : ℚ) ^ 26 ≤ k / 10000000) {z : ℚ}
    (hBits : Representable 24 z) (hNear : |z - k / 10000000| ≤ 1 / 2000000000) :
    z = k / 10000000 ∧ ∃ n : ℤ, z = n := by
  have hAbove : (2 : ℚ) ^ (25 : ℤ) ≤ z := by
    rw [abs_le] at hNear
    norm_num at hLarge ⊢
    linarith
  obtain ⟨n, hn⟩ := hBits.multiple (hAbove.trans (le_abs_self z))
  have hWhole : z = ((4 * n : ℤ) : ℚ) := by
    rw [hn]
    norm_num
    ring
  refine ⟨?_, 4 * n, hWhole⟩
  have hTicks : |((4 * n * 10000000 - k : ℤ) : ℚ)| < 1 := by
    have hScaled : ((4 * n * 10000000 - k : ℤ) : ℚ) = (z - k / 10000000) * 10000000 := by
      rw [hWhole]
      push_cast
      ring
    rw [hScaled, abs_mul, abs_of_pos (by norm_num : (0 : ℚ) < 10000000)]
    linarith
  have hSame : 4 * n * 10000000 = k := by
    have hInt : |4 * n * 10000000 - (k : ℤ)| < 1 := by exact_mod_cast hTicks
    rw [Int.abs_lt_one_iff] at hInt
    omega
  have hCast : (k : ℚ) = 4 * n * 10000000 := by exact_mod_cast hSame.symm
  rw [hWhole, hCast]
  push_cast
  ring

/-- Whole seconds of a minute are held in binary32. -/
theorem f32_seconds {sec : ℚ} (hLow : 0 ≤ sec) (hHigh : sec < 60) {n : ℤ} (hn : sec = n) :
    f32 sec = sec := by
  obtain ⟨m, rfl⟩ : ∃ m : ℕ, n = m := Int.eq_ofNat_of_zero_le (by
    rw [hn] at hLow
    exact_mod_cast hLow)
  rw [hn] at hHigh ⊢
  rw [Int.cast_natCast] at hHigh ⊢
  have hSmall : m < 60 := by exact_mod_cast hHigh
  exact f32_small (by omega)

/-- Seconds with a fraction have no sign of their own. -/
theorem secondsOf_nonneg (seconds : Option (Numeral × Option Numeral)) : 0 ≤ secondsOf seconds := by
  unfold secondsOf fractionOf
  split
  · split <;> positivity
  · exact le_rfl

/-- The sum in binary32 is not negative, since no component is. -/
theorem seconds_nonneg (t : DurationText) : 0 ≤ t.binary.seconds := by
  have hField : ∀ (n : ℕ) (factors : List ℕ), 0 ≤ product (f32 n) factors := fun n factors =>
    product_nonneg (Rounding.nearest_nonneg (Nat.cast_nonneg n)) factors
  have hSum : ∀ x y : ℚ, 0 ≤ x → 0 ≤ y → 0 ≤ f32 (x + y) := fun x y hx hy =>
    Rounding.nearest_nonneg (add_nonneg hx hy)
  have hBefore : 0 ≤ t.binary.beforeSeconds :=
    hSum _ _ (hSum _ _ (hSum _ _ (hSum _ _ (hField _ _) (hField _ _)) (hField _ _)) (hField _ _))
      (hField _ _)
  exact hSum _ _ hBefore (Rounding.nearest_nonneg (secondsOf_nonneg t.seconds))

/-- Of a span below `2 ^ 26` seconds the part before the seconds is below it as
well. -/
theorem wholeMinutes_lt {t : DurationText} {k : ℕ} (hText : t.Denotes k)
    (hSmall : (k : ℚ) / 10000000 < 2 ^ 26) : t.wholeMinutes < 2 ^ 26 := by
  have hSeconds := secondsOf_nonneg t.seconds
  have hBound : (t.wholeMinutes : ℚ) < 2 ^ 26 := by
    rw [hText.ticks] at hSmall
    linarith
  exact_mod_cast hBound

/-- There is no drift below `2 ^ 26` seconds. -/
theorem drift_eq_zero {t : DurationText} {k : ℕ} (hText : t.Denotes k)
    (hSmall : (k : ℚ) / 10000000 < 2 ^ 26) : t.drift = 0 := by
  rw [← beforeSeconds_sub hText, beforeSeconds_eq hText (wholeMinutes_lt hText hSmall), sub_self]

/-- When the ticks are whole seconds, only the drift is left of the errors. -/
theorem seconds_eq_drift {t : DurationText} {k : ℕ} (hText : t.Denotes k) {n : ℤ}
    (hWhole : (k : ℚ) / 10000000 = n) : t.binary.seconds = f32 (k / 10000000 + t.drift) := by
  have hExact : f32 (secondsOf t.seconds) = secondsOf t.seconds := by
    apply f32_seconds (secondsOf_nonneg t.seconds) hText.seconds (n := n - t.wholeMinutes)
    push_cast
    rw [← hWhole, hText.ticks]
    ring
  change f32 (t.binary.beforeSeconds + f32 (secondsOf t.seconds)) = _
  rw [hExact, hText.ticks, ← beforeSeconds_sub hText]
  congr 1
  ring

/-- The sum is within half a nanosecond of the ticks of a text exactly when they
are held. -/
theorem held_iff {t : DurationText} {k : ℕ} (hText : t.Denotes k) :
    t.Held k ↔ |t.binary.seconds - k / 10000000| ≤ 1 / 2000000000 := by
  have hLow := secondsOf_nonneg t.seconds
  have hSeconds : t.binary.seconds = f32 (t.binary.beforeSeconds + f32 (secondsOf t.seconds)) := rfl
  rcases lt_or_ge ((k : ℚ) / 10000000) (2 ^ 26) with hSmall | hLarge
  · have hBefore := beforeSeconds_eq hText (wholeMinutes_lt hText hSmall)
    have hDrift := drift_eq_zero hText hSmall
    have hZero : t.wholeMinutes = 0 ∨ 60 ≤ t.wholeMinutes := by
      unfold DurationText.wholeMinutes
      omega
    rw [hSeconds, hBefore, hText.ticks, ← exists_near_iff hZero hLow hText.seconds]
    simp only [DurationText.Held, hDrift, add_zero, hText.ticks]
    refine exists_congr fun z => and_congr_right fun hBits => and_iff_left ?_
    exact Rounding.nearest_of_representable (by norm_num) hBits
  · constructor
    · intro h
      obtain ⟨z, hBits, hNear, hStays⟩ := h
      obtain ⟨rfl, n, hWhole⟩ := near_large hLarge hBits hNear
      rw [seconds_eq_drift hText hWhole, hStays]
      exact hNear
    · intro h
      have hBits : Representable 24 t.binary.seconds :=
        Rounding.representable_nearest (by norm_num) _
      obtain ⟨hSame, n, hWhole⟩ := near_large hLarge hBits h
      refine ⟨t.binary.seconds, hBits, h, ?_⟩
      rw [hSame] at hWhole
      rw [hSame, ← seconds_eq_drift hText hWhole, hSame]

/-- A text is decoded exactly when binary32 holds its ticks. -/
theorem decodes_iff {ε : Type} {D : DurationCrate} (hD : D.Binary32) {t : DurationText}
    {k : ℕ} (hText : t.Denotes k) (hRange : k < 2 ^ 63) : Decodes ε D t k ↔ t.Held k := by
  obtain ⟨x, hParse, hStd⟩ := hD.held t
  have hPlain : t.text = t.unsigned := by simp [DurationText.text, hText.negative]
  have hResult : Decodes ε D t k ↔ ∃ d, t.binary.toStd = some d ∧ nanoseconds d = 100 * k := by
    simp only [Decodes, parseIso8601Duration, hPlain, hParse, hStd]
    cases t.binary.toStd with
    | none => simp
    | some d => simp
  rw [hResult, held_iff hText]
  exact fromSecsF32_ticks (seconds_nonneg t) hRange

/-- `P[nD]T[nH][nM]n[.f]S`. -/
def spanText (days hours minutes : Option Numeral) (seconds : Numeral) (fraction : Option Numeral) :
    DurationText where
  negative := false
  years := none
  months := none
  days := days
  hours := hours
  minutes := minutes
  seconds := some (seconds, fraction)
  some_component := .inr (.inr (.inr (.inr (.inr rfl))))

def numeral (first : Fin 10) (rest : List (Fin 10)) : Numeral :=
  ⟨first :: rest, List.cons_ne_nil _ _⟩

/-- Half a second. -/
def halfSecond : DurationText := spanText none none none (numeral 0 []) (some (numeral 5 []))

theorem halfSecond_denotes : halfSecond.Denotes 5000000 where
  negative := rfl
  years := rfl
  months := rfl
  seconds := by decide +kernel
  ticks := by decide +kernel

theorem decodes_iff_halfSecond :
    Decodes Empty binaryDuration halfSecond 5000000 ↔ halfSecond.Held 5000000 :=
  decodes_iff binaryDuration_binary32 halfSecond_denotes (by norm_num)

/-- `PT9.0269026S`. -/
def nineSeconds : DurationText :=
  spanText none none none (numeral 9 []) (some (numeral 0 [2, 6, 9, 0, 2, 6]))

/-- `P194DT4H20M16S`, which is `2 ^ 24` seconds, or another second of that minute. -/
def manyDays (last : Fin 10) : DurationText :=
  spanText (some (numeral 1 [9, 4])) (some (numeral 4 [])) (some (numeral 2 [0]))
    (numeral 1 [last]) none

/-- On the concrete crate parsing can be computed step by step. -/
theorem parse_of_read {ε : Type} {t : DurationText} {d : Duration}
    (h : (readDuration t.text).bind BinaryDuration.toStd = some d) :
    (parseIso8601Duration binaryDuration t.text : Except (Panic ε) (Option Duration)) =
      .ok (some d) := by
  obtain ⟨x, hRead, hSeconds⟩ := Option.bind_eq_some_iff.mp h
  have hParse : binaryDuration.parse t.text = some x := hRead
  have hStd : binaryDuration.toStd x = some d := hSeconds
  simp only [parseIso8601Duration, hParse, hStd]

/-- Nine seconds and 269026 ticks come back short, and two spans a second apart
come back as one. -/
theorem spans_lost :
    binaryDuration.Binary32 ∧ nineSeconds.text = "PT9.0269026S".toList ∧
      (nineSeconds.Denotes 90269026 ∧ ¬ Decodes Empty binaryDuration nineSeconds 90269026) ∧
      (manyDays 6).Denotes 167772160000000 ∧ (manyDays 7).Denotes 167772170000000 ∧
        (parseIso8601Duration binaryDuration (manyDays 6).text :
          Except (Panic Empty) (Option Duration)) =
            parseIso8601Duration binaryDuration (manyDays 7).text := by
  have hNine : (readDuration nineSeconds.text).bind BinaryDuration.toStd =
      some ⟨⟨9, by decide⟩, ⟨26902199, by decide⟩⟩ := by decide +kernel
  have hSix : (readDuration (manyDays 6).text).bind BinaryDuration.toStd =
      some ⟨⟨16777216, by decide⟩, ⟨0, by decide⟩⟩ := by decide +kernel
  have hSeven : (readDuration (manyDays 7).text).bind BinaryDuration.toStd =
      some ⟨⟨16777216, by decide⟩, ⟨0, by decide⟩⟩ := by decide +kernel
  refine ⟨binaryDuration_binary32, by decide,
    ⟨⟨rfl, rfl, rfl, by decide +kernel, by decide +kernel⟩, ?_⟩,
    ⟨rfl, rfl, rfl, by decide +kernel, by decide +kernel⟩,
    ⟨rfl, rfl, rfl, by decide +kernel, by decide +kernel⟩, ?_⟩
  · intro h
    obtain ⟨d, hDuration, hTicks⟩ := h
    rw [parse_of_read hNine] at hDuration
    rw [← Option.some.inj (Except.ok.inj hDuration)] at hTicks
    revert hTicks
    decide
  · rw [parse_of_read hSix, parse_of_read hSeven]

end PwshHost
