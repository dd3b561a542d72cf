import PwshHost.Numeric.Rounding
import PwshHost.Time.Reference

/-! Durations by way of binary32: what the crate that reads them documents, and a
crate that does so. -/
namespace PwshHost

open Xml (Text)
open Rust
open Rounding (nearest nearestInt)

def nanoseconds (d : Duration) : Int := d.secs.val * 1000000000 + d.nanos.val

def ofNanoseconds (n : Int) : Option Duration := do
  let secs ← Bounded.ofInt 0 18446744073709551615 (n / 1000000000)
  let nanos ← Bounded.ofInt 0 999999999 (n % 1000000000)
  return ⟨secs, nanos⟩

/-- A number in its range is kept as it is. -/
theorem val_of_ofInt {lo hi i : Int} {b : Bounded lo hi} (h : Bounded.ofInt lo hi i = some b) :
    b.val = i := by
  unfold Bounded.ofInt at h
  split_ifs at h
  rw [← Option.some.inj h]

/-- Splitting into seconds and nanoseconds loses nothing. -/
theorem ofNanoseconds_eq_some {n : Int} {d : Duration} (h : ofNanoseconds n = some d) :
    nanoseconds d = n := by
  obtain ⟨secs, hSecs, h⟩ := Option.bind_eq_some_iff.mp h
  obtain ⟨nanos, hNanos, h⟩ := Option.bind_eq_some_iff.mp h
  obtain rfl := Option.some.inj h
  have hSeconds : secs.val = n / 1000000000 := val_of_ofInt hSecs
  have hRest : nanos.val = n % 1000000000 := val_of_ofInt hNanos
  rw [nanoseconds, hSeconds, hRest]
  omega

/-- Whole seconds take 64 bits. -/
theorem isSome_ofNanoseconds {n : Int} (hLow : 0 ≤ n) (hHigh : n < 2 ^ 64 * 1000000000) :
    (ofNanoseconds n).isSome := by
  have hSecs : 0 ≤ n / 1000000000 ∧ n / 1000000000 ≤ 18446744073709551615 := by omega
  have hNanos : 0 ≤ n % 1000000000 ∧ n % 1000000000 ≤ 999999999 := by omega
  rw [ofNanoseconds, Bounded.ofInt, dif_pos hSecs, Bounded.ofInt, dif_pos hNanos]
  rfl

/-- `Duration::from_secs_f32`: the nearest nanosecond. There is a panic if the
seconds are negative or too many. -/
def fromSecsF32 (secs : ℚ) : Option Duration :=
  if secs < 0 then none else ofNanoseconds (nearestInt (secs * 1000000000))

theorem fromSecsF32_of_nonneg {secs : ℚ} (h : 0 ≤ secs) :
    fromSecsF32 secs = ofNanoseconds (nearestInt (secs * 1000000000)) :=
  if_neg (not_lt.mpr h)

/-- Seconds within half a nanosecond of a number of ticks become that number. -/
theorem fromSecsF32_ticks {secs : ℚ} (hSecs : 0 ≤ secs) {k : ℕ} (hRange : k < 2 ^ 63) :
    (∃ d, fromSecsF32 secs = some d ∧ nanoseconds d = 100 * k) ↔
      |secs - k / 10000000| ≤ 1 / 2000000000 := by
  have hNearest : nearestInt (secs * 1000000000) = 100 * k ↔
      |secs - k / 10000000| ≤ 1 / 2000000000 := by
    have hScaled : secs * 1000000000 - ((100 * k : ℤ) : ℚ) =
        (secs - k / 10000000) * 1000000000 := by
      push_cast
      ring
    have hHalf : (1 : ℚ) / 2000000000 = 1 / 2 / 1000000000 := by norm_num
    have hPositive : (0 : ℚ) < 1000000000 := by norm_num
    rw [Rounding.nearestInt_eq_of_even (by omega), hScaled, abs_mul, abs_of_pos hPositive, hHalf,
      le_div_iff₀ hPositive]
  rw [← hNearest, fromSecsF32_of_nonneg hSecs]
  constructor
  · intro h
    obtain ⟨d, hDuration, hTicks⟩ := h
    rw [← ofNanoseconds_eq_some hDuration, hTicks]
  · intro h
    obtain ⟨d, hDuration⟩ := Option.isSome_iff_exists.mp
      (isSome_ofNanoseconds (n := 100 * k) (by omega) (by omega))
    rw [h]
    exact ⟨d, hDuration, ofNanoseconds_eq_some hDuration⟩

/-- A result in binary32. -/
def f32 (x : ℚ) : ℚ := nearest 24 x

def Numeral.value (n : Numeral) : ℕ := Decimal.value n.digits

def numberOf : Option Numeral → ℕ
  | some n => n.value
  | none => 0

def fractionOf : Option Numeral → ℚ
  | some f => f.value / 10 ^ f.digits.length
  | none => 0

def secondsOf : Option (Numeral × Option Numeral) → ℚ
  | some (n, fraction) => n.value + fractionOf fraction
  | none => 0

/-- `iso8601_duration::Duration`, whose fields are in binary32. -/
structure BinaryDuration where
  year : ℚ
  month : ℚ
  day : ℚ
  hour : ℚ
  minute : ℚ
  second : ℚ

def DurationText.binary (t : DurationText) : BinaryDuration where
  year := f32 (numberOf t.years)
  month := f32 (numberOf t.months)
  day := f32 (numberOf t.days)
  hour := f32 (numberOf t.hours)
  minute := f32 (numberOf t.minutes)
  second := f32 (secondsOf t.seconds)

/-- A component times the factors that make it seconds, from left to right. -/
def product (component : ℚ) (factors : List ℕ) : ℚ :=
  factors.foldl (fun x factor => f32 (x * factor)) component

namespace BinaryDuration

variable (x : BinaryDuration)

/-- The sum of `to_std`, up to the minutes. -/
def beforeSeconds : ℚ :=
  f32 (f32 (f32 (f32 (product x.year [60, 60, 24, 30, 12] + product x.month [60, 60, 24, 30]) +
    product x.day [60, 60, 24]) + product x.hour [60, 60]) + product x.minute [60])

def seconds : ℚ := f32 (x.beforeSeconds + x.second)

def toStd : Option Duration := fromSecsF32 x.seconds

end BinaryDuration

/-- Documented behaviour: the components are held in binary32, and added up in it. -/
structure DurationCrate.Binary32 (D : DurationCrate) : Prop where
  held (t : DurationText) :
    ∃ x, D.parse t.unsigned = some x ∧ D.toStd x = t.binary.toStd

/-- A component, if the next number is one of its unit. -/
def readComponent (unit : Char) (s : Text) : Option Numeral × Text :=
  if h : (readDigits s).1 ≠ [] ∧ (readDigits s).2.head? = some unit then
    (some ⟨(readDigits s).1, h.1⟩, (readDigits s).2.tail)
  else (none, s)

def readSeconds (s : Text) : Option (Option (Numeral × Option Numeral)) :=
  if s = [] then some none
  else if h : (readDigits s).1 ≠ [] then do
    let (fraction, rest) ← readFraction (readDigits s).2
    if rest = ['S'] then some (some (⟨(readDigits s).1, h⟩, fraction)) else none
  else none

def readTime : Text → Option (Option Numeral × Option Numeral × Option (Numeral × Option Numeral))
  | 'T' :: s => do
    let (hours, s) := readComponent 'H' s
    let (minutes, s) := readComponent 'M' s
    let seconds ← readSeconds s
    return (hours, minutes, seconds)
  | [] => some (none, none, none)
  | _ => none

def readDuration : Text → Option BinaryDuration
  | 'P' :: s => do
    let (years, s) := readComponent 'Y' s
    let (months, s) := readComponent 'M' s
    let (days, s) := readComponent 'D' s
    let (hours, minutes, seconds) ← readTime s
    return {
      year := f32 (numberOf years)
      month := f32 (numberOf months)
      day := f32 (numberOf days)
      hour := f32 (numberOf hours)
      minute := f32 (numberOf minutes)
      second := f32 (secondsOf seconds) }
  | _ => none

/-- The crate that reads the components of a text. -/
def binaryDuration : DurationCrate where
  Iso8601Duration := BinaryDuration
  parse := readDuration
  toStd := BinaryDuration.toStd

/-- The next number is none of the unit. -/
def NotNext (unit : Char) (s : Text) : Prop := readComponent unit s = (none, s)

/-- A run of digits ends before any other character. -/
theorem atNoDigit_cons {c : Char} (h : digit c = none) (s : Text) : AtNoDigit (c :: s) := by
  intro d rest hSame
  rw [← (List.cons.inj hSame).1, h]

/-- The digits of a component go up to its unit. -/
theorem readDigits_component {unit : Char} (hUnit : digit unit = none) (n : Numeral)
    (s : Text) : readDigits (component unit (some n) ++ s) = (n.digits, unit :: s) := by
  have hText : component unit (some n) ++ s = n.digits.map digitChar ++ unit :: s := by
    simp [component, Numeral.text]
  rw [hText, readDigits_append _ (atNoDigit_cons hUnit s)]

/-- A component is read if it is there. If not, what comes next must not look like
it. -/
theorem readComponent_component {unit : Char} (hUnit : digit unit = none) (o : Option Numeral)
    {s : Text} (h : NotNext unit s) : readComponent unit (component unit o ++ s) = (o, s) := by
  cases o with
  | none => exact h
  | some n => simp [readComponent, readDigits_component hUnit, n.nonempty]

/-- A component of another unit does not look like it. -/
theorem notNext_component {unit other : Char} (hOther : digit other = none)
    (hDifferent : other ≠ unit) (o : Option Numeral) {s : Text} (h : NotNext unit s) :
    NotNext unit (component other o ++ s) := by
  cases o with
  | none => exact h
  | some n => simp [NotNext, readComponent, readDigits_component hOther, hDifferent]

/-- The digits of the seconds go up to the decimal point or the unit. -/
theorem readDigits_secondsText (n : Numeral) (fraction : Option Numeral) :
    readDigits (secondsText (some (n, fraction))) =
      (n.digits, fractionText fraction ++ ['S']) := by
  have hRest : AtNoDigit (fractionText fraction ++ ['S']) := by
    cases fraction with
    | none => exact atNoDigit_cons (by decide) _
    | some f => exact atNoDigit_cons (by decide) _
  rw [secondsText, List.append_assoc, Numeral.text, readDigits_append _ hRest]

/-- Seconds do not look like minutes or hours. -/
theorem notNext_secondsText {unit : Char} (hSeconds : unit ≠ 'S') (hPoint : unit ≠ '.')
    (seconds : Option (Numeral × Option Numeral)) : NotNext unit (secondsText seconds) := by
  cases seconds with
  | none => simp [NotNext, readComponent, secondsText, readDigits]
  | some pair =>
      obtain ⟨n, fraction⟩ := pair
      cases fraction <;>
        simp [NotNext, readComponent, readDigits_secondsText, fractionText, hSeconds.symm,
          hPoint.symm]

/-- Seconds come last, with or without a fraction. -/
theorem readSeconds_secondsText (seconds : Option (Numeral × Option Numeral)) :
    readSeconds (secondsText seconds) = some seconds := by
  cases seconds with
  | none => rfl
  | some pair =>
      obtain ⟨n, fraction⟩ := pair
      have hNotEmpty : secondsText (some (n, fraction)) ≠ [] := by simp [secondsText]
      have hFraction : readFraction (fractionText fraction ++ ['S']) = some (fraction, ['S']) := by
        cases fraction with
        | none => rfl
        | some f =>
            have hDigits : readDigits (f.text ++ ['S']) = (f.digits, ['S']) :=
              readDigits_append _ (atNoDigit_cons (by decide) _)
            simp [fractionText, readFraction, hDigits, f.nonempty]
      simp [readSeconds, hNotEmpty, readDigits_secondsText, n.nonempty, hFraction]

/-- The three components after the `T` are read back, each of them optional. -/
theorem readTime_timeText (t : DurationText) :
    readTime t.timeText = some (t.hours, t.minutes, t.seconds) := by
  by_cases hTime : t.hours.isSome ∨ t.minutes.isSome ∨ t.seconds.isSome
  · have hSeconds : NotNext 'M' (secondsText t.seconds) :=
      notNext_secondsText (by decide) (by decide) t.seconds
    have hHours : NotNext 'H' (component 'M' t.minutes ++ secondsText t.seconds) :=
      notNext_component (by decide) (by decide) t.minutes
        (notNext_secondsText (by decide) (by decide) t.seconds)
    rw [DurationText.timeText, if_pos hTime, List.append_assoc, readTime,
      readComponent_component (by decide) _ hHours]
    simp only
    rw [readComponent_component (by decide) _ hSeconds]
    simp [readSeconds_secondsText]
  · rw [DurationText.timeText, if_neg hTime]
    simp only [not_or, Option.not_isSome_iff_eq_none] at hTime
    rw [hTime.1, hTime.2.1, hTime.2.2]
    rfl

/-- Nor does the `T` look like a component of the date, so minutes are not taken for
months. -/
theorem notNext_timeText (unit : Char) (t : DurationText) : NotNext unit t.timeText := by
  unfold DurationText.timeText
  split_ifs
  · have hDigit : readDigit 'T' = none := by decide
    simp [NotNext, readComponent, readDigits, hDigit]
  · simp [NotNext, readComponent, readDigits]

/-- The components of a text are rounded to binary32 one by one. -/
theorem readDuration_unsigned (t : DurationText) : readDuration t.unsigned = some t.binary := by
  have hDays := notNext_timeText 'D' t
  have hMonths : NotNext 'M' (component 'D' t.days ++ t.timeText) :=
    notNext_component (by decide) (by decide) t.days (notNext_timeText 'M' t)
  have hYears : NotNext 'Y' (component 'M' t.months ++ (component 'D' t.days ++ t.timeText)) :=
    notNext_component (by decide) (by decide) t.months
      (notNext_component (by decide) (by decide) t.days (notNext_timeText 'Y' t))
  rw [DurationText.unsigned, List.append_assoc, List.append_assoc, readDuration,
    readComponent_component (by decide) _ hYears]
  simp only
  rw [readComponent_component (by decide) _ hMonths]
  simp only
  rw [readComponent_component (by decide) _ hDays]
  simp only [readTime_timeText]
  rfl

/-- The concrete crate holds components as the law for durations says. -/
theorem binaryDuration_binary32 : binaryDuration.Binary32 where
  held t := ⟨t.binary, readDuration_unsigned t, rfl⟩

end PwshHost
