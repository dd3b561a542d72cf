import Mathlib.Algebra.Group.Nat.Defs
import PwshHost.Time

/-! The texts of date-times and durations, and what the crate that reads
durations promises about them. -/
namespace PwshHost

open Xml (Text)
open Rust

def digitChar (d : Fin 10) : Char := Char.ofNat (0x30 + d.val)

/-- A run of digits. -/
structure Numeral where
  digits : List (Fin 10)
  nonempty : digits ≠ []
  deriving DecidableEq

def Numeral.text (n : Numeral) : Text := n.digits.map digitChar

/-- A field of two digits. -/
def twoDigits (n : Fin 100) : Text :=
  [digitChar ⟨n.val / 10, by omega⟩, digitChar ⟨n.val % 10, by omega⟩]

/-- A field of four digits. -/
def fourDigits (n : Fin 10000) : Text :=
  [digitChar ⟨n.val / 1000, by omega⟩, digitChar ⟨n.val / 100 % 10, by omega⟩,
    digitChar ⟨n.val / 10 % 10, by omega⟩, digitChar ⟨n.val % 10, by omega⟩]

inductive Zone where
  | utc
  | offset (negative : Bool) (hour minute : Fin 100)
  deriving DecidableEq

def Zone.text : Zone → Text
  | .utc => ['Z']
  | .offset negative hour minute =>
    (if negative then '-' else '+') :: (twoDigits hour ++ ':' :: twoDigits minute)

structure DateTimeFields where
  year : Fin 10000
  month : Fin 100
  day : Fin 100
  hour : Fin 100
  minute : Fin 100
  second : Fin 100
  nanos : Nat
  deriving DecidableEq

/-- `YYYY-MM-DDThh:mm:ss`, possibly with a fraction of up to nine digits and a
zone. -/
structure DateTimeShape where
  year : Fin 10000
  month : Fin 100
  day : Fin 100
  hour : Fin 100
  minute : Fin 100
  second : Fin 100
  fraction : Option Numeral
  short : ∀ f ∈ fraction, f.digits.length ≤ 9
  zone : Option Zone
  deriving DecidableEq

def fractionText : Option Numeral → Text
  | some f => '.' :: f.text
  | none => []

def zoneText : Option Zone → Text
  | some z => z.text
  | none => []

def DateTimeShape.text (s : DateTimeShape) : Text :=
  fourDigits s.year ++ '-' :: (twoDigits s.month ++ '-' :: (twoDigits s.day ++ 'T' ::
    (twoDigits s.hour ++ ':' :: (twoDigits s.minute ++ ':' :: (twoDigits s.second ++
      (fractionText s.fraction ++ zoneText s.zone))))))

/-- A fraction of a second in nanoseconds. -/
def nanosOf : Option Numeral → Nat
  | some f => f.digits.foldl (fun n d => 10 * n + d.val) 0 * 10 ^ (9 - f.digits.length)
  | none => 0

def DateTimeShape.fields (s : DateTimeShape) : DateTimeFields where
  year := s.year
  month := s.month
  day := s.day
  hour := s.hour
  minute := s.minute
  second := s.second
  nanos := nanosOf s.fraction

def daysIn (year month : Nat) : Nat :=
  if month = 2 then
    if year % 4 = 0 ∧ (year % 100 ≠ 0 ∨ year % 400 = 0) then 29 else 28
  else if month ∈ [4, 6, 9, 11] then 30 else 31

/-- Dates of the Gregorian calendar and times of a day. -/
def DateTimeFields.InRange (f : DateTimeFields) : Prop :=
  1 ≤ f.month.val ∧ f.month.val ≤ 12 ∧ 1 ≤ f.day.val ∧ f.day.val ≤ daysIn f.year.val f.month.val ∧
    f.hour.val ≤ 23 ∧ f.minute.val ≤ 59 ∧ f.second.val ≤ 59

instance (f : DateTimeFields) : Decidable f.InRange := inferInstanceAs (Decidable (_ ∧ _))

/-- At most fourteen hours. -/
def Zone.Lexical : Zone → Prop
  | .utc => True
  | .offset _ hour minute => hour.val ≤ 14 ∧ minute.val ≤ 59 ∧ (hour.val = 14 → minute.val = 0)

/-- `xs:dateTime` with a four-digit year. The end of a day may be written as
hour 24. -/
structure DateTimeShape.Lexical (s : DateTimeShape) : Prop where
  year : 1 ≤ s.year.val
  month : 1 ≤ s.month.val ∧ s.month.val ≤ 12
  day : 1 ≤ s.day.val ∧ s.day.val ≤ daysIn s.year.val s.month.val
  hour : s.hour.val ≤ 24
  minute : s.minute.val ≤ 59
  second : s.second.val ≤ 59
  endOfDay : s.hour.val = 24 → s.minute.val = 0 ∧ s.second.val = 0 ∧ nanosOf s.fraction = 0
  zone : ∀ z ∈ s.zone, z.Lexical

/-- Of the texts that the schema allows only those with an hour 24 are no time of
day. -/
theorem DateTimeShape.Lexical.inRange_iff {s : DateTimeShape} (h : s.Lexical) :
    s.fields.InRange ↔ s.hour.val < 24 := by
  have hMonth := h.month
  have hDay := h.day
  have hMinute := h.minute
  have hSecond := h.second
  simp only [DateTimeFields.InRange, DateTimeShape.fields]
  omega

def component (unit : Char) : Option Numeral → Text
  | some n => n.text ++ [unit]
  | none => []

/-- `xs:duration`: a sign, and at least one component after the `P`, and after
a `T`. Only the seconds have a fraction. -/
structure DurationText where
  negative : Bool
  years : Option Numeral
  months : Option Numeral
  days : Option Numeral
  hours : Option Numeral
  minutes : Option Numeral
  seconds : Option (Numeral × Option Numeral)
  some_component : years.isSome ∨ months.isSome ∨ days.isSome ∨ hours.isSome ∨ minutes.isSome ∨
    seconds.isSome

def secondsText : Option (Numeral × Option Numeral) → Text
  | some (n, fraction) => n.text ++ fractionText fraction ++ ['S']
  | none => []

def DurationText.timeText (t : DurationText) : Text :=
  if t.hours.isSome ∨ t.minutes.isSome ∨ t.seconds.isSome then
    'T' :: (component 'H' t.hours ++ component 'M' t.minutes ++ secondsText t.seconds)
  else []

def DurationText.unsigned (t : DurationText) : Text :=
  'P' :: (component 'Y' t.years ++ component 'M' t.months ++ component 'D' t.days ++ t.timeText)

def DurationText.text (t : DurationText) : Text :=
  if t.negative then '-' :: t.unsigned else t.unsigned

/-- Documented behaviour: there is no sign. -/
structure DurationCrate.Documented (D : DurationCrate) : Prop where
  unsigned (t : DurationText) : (D.parse t.unsigned).isSome
  signed (t : DurationText) : D.parse ('-' :: t.unsigned) = none

end PwshHost
