import PwshHost.Numeric.Decimal
import PwshHost.Time.Lexical

/-! Format descriptions, item by item: what each item reads and writes, and
what the crate promises about a description made of such items. -/
namespace PwshHost

open Xml (Text)
open Rust

/-- The components that the items of a description have read. -/
structure Parsed where
  year : Option (Fin 10000)
  month : Option (Fin 100)
  day : Option (Fin 100)
  hour : Option (Fin 100)
  minute : Option (Fin 100)
  second : Option (Fin 100)
  /-- In nanoseconds. -/
  subsecond : Option Nat
  deriving DecidableEq

namespace Parsed

def new : Parsed := ⟨none, none, none, none, none, none, none⟩

/-- All components of a date and a time of day. -/
def of (f : DateTimeFields) : Parsed where
  year := some f.year
  month := some f.month
  day := some f.day
  hour := some f.hour
  minute := some f.minute
  second := some f.second
  subsecond := some f.nanos

variable (p : Parsed)

def setYear (n : Fin 10000) : Parsed := { p with year := some n }

def setMonth (n : Fin 100) : Parsed := { p with month := some n }

def setDay (n : Fin 100) : Parsed := { p with day := some n }

def setHour (n : Fin 100) : Parsed := { p with hour := some n }

def setMinute (n : Fin 100) : Parsed := { p with minute := some n }

def setSecond (n : Fin 100) : Parsed := { p with second := some n }

def setSubsecond (nanos : Nat) : Parsed := { p with subsecond := some nanos }

/-- The components that are set one after another are all there are. -/
theorem set_all (f : DateTimeFields) :
    ((((((new.setYear f.year).setMonth f.month).setDay f.day).setHour f.hour).setMinute
      f.minute).setSecond f.second).setSubsecond f.nanos = of f :=
  rfl

end Parsed

/-- How an item goes on from what was read before it and from the text that is
left. -/
abbrev ReadItem := FormatItem → Parsed → Text → Option (Parsed × Text)

/-- The item reads the digits `t` to the change `set`. It may refuse a number
that no such component has. -/
def ReadItem.Reads (readItem : ReadItem) (item : FormatItem) (t : Text) (fits : Prop)
    (set : Parsed → Parsed) : Prop :=
  ∀ p s, readItem item p (t ++ s) = some (set p, s) ∨
    ¬ fits ∧ readItem item p (t ++ s) = none

/-- No digit comes next. -/
def AtNoDigit (s : Text) : Prop := ∀ c rest, s = c :: rest → digit c = none

/-- Documented behaviour of the items without modifiers. A number has all its
digits, a literal is itself, and a fraction of a second is as long as its digits
go on, up to nine of them. -/
structure ReadItem.Documented (readItem : ReadItem) : Prop where
  year (n : Fin 10000) : readItem.Reads .year (fourDigits n) True (·.setYear n)
  month (n : Fin 100) :
    readItem.Reads .month (twoDigits n) (1 ≤ n.val ∧ n.val ≤ 12) (·.setMonth n)
  day (n : Fin 100) : readItem.Reads .day (twoDigits n) (1 ≤ n.val ∧ n.val ≤ 31) (·.setDay n)
  hour (n : Fin 100) : readItem.Reads .hour (twoDigits n) (n.val ≤ 23) (·.setHour n)
  minute (n : Fin 100) : readItem.Reads .minute (twoDigits n) (n.val ≤ 59) (·.setMinute n)
  second (n : Fin 100) : readItem.Reads .second (twoDigits n) (n.val ≤ 59) (·.setSecond n)
  subsecond (f : Numeral) (hShort : f.digits.length ≤ 9) (p : Parsed) {s : Text}
    (hEnd : AtNoDigit s) : readItem (.subsecond none) p (f.text ++ s) =
      some (p.setSubsecond (nanosOf (some f)), s)
  literal (c : Char) (p : Parsed) (s : Text) : readItem (.literal c) p (c :: s) = some (p, s)
  literal_other (c : Char) (p : Parsed) {s : Text} (hOther : s.head? ≠ some c) :
    readItem (.literal c) p s = none

/-- Each item goes on from what the one before it has left. -/
def ReadItem.readAll (readItem : ReadItem) : List FormatItem → Parsed → Text →
    Option (Parsed × Text)
  | [], p, s => some (p, s)
  | item :: items, p, s =>
    (readItem item p s).bind fun r => readItem.readAll items r.1 r.2

/-- Documented behaviour: the standard format has an optional fraction and
needs a zone. A description is matched item by item, up to the end of the text,
and what its items have read makes up a date-time if it is a date and a time of
day. Leap seconds are left out. -/
structure TimeCrate.Documented (T : TimeCrate) where
  /-- The date-time with the given fields. -/
  civil : DateTimeFields → Option T.PrimitiveDateTime
  civil_isSome (f : DateTimeFields) : (civil f).isSome ↔ f.InRange
  /-- The offset of a zone. -/
  offset : Zone → Option T.UtcOffset
  offset_isSome (z : Zone) (h : z.Lexical) : (offset z).isSome
  offset_utc : offset .utc = some T.utc
  iso8601 (s : DateTimeShape) (h : s.second.val ≠ 60) : T.parseIso8601 s.text =
    s.zone.bind fun z => (civil s.fields).bind fun p => (offset z).map fun o => T.assumeOffset p o
  readItem : ReadItem
  item : readItem.Documented
  /-- The date-time of the components. -/
  build : Parsed → Option T.PrimitiveDateTime
  build_of (f : DateTimeFields) : build (.of f) = civil f
  primitive (s : Text) (format : List FormatItem) : T.parsePrimitive s format =
    (readItem.readAll format .new s).bind fun r => if r.2 = [] then build r.1 else none

/-- What an item writes for a local time and an offset in minutes: two digits,
or four for a year. A fraction is cut to its digits, and the sign is that of the
whole offset. -/
inductive FormatItem.Writes (f : DateTimeFields) (minutes : Int) : FormatItem → Text → Prop where
  | year : Writes f minutes .year (fourDigits f.year)
  | month : Writes f minutes .month (twoDigits f.month)
  | day : Writes f minutes .day (twoDigits f.day)
  | hour : Writes f minutes .hour (twoDigits f.hour)
  | minute : Writes f minutes .minute (twoDigits f.minute)
  | second : Writes f minutes .second (twoDigits f.second)
  | subsecond (count : Nat) (hCount : 1 ≤ count ∧ count ≤ 9) :
      Writes f minutes (.subsecond (some count))
        ((Decimal.digits count (f.nanos / 10 ^ (9 - count))).map digitChar)
  | offsetHour : Writes f minutes (.offsetHour true)
      ((if minutes < 0 then '-' else '+') :: twoDigits (Fin.ofNat 100 (minutes.natAbs / 60)))
  | offsetMinute : Writes f minutes .offsetMinute
      (twoDigits (Fin.ofNat 100 (minutes.natAbs % 60)))
  | literal (c : Char) : Writes f minutes (.literal c) [c]

section Reading

variable {readItem : ReadItem}

/-- What is made of the rest of a description does not depend on whether an item
refuses a number, if nothing is made of such a number. -/
theorem ReadItem.Reads.bind_eq {item : FormatItem} {t : Text} {fits : Prop} {set : Parsed → Parsed}
    {α : Type} (hReads : readItem.Reads item t fits set) {items : List FormatItem} {p : Parsed}
    {s : Text} {k : Parsed × Text → Option α} {result : Option α} (hOut : ¬ fits → result = none)
    (hRest : (readItem.readAll items (set p) s).bind k = result) :
    (readItem.readAll (item :: items) p (t ++ s)).bind k = result := by
  rcases hReads p s with hRead | ⟨hUnfit, hRead⟩
  · rw [ReadItem.readAll, hRead]
    exact hRest
  · rw [ReadItem.readAll, hRead, hOut hUnfit]
    rfl

/-- A literal that is there is passed. -/
theorem ReadItem.Documented.literal_bind (h : readItem.Documented) {items : List FormatItem}
    {p : Parsed} {c : Char} {s : Text} {α : Type} {k : Parsed × Text → Option α}
    {result : Option α} (hRest : (readItem.readAll items p s).bind k = result) :
    (readItem.readAll (.literal c :: items) p (c :: s)).bind k = result := by
  rw [ReadItem.readAll, h.literal]
  exact hRest

end Reading

/-- A zone does not start with a digit. -/
theorem zoneText_atNoDigit (z : Option Zone) : AtNoDigit (zoneText z) := by
  intro c rest h
  cases z with
  | none => cases h
  | some z =>
      cases z with
      | utc =>
          obtain ⟨rfl, -⟩ := List.cons.inj h
          decide
      | offset negative hour minute =>
          cases negative with
          | false =>
              obtain ⟨rfl, -⟩ := List.cons.inj h
              decide
          | true =>
              obtain ⟨rfl, -⟩ := List.cons.inj h
              decide

/-- Nor with a decimal point, so a fraction that is missing is noticed at once. -/
theorem zoneText_head (z : Option Zone) : (zoneText z).head? ≠ some '.' := by
  cases z with
  | none => simp [zoneText]
  | some z =>
      cases z with
      | utc => simp [zoneText, Zone.text]
      | offset negative hour minute => cases negative <;> simp [zoneText, Zone.text]

/-- Only a zone that is missing leaves nothing to read. -/
theorem zoneText_eq_nil {z : Option Zone} : zoneText z = [] ↔ z = none := by
  cases z with
  | none => simp [zoneText]
  | some z => cases z <;> simp [zoneText, Zone.text]

/-- The description without a zone takes a date-time apart into its fields. Its
fraction is not optional, and nothing may follow it. -/
theorem TimeCrate.Documented.parsePrimitive_naive {T : TimeCrate} (D : T.Documented)
    (s : DateTimeShape) : T.parsePrimitive s.text DateTime.naive =
      if s.zone = none ∧ s.fraction ≠ none then D.civil s.fields else none := by
  -- a number out of its range makes no date-time on either side
  have hOut : ∀ fits : Prop, (s.fields.InRange → fits) → ¬ fits →
      (if s.zone = none ∧ s.fraction ≠ none then D.civil s.fields else none) = none := by
    intro fits hFits hUnfit
    have hNone : D.civil s.fields = none := by
      rw [← Option.not_isSome_iff_eq_none, D.civil_isSome]
      exact fun hRange => hUnfit (hFits hRange)
    rw [hNone, ite_self]
  have hDays : daysIn s.fields.year.val s.fields.month.val ≤ 31 := by
    unfold daysIn
    split_ifs <;> decide
  have hItem := D.item
  rw [D.primitive, DateTimeShape.text, DateTime.naive]
  refine (hItem.year s.year).bind_eq (hOut True fun _ => trivial) ?_
  refine hItem.literal_bind ?_
  refine (hItem.month s.month).bind_eq (hOut _ fun h => ⟨h.1, h.2.1⟩) ?_
  refine hItem.literal_bind ?_
  refine (hItem.day s.day).bind_eq
    (hOut _ fun h => ⟨h.2.2.1, Nat.le_trans h.2.2.2.1 hDays⟩) ?_
  refine hItem.literal_bind ?_
  refine (hItem.hour s.hour).bind_eq (hOut _ fun h => h.2.2.2.2.1) ?_
  refine hItem.literal_bind ?_
  refine (hItem.minute s.minute).bind_eq (hOut _ fun h => h.2.2.2.2.2.1) ?_
  refine hItem.literal_bind ?_
  refine (hItem.second s.second).bind_eq (hOut _ fun h => h.2.2.2.2.2.2) ?_
  cases hFraction : s.fraction with
  | none =>
      have hHead : (fractionText none ++ zoneText s.zone).head? ≠ some '.' := zoneText_head s.zone
      rw [ReadItem.readAll, hItem.literal_other '.' _ hHead]
      simp
  | some f =>
      have hText : fractionText (some f) ++ zoneText s.zone =
          '.' :: (f.text ++ zoneText s.zone) := rfl
      rw [hText]
      refine hItem.literal_bind ?_
      have hShort : f.digits.length ≤ 9 := s.short f hFraction
      have hNanos : nanosOf (some f) = s.fields.nanos := by rw [DateTimeShape.fields, hFraction]
      rw [ReadItem.readAll, hItem.subsecond f hShort _ (zoneText_atNoDigit s.zone), hNanos]
      simp only [Option.bind_some, ReadItem.readAll, zoneText_eq_nil, ne_eq, reduceCtorEq,
        not_false_eq_true, and_true, ← D.build_of, ← Parsed.set_all]
      rfl

end PwshHost
