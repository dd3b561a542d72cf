import PwshHost.Time.Description

/-! Crates over fields of digits that behave as documented. -/
namespace PwshHost

open Xml (Text)
open Rust

def readDigit (c : Char) : Option (Fin 10) :=
  (digit c).bind fun n => if h : n < 10 then some ⟨n, h⟩ else none

/-- A digit is read as it is written. -/
theorem readDigit_digitChar (d : Fin 10) : readDigit (digitChar d) = some d := by
  revert d
  decide

/-- The longest run of digits at the front. -/
def readDigits : Text → List (Fin 10) × Text
  | [] => ([], [])
  | c :: s =>
    match readDigit c with
    | some d => ((d :: (readDigits s).1), (readDigits s).2)
    | none => ([], c :: s)

/-- The run ends where no digit comes next. -/
theorem readDigits_append (l : List (Fin 10)) {s : Text} (h : AtNoDigit s) :
    readDigits (l.map digitChar ++ s) = (l, s) := by
  induction l with
  | nil =>
      cases s with
      | nil => rfl
      | cons c rest =>
          have hNone : readDigit c = none := by rw [readDigit, h c rest rfl]; rfl
          simp [readDigits, hNone]
  | cons d l ih => simp [readDigits, readDigit_digitChar, ih]

def readTwo : Text → Option (Fin 100 × Text)
  | a :: b :: s => do
    let a ← readDigit a
    let b ← readDigit b
    return (⟨10 * a.val + b.val, by omega⟩, s)
  | _ => none

/-- Two digits with a leading zero where it is needed, as for months and hours. -/
theorem readTwo_twoDigits (n : Fin 100) (s : Text) : readTwo (twoDigits n ++ s) = some (n, s) := by
  have hValue : 10 * (n.val / 10) + n.val % 10 = n.val := Nat.div_add_mod n.val 10
  simp [readTwo, twoDigits, readDigit_digitChar, hValue]

def readFour : Text → Option (Fin 10000 × Text)
  | a :: b :: c :: d :: s => do
    let a ← readDigit a
    let b ← readDigit b
    let c ← readDigit c
    let d ← readDigit d
    return (⟨1000 * a.val + 100 * b.val + 10 * c.val + d.val, by omega⟩, s)
  | _ => none

/-- Years are written with all four digits, so that nothing after them is taken for
one. -/
theorem readFour_fourDigits (n : Fin 10000) (s : Text) :
    readFour (fourDigits n ++ s) = some (n, s) := by
  have hValue : 1000 * (n.val / 1000) + 100 * (n.val / 100 % 10) + 10 * (n.val / 10 % 10) +
      n.val % 10 = n.val := by omega
  simp [readFour, fourDigits, readDigit_digitChar, hValue]

def readLiteral (l : Char) : Text → Option Text
  | c :: s => if c = l then some s else none
  | [] => none

@[simp] theorem readLiteral_cons (l : Char) (s : Text) : readLiteral l (l :: s) = some s := by
  simp [readLiteral]

def readFraction (s : Text) : Option (Option Numeral × Text) :=
  match s with
  | '.' :: s =>
    if h : (readDigits s).1 ≠ [] then some (some ⟨(readDigits s).1, h⟩, (readDigits s).2) else none
  | s => some (none, s)

def readZone : Text → Option (Option Zone)
  | [] => some none
  | ['Z'] => some (some .utc)
  | c :: s => do
    let negative ← if c = '-' then some true else if c = '+' then some false else none
    let (hour, s) ← readTwo s
    let s ← readLiteral ':' s
    let (minute, s) ← readTwo s
    if s = [] then some (some (.offset negative hour minute)) else none

/-- No zone, the letter `Z` and an offset with a sign are told apart by how they
start. -/
theorem readZone_zoneText (z : Option Zone) : readZone (zoneText z) = some z := by
  cases z with
  | none => rfl
  | some z =>
      cases z with
      | utc => rfl
      | offset negative hour minute =>
          have hMinute : readTwo (twoDigits minute) = some (minute, []) := by
            simpa using readTwo_twoDigits minute []
          cases negative <;>
            simp [zoneText, Zone.text, readZone, readTwo_twoDigits, hMinute]

/-- A fraction is one where a decimal point stands, and goes up to the zone. -/
theorem readFraction_text (f : Option Numeral) (z : Option Zone) :
    readFraction (fractionText f ++ zoneText z) = some (f, zoneText z) := by
  cases f with
  | some f =>
      have hDigits : readDigits (f.text ++ zoneText z) = (f.digits, zoneText z) :=
        readDigits_append f.digits (zoneText_atNoDigit z)
      have hNonempty := f.nonempty
      simp [fractionText, readFraction, hDigits, hNonempty]
  | none =>
      cases z with
      | none => rfl
      | some z =>
          cases z with
          | utc => rfl
          | offset negative hour minute => cases negative <;> rfl

/-- Read a text of the shape of a date-time. -/
def readShape (s : Text) : Option DateTimeShape := do
  let (year, s) ← readFour s
  let s ← readLiteral '-' s
  let (month, s) ← readTwo s
  let s ← readLiteral '-' s
  let (day, s) ← readTwo s
  let s ← readLiteral 'T' s
  let (hour, s) ← readTwo s
  let s ← readLiteral ':' s
  let (minute, s) ← readTwo s
  let s ← readLiteral ':' s
  let (second, s) ← readTwo s
  let (fraction, s) ← readFraction s
  let zone ← readZone s
  if h : ∀ f ∈ fraction, f.digits.length ≤ 9 then
    some ⟨year, month, day, hour, minute, second, fraction, h, zone⟩
  else none

/-- Item by item, a date-time is read back from its text. -/
theorem readShape_text (s : DateTimeShape) : readShape s.text = some s := by
  have step {α : Type} {x : Option α} {a : α} {k : α → Option DateTimeShape}
      (h : x = some a) (hRest : k a = some s) : x >>= k = some s := by
    rw [h]
    exact hRest
  unfold readShape DateTimeShape.text
  apply step (readFour_fourDigits _ _)
  apply step (readLiteral_cons _ _)
  apply step (readTwo_twoDigits _ _)
  apply step (readLiteral_cons _ _)
  apply step (readTwo_twoDigits _ _)
  apply step (readLiteral_cons _ _)
  apply step (readTwo_twoDigits _ _)
  apply step (readLiteral_cons _ _)
  apply step (readTwo_twoDigits _ _)
  apply step (readLiteral_cons _ _)
  apply step (readTwo_twoDigits _ _)
  apply step (readFraction_text _ _)
  apply step (readZone_zoneText _)
  exact dif_pos s.short

def Zone.minutes : Zone → Int
  | .utc => 0
  | .offset negative hour minute =>
    if negative then -(60 * hour.val + minute.val : Int) else 60 * hour.val + minute.val

/-- Whole offsets of less than a day. -/
def Zone.check : Zone → Option Int
  | .utc => some 0
  | .offset negative hour minute =>
    if hour.val ≤ 23 ∧ minute.val ≤ 59 then some (Zone.offset negative hour minute).minutes
    else none

/-- Offsets that the schema allows are less than a day. -/
theorem Zone.check_isSome {z : Zone} (h : z.Lexical) : z.check.isSome := by
  cases z with
  | utc => rfl
  | offset negative hour minute =>
      have hRange : hour.val ≤ 23 ∧ minute.val ≤ 59 := ⟨by have := h.1; omega, h.2.1⟩
      simp [Zone.check, hRange]

def DateTimeFields.check (f : DateTimeFields) : Option DateTimeFields :=
  if f.InRange then some f else none

/-- Fields are accepted if they are a date of the calendar and a time of day. -/
theorem DateTimeFields.check_isSome (f : DateTimeFields) : f.check.isSome ↔ f.InRange := by
  unfold check
  split <;> simp_all

instance hundredNeZero : @NeZero Nat Zero.ofOfNat0 100 := ⟨Nat.succ_ne_zero 99⟩

/-- At most nine digits, and at least one. -/
def readSubsecond (s : Text) : Option (Numeral × Text) :=
  if h : (readDigits s).1.take 9 ≠ [] then
    some (⟨(readDigits s).1.take 9, h⟩, s.drop ((readDigits s).1.take 9).length)
  else none

/-- Of up to nine digits none is left over for what comes next. -/
theorem readSubsecond_text (f : Numeral) (hShort : f.digits.length ≤ 9) {s : Text}
    (hEnd : AtNoDigit s) : readSubsecond (f.text ++ s) = some (f, s) := by
  have hDigits : readDigits (f.text ++ s) = (f.digits, s) := readDigits_append f.digits hEnd
  have hTake : f.digits.take 9 = f.digits := List.take_of_length_le hShort
  have hLength : f.digits.length = f.text.length := by simp [Numeral.text]
  have hNonempty := f.nonempty
  simp [readSubsecond, hDigits, hTake, hNonempty, hLength]

/-- The items that a date and a time of day are made of. -/
def readFieldItem : ReadItem
  | .year, p, s => (readFour s).map fun r => (p.setYear r.1, r.2)
  | .month, p, s => (readTwo s).map fun r => (p.setMonth r.1, r.2)
  | .day, p, s => (readTwo s).map fun r => (p.setDay r.1, r.2)
  | .hour, p, s => (readTwo s).map fun r => (p.setHour r.1, r.2)
  | .minute, p, s => (readTwo s).map fun r => (p.setMinute r.1, r.2)
  | .second, p, s => (readTwo s).map fun r => (p.setSecond r.1, r.2)
  | .subsecond none, p, s =>
    (readSubsecond s).map fun r => (p.setSubsecond (nanosOf (some r.1)), r.2)
  | .literal c, p, s => (readLiteral c s).map fun rest => (p, rest)
  | _, _, _ => none

/-- The concrete items read digits and literals as the laws for a description say. -/
theorem readFieldItem_documented : readFieldItem.Documented where
  year n p s := .inl (by simp [readFieldItem, readFour_fourDigits])
  month n p s := .inl (by simp [readFieldItem, readTwo_twoDigits])
  day n p s := .inl (by simp [readFieldItem, readTwo_twoDigits])
  hour n p s := .inl (by simp [readFieldItem, readTwo_twoDigits])
  minute n p s := .inl (by simp [readFieldItem, readTwo_twoDigits])
  second n p s := .inl (by simp [readFieldItem, readTwo_twoDigits])
  subsecond f hShort p s hEnd := by
    simp [readFieldItem, readSubsecond_text f hShort hEnd]
  literal c p s := by simp [readFieldItem]
  literal_other c p s hOther := by
    cases s with
    | nil => rfl
    | cons d rest =>
        have hDiffers : d ≠ c := by
          rintro rfl
          exact hOther rfl
        simp [readFieldItem, readLiteral, hDiffers]

/-- The date-time of the components, if none is missing. -/
def Parsed.check (p : Parsed) : Option DateTimeFields := do
  let year ← p.year
  let month ← p.month
  let day ← p.day
  let hour ← p.hour
  let minute ← p.minute
  let second ← p.second
  let nanos ← p.subsecond
  DateTimeFields.check ⟨year, month, day, hour, minute, second, nanos⟩

/-- What an item writes. -/
def writeFieldItem (f : DateTimeFields) (minutes : Int) : FormatItem → Text
  | .year => fourDigits f.year
  | .month => twoDigits f.month
  | .day => twoDigits f.day
  | .hour => twoDigits f.hour
  | .minute => twoDigits f.minute
  | .second => twoDigits f.second
  | .subsecond count =>
    (Decimal.digits (count.getD 9) (f.nanos / 10 ^ (9 - count.getD 9))).map digitChar
  | .offsetHour _ =>
    (if minutes < 0 then '-' else '+') :: twoDigits (Fin.ofNat 100 (minutes.natAbs / 60))
  | .offsetMinute => twoDigits (Fin.ofNat 100 (minutes.natAbs % 60))
  | .literal c => [c]

/-- Date-times are their fields, offsets their minutes. -/
def fieldTime : TimeCrate where
  OffsetDateTime := DateTimeFields × Int
  PrimitiveDateTime := DateTimeFields
  UtcOffset := Int
  utc := 0
  parseIso8601 s := do
    let shape ← readShape s
    let zone ← shape.zone
    let fields ← shape.fields.check
    let offset ← zone.check
    return (fields, offset)
  parsePrimitive s format :=
    (readFieldItem.readAll format .new s).bind fun r => if r.2 = [] then r.1.check else none
  assumeOffset fields offset := (fields, offset)
  format d format := some (format.flatMap (writeFieldItem d.1 d.2))

def fieldTime_documented : fieldTime.Documented where
  civil := DateTimeFields.check
  civil_isSome f := f.check_isSome
  offset := Zone.check
  offset_isSome _ := Zone.check_isSome
  offset_utc := rfl
  iso8601 s _ := by
    simp only [fieldTime, readShape_text, Option.bind_eq_bind, Option.bind_some]
    cases s.zone with
    | none => rfl
    | some z =>
        cases s.fields.check with
        | none => rfl
        | some p =>
            simp only [Option.bind_some]
            cases z.check <;> rfl
  readItem := readFieldItem
  item := readFieldItem_documented
  build := Parsed.check
  build_of _ := rfl
  primitive _ _ := rfl

/-- Durations are their texts. Only whole seconds have a length. -/
def textDuration : DurationCrate where
  Iso8601Duration := Text
  parse s := if s.head? = some 'P' then some s else none
  toStd
    | 'P' :: 'T' :: s => do
      if s.getLast? = some 'S' then
        let secs ← (parseNat s.dropLast).bind fun n => Bounded.ofInt 0 18446744073709551615 n
        return ⟨secs, ⟨0, by decide⟩⟩
      else none
    | _ => none

/-- A duration starts with `P`, and a sign in front of it is refused. -/
theorem textDuration_documented : textDuration.Documented where
  unsigned _ := rfl
  signed _ := rfl

def zeroSeconds : DurationText where
  negative := false
  years := none
  months := none
  days := none
  hours := none
  minutes := none
  seconds := some (⟨[0], List.cons_ne_nil _ _⟩, none)
  some_component := .inr (.inr (.inr (.inr (.inr rfl))))

end PwshHost
