import PwshHost.Rust.Std

/-! Date-time and duration decoding. The crates that read the formats are
parameters; the choice of formats and the order of the attempts are not. -/
namespace PwshHost

open Xml (Text)
open Rust

/-- One item of a format description. -/
inductive FormatItem where
  | year
  | month
  | day
  | hour
  | minute
  | second
  | subsecond (digits : Option Nat)
  | offsetHour (signMandatory : Bool)
  | offsetMinute
  | literal (c : Char)
  deriving DecidableEq, Repr

structure TimeCrate where
  OffsetDateTime : Type
  PrimitiveDateTime : Type
  UtcOffset : Type
  utc : UtcOffset
  /-- `OffsetDateTime::parse` with `Iso8601::DEFAULT`. -/
  parseIso8601 : Text → Option OffsetDateTime
  /-- `PrimitiveDateTime::parse` with a format description. -/
  parsePrimitive : Text → List FormatItem → Option PrimitiveDateTime
  assumeOffset : PrimitiveDateTime → UtcOffset → OffsetDateTime
  format : OffsetDateTime → List FormatItem → Option Text

structure DurationCrate where
  Iso8601Duration : Type
  parse : Text → Option Iso8601Duration
  /-- `none` stands for the panic of `Duration::from_secs_f32`. -/
  toStd : Iso8601Duration → Option Duration

structure DateTime (T : TimeCrate) where
  inner : T.OffsetDateTime

namespace DateTime

variable {T : TimeCrate}

/-- The format tried when there is no time zone. -/
def naive : List FormatItem :=
  [.year, .literal '-', .month, .literal '-', .day, .literal 'T', .hour, .literal ':', .minute,
    .literal ':', .second, .literal '.', .subsecond none]

def parse (T : TimeCrate) (input : Text) : Option (DateTime T) :=
  match T.parseIso8601 input with
  | some inner => some ⟨inner⟩
  | none =>
    match T.parsePrimitive input naive with
    | some primitive => some ⟨T.assumeOffset primitive T.utc⟩
    | none => none

/-- The format of `format`. -/
def full : List FormatItem :=
  [.year, .literal '-', .month, .literal '-', .day, .literal 'T', .hour, .literal ':', .minute,
    .literal ':', .second, .literal '.', .subsecond (some 7), .offsetHour true, .literal ':',
    .offsetMinute]

def format {ε : Type} (d : DateTime T) : Except (Panic ε) Text := unwrap (T.format d.inner full)

end DateTime

def parseIso8601Duration {ε : Type} (D : DurationCrate) (input : Text) :
    Except (Panic ε) (Option Duration) :=
  match D.parse input with
  | none => .ok none
  | some x => match D.toStd x with
    | some duration => .ok (some duration)
    | none => .error .overflow

end PwshHost
