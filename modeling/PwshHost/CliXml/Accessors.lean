import PwshHost.CliXml.EveryText

/-! Integers of the values. Each of the accessors answers for the types that its
own is a widening of. -/
namespace PwshHost.CliXml

open Xml (Text)
open Rust

inductive IntType where
  | u8
  | i8
  | u16
  | i16
  | u32
  | i32
  | u64
  | i64
  deriving DecidableEq, Repr

namespace IntType

def signed : IntType → Bool
  | .i8 | .i16 | .i32 | .i64 => true
  | _ => false

def bits : IntType → Nat
  | .u8 | .i8 => 8
  | .u16 | .i16 => 16
  | .u32 | .i32 => 32
  | .u64 | .i64 => 64

def lo : IntType → Int
  | .i8 => -128
  | .i16 => -32768
  | .i32 => -2147483648
  | .i64 => -9223372036854775808
  | _ => 0

def hi : IntType → Int
  | .u8 => 255
  | .i8 => 127
  | .u16 => 65535
  | .i16 => 32767
  | .u32 => 4294967295
  | .i32 => 2147483647
  | .u64 => 18446744073709551615
  | .i64 => 9223372036854775807

theorem lo_le_hi (t : IntType) : t.lo ≤ t.hi := by cases t <;> decide

/-- A number that is wrapped around is in the range of its type. -/
theorem wrap_mem (t : IntType) (i : Int) :
    t.lo ≤ t.lo + (i - t.lo) % (t.hi - t.lo + 1) ∧
      t.lo + (i - t.lo) % (t.hi - t.lo + 1) ≤ t.hi := by
  have hRange := t.lo_le_hi
  have hLow := Int.emod_nonneg (i - t.lo) (b := t.hi - t.lo + 1) (by omega)
  have hHigh := Int.emod_lt_of_pos (i - t.lo) (b := t.hi - t.lo + 1) (by omega)
  omega

/-- The operator `as`: the value with only the bits of the type. -/
def wrap (t : IntType) (i : Int) : Bounded t.lo t.hi :=
  ⟨t.lo + (i - t.lo) % (t.hi - t.lo + 1), t.wrap_mem i⟩

/-- A number in the range is not changed. -/
theorem wrap_of_mem {t : IntType} {i : Int} (hLow : t.lo ≤ i) (hHigh : i ≤ t.hi) :
    (t.wrap i).val = i := by
  have hRest : (i - t.lo) % (t.hi - t.lo + 1) = i - t.lo :=
    Int.emod_eq_of_lt (by omega) (by omega)
  change t.lo + (i - t.lo) % (t.hi - t.lo + 1) = i
  rw [hRest]
  omega

/-- Every value of the first type is one of the second, of the same signedness. -/
def WidensTo (s t : IntType) : Prop := s.signed = t.signed ∧ s.bits ≤ t.bits

instance (s t : IntType) : Decidable (WidensTo s t) := inferInstanceAs (Decidable (_ ∧ _))

/-- The type that is widened to has all the numbers. -/
theorem WidensTo.range {s t : IntType} (h : WidensTo s t) : t.lo ≤ s.lo ∧ s.hi ≤ t.hi := by
  revert h
  cases s <;> cases t <;> decide

/-- So widening keeps the number. -/
theorem wrap_widens {s t : IntType} (h : WidensTo s t) (i : Bounded s.lo s.hi) :
    (t.wrap i.val).val = i.val :=
  wrap_of_mem (Int.le_trans h.range.1 i.property.1) (Int.le_trans i.property.2 h.range.2)

/-- The leaf elements of the type. -/
def leafKind : IntType → LeafKind
  | .u8 => .uint8
  | .i8 => .int8
  | .u16 => .uint16
  | .i16 => .int16
  | .u32 => .uint32
  | .i32 => .int32
  | .u64 => .uint64
  | .i64 => .int64

end IntType

variable {E : Crates}

namespace CliValue

def asU8 : CliValue E → Option U8
  | .cliUInt8 prop => some prop.value
  | _ => none

def asI8 : CliValue E → Option I8
  | .cliInt8 prop => some prop.value
  | _ => none

def asU16 : CliValue E → Option U16
  | .cliUInt8 prop => some (IntType.u16.wrap prop.value.val)
  | .cliUInt16 prop => some prop.value
  | _ => none

def asI16 : CliValue E → Option I16
  | .cliInt8 prop => some (IntType.i16.wrap prop.value.val)
  | .cliInt16 prop => some prop.value
  | _ => none

def asU32 : CliValue E → Option U32
  | .cliUInt8 prop => some (IntType.u32.wrap prop.value.val)
  | .cliUInt16 prop => some (IntType.u32.wrap prop.value.val)
  | .cliUInt32 prop => some prop.value
  | _ => none

def asI32 : CliValue E → Option I32
  | .cliInt8 prop => some (IntType.i32.wrap prop.value.val)
  | .cliInt16 prop => some (IntType.i32.wrap prop.value.val)
  | .cliInt32 prop => some prop.value
  | _ => none

def asU64 : CliValue E → Option U64
  | .cliUInt8 prop => some (IntType.u64.wrap prop.value.val)
  | .cliUInt16 prop => some (IntType.u64.wrap prop.value.val)
  | .cliUInt32 prop => some (IntType.u64.wrap prop.value.val)
  | .cliUInt64 prop => some prop.value
  | _ => none

def asI64 : CliValue E → Option I64
  | .cliInt8 prop => some (IntType.i64.wrap prop.value.val)
  | .cliInt16 prop => some (IntType.i64.wrap prop.value.val)
  | .cliInt32 prop => some (IntType.i64.wrap prop.value.val)
  | .cliInt64 prop => some prop.value
  | _ => none

/-- What the accessor of the type answers. -/
def asInt (val : CliValue E) : IntType → Option Int
  | .u8 => val.asU8.map Subtype.val
  | .i8 => val.asI8.map Subtype.val
  | .u16 => val.asU16.map Subtype.val
  | .i16 => val.asI16.map Subtype.val
  | .u32 => val.asU32.map Subtype.val
  | .i32 => val.asI32.map Subtype.val
  | .u64 => val.asU64.map Subtype.val
  | .i64 => val.asI64.map Subtype.val

/-- The integer that a value holds, with its type. -/
def integer : CliValue E → Option (IntType × Int)
  | .cliUInt8 prop => some (.u8, prop.value.val)
  | .cliInt8 prop => some (.i8, prop.value.val)
  | .cliUInt16 prop => some (.u16, prop.value.val)
  | .cliInt16 prop => some (.i16, prop.value.val)
  | .cliUInt32 prop => some (.u32, prop.value.val)
  | .cliInt32 prop => some (.i32, prop.value.val)
  | .cliUInt64 prop => some (.u64, prop.value.val)
  | .cliInt64 prop => some (.i64, prop.value.val)
  | _ => none

/-- An accessor answers with the integer if its type is wide enough. -/
theorem asInt_eq (val : CliValue E) (t : IntType) :
    val.asInt t = val.integer.bind fun held => if held.1.WidensTo t then some held.2 else none := by
  have hWide : ∀ {s : IntType} (i : Bounded s.lo s.hi), s.WidensTo t →
      some (t.wrap i.val).val = some i.val := fun i h => congrArg some (IntType.wrap_widens h i)
  cases val with
  | cliUInt8 prop => cases t with
    | u16 | u32 | u64 => exact hWide (s := .u8) prop.value (by decide)
    | _ => rfl
  | cliInt8 prop => cases t with
    | i16 | i32 | i64 => exact hWide (s := .i8) prop.value (by decide)
    | _ => rfl
  | cliUInt16 prop => cases t with
    | u32 | u64 => exact hWide (s := .u16) prop.value (by decide)
    | _ => rfl
  | cliInt16 prop => cases t with
    | i32 | i64 => exact hWide (s := .i16) prop.value (by decide)
    | _ => rfl
  | cliUInt32 prop => cases t with
    | u64 => exact hWide (s := .u32) prop.value (by decide)
    | _ => rfl
  | cliInt32 prop => cases t with
    | i64 => exact hWide (s := .i32) prop.value (by decide)
    | _ => rfl
  | _ => cases t <;> rfl

/-- An integer value holds what its text is parsed to, in the range of its type. -/
theorem integer_of_spelled {s : IntType} {val : CliValue E} {txt : Text}
    (hKind : val.leafKind = some s.leafKind) (hSpelled : val.SpelledBy txt) :
    ∃ i : Bounded s.lo s.hi, parseInt s.lo s.hi txt = some i ∧ val.integer = some (s, i.val) := by
  cases s <;> cases val <;> first | exact ⟨_, hSpelled, rfl⟩ | cases hKind

end CliValue

/-- An integer in the text of an element comes out of the accessors of the
element's type and of the wider ones of its signedness, and of no others. -/
theorem integers_read_back {ε : Type} {s : IntType} {name : Option Text} {txt : Text}
    {val : CliValue E}
    (h : (s.leafKind.decode E name txt : Except (Panic ε) (CliValue E)) = .ok val) :
    ∃ i : Bounded s.lo s.hi, parseInt s.lo s.hi txt = some i ∧
      ∀ t, val.asInt t = if s.WidensTo t then some i.val else none := by
  obtain ⟨hKind, -, hSpelled⟩ := decode_ok h
  obtain ⟨i, hParse, hInteger⟩ := CliValue.integer_of_spelled hKind hSpelled
  refine ⟨i, hParse, fun t => ?_⟩
  rw [CliValue.asInt_eq, hInteger]
  rfl

theorem integers_read_back_byte :
    ∃ i : Bounded IntType.u8.lo IntType.u8.hi,
      parseInt IntType.u8.lo IntType.u8.hi ['2', '0', '0'] = some i ∧
        ∀ t, (CliValue.cliUInt8 ⟨⟨200, by decide⟩, none⟩ : CliValue textCrates).asInt t =
          if IntType.u8.WidensTo t then some i.val else none :=
  have hDecode : (IntType.u8.leafKind.decode textCrates none ['2', '0', '0'] :
      Except (Panic Unit) (CliValue textCrates)) = .ok (.cliUInt8 ⟨⟨200, by decide⟩, none⟩) := rfl
  integers_read_back hDecode

end PwshHost.CliXml
