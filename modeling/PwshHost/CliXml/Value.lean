import PwshHost.Time

/-! The values a CLIXML document decodes to, and the decoders of the leaf
elements. The 22 leaf types are instances of one pair of a value and a name. -/
namespace PwshHost.CliXml

open Xml (Text)
open Rust

/-- The crates that decode leaf texts. -/
structure Crates where
  F32 : Type
  F64 : Type
  D128 : Type
  Uuid : Type
  Url : Type
  time : TimeCrate
  duration : DurationCrate
  parseF32 : Text → Option F32
  parseF64 : Text → Option F64
  parseD128 : Text → Option D128
  base64Decode : Text → Option (List U8)
  uuidParseStr : Text → Option Uuid
  urlParse : Text → Option Url

/-- Crates under which a text stands for itself. -/
def textCrates : Crates where
  F32 := Text
  F64 := Text
  D128 := Text
  Uuid := Text
  Url := Text
  time :=
    { OffsetDateTime := Text
      PrimitiveDateTime := Text
      UtcOffset := Unit
      utc := ()
      parseIso8601 := some
      parsePrimitive := fun s _ => some s
      assumeOffset := fun s _ => s
      format := fun s _ => some s }
  duration := { Iso8601Duration := Unit, parse := fun _ => none, toStd := fun _ => none }
  parseF32 := some
  parseF64 := some
  parseD128 := some
  base64Decode _ := none
  uuidParseStr := some
  urlParse := some

/-- A decoded leaf: its value and the name in its `N` attribute. -/
structure Leaf (α : Type) where
  value : α
  name : Option Text
  deriving DecidableEq

def Leaf.new {α : Type} (name : Option Text) (value : α) : Leaf α := ⟨value, name⟩

/-- The common shape of the `new_from_str` functions. -/
def Leaf.newFromStr {α : Type} (parse : Text → Option α) (name : Option Text) (value : Text) :
    Option (Leaf α) :=
  (parse value).map (Leaf.new name)

structure CliNull where
  name : Option Text
  deriving DecidableEq

def CliNull.new (name : Option Text) : CliNull := ⟨name⟩

abbrev CliString := Leaf Text
abbrev CliChar := Leaf Char
abbrev CliBool := Leaf Bool
abbrev CliDateTime (E : Crates) := Leaf (DateTime E.time)
abbrev CliDuration := Leaf Duration
abbrev CliUInt8 := Leaf U8
abbrev CliInt8 := Leaf I8
abbrev CliUInt16 := Leaf U16
abbrev CliInt16 := Leaf I16
abbrev CliUInt32 := Leaf U32
abbrev CliInt32 := Leaf I32
abbrev CliUInt64 := Leaf U64
abbrev CliInt64 := Leaf I64
abbrev CliFloat (E : Crates) := Leaf E.F32
abbrev CliDouble (E : Crates) := Leaf E.F64
abbrev CliDecimal (E : Crates) := Leaf E.D128
abbrev CliBuffer := Leaf (List U8)
abbrev CliGuid (E : Crates) := Leaf E.Uuid
abbrev CliUri (E : Crates) := Leaf E.Url
abbrev CliVersion := Leaf Text
abbrev CliXmlDocument := Leaf Text
abbrev CliScriptBlock := Leaf Text

mutual

structure CliObject (E : Crates) where
  name : Option Text
  values : List (CliValue E)
  refId : Option Text
  typeNames : List Text
  stringRepr : Option Text

inductive CliValue (E : Crates) where
  | cliObject (prop : CliObject E)
  | cliNull (prop : CliNull)
  | cliString (prop : CliString)
  | cliChar (prop : CliChar)
  | cliBool (prop : CliBool)
  | cliDateTime (prop : CliDateTime E)
  | cliDuration (prop : CliDuration)
  | cliUInt8 (prop : CliUInt8)
  | cliInt8 (prop : CliInt8)
  | cliUInt16 (prop : CliUInt16)
  | cliInt16 (prop : CliInt16)
  | cliUInt32 (prop : CliUInt32)
  | cliInt32 (prop : CliInt32)
  | cliUInt64 (prop : CliUInt64)
  | cliInt64 (prop : CliInt64)
  | cliFloat (prop : CliFloat E)
  | cliDouble (prop : CliDouble E)
  | cliDecimal (prop : CliDecimal E)
  | cliBuffer (prop : CliBuffer)
  | cliGuid (prop : CliGuid E)
  | cliUri (prop : CliUri E)
  | cliVersion (prop : CliVersion)
  | cliXmlDocument (prop : CliXmlDocument)
  | cliScriptBlock (prop : CliScriptBlock)

end

variable {E : Crates}

@[simp] theorem CliObject.eta (o : CliObject E) :
    (⟨o.name, o.values, o.refId, o.typeNames, o.stringRepr⟩ : CliObject E) = o := by
  cases o
  rfl

/-- `CliObject::default`. -/
def CliObject.default : CliObject E := ⟨none, [], none, [], none⟩

def CliValue.getName : CliValue E → Option Text
  | .cliObject prop => prop.name
  | .cliNull prop => prop.name
  | .cliString prop | .cliVersion prop | .cliXmlDocument prop | .cliScriptBlock prop => prop.name
  | .cliChar prop => prop.name
  | .cliBool prop => prop.name
  | .cliDateTime prop => prop.name
  | .cliDuration prop => prop.name
  | .cliUInt8 prop => prop.name
  | .cliInt8 prop => prop.name
  | .cliUInt16 prop => prop.name
  | .cliInt16 prop => prop.name
  | .cliUInt32 prop => prop.name
  | .cliInt32 prop => prop.name
  | .cliUInt64 prop => prop.name
  | .cliInt64 prop => prop.name
  | .cliFloat prop => prop.name
  | .cliDouble prop => prop.name
  | .cliDecimal prop => prop.name
  | .cliBuffer prop => prop.name
  | .cliGuid prop => prop.name
  | .cliUri prop => prop.name

section Decoders

variable {ε : Type} (name : Option Text) (value : Text)

def CliBool.newFromStr : Option CliBool := Leaf.newFromStr parseBool name value

/-- A code unit is decoded on its own, so a surrogate has no character. -/
def CliChar.newFromStr : Except (Panic ε) (Option CliChar) :=
  match parseInt 0 65535 value with
  | none => .ok none
  | some unit => do
    let last ← unwrap (decodeUtf16 [unit]).getLast?
    match last with
    | .ok c => .ok (some (Leaf.new name c))
    | .error _ => .ok none

def CliDateTime.newFromStr (E : Crates) : Option (CliDateTime E) :=
  Leaf.newFromStr (DateTime.parse E.time) name value

def CliDuration.newFromStr (E : Crates) : Except (Panic ε) (Option CliDuration) := do
  let value ← parseIso8601Duration E.duration value
  return value.map (Leaf.new name)

def CliUInt8.newFromStr : Option CliUInt8 := Leaf.newFromStr (parseInt 0 255) name value

def CliInt8.newFromStr : Option CliInt8 := Leaf.newFromStr (parseInt (-128) 127) name value

def CliUInt16.newFromStr : Option CliUInt16 := Leaf.newFromStr (parseInt 0 65535) name value

def CliInt16.newFromStr : Option CliInt16 := Leaf.newFromStr (parseInt (-32768) 32767) name value

def CliUInt32.newFromStr : Option CliUInt32 := Leaf.newFromStr (parseInt 0 4294967295) name value

def CliInt32.newFromStr : Option CliInt32 :=
  Leaf.newFromStr (parseInt (-2147483648) 2147483647) name value

def CliUInt64.newFromStr : Option CliUInt64 :=
  Leaf.newFromStr (parseInt 0 18446744073709551615) name value

def CliInt64.newFromStr : Option CliInt64 :=
  Leaf.newFromStr (parseInt (-9223372036854775808) 9223372036854775807) name value

def CliFloat.newFromStr (E : Crates) : Option (CliFloat E) := Leaf.newFromStr E.parseF32 name value

def CliDouble.newFromStr (E : Crates) : Option (CliDouble E) :=
  Leaf.newFromStr E.parseF64 name value

def CliDecimal.newFromStr (E : Crates) : Option (CliDecimal E) :=
  Leaf.newFromStr E.parseD128 name value

def CliBuffer.newFromStr (E : Crates) : Option CliBuffer :=
  Leaf.newFromStr E.base64Decode name value

def CliGuid.newFromStr (E : Crates) : Option (CliGuid E) :=
  Leaf.newFromStr E.uuidParseStr name value

def CliUri.newFromStr (E : Crates) : Option (CliUri E) := Leaf.newFromStr E.urlParse name value

def CliVersion.newFromStr : Option CliVersion := some (Leaf.new name value)

def CliXmlDocument.newFromStr : Option CliXmlDocument := some (Leaf.new name value)

def CliScriptBlock.newFromStr : Option CliScriptBlock := some (Leaf.new name value)

end Decoders

end PwshHost.CliXml
