import PwshHost.CliXml.Value
import PwshHost.Control.Loop
import PwshHost.Xml.Reader

/-! The CLIXML parser: one loop over the events of a pull reader, with the
finished objects and the object being built as its state. -/
namespace PwshHost.CliXml

open Xml (Text PullReader BytesStart Event)
open Rust

/-- The elements whose text is decoded to a value. -/
inductive LeafKind where
  | bool
  | string
  | char
  | uint8
  | int8
  | uint16
  | int16
  | uint32
  | int32
  | uint64
  | int64
  | dateTime
  | duration
  | float
  | double
  | decimal
  | buffer
  | guid
  | uri
  | version
  | xmlDocument
  | scriptBlock
  deriving DecidableEq, Repr

/-- The arms of the match on the element name. -/
inductive ElementKind where
  | objs
  | obj
  | tn
  | t
  | tnRef
  | toString
  | props
  | ms
  | lst
  | ie
  | leaf (kind : LeafKind)
  | nil
  | unsupported
  deriving DecidableEq, Repr

def ElementKind.ofName : String → ElementKind
  | "Objs" => .objs
  | "Obj" => .obj
  | "TN" => .tn
  | "T" => .t
  | "TNRef" => .tnRef
  | "ToString" => .toString
  | "Props" => .props
  | "MS" => .ms
  | "LST" => .lst
  | "IE" => .ie
  | "B" => .leaf .bool
  | "S" => .leaf .string
  | "C" => .leaf .char
  | "By" => .leaf .uint8
  | "SB" => .leaf .int8
  | "U16" => .leaf .uint16
  | "I16" => .leaf .int16
  | "U32" => .leaf .uint32
  | "I32" => .leaf .int32
  | "U64" => .leaf .uint64
  | "I64" => .leaf .int64
  | "DT" => .leaf .dateTime
  | "TS" => .leaf .duration
  | "Sg" => .leaf .float
  | "Db" => .leaf .double
  | "D" => .leaf .decimal
  | "BA" => .leaf .buffer
  | "G" => .leaf .guid
  | "URI" => .leaf .uri
  | "Version" => .leaf .version
  | "XD" => .leaf .xmlDocument
  | "SBK" => .leaf .scriptBlock
  | "Nil" => .nil
  | _ => .unsupported

variable {ε : Type}

/-- The value pushed for a leaf element with the given name and text. Every
decoder but the one of strings can fail, which is a panic. -/
def LeafKind.decode (E : Crates) (kind : LeafKind) (name : Option Text) (txt : Text) :
    Except (Panic ε) (CliValue E) :=
  match kind with
  | .bool => return .cliBool (← unwrap (CliBool.newFromStr name txt))
  | .string => return .cliString (Leaf.new name txt)
  | .char => return .cliChar (← unwrap (← CliChar.newFromStr name txt))
  | .uint8 => return .cliUInt8 (← unwrap (CliUInt8.newFromStr name txt))
  | .int8 => return .cliInt8 (← unwrap (CliInt8.newFromStr name txt))
  | .uint16 => return .cliUInt16 (← unwrap (CliUInt16.newFromStr name txt))
  | .int16 => return .cliInt16 (← unwrap (CliInt16.newFromStr name txt))
  | .uint32 => return .cliUInt32 (← unwrap (CliUInt32.newFromStr name txt))
  | .int32 => return .cliInt32 (← unwrap (CliInt32.newFromStr name txt))
  | .uint64 => return .cliUInt64 (← unwrap (CliUInt64.newFromStr name txt))
  | .int64 => return .cliInt64 (← unwrap (CliInt64.newFromStr name txt))
  | .dateTime => return .cliDateTime (← unwrap (CliDateTime.newFromStr name txt E))
  | .duration => return .cliDuration (← unwrap (← CliDuration.newFromStr name txt E))
  | .float => return .cliFloat (← unwrap (CliFloat.newFromStr name txt E))
  | .double => return .cliDouble (← unwrap (CliDouble.newFromStr name txt E))
  | .decimal => return .cliDecimal (← unwrap (CliDecimal.newFromStr name txt E))
  | .buffer => return .cliBuffer (← unwrap (CliBuffer.newFromStr name txt E))
  | .guid => return .cliGuid (← unwrap (CliGuid.newFromStr name txt E))
  | .uri => return .cliUri (← unwrap (CliUri.newFromStr name txt E))
  | .version => return .cliVersion (← unwrap (CliVersion.newFromStr name txt))
  | .xmlDocument => return .cliXmlDocument (← unwrap (CliXmlDocument.newFromStr name txt))
  | .scriptBlock => return .cliScriptBlock (← unwrap (CliScriptBlock.newFromStr name txt))

variable (Q : PullReader) (E : Crates)

/-- The common shape of `try_get_ref_id_attr` and `try_get_name_attr`: a value
that cannot be unescaped counts as absent. -/
def tryGetAttr (key : String) (reader : Q.Reader) (event : BytesStart) :
    Except (Panic Q.Error) (Option Text) :=
  match Q.tryGetAttribute event key with
  | .error _ => .error .unwrapNone
  | .ok none => .ok none
  | .ok (some attr) =>
    match Q.decodeAndUnescapeValue reader attr with
    | .ok value => .ok (some value)
    | .error _ => .ok none

def tryGetRefIdAttr := tryGetAttr Q "RefId"

def tryGetNameAttr := tryGetAttr Q "N"

structure ParseState where
  reader : Q.Reader
  objs : List (CliObject E)
  obj : CliObject E

/-- `reader.read_text(event.name()).unwrap()`. -/
def readText (reader : Q.Reader) (event : BytesStart) :
    Except (Panic Q.Error) (Text × Q.Reader) := do
  let (txt, reader) := Q.readText reader event.name
  return (← unwrapOk txt, reader)

variable {Q E}

/-- The arm of the loop for a start event. The note on an unsupported element
goes to standard error and is left out. -/
def ParseState.onStart (s : ParseState Q E) (event : BytesStart) :
    Except (Panic Q.Error) (ParseState Q E) :=
  match ElementKind.ofName event.name with
  | .objs | .props | .ms | .lst | .ie | .unsupported => .ok s
  | .obj => do
    match ← tryGetRefIdAttr Q s.reader event with
    | some refId => return { s with obj := { s.obj with refId := some refId } }
    | none => return s
  | .tn | .tnRef => do
    let _refId ← tryGetRefIdAttr Q s.reader event
    return s
  | .t => do
    let (txt, reader) ← readText Q s.reader event
    return { s with reader, obj := { s.obj with typeNames := s.obj.typeNames ++ [txt] } }
  | .toString => do
    let (txt, reader) ← readText Q s.reader event
    return { s with reader, obj := { s.obj with stringRepr := some txt } }
  | .leaf kind => do
    let (txt, reader) ← readText Q s.reader event
    let propName ← tryGetNameAttr Q reader event
    let val ← kind.decode E propName txt
    return { s with reader, obj := { s.obj with values := s.obj.values ++ [val] } }
  | .nil => do
    let propName ← tryGetNameAttr Q s.reader event
    let val := CliValue.cliNull (CliNull.new propName)
    return { s with obj := { s.obj with values := s.obj.values ++ [val] } }

def ParseState.onEnd (s : ParseState Q E) (name : String) : ParseState Q E :=
  match name with
  | "Obj" => { s with objs := s.objs ++ [s.obj], obj := CliObject.default }
  | _ => s

/-- One pass of the loop. -/
def ParseState.pass (s : ParseState Q E) :
    ParseState Q E ⊕ Except (Panic Q.Error) (List (CliObject E)) :=
  let (event, reader) := Q.readEvent s.reader
  let s := { s with reader }
  match event with
  | .ok (.start event) =>
    match s.onStart event with
    | .ok s => .inl s
    | .error panic => .inr (.error panic)
  | .ok (.stop name) => .inl (s.onEnd name)
  | .ok (.text _) => .inl s
  | .ok .eof => .inr (.ok s.objs)
  | .error e => .inr (.error (.errorAt (Q.bufferPosition s.reader) e))
  | .ok _ => .inl s

variable (Q E)

/-- The state before the first pass. -/
def ParseState.initial (cliXml : Text) : ParseState Q E where
  reader := Q.trimText (Q.expandEmptyElements (Q.fromStr cliXml) true) true
  objs := []
  obj := CliObject.default

/-- `parse_cli_xml`, given up after `fuel` passes of its loop. -/
def parseCliXml (fuel : Nat) (cliXml : Text) :
    Option (Except (Panic Q.Error) (List (CliObject E))) :=
  UnboundedLoop.run ParseState.pass fuel (ParseState.initial Q E cliXml)

/-- `parse_cli_xml` comes to an end, with the given list or with a panic. -/
def ParsesTo (cliXml : Text) (outcome : Except (Panic Q.Error) (List (CliObject E))) : Prop :=
  ∃ fuel, parseCliXml Q E fuel cliXml = some outcome

/-- `parse_cli_xml` returns `objs`. -/
def Returns (cliXml : Text) (objs : List (CliObject E)) : Prop := ParsesTo Q E cliXml (.ok objs)

variable {Q E}

/-- A text has at most one outcome. -/
theorem ParsesTo.unique {cliXml : Text}
    {first second : Except (Panic Q.Error) (List (CliObject E))}
    (h₁ : ParsesTo Q E cliXml first) (h₂ : ParsesTo Q E cliXml second) : first = second :=
  UnboundedLoop.Yields.unique h₁ h₂

end PwshHost.CliXml
