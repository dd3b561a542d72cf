import PwshHost.Bindings.Managed

/-! The entry points of the managed assembly and the wrapper that calls them.
A text crosses the boundary as memory with a zero byte at its end. -/
namespace PwshHost.Bindings

open Xml (Text)
open Rust

section EntryPoints

variable (M : ManagedPowerShell)

def powerShellCreate : M.PowerShell := M.create

variable {M} (ps : M.PowerShell)

def powerShellAddArgumentString (ptrArgument : Text) : Except M.Exception M.PowerShell :=
  let argument := readString ptrArgument
  M.addArgument ps (.string argument)

def powerShellAddParameterString (ptrName ptrValue : Text) : Except M.Exception M.PowerShell :=
  let name := readString ptrName
  let value := readString ptrValue
  M.addParameter ps name (.string value)

def powerShellAddParameterInt (ptrName : Text) (value : I32) : Except M.Exception M.PowerShell :=
  let name := readString ptrName
  M.addParameter ps name (.int value)

def powerShellAddParameterLong (ptrName : Text) (value : I64) : Except M.Exception M.PowerShell :=
  let name := readString ptrName
  M.addParameter ps name (.long value)

def powerShellAddCommand (ptrCommand : Text) : M.PowerShell :=
  let command := readString ptrCommand
  M.addCommand ps command

def powerShellAddScript (ptrScript : Text) : M.PowerShell :=
  let script := readString ptrScript
  M.addScript ps script

def powerShellAddStatement : M.PowerShell := M.addStatement ps

def powerShellInvoke : Except M.Exception Unit × M.PowerShell :=
  let (results, ps) := M.invoke ps
  (results.map fun _ => (), ps)

def powerShellClear : M.PowerShell := M.clear ps

/-- The common body of the export entry points: the script goes to the end of
the queue, and the queue is cleared when there is a result. -/
def exportWith (script : Text → Text) (ptrName : Text) : Except M.Exception Text × M.PowerShell :=
  let name := readString ptrName
  let ps := M.addStatement (M.addScript ps (script name))
  match M.invoke ps with
  | (.error e, ps) => (.error e, ps)
  | (.ok [], ps) => (.error M.argumentOutOfRange, ps)
  | (.ok (first :: _), ps) =>
    match M.toString first with
    | .error e => (.error e, ps)
    | .ok result => (.ok (stringToCoTaskMemUTF8 (trim result)), M.clear ps)

end EntryPoints

inductive ExportKind where
  | xml
  | json
  | string
  deriving DecidableEq, Repr

/-- The format strings of the three exports, with the name filled in. -/
def ExportKind.script : ExportKind → Text → Text
  | .xml, name =>
    "[System.Management.Automation.PSSerializer]::Serialize($".toList ++ name ++ ")".toList
  | .json, name => "$".toList ++ name ++ " | ConvertTo-Json".toList
  | .string, name => "$".toList ++ name ++ " | Out-String".toList

section EntryPoints

variable {M : ManagedPowerShell} (ps : M.PowerShell) (ptrName : Text)

def powerShellExportToXml : Except M.Exception Text × M.PowerShell :=
  exportWith ps ExportKind.xml.script ptrName

def powerShellExportToJson : Except M.Exception Text × M.PowerShell :=
  exportWith ps ExportKind.json.script ptrName

def powerShellExportToString : Except M.Exception Text × M.PowerShell :=
  exportWith ps ExportKind.string.script ptrName

end EntryPoints

/-- A call does not return: a text has a zero byte in it, or an exception
reaches the boundary. -/
inductive Failure (ε : Type) where
  | nulError
  | exception (e : ε)

variable {M : ManagedPowerShell}

/-- `CString::new(..).unwrap()`. -/
def newCString (s : Text) : Except (Failure M.Exception) Text :=
  match cString s with
  | some memory => .ok memory
  | none => .error .nulError

def crossing {α : Type} : Except M.Exception α → Except (Failure M.Exception) α
  | .ok a => .ok a
  | .error e => .error (.exception e)

namespace PowerShell

def addArgumentString (ps : M.PowerShell) (argument : Text) :
    Except (Failure M.Exception) M.PowerShell := do
  let argumentCstr ← newCString argument
  crossing (powerShellAddArgumentString ps argumentCstr)

def addParameterString (ps : M.PowerShell) (name value : Text) :
    Except (Failure M.Exception) M.PowerShell := do
  let nameCstr ← newCString name
  let valueCstr ← newCString value
  crossing (powerShellAddParameterString ps nameCstr valueCstr)

def addParameterInt (ps : M.PowerShell) (name : Text) (value : I32) :
    Except (Failure M.Exception) M.PowerShell := do
  let nameCstr ← newCString name
  crossing (powerShellAddParameterInt ps nameCstr value)

def addParameterLong (ps : M.PowerShell) (name : Text) (value : I64) :
    Except (Failure M.Exception) M.PowerShell := do
  let nameCstr ← newCString name
  crossing (powerShellAddParameterLong ps nameCstr value)

def addCommand (ps : M.PowerShell) (command : Text) :
    Except (Failure M.Exception) M.PowerShell := do
  let commandCstr ← newCString command
  return powerShellAddCommand ps commandCstr

def addScript (ps : M.PowerShell) (script : Text) :
    Except (Failure M.Exception) M.PowerShell := do
  let scriptCstr ← newCString script
  return powerShellAddScript ps scriptCstr

def addStatement (ps : M.PowerShell) : M.PowerShell := powerShellAddStatement ps

def clear (ps : M.PowerShell) : M.PowerShell := powerShellClear ps

def invoke (ps : M.PowerShell) (clear : Bool) : Except (Failure M.Exception) M.PowerShell :=
  match powerShellInvoke ps with
  | (.ok _, ps) => .ok (if clear then powerShellClear ps else ps)
  | (.error e, _) => .error (.exception e)

/-- The entry point behind an export. -/
def exportFn : ExportKind → M.PowerShell → Text → Except M.Exception Text × M.PowerShell
  | .xml => powerShellExportToXml
  | .json => powerShellExportToJson
  | .string => powerShellExportToString

/-- `export_to_xml`, `export_to_json` and `export_to_string`, with the state
that is left also when they fail. -/
def exportTo (k : ExportKind) (ps : M.PowerShell) (name : Text) :
    Except (Failure M.Exception) Text × M.PowerShell :=
  match newCString name with
  | .error failure => (.error failure, ps)
  | .ok nameCstr =>
    let (memory, ps) := exportFn k ps nameCstr
    ((crossing memory).map readString, ps)

end PowerShell

/-- The calls on one handle. -/
inductive Call where
  | addArgumentString (argument : Text)
  | addParameterString (name value : Text)
  | addParameterInt (name : Text) (value : I32)
  | addParameterLong (name : Text) (value : I64)
  | addCommand (command : Text)
  | addScript (script : Text)
  | addStatement
  | invoke (clear : Bool)
  | clear
  | exportTo (k : ExportKind) (name : Text)

def Call.run (ps : M.PowerShell) : Call → Except (Failure M.Exception) M.PowerShell
  | .addArgumentString argument => PowerShell.addArgumentString ps argument
  | .addParameterString name value => PowerShell.addParameterString ps name value
  | .addParameterInt name value => PowerShell.addParameterInt ps name value
  | .addParameterLong name value => PowerShell.addParameterLong ps name value
  | .addCommand command => PowerShell.addCommand ps command
  | .addScript script => PowerShell.addScript ps script
  | .addStatement => .ok (PowerShell.addStatement ps)
  | .invoke andClear => PowerShell.invoke ps andClear
  | .clear => .ok (PowerShell.clear ps)
  | .exportTo k name =>
    let (result, ps) := PowerShell.exportTo k ps name
    result.map fun _ => ps

variable (M) in
/-- The calls from a new handle on, up to the first that does not return. -/
def runCalls (calls : List Call) : Except (Failure M.Exception) M.PowerShell :=
  calls.foldlM Call.run (powerShellCreate M)

end PwshHost.Bindings
