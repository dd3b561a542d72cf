import PwshHost.Bindings.Process

/-! The methods of the managed assembly at the level of handles and memory, and
what each one does when its handle and its texts are live. -/
namespace PwshHost.Abi

open PwshHost.Bindings
open Xml (Text)
open Rust
open Unicode
open Memory

variable {M : ManagedPowerShell}

def powerShellCreate : Execution M Nat := newHandle M.create

section Methods

variable (ptrHandle : Nat)

def powerShellAddArgumentString (ptrArgument : Nat) : Execution M Unit := do
  let ps ← target ptrHandle
  let argument ← ptrToStringUTF8 ptrArgument
  let ps ← raising (M.addArgument ps (.string argument))
  store ptrHandle ps

def powerShellAddParameterString (ptrName ptrValue : Nat) : Execution M Unit := do
  let ps ← target ptrHandle
  let name ← ptrToStringUTF8 ptrName
  let value ← ptrToStringUTF8 ptrValue
  let ps ← raising (M.addParameter ps name (.string value))
  store ptrHandle ps

def powerShellAddParameterInt (ptrName : Nat) (value : I32) : Execution M Unit := do
  let ps ← target ptrHandle
  let name ← ptrToStringUTF8 ptrName
  let ps ← raising (M.addParameter ps name (.int value))
  store ptrHandle ps

def powerShellAddParameterLong (ptrName : Nat) (value : I64) : Execution M Unit := do
  let ps ← target ptrHandle
  let name ← ptrToStringUTF8 ptrName
  let ps ← raising (M.addParameter ps name (.long value))
  store ptrHandle ps

def powerShellAddCommand (ptrCommand : Nat) : Execution M Unit := do
  let ps ← target ptrHandle
  let command ← ptrToStringUTF8 ptrCommand
  store ptrHandle (M.addCommand ps command)

def powerShellAddScript (ptrScript : Nat) : Execution M Unit := do
  let ps ← target ptrHandle
  let script ← ptrToStringUTF8 ptrScript
  store ptrHandle (M.addScript ps script)

def powerShellAddStatement : Execution M Unit := do
  let ps ← target ptrHandle
  store ptrHandle (M.addStatement ps)

def powerShellInvoke : Execution M Unit := do
  let ps ← target ptrHandle
  let (results, ps) := M.invoke ps
  store ptrHandle ps
  let _ ← raising results

def powerShellClear : Execution M Unit := do
  let ps ← target ptrHandle
  store ptrHandle (M.clear ps)

/-- The common body of the export entry points. -/
def exportWith (script : Text → Text) (ptrName : Nat) : Execution M Nat := do
  let ps ← target ptrHandle
  let name ← ptrToStringUTF8 ptrName
  let (results, ps) := M.invoke (M.addStatement (M.addScript ps (script name)))
  store ptrHandle ps
  match ← raising results with
  | [] => throw (.failure (.exception M.argumentOutOfRange))
  | first :: _ =>
    let result ← raising (M.toString first)
    store ptrHandle (M.clear ps)
    stringToCoTaskMemUTF8 (trim result)

def powerShellExportToXml (ptrName : Nat) : Execution M Nat :=
  exportWith ptrHandle ExportKind.xml.script ptrName

def powerShellExportToJson (ptrName : Nat) : Execution M Nat :=
  exportWith ptrHandle ExportKind.json.script ptrName

def powerShellExportToString (ptrName : Nat) : Execution M Nat :=
  exportWith ptrHandle ExportKind.string.script ptrName

end Methods

def marshalFreeCoTaskMem (ptr : Nat) : Execution M Unit := release .coTaskMem ptr

inductive EntryPoint where
  | powerShellCreate
  | powerShellAddArgumentString
  | powerShellAddParameterString
  | powerShellAddParameterInt
  | powerShellAddParameterLong
  | powerShellAddCommand
  | powerShellAddScript
  | powerShellAddStatement
  | powerShellInvoke
  | powerShellClear
  | powerShellExportToXml
  | powerShellExportToJson
  | powerShellExportToString
  | marshalFreeCoTaskMem
  deriving DecidableEq, Repr

/-- The name of the method. -/
def EntryPoint.name : EntryPoint → String
  | .powerShellCreate => "PowerShell_Create"
  | .powerShellAddArgumentString => "PowerShell_AddArgument_String"
  | .powerShellAddParameterString => "PowerShell_AddParameter_String"
  | .powerShellAddParameterInt => "PowerShell_AddParameter_Int"
  | .powerShellAddParameterLong => "PowerShell_AddParameter_Long"
  | .powerShellAddCommand => "PowerShell_AddCommand"
  | .powerShellAddScript => "PowerShell_AddScript"
  | .powerShellAddStatement => "PowerShell_AddStatement"
  | .powerShellInvoke => "PowerShell_Invoke"
  | .powerShellClear => "PowerShell_Clear"
  | .powerShellExportToXml => "PowerShell_ExportToXml"
  | .powerShellExportToJson => "PowerShell_ExportToJson"
  | .powerShellExportToString => "PowerShell_ExportToString"
  | .marshalFreeCoTaskMem => "Marshal_FreeCoTaskMem"

inductive Argument where
  | intPtr (address : Nat)
  | int (value : I32)
  | long (value : I64)

/-- A call with what it returns, if anything. The caller is trusted to pass what
the method takes. -/
def EntryPoint.call : EntryPoint → List Argument → Execution M (Option Nat)
  | .powerShellCreate, [] => some <$> Abi.powerShellCreate
  | .powerShellAddArgumentString, [.intPtr handle, .intPtr argument] =>
    (fun _ => none) <$> Abi.powerShellAddArgumentString handle argument
  | .powerShellAddParameterString, [.intPtr handle, .intPtr name, .intPtr value] =>
    (fun _ => none) <$> Abi.powerShellAddParameterString handle name value
  | .powerShellAddParameterInt, [.intPtr handle, .intPtr name, .int value] =>
    (fun _ => none) <$> Abi.powerShellAddParameterInt handle name value
  | .powerShellAddParameterLong, [.intPtr handle, .intPtr name, .long value] =>
    (fun _ => none) <$> Abi.powerShellAddParameterLong handle name value
  | .powerShellAddCommand, [.intPtr handle, .intPtr command] =>
    (fun _ => none) <$> Abi.powerShellAddCommand handle command
  | .powerShellAddScript, [.intPtr handle, .intPtr script] =>
    (fun _ => none) <$> Abi.powerShellAddScript handle script
  | .powerShellAddStatement, [.intPtr handle] =>
    (fun _ => none) <$> Abi.powerShellAddStatement handle
  | .powerShellInvoke, [.intPtr handle] => (fun _ => none) <$> Abi.powerShellInvoke handle
  | .powerShellClear, [.intPtr handle] => (fun _ => none) <$> Abi.powerShellClear handle
  | .powerShellExportToXml, [.intPtr handle, .intPtr name] =>
    some <$> Abi.powerShellExportToXml handle name
  | .powerShellExportToJson, [.intPtr handle, .intPtr name] =>
    some <$> Abi.powerShellExportToJson handle name
  | .powerShellExportToString, [.intPtr handle, .intPtr name] =>
    some <$> Abi.powerShellExportToString handle name
  | .marshalFreeCoTaskMem, [.intPtr ptr] => (fun _ => none) <$> Abi.marshalFreeCoTaskMem ptr
  | _, _ => throw .badCall

section Specifications

variable {process : Process M} {ptrHandle : Nat} {ps : M.PowerShell}

/-- The text is in memory, with a zero byte after it. -/
def Process.Holds (process : Process M) (ptr : Nat) (s : Text) : Prop :=
  process.heap.live ptr = some ⟨.rust, Utf8.encode (s ++ [nul])⟩ ∧ nul ∉ s

/-- A pointer to a text gives the text to the managed side. -/
theorem Process.Holds.runOn {ptr : Nat} {s : Text} (hHolds : process.Holds ptr s) :
    (ptrToStringUTF8 ptr).runOn process = (.ok s, process) :=
  runOn_ptrToStringUTF8 hHolds.1 hHolds.2

/-- The object of the handle after a method that may throw. -/
def stored (handles : Heap Unit M.PowerShell) (ptrHandle : Nat)
    (result : Except M.Exception M.PowerShell) :
    Except (Failure M.Exception) (Unit × Heap Unit M.PowerShell) :=
  (crossing result).map fun ps' => ((), handles.set ptrHandle ps')

variable (hLive : process.handles.live ptrHandle = some ⟨(), ps⟩)

include hLive

/-- The entry point for an argument does what the method does, to the object behind
the handle. -/
theorem ends_addArgumentString {ptrArgument : Nat} {argument : Text}
    (hArgument : process.Holds ptrArgument argument) :
    Ends (powerShellAddArgumentString ptrHandle ptrArgument) process
      (stored process.handles ptrHandle (M.addArgument ps (.string argument))) :=
  Ends.after_reading (runOn_target hLive)
    (Ends.after_reading hArgument.runOn (Ends.raising_store hLive _))

theorem ends_addParameterString {ptrName ptrValue : Nat} {name value : Text}
    (hName : process.Holds ptrName name) (hValue : process.Holds ptrValue value) :
    Ends (powerShellAddParameterString ptrHandle ptrName ptrValue) process
      (stored process.handles ptrHandle (M.addParameter ps name (.string value))) :=
  Ends.after_reading (runOn_target hLive) (Ends.after_reading hName.runOn
    (Ends.after_reading hValue.runOn (Ends.raising_store hLive _)))

theorem ends_addParameterInt {ptrName : Nat} {name : Text} (hName : process.Holds ptrName name)
    (value : I32) : Ends (powerShellAddParameterInt ptrHandle ptrName value) process
      (stored process.handles ptrHandle (M.addParameter ps name (.int value))) :=
  Ends.after_reading (runOn_target hLive)
    (Ends.after_reading hName.runOn (Ends.raising_store hLive _))

theorem ends_addParameterLong {ptrName : Nat} {name : Text} (hName : process.Holds ptrName name)
    (value : I64) : Ends (powerShellAddParameterLong ptrHandle ptrName value) process
      (stored process.handles ptrHandle (M.addParameter ps name (.long value))) :=
  Ends.after_reading (runOn_target hLive)
    (Ends.after_reading hName.runOn (Ends.raising_store hLive _))

theorem ends_addCommand {ptrCommand : Nat} {command : Text}
    (hCommand : process.Holds ptrCommand command) :
    Ends (powerShellAddCommand ptrHandle ptrCommand) process
      (stored process.handles ptrHandle (.ok (M.addCommand ps command))) :=
  Ends.after_reading (runOn_target hLive)
    (Ends.after_reading hCommand.runOn (Ends.store hLive _))

theorem ends_addScript {ptrScript : Nat} {script : Text}
    (hScript : process.Holds ptrScript script) :
    Ends (powerShellAddScript ptrHandle ptrScript) process
      (stored process.handles ptrHandle (.ok (M.addScript ps script))) :=
  Ends.after_reading (runOn_target hLive)
    (Ends.after_reading hScript.runOn (Ends.store hLive _))

theorem ends_addStatement : Ends (powerShellAddStatement ptrHandle) process
    (stored process.handles ptrHandle (.ok (M.addStatement ps))) :=
  Ends.after_reading (runOn_target hLive) (Ends.store hLive _)

theorem ends_clear : Ends (powerShellClear ptrHandle) process
    (stored process.handles ptrHandle (.ok (M.clear ps))) :=
  Ends.after_reading (runOn_target hLive) (Ends.store hLive _)

theorem ends_invoke : Ends (powerShellInvoke ptrHandle) process
    (stored process.handles ptrHandle ((M.invoke ps).1.map fun _ => (M.invoke ps).2)) := by
  refine Ends.after_reading (runOn_target hLive) ?_
  cases hInvoke : M.invoke ps with
  | mk results after =>
      have hStore := runOn_store hLive after
      cases results with
      | error e =>
          exact ⟨_, (bind_of_ok _ hStore).trans (bind_of_error _ (runOn_raising_error rfl _))⟩
      | ok results =>
          exact ⟨_, (bind_of_ok _ hStore).trans (bind_of_ok _ (runOn_raising_ok rfl _)), rfl, rfl⟩

/-- An export hands over memory of the managed side, and throws as it does
there. -/
theorem runOn_exportWith {k : ExportKind} {ptrName : Nat} {name : Text}
    (hName : process.Holds ptrName name) :
    match exported ps k name with
    | (.error e, _) => ∃ after, (exportWith ptrHandle k.script ptrName).runOn process =
        (.error (.failure (.exception e)), after)
    | (.ok r, ps') => (exportWith ptrHandle k.script ptrName).runOn process =
        (.ok process.heap.next,
          { heap := process.heap.alloc .coTaskMem (Bytes.stringToCoTaskMemUTF8 (Utf16.encode r))
            handles := process.handles.set ptrHandle ps' }) := by
  have hQueue : M.addStatement (M.addScript ps (k.script name)) = exportQueue ps k name := rfl
  rw [exportWith, bind_of_ok _ (runOn_target hLive), bind_of_ok _ hName.runOn, hQueue, exported]
  cases hInvoke : M.invoke (exportQueue ps k name) with
  | mk results after =>
      have hStore := runOn_store hLive after
      dsimp only
      rw [bind_of_ok _ hStore]
      cases results with
      | error e => exact ⟨_, bind_of_error _ (runOn_raising_error rfl _)⟩
      | ok results =>
          have hResults := fun f : List M.PSObject → Execution M Nat =>
            bind_of_ok f (runOn_raising_ok (M := M) (rfl : Except.ok results = .ok results)
              { process with handles := process.handles.set ptrHandle after })
          cases results with
          | nil => exact ⟨_, (hResults _).trans (runOn_throw ..)⟩
          | cons first rest =>
              cases hText : M.toString first with
              | error e =>
                  simp only [hText]
                  exact ⟨_, (hResults _).trans (bind_of_error _ (runOn_raising_error hText _))⟩
              | ok result =>
                  have hAfter : (process.handles.set ptrHandle after).live ptrHandle =
                      some ⟨(), after⟩ := Heap.live_set_self hLive after
                  simp only [hText]
                  refine (hResults _).trans ?_
                  refine (bind_of_ok _ (runOn_raising_ok hText _)).trans ?_
                  rw [bind_of_ok _ (runOn_store hAfter _), Heap.set_set]
                  exact runOn_allocate ..

end Specifications

end PwshHost.Abi
