import PwshHost.Bindings.Sessions
import PwshHost.HostFxr.Loader
import PwshHost.HostFxr.PdCString

/-! How the table of pointers comes about: each method is resolved by its name,
and the first that cannot be resolved leaves no table. -/
namespace PwshHost.Abi

open PwshHost.Bindings
open HostFxr
open Rust
open Requests

variable {host : Host}

/-- `get_function_pointer`, with the one type name that it is called with. -/
def getFunctionPointer (fnLoader : AssemblyDelegateLoader host.toNative)
    (methodName : host.PdCString) :
    Request (Error host.DlopenError host.IoError) host.Process host.Pointer :=
  ExceptT.mk fun process => fnLoader.getFunctionPointerForUnmanagedCallersOnlyMethod process
    (host.asPtr (host.pdcstr "NativeHost.Bindings, Bindings")) (host.asPtr methodName)

namespace Bindings

def newWithLoader (fnLoader : AssemblyDelegateLoader host.toNative) :
    Request (Error host.DlopenError host.IoError) host.Process (Bindings host.Pointer) := do
  let createFn ← getFunctionPointer fnLoader (host.pdcstr "PowerShell_Create")
  let addArgumentStringFn ← getFunctionPointer fnLoader (host.pdcstr "PowerShell_AddArgument_String")
  let addParameterStringFn ← getFunctionPointer fnLoader (host.pdcstr "PowerShell_AddParameter_String")
  let addParameterIntFn ← getFunctionPointer fnLoader (host.pdcstr "PowerShell_AddParameter_Int")
  let addParameterLongFn ← getFunctionPointer fnLoader (host.pdcstr "PowerShell_AddParameter_Long")
  let addCommandFn ← getFunctionPointer fnLoader (host.pdcstr "PowerShell_AddCommand")
  let addScriptFn ← getFunctionPointer fnLoader (host.pdcstr "PowerShell_AddScript")
  let addStatementFn ← getFunctionPointer fnLoader (host.pdcstr "PowerShell_AddStatement")
  let invokeFn ← getFunctionPointer fnLoader (host.pdcstr "PowerShell_Invoke")
  let clearFn ← getFunctionPointer fnLoader (host.pdcstr "PowerShell_Clear")
  let exportToXmlFn ← getFunctionPointer fnLoader (host.pdcstr "PowerShell_ExportToXml")
  let exportToJsonFn ← getFunctionPointer fnLoader (host.pdcstr "PowerShell_ExportToJson")
  let exportToStringFn ← getFunctionPointer fnLoader (host.pdcstr "PowerShell_ExportToString")
  let marshalFreeCoTaskMemFn ← getFunctionPointer fnLoader (host.pdcstr "Marshal_FreeCoTaskMem")
  return {
    createFn, addArgumentStringFn, addParameterStringFn, addParameterIntFn, addParameterLongFn,
    addCommandFn, addScriptFn, addStatementFn, invokeFn, clearFn, exportToXmlFn, exportToJsonFn,
    exportToStringFn, marshalFreeCoTaskMemFn }

variable (host) in
/-- `Bindings::new`. What fails before the loader is there is a panic. -/
def new : Request Panic host.Process
    (Except (Error host.DlopenError host.IoError) (Bindings host.Pointer)) := do
  let fnLoader ← getAssemblyDelegateLoader host
  attempt (newWithLoader fnLoader)

end Bindings

/-- The methods in the order in which they are resolved. -/
def EntryPoint.all : List EntryPoint :=
  [.powerShellCreate, .powerShellAddArgumentString, .powerShellAddParameterString,
    .powerShellAddParameterInt, .powerShellAddParameterLong, .powerShellAddCommand,
    .powerShellAddScript, .powerShellAddStatement, .powerShellInvoke, .powerShellClear,
    .powerShellExportToXml, .powerShellExportToJson, .powerShellExportToString,
    .marshalFreeCoTaskMem]

/-- The list has every entry point. -/
theorem EntryPoint.mem_all (entryPoint : EntryPoint) : entryPoint ∈ all := by
  cases entryPoint <;> decide

/-- Their names can be made into literals of the platform, which takes no null
character. -/
theorem EntryPoint.name_plain (entryPoint : EntryPoint) :
    Char.ofNat 0 ∉ entryPoint.name.toList := by
  cases entryPoint <;> decide

/-- `get_function_pointer` for a method. -/
def resolve (fnLoader : AssemblyDelegateLoader host.toNative) (entryPoint : EntryPoint) :
    Request (Error host.DlopenError host.IoError) host.Process host.Pointer :=
  getFunctionPointer fnLoader (host.pdcstr entryPoint.name entryPoint.name_plain)

/-- The fields are what the methods resolve to, one after another. -/
theorem mapM_resolve (fnLoader : AssemblyDelegateLoader host.toNative) :
    EntryPoint.all.mapM (resolve fnLoader) =
      (fun bindings => EntryPoint.all.map bindings.function) <$>
        Bindings.newWithLoader fnLoader := by
  simp only [EntryPoint.all, List.mapM_cons, List.mapM_nil, Bindings.newWithLoader, resolve,
    EntryPoint.name, map_eq_pure_bind, bind_assoc, pure_bind, List.map, Bindings.function]

/-- A table is made up of the functions for the entry points. -/
theorem Bindings.map_function_inj {first second : Bindings host.Pointer}
    (hSame : EntryPoint.all.map first.function = EntryPoint.all.map second.function) :
    first = second := by
  cases first
  cases second
  simpa [EntryPoint.all, Bindings.function] using hSame

/-- Loading the table asks for the entry points in order and stops at the first that
fails. -/
theorem on_mapM_resolve (fnLoader : AssemblyDelegateLoader host.toNative)
    (process : host.Process) : (EntryPoint.all.mapM (resolve fnLoader)).on process =
      match (Bindings.newWithLoader fnLoader).on process with
      | (.ok bindings, after) => (.ok (EntryPoint.all.map bindings.function), after)
      | (.error e, after) => (.error e, after) := by
  rw [mapM_resolve, ← bind_pure_comp, on_bind]
  rcases (Bindings.newWithLoader fnLoader).on process with ⟨_ | bindings, after⟩ <;> rfl

variable {fnLoader : AssemblyDelegateLoader host.toNative} {process after : host.Process}

/-- A table holds, for each method, what the runtime has answered for it. -/
theorem newWithLoader_eq_ok {bindings : Bindings host.Pointer} :
    (Bindings.newWithLoader fnLoader).on process = (.ok bindings, after) ↔
      Answered (resolve fnLoader) process
        (EntryPoint.all.map fun entryPoint => (entryPoint, bindings.function entryPoint)) after := by
  have hMap := on_mapM_resolve fnLoader process
  constructor
  · intro hNew
    rw [hNew] at hMap
    obtain ⟨given, hItems, hAnswers, hAnswered⟩ := mapM_eq_ok.mp hMap
    rw [List.zip_of_prod hItems hAnswers] at hAnswered
    rwa [← List.zip_map', List.map_id']
  · intro hAnswered
    have hAll : (EntryPoint.all.mapM (resolve fnLoader)).on process =
        (.ok (EntryPoint.all.map bindings.function), after) :=
      mapM_eq_ok.mpr ⟨_, by simp [Function.comp_def], by simp [Function.comp_def], hAnswered⟩
    rw [hMap] at hAll
    rcases hNew : (Bindings.newWithLoader fnLoader).on process with ⟨e | other, last⟩
    · rw [hNew] at hAll
      cases (Prod.mk.inj hAll).1
    · rw [hNew] at hAll
      obtain ⟨hFields, rfl⟩ := Prod.mk.inj hAll
      rw [Bindings.map_function_inj (Except.ok.inj hFields)]

/-- The first method that cannot be resolved is the last that is asked for. -/
theorem newWithLoader_eq_error {e : Error host.DlopenError host.IoError} :
    (Bindings.newWithLoader fnLoader).on process = (.error e, after) ↔
      ∃ (given : List (EntryPoint × host.Pointer)) (entryPoint : EntryPoint)
        (rest : List EntryPoint) (next : host.Process),
        EntryPoint.all = given.map Prod.fst ++ entryPoint :: rest ∧
          Answered (resolve fnLoader) process given next ∧
          (resolve fnLoader entryPoint).on next = (.error e, after) := by
  rw [← mapM_eq_error, on_mapM_resolve]
  rcases (Bindings.newWithLoader fnLoader).on process with ⟨e' | bindings, last⟩
  · simp
  · simp

/-- Documented behaviour of the runtime behind a loader: a successful call has written
a pointer to the method whose name it reads. -/
structure Resolves (fnLoader : AssemblyDelegateLoader host.toNative)
    (code : host.Pointer → Option EntryPoint) : Prop where
  written (process : host.Process) (typeName methodName : host.Pointer)
    (entryPoint : EntryPoint) (call : NativeResult host.Pointer host.Process)
    (hType : host.textAt typeName = "NativeHost.Bindings, Bindings".toList)
    (hMethod : host.textAt methodName = entryPoint.name.toList)
    (hCall : host.callLoadAssembly process
      fnLoader.loader.getLoadAssemblyAndGetFunctionPointer fnLoader.assemblyPath typeName
      methodName host.unmanagedCallersOnlyMethod host.null = call)
    (hSucceeds : Succeeds call.result) :
    ∃ pointer, call.written = some pointer ∧ code pointer = some entryPoint

section Wiring

variable {code : host.Pointer → Option EntryPoint} (hResolves : Resolves fnLoader code)

include hResolves

/-- A pointer that was handed out for a name leads to the entry point of that name. -/
theorem code_of_resolve {entryPoint : EntryPoint} {pointer : host.Pointer}
    (hResolve : (resolve fnLoader entryPoint).on process = (.ok pointer, after)) :
    code pointer = some entryPoint := by
  have hOutcome : delegateOf (N := host.toNative) (host.callLoadAssembly process
      fnLoader.loader.getLoadAssemblyAndGetFunctionPointer fnLoader.assemblyPath
      (host.asPtr (host.pdcstr "NativeHost.Bindings, Bindings"))
      (host.asPtr (host.pdcstr entryPoint.name entryPoint.name_plain))
      host.unmanagedCallersOnlyMethod host.null) = (.ok pointer, after) := hResolve
  have hWritten := fun call => hResolves.written process _ _ entryPoint call
    (host.textAt_pdcstr _ (by decide)) (host.textAt_pdcstr _ entryPoint.name_plain)
  revert hOutcome hWritten
  generalize host.callLoadAssembly process _ _ _ _ _ _ = call
  intro hOutcome hWritten
  obtain ⟨hOk, hError⟩ := delegateOf_classified (N := host.toNative) call
  have hSucceeds : Succeeds call.result := by
    by_contra hFails
    obtain ⟨errorCode, hRefused, -⟩ := hError hFails
    rw [hOutcome] at hRefused
    cases hRefused
  obtain ⟨written, hSome, hCode⟩ := hWritten call rfl hSucceeds
  have hPointer := hOk.mpr hSucceeds
  rw [hOutcome, hSome] at hPointer
  exact Except.ok.inj hPointer ▸ hCode

/-- So every field of a table that was loaded points where its name says. -/
theorem newWithLoader_wired {bindings : Bindings host.Pointer}
    (hNew : (Bindings.newWithLoader fnLoader).on process = (.ok bindings, after)) :
    bindings.Wired code := by
  intro entryPoint
  have hAnswered := newWithLoader_eq_ok.mp hNew
  obtain ⟨before, next, hResolve⟩ :=
    hAnswered.of_mem (List.mem_map_of_mem (EntryPoint.mem_all entryPoint))
  exact code_of_resolve hResolves hResolve

end Wiring

/-- What startup makes of the answers of the runtime. There is a table exactly
when every method is resolved, in order, and no method is asked for after one
that is not. A field holds the answer for its own method, and so points to it
if the runtime resolves names as documented. -/
theorem table_resolved (fnLoader : AssemblyDelegateLoader host.toNative)
    (process after : host.Process) :
    (∀ bindings, (Bindings.newWithLoader fnLoader).on process = (.ok bindings, after) ↔
      Answered (resolve fnLoader) process
        (EntryPoint.all.map fun entryPoint => (entryPoint, bindings.function entryPoint)) after) ∧
      (∀ e, (Bindings.newWithLoader fnLoader).on process = (.error e, after) ↔
        ∃ (given : List (EntryPoint × host.Pointer)) (entryPoint : EntryPoint)
          (rest : List EntryPoint) (next : host.Process),
          EntryPoint.all = given.map Prod.fst ++ entryPoint :: rest ∧
            Answered (resolve fnLoader) process given next ∧
            (resolve fnLoader entryPoint).on next = (.error e, after)) ∧
      ∀ code bindings, Resolves fnLoader code →
        (Bindings.newWithLoader fnLoader).on process = (.ok bindings, after) →
        bindings.Wired code :=
  ⟨fun _ => newWithLoader_eq_ok, fun _ => newWithLoader_eq_error,
    fun _ _ hResolves hNew => newWithLoader_wired hResolves hNew⟩

/-- What a program does: it asks for a value, or a client makes a call. -/
inductive Action where
  | start
  | on (client : Nat) (call : Call)

structure System (host : Host) (M : ManagedPowerShell) where
  native : host.Process
  world : World M host.Pointer

namespace System

variable {M : ManagedPowerShell} (code : host.Pointer → Option EntryPoint)

/-- `PowerShell::new` has no value for its caller if a method is not resolved,
and panics if something fails before. -/
def step (system : System host M) : Action → Except (Crash M.Exception) (System host M)
  | .start =>
    match (Bindings.new host).on system.native with
    | (.ok (.ok bindings), native) =>
      (system.world.create code bindings).map fun world => ⟨native, world⟩
    | (.ok (.error _), native) => .ok { system with native := native }
    | (.error _, native) => .ok { system with native := native }
  | .on client call => (system.world.issue code client call).map fun world =>
      { system with world := world }

def run (native : host.Process) (actions : List Action) :
    Except (Crash M.Exception) (System host M) :=
  actions.foldlM (step code) ⟨native, World.start⟩

variable {code}

end System

inductive DemoPointer where
  | null
  | unmanagedCallersOnlyMethod
  | text (s : PdCString)
  | library (path : Files.PathBuf)
  | method (entryPoint : EntryPoint)
  | delegate

namespace DemoPointer

def code : DemoPointer → Option EntryPoint
  | .method entryPoint => some entryPoint
  | _ => none

def textAt : DemoPointer → List Char
  | .text s => Unicode.Utf8.decodeLossy s.readPtr
  | _ => []

/-- The text of a path, with a slash before each part. -/
def slashed (path : Files.PathBuf) : List Char :=
  path.components.flatMap fun
    | .normal name => '/' :: name.toList
    | .parentDir => ['/', '.', '.']
    | .curDir => ['.']

/-- A pointer to the method of that name. -/
def find (name : String) : DemoPointer :=
  match EntryPoint.all.find? fun entryPoint => entryPoint.name == name with
  | some entryPoint => .method entryPoint
  | none => .delegate

/-- Names are resolved to their entry points, since no two are the same. -/
theorem find_name (entryPoint : EntryPoint) : find entryPoint.name = .method entryPoint := by
  cases entryPoint <;> rfl

end DemoPointer

/-- A host that finds whatever it is asked for. -/
noncomputable def demoHost : Host where
  Process := Unit
  Pointer := DemoPointer
  DlopenError := Unit
  IoError := Unit
  null := .null
  unmanagedCallersOnlyMethod := .unmanagedCallersOnlyMethod
  hostfxrGetRuntimeDelegate process _ _ := ⟨⟨0, by decide⟩, some .delegate, process⟩
  callLoadAssembly process _ _ _ methodName _ _ :=
    ⟨⟨0, by decide⟩, some (.find (.ofList methodName.textAt)), process⟩
  callGetFunctionPointer process _ _ _ _ _ _ := ⟨⟨-1, by decide⟩, none, process⟩
  machine := linked ["", "usr", "share", "powershell", "pwsh"]
  targetOs := .linux
  PdCString := PdCString
  NulError := NulError
  fromOsStr path := PdCString.fromVec (Unicode.Utf8.encode (DemoPointer.slashed path))
  pdcstr := PdCString.pdcstr
  asPtr := .text
  textAt := DemoPointer.textAt
  textAt_pdcstr := PdCString.decodeLossy_readPtr_pdcstr
  containerLoad process path := (.ok (.library path), process)
  hostfxrInitializeForDotnetCommandLine process _ _ _ :=
    ⟨⟨0, by decide⟩, some .delegate, process⟩
  callLoadAssemblyFromNativeMemory process _ _ _ := (⟨0, by decide⟩, process)
  bindingsDll := []

/-- The host that finds every name by itself hands out what it finds. -/
theorem demoHost_resolves (fnLoader : AssemblyDelegateLoader demoHost.toNative) :
    Resolves fnLoader DemoPointer.code where
  written process typeName methodName entryPoint call _ hMethod hCall _ := by
    subst hCall
    refine ⟨.method entryPoint, ?_, rfl⟩
    have hName : DemoPointer.textAt methodName = entryPoint.name.toList := hMethod
    change some (DemoPointer.find (.ofList (DemoPointer.textAt methodName))) = _
    rw [hName, String.ofList_toList, DemoPointer.find_name]
    rfl

/-- The demo loader. -/
noncomputable def demoLoader : AssemblyDelegateLoader demoHost.toNative :=
  ⟨⟨DemoPointer.delegate, DemoPointer.delegate⟩, DemoPointer.null⟩

theorem demoHost_table_resolved :
    ∃ bindings, (Bindings.newWithLoader demoLoader).on () = (.ok bindings, ()) ∧
      bindings.Wired DemoPointer.code :=
  ⟨_, rfl, (table_resolved demoLoader () ()).2.2 _ _ (demoHost_resolves _) rfl⟩

end PwshHost.Abi
