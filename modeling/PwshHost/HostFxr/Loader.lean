import PwshHost.HostFxr.Delegates
import PwshHost.HostFxr.Detect
import PwshHost.Control.Requests

/-! From an installed PowerShell to a loader for its main assembly. Whatever
fails on the way is a panic. -/
namespace PwshHost.HostFxr

open Files
open Rust
open Requests

/-- The native side with the files of a machine. The strings that it takes are those
of the platform, which come from another crate. -/
structure Host extends Native where
  machine : Machine
  targetOs : TargetOs
  PdCString : Type
  NulError : Type
  /-- `from_os_str`. -/
  fromOsStr : PathBuf → Except NulError PdCString
  /-- `pdcstr!`, which compiles only for a text without a null character. -/
  pdcstr : (expression : String) → (h : Char.ofNat 0 ∉ expression.toList := by decide) → PdCString
  asPtr : PdCString → Pointer
  /-- The text that a native function reads at a pointer, up to a zero unit. -/
  textAt : Pointer → List Char
  /-- A literal is read as it is written. -/
  textAt_pdcstr : ∀ expression h, textAt (asPtr (pdcstr expression h)) = expression.toList
  /-- `Container::load`, with the library. -/
  containerLoad : Process → PathBuf → Except DlopenError Pointer × Process
  hostfxrInitializeForDotnetCommandLine : Process → (lib : Pointer) → (argv : List Pointer) →
    (parameters : Pointer) → NativeResult Pointer Process
  /-- A call of `LoadAssemblyFromNativeMemory` through its pointer. -/
  callLoadAssemblyFromNativeMemory : Process → (function : Pointer) → (bytes : List UInt8) →
    (size : U32) → I32 × Process
  /-- `BINDINGS_DLL`. -/
  bindingsDll : List UInt8

/-- The errors behind a `Box<dyn Error>`. -/
inductive BoxedError (host : Host) where
  | env (error : EnvError)
  | dlOpen (error : host.DlopenError)
  | nul (error : host.NulError)
  | crate (error : Error host.DlopenError host.IoError)

/-- The assertion that fails. -/
inductive Panic where
  | pwshPath
  | hostfxr
  | ctx
  | assemblyPath
  | fnLoader
  | loadAssemblyFromNativeMemory
  | result
  deriving DecidableEq, Repr

variable (host : Host)

def loadHostfxr (process : host.Process) :
    Except (BoxedError host) host.Pointer × host.Process :=
  match hostfxrPath host.machine host.targetOs with
  | .error e => (.error (.env e), process)
  | .ok path =>
    match host.containerLoad process path with
    | (.error e, process) => (.error (.dlOpen e), process)
    | (.ok lib, process) => (.ok lib, process)

def initializeForDotnetCommandLine (lib : host.Pointer) (pwshPath : PathBuf)
    (process : host.Process) :
    Except (BoxedError host) (HostfxrContext host.toNative) × host.Process :=
  match host.fromOsStr pwshPath with
  | .error e => (.error (.nul e), process)
  | .ok arg =>
    match delegateOf (N := host.toNative)
        (host.hostfxrInitializeForDotnetCommandLine process lib [host.asPtr arg] host.null) with
    | (.error e, process) => (.error (.crate e), process)
    | (.ok handle, process) => (.ok ⟨handle⟩, process)

/-- `usize as u32`. -/
def lenAsU32 (length : Nat) : U32 := ⟨length % 4294967296, by omega⟩

def resultOf (result : I32) : Except (Error host.DlopenError host.IoError) Unit :=
  (HostExitCode.fromI32 result).intoResult

variable {host}

/-- `assert!(x.is_ok())` and `unwrap`. -/
def asserted {ε α : Type} (panic : Panic) (call : host.Process → Except ε α × host.Process) :
    Request Panic host.Process α :=
  ExceptT.mk fun process =>
    match call process with
    | (.error _, process) => (.error panic, process)
    | (.ok a, process) => (.ok a, process)

variable (host) in
def getAssemblyDelegateLoader :
    Request Panic host.Process (AssemblyDelegateLoader host.toNative) := do
  let pwshPath ← asserted .pwshPath fun process => (pwshHostDetect host.machine, process)
  let hostfxr ← asserted .hostfxr (loadHostfxr host)
  let ctx ← asserted .ctx
    (initializeForDotnetCommandLine host hostfxr (pwshPath.join "pwsh.dll"))
  let assemblyPath ← asserted .assemblyPath fun process =>
    (host.fromOsStr (pwshPath.join "System.Management.Automation.dll"), process)
  let fnLoader ← asserted .fnLoader fun process =>
    ctx.getDelegateLoaderForAssembly process (host.asPtr assemblyPath)
  let loadAssemblyFromNativeMemory ← asserted .loadAssemblyFromNativeMemory fun process =>
    fnLoader.getFunctionPointerForUnmanagedCallersOnlyMethod process
      (host.asPtr (host.pdcstr ("System.Management.Automation.PowerShellUnsafeAssemblyLoad, " ++
        "System.Management.Automation")))
      (host.asPtr (host.pdcstr "LoadAssemblyFromNativeMemory"))
  asserted .result fun process =>
    let (result, process) := host.callLoadAssemblyFromNativeMemory process
      loadAssemblyFromNativeMemory host.bindingsDll (lenAsU32 host.bindingsDll.length)
    (resultOf host result, process)
  return fnLoader

end PwshHost.HostFxr
