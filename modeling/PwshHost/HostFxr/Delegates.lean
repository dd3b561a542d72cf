import PwshHost.HostFxr.ExitCode

/-! The calls into the hosting library that ask for a delegate. A native
function returns an exit code and may write a pointer; what it does to the
process is a parameter. -/
namespace PwshHost.HostFxr

open Rust

inductive HostfxrDelegateType where
  | comActivation
  | loadInMemoryAssembly
  | winrtActivation
  | comRegister
  | comUnregister
  | loadAssemblyAndGetFunctionPointer
  | getFunctionPointer
  deriving DecidableEq, Repr

/-- What a native function returns, writes through its last parameter and leaves
of the process. -/
structure NativeResult (Pointer Process : Type) where
  result : I32
  written : Option Pointer
  process : Process

/-- The native side. A function that is called through a pointer is given by
that pointer. -/
structure Native where
  Process : Type
  Pointer : Type
  DlopenError : Type
  IoError : Type
  null : Pointer
  /-- `UNMANAGED_CALLERS_ONLY_METHOD`, which is no text. -/
  unmanagedCallersOnlyMethod : Pointer
  hostfxrGetRuntimeDelegate : Process → (handle : Pointer) → HostfxrDelegateType →
    NativeResult Pointer Process
  /-- A call through a `LoadAssemblyAndGetFunctionPointerFn`. -/
  callLoadAssembly : Process → (function assemblyPath typeName methodName delegateTypeName
    reserved : Pointer) → NativeResult Pointer Process
  /-- A call through a `GetFunctionPointerFn`. -/
  callGetFunctionPointer : Process → (function typeName methodName delegateTypeName loadContext
    reserved : Pointer) → NativeResult Pointer Process

variable {N : Native}

/-- The outcome of a wrapper, and the process that it leaves. -/
abbrev Outcome (N : Native) (α : Type) :=
  Except (Error N.DlopenError N.IoError) α × N.Process

/-- The common end of the wrappers: the variable for the delegate is null until
it is written, and the code is turned into an error unless it is a successful
one. -/
def delegateOf (call : NativeResult N.Pointer N.Process) : Outcome N N.Pointer :=
  let delegate := call.written.getD N.null
  ((HostExitCode.fromI32 call.result).intoResult.map fun _ => delegate, call.process)

structure HostfxrContext (N : Native) where
  handle : N.Pointer

structure DelegateLoader (N : Native) where
  getLoadAssemblyAndGetFunctionPointer : N.Pointer
  getFunctionPointerFn : N.Pointer

namespace HostfxrContext

variable (ctx : HostfxrContext N) (process : N.Process)

def getRuntimeDelegate (delegateType : HostfxrDelegateType) : Outcome N N.Pointer :=
  delegateOf (N.hostfxrGetRuntimeDelegate process ctx.handle delegateType)

def getLoadAssemblyAndGetFunctionPointerDelegate : Outcome N N.Pointer :=
  ctx.getRuntimeDelegate process .loadAssemblyAndGetFunctionPointer

def getGetFunctionPointerDelegate : Outcome N N.Pointer :=
  ctx.getRuntimeDelegate process .getFunctionPointer

/-- The second delegate is asked for only when there is a first one. -/
def getDelegateLoader : Outcome N (DelegateLoader N) :=
  match ctx.getLoadAssemblyAndGetFunctionPointerDelegate process with
  | (.error e, process) => (.error e, process)
  | (.ok load, process) =>
    match ctx.getGetFunctionPointerDelegate process with
    | (.error e, process) => (.error e, process)
    | (.ok get, process) => (.ok ⟨load, get⟩, process)

end HostfxrContext

namespace DelegateLoader

variable (loader : DelegateLoader N) (process : N.Process)

/-- `_load_assembly_and_get_function_pointer`. -/
def loadAssemblyAndGetFunctionPointer
    (assemblyPath typeName methodName delegateTypeName : N.Pointer) : Outcome N N.Pointer :=
  delegateOf (N.callLoadAssembly process loader.getLoadAssemblyAndGetFunctionPointer assemblyPath
    typeName methodName delegateTypeName N.null)

/-- `_get_function_pointer`. -/
def getFunctionPointer (typeName methodName delegateTypeName : N.Pointer) : Outcome N N.Pointer :=
  delegateOf (N.callGetFunctionPointer process loader.getFunctionPointerFn typeName methodName
    delegateTypeName N.null N.null)

def loadAssemblyAndGetFunctionPointerForUnmanagedCallersOnlyMethod
    (assemblyPath typeName methodName : N.Pointer) : Outcome N N.Pointer :=
  loader.loadAssemblyAndGetFunctionPointer process assemblyPath typeName methodName
    N.unmanagedCallersOnlyMethod

def getFunctionPointerForUnmanagedCallersOnlyMethod (typeName methodName : N.Pointer) :
    Outcome N N.Pointer :=
  loader.getFunctionPointer process typeName methodName N.unmanagedCallersOnlyMethod

end DelegateLoader

/-- A loader for the functions of one assembly. -/
structure AssemblyDelegateLoader (N : Native) where
  loader : DelegateLoader N
  assemblyPath : N.Pointer

namespace AssemblyDelegateLoader

variable (fnLoader : AssemblyDelegateLoader N) (process : N.Process)

/-- Whatever the name says, the assembly is loaded on every call. -/
def getFunctionPointer (typeName methodName delegateTypeName : N.Pointer) : Outcome N N.Pointer :=
  fnLoader.loader.loadAssemblyAndGetFunctionPointer process fnLoader.assemblyPath typeName
    methodName delegateTypeName

def getFunctionPointerForUnmanagedCallersOnlyMethod (typeName methodName : N.Pointer) :
    Outcome N N.Pointer :=
  fnLoader.loader.loadAssemblyAndGetFunctionPointerForUnmanagedCallersOnlyMethod process
    fnLoader.assemblyPath typeName methodName

end AssemblyDelegateLoader

def HostfxrContext.getDelegateLoaderForAssembly (ctx : HostfxrContext N) (process : N.Process)
    (assemblyPath : N.Pointer) : Outcome N (AssemblyDelegateLoader N) :=
  let (loader, process) := ctx.getDelegateLoader process
  (loader.map fun loader => ⟨loader, assemblyPath⟩, process)

/-- The results that stand for success. -/
def Succeeds (result : I32) : Prop := result.val = 0 ∨ result.val = 1 ∨ result.val = 2

/-- The pointer that was written is returned on success, and all else is an
error that holds the bits of the result, known if they are a discriminant. -/
def Classified (call : NativeResult N.Pointer N.Process) (outcome : Outcome N N.Pointer) : Prop :=
  (outcome.1 = .ok (call.written.getD N.null) ↔ Succeeds call.result) ∧
    (¬ Succeeds call.result → ∃ code, outcome.1 = .error (.hostfxr code) ∧
      code.value = asU32 call.result ∧
      ((∃ known, code = .known known) ↔
        ∃ known : KnownHostExitCode, known.value = asU32 call.result))

/-- Success is decided on the bits, and only small numbers have small bits. -/
theorem fromI32_isSuccess_iff (result : I32) :
    (HostExitCode.fromI32 result).isSuccess = true ↔ Succeeds result := by
  have hRange := result.property
  have hBits : (asU32 result).val = result.val % 4294967296 := rfl
  rw [HostExitCode.fromI32, HostExitCode.new_isSuccess_iff, Succeeds]
  omega

/-- The result of the native call is looked at before the pointer, and a null
pointer only counts after a success. -/
theorem delegateOf_classified (call : NativeResult N.Pointer N.Process) :
    Classified call (delegateOf call) := by
  have hSuccess := fromI32_isSuccess_iff call.result
  have hOutcome : (delegateOf call).1 =
      if (HostExitCode.fromI32 call.result).isSuccess then .ok (call.written.getD N.null)
      else .error (.hostfxr (HostExitCode.fromI32 call.result)) := by
    rw [delegateOf, HostExitCode.intoResult_eq]
    split <;> rfl
  constructor
  · rw [hOutcome, ← hSuccess]
    split
    · rename_i hCode
      simp [hCode]
    · rename_i hCode
      simp [hCode]
  · intro hFailed
    rw [← hSuccess] at hFailed
    refine ⟨HostExitCode.fromI32 call.result, ?_, ?_, ?_⟩
    · rw [hOutcome, if_neg hFailed]
    · exact HostExitCode.value_new _
    · exact HostExitCode.new_known_iff _

end PwshHost.HostFxr
