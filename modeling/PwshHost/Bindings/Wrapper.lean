import PwshHost.Bindings.EntryPoints

/-! The wrapper at the level of memory. It calls the managed side through a
table of pointers, and nothing but the table says which function a pointer is. -/
namespace PwshHost.Bindings

open Xml (Text)

variable {M : ManagedPowerShell}

/-- What a call returns to its caller, and the object that it leaves. -/
def Call.reply (ps : M.PowerShell) :
    Call → Except (Failure M.Exception) (Option Text × M.PowerShell)
  | .exportTo k name =>
    let (result, ps) := PowerShell.exportTo k ps name
    result.map fun text => (some text, ps)
  | call => (call.run ps).map fun ps => (none, ps)

namespace Call

variable {call : Call}

/-- If all its texts can cross, a call does what the method does. -/
theorem run_of_crosses (hCrosses : call.Crosses) (ps : M.PowerShell) :
    call.run ps = crossing (call.managed ps) := by
  rw [run_eq, received_of_crosses hCrosses]
  rfl

/-- If one of them cannot, it fails before the method is called. -/
theorem run_of_not_crosses (hNot : ¬ call.Crosses) (ps : M.PowerShell) :
    call.run ps = .error .nulError := by
  rw [run_eq, received_of_not_crosses hNot]
  rfl

/-- All calls but the exports return nothing. -/
theorem reply_of_silent (hSilent : ∀ k name, call ≠ .exportTo k name) (ps : M.PowerShell) :
    call.reply ps = (call.run ps).map fun ps => (none, ps) := by
  cases call with
  | exportTo k name => exact absurd rfl (hSilent k name)
  | _ => rfl

/-- The state is that of the call. -/
theorem map_reply (call : Call) (ps : M.PowerShell) :
    (call.reply ps).map Prod.snd = call.run ps := by
  by_cases hExport : ∃ k name, call = .exportTo k name
  · obtain ⟨k, name, rfl⟩ := hExport
    change ((PowerShell.exportTo k ps name).1.map _).map _ =
      (PowerShell.exportTo k ps name).1.map _
    cases (PowerShell.exportTo k ps name).1 <;> rfl
  · rw [reply_of_silent fun k name hCall => hExport ⟨k, name, hCall⟩]
    cases call.run ps <;> rfl

/-- Nor is there an answer if a text cannot cross. -/
theorem reply_of_not_crosses (hNot : ¬ call.Crosses) (ps : M.PowerShell) :
    call.reply ps = .error .nulError := by
  have hRun := map_reply call ps
  rw [run_of_not_crosses hNot] at hRun
  cases hReply : call.reply ps with
  | error failure =>
      rw [hReply] at hRun
      obtain rfl := Except.error.inj hRun
      rfl
  | ok reply =>
      rw [hReply] at hRun
      cases hRun

end Call

end PwshHost.Bindings

namespace PwshHost.Abi

open PwshHost.Bindings
open Xml (Text)
open Unicode
open Memory

variable {M : ManagedPowerShell}

structure Bindings (Pointer : Type) where
  createFn : Pointer
  addArgumentStringFn : Pointer
  addParameterStringFn : Pointer
  addParameterIntFn : Pointer
  addParameterLongFn : Pointer
  addCommandFn : Pointer
  addScriptFn : Pointer
  addStatementFn : Pointer
  invokeFn : Pointer
  clearFn : Pointer
  exportToXmlFn : Pointer
  exportToJsonFn : Pointer
  exportToStringFn : Pointer
  marshalFreeCoTaskMemFn : Pointer

variable {Pointer : Type}

/-- The field for a method. -/
def Bindings.function (inner : Bindings Pointer) : EntryPoint → Pointer
  | .powerShellCreate => inner.createFn
  | .powerShellAddArgumentString => inner.addArgumentStringFn
  | .powerShellAddParameterString => inner.addParameterStringFn
  | .powerShellAddParameterInt => inner.addParameterIntFn
  | .powerShellAddParameterLong => inner.addParameterLongFn
  | .powerShellAddCommand => inner.addCommandFn
  | .powerShellAddScript => inner.addScriptFn
  | .powerShellAddStatement => inner.addStatementFn
  | .powerShellInvoke => inner.invokeFn
  | .powerShellClear => inner.clearFn
  | .powerShellExportToXml => inner.exportToXmlFn
  | .powerShellExportToJson => inner.exportToJsonFn
  | .powerShellExportToString => inner.exportToStringFn
  | .marshalFreeCoTaskMem => inner.marshalFreeCoTaskMemFn

/-- Every field points to its own method. -/
def Bindings.Wired (code : Pointer → Option EntryPoint) (inner : Bindings Pointer) : Prop :=
  ∀ entryPoint, code (inner.function entryPoint) = some entryPoint

variable (code : Pointer → Option EntryPoint)

def callThrough (function : Pointer) (arguments : List Argument) : Execution M (Option Nat) :=
  match code function with
  | none => throw .badCall
  | some entryPoint => entryPoint.call arguments

/-- The value of a call whose type says that there is one. -/
def returned (value : Option Nat) : Execution M Nat :=
  match value with
  | none => throw .badCall
  | some value => pure value

structure PowerShell (Pointer : Type) where
  inner : Bindings Pointer
  handle : Nat

namespace PowerShell

/-- `new` once the bindings are there. -/
def new (bindings : Bindings Pointer) : Execution M (PowerShell Pointer) := do
  let handle ← returned (← callThrough code bindings.createFn [])
  return ⟨bindings, handle⟩

variable (self : PowerShell Pointer)

def addArgumentString (argument : Text) : Execution M Unit :=
  withCString argument fun argumentCstr => do
    let _ ← callThrough code self.inner.addArgumentStringFn
      [.intPtr self.handle, .intPtr argumentCstr]

def addParameterString (name value : Text) : Execution M Unit :=
  withCString name fun nameCstr =>
    withCString value fun valueCstr => do
      let _ ← callThrough code self.inner.addParameterStringFn
        [.intPtr self.handle, .intPtr nameCstr, .intPtr valueCstr]

def addParameterInt (name : Text) (value : Rust.I32) : Execution M Unit :=
  withCString name fun nameCstr => do
    let _ ← callThrough code self.inner.addParameterIntFn
      [.intPtr self.handle, .intPtr nameCstr, .int value]

def addParameterLong (name : Text) (value : Rust.I64) : Execution M Unit :=
  withCString name fun nameCstr => do
    let _ ← callThrough code self.inner.addParameterLongFn
      [.intPtr self.handle, .intPtr nameCstr, .long value]

def addCommand (command : Text) : Execution M Unit :=
  withCString command fun commandCstr => do
    let _ ← callThrough code self.inner.addCommandFn [.intPtr self.handle, .intPtr commandCstr]

def addScript (script : Text) : Execution M Unit :=
  withCString script fun scriptCstr => do
    let _ ← callThrough code self.inner.addScriptFn [.intPtr self.handle, .intPtr scriptCstr]

/-- The type of the pointer has a handle for a result. The method returns
nothing, and the result is not used. -/
def addStatement : Execution M Unit := do
  let _ ← callThrough code self.inner.addStatementFn [.intPtr self.handle]

def invoke (clear : Bool) : Execution M Unit := do
  let _ ← callThrough code self.inner.invokeFn [.intPtr self.handle]
  if clear then
    let _ ← callThrough code self.inner.clearFn [.intPtr self.handle]

def clear : Execution M Unit := do
  let _ ← callThrough code self.inner.clearFn [.intPtr self.handle]

def marshalFreeCoTaskMem (ptr : Nat) : Execution M Unit := do
  let _ ← callThrough code self.inner.marshalFreeCoTaskMemFn [.intPtr ptr]

/-- The field that an export calls. -/
def exportFn : ExportKind → Pointer
  | .xml => self.inner.exportToXmlFn
  | .json => self.inner.exportToJsonFn
  | .string => self.inner.exportToStringFn

/-- `export_to_xml`, `export_to_json` and `export_to_string`. -/
def exportTo (k : ExportKind) (name : Text) : Execution M Text :=
  withCString name fun nameCstr => do
    let cstrPtr ← returned (← callThrough code (self.exportFn k)
      [.intPtr self.handle, .intPtr nameCstr])
    let cstr ← readZeroTerminated cstrPtr
    let rstr := Utf8.decodeLossy (Bytes.cStrToBytes cstr)
    self.marshalFreeCoTaskMem code cstrPtr
    return rstr

def issue : Call → Execution M (Option Text)
  | .addArgumentString argument => (fun _ => none) <$> self.addArgumentString code argument
  | .addParameterString name value => (fun _ => none) <$> self.addParameterString code name value
  | .addParameterInt name value => (fun _ => none) <$> self.addParameterInt code name value
  | .addParameterLong name value => (fun _ => none) <$> self.addParameterLong code name value
  | .addCommand command => (fun _ => none) <$> self.addCommand code command
  | .addScript script => (fun _ => none) <$> self.addScript code script
  | .addStatement => (fun _ => none) <$> self.addStatement code
  | .invoke andClear => (fun _ => none) <$> self.invoke code andClear
  | .clear => (fun _ => none) <$> self.clear code
  | .exportTo k name => some <$> self.exportTo code k name

end PowerShell

variable {code} {process : Process M}

/-- A pointer that points to an entry point calls it. -/
theorem callThrough_of_code {function : Pointer} {entryPoint : EntryPoint}
    (hCode : code function = some entryPoint) (arguments : List Argument) :
    (callThrough code function arguments : Execution M (Option Nat)) =
      entryPoint.call arguments := by
  rw [callThrough, hCode]

/-- The text is held while the body runs, along with what was held before. -/
theorem Ends.withCString {β : Type} {s : Text} (hText : nul ∉ s) {body : Nat → Execution M β}
    {outcome : Except (Failure M.Exception) (β × Heap Unit M.PowerShell)}
    (hBody : ∀ (during : Process M) (cstr : Nat), during.handles = process.handles →
      during.Holds cstr s → (∀ ptr text, process.Holds ptr text → during.Holds ptr text) →
      Ends (body cstr) during outcome) :
    Ends (withCString s body) process outcome := by
  refine Ends.withCString_of_not_mem hText (hBody _ _ rfl ⟨?_, hText⟩ ?_)
  · exact Heap.live_alloc_self
  · intro ptr text hHolds
    exact ⟨Heap.live_alloc_of_live hHolds.1, hHolds.2⟩

/-- A method returns nothing through its pointer either. -/
theorem Ends.method {entry : Execution M Unit}
    {outcome : Except (Failure M.Exception) (Unit × Heap Unit M.PowerShell)}
    (hEntry : Ends entry process outcome) :
    Ends ((fun _ => (none : Option Nat)) <$> entry >>= fun _ => pure ()) process outcome := by
  rw [bind_map_left]
  exact (bind_pure entry).symm ▸ hEntry

section Calls

variable {self : PowerShell Pointer} (hWired : self.inner.Wired code) {ps : M.PowerShell}
  (hLive : process.handles.live self.handle = some ⟨(), ps⟩)

/-- A method that takes one text. -/
theorem Ends.method_text {handle : Nat} {s : Text} (hText : nul ∉ s)
    {entry : Nat → Execution M Unit} {result : Except M.Exception M.PowerShell}
    (hEntry : ∀ (during : Process M) (cstr : Nat),
      during.handles.live handle = some ⟨(), ps⟩ → during.Holds cstr s →
      Ends (entry cstr) during (stored during.handles handle result))
    (hLive : process.handles.live handle = some ⟨(), ps⟩) :
    Ends (Abi.withCString s fun cstr =>
        (fun _ => (none : Option Nat)) <$> entry cstr >>= fun _ => pure ()) process
      (stored process.handles handle result) := by
  refine Ends.withCString hText fun during cstr hHandles hHolds _ => ?_
  rw [← hHandles] at hLive ⊢
  exact Ends.method (hEntry during cstr hLive hHolds)

include hWired hLive

namespace PowerShell

/-- The wrapper for an argument makes a C string, calls the entry point and drops
the string. -/
theorem ends_addArgumentString {argument : Text} (hArgument : nul ∉ argument) :
    Ends (self.addArgumentString code argument) process
      (stored process.handles self.handle (M.addArgument ps (.string argument))) := by
  have hCode : code self.inner.addArgumentStringFn = _ := hWired .powerShellAddArgumentString
  simp only [addArgumentString, callThrough_of_code hCode, EntryPoint.call]
  exact Ends.method_text hArgument (fun _ _ hLive hHolds => Abi.ends_addArgumentString hLive hHolds)
    hLive

/-- Here two C strings are live at once, the first of which is dropped last. -/
theorem ends_addParameterString {name value : Text} (hName : nul ∉ name) (hValue : nul ∉ value) :
    Ends (self.addParameterString code name value) process
      (stored process.handles self.handle (M.addParameter ps name (.string value))) := by
  have hCode : code self.inner.addParameterStringFn = _ := hWired .powerShellAddParameterString
  simp only [addParameterString, callThrough_of_code hCode, EntryPoint.call]
  refine Ends.withCString hName fun outer nameCstr hOuter hHoldsName _ => ?_
  refine Ends.withCString hValue fun inner valueCstr hInner hHoldsValue hKept => ?_
  have hHandles : inner.handles = process.handles := hInner.trans hOuter
  rw [← hHandles] at hLive ⊢
  exact Ends.method (Abi.ends_addParameterString hLive (hKept _ _ hHoldsName) hHoldsValue)

/-- The name of the parameter is the only text that crosses. -/
theorem ends_addParameterInt {name : Text} (hName : nul ∉ name) (value : Rust.I32) :
    Ends (self.addParameterInt code name value) process
      (stored process.handles self.handle (M.addParameter ps name (.int value))) := by
  have hCode : code self.inner.addParameterIntFn = _ := hWired .powerShellAddParameterInt
  simp only [addParameterInt, callThrough_of_code hCode, EntryPoint.call]
  exact Ends.method_text hName
    (fun _ _ hLive hHolds => Abi.ends_addParameterInt hLive hHolds value) hLive

theorem ends_addParameterLong {name : Text} (hName : nul ∉ name) (value : Rust.I64) :
    Ends (self.addParameterLong code name value) process
      (stored process.handles self.handle (M.addParameter ps name (.long value))) := by
  have hCode : code self.inner.addParameterLongFn = _ := hWired .powerShellAddParameterLong
  simp only [addParameterLong, callThrough_of_code hCode, EntryPoint.call]
  exact Ends.method_text hName
    (fun _ _ hLive hHolds => Abi.ends_addParameterLong hLive hHolds value) hLive

theorem ends_addCommand {command : Text} (hCommand : nul ∉ command) :
    Ends (self.addCommand code command) process
      (stored process.handles self.handle (.ok (M.addCommand ps command))) := by
  have hCode : code self.inner.addCommandFn = _ := hWired .powerShellAddCommand
  simp only [addCommand, callThrough_of_code hCode, EntryPoint.call]
  exact Ends.method_text hCommand (fun _ _ hLive hHolds => Abi.ends_addCommand hLive hHolds) hLive

theorem ends_addScript {script : Text} (hScript : nul ∉ script) :
    Ends (self.addScript code script) process
      (stored process.handles self.handle (.ok (M.addScript ps script))) := by
  have hCode : code self.inner.addScriptFn = _ := hWired .powerShellAddScript
  simp only [addScript, callThrough_of_code hCode, EntryPoint.call]
  exact Ends.method_text hScript (fun _ _ hLive hHolds => Abi.ends_addScript hLive hHolds) hLive

/-- No text crosses for a new statement. -/
theorem ends_addStatement : Ends (self.addStatement code) process
    (stored process.handles self.handle (.ok (M.addStatement ps))) := by
  have hCode : code self.inner.addStatementFn = _ := hWired .powerShellAddStatement
  simp only [addStatement, callThrough_of_code hCode, EntryPoint.call]
  exact Ends.method (Abi.ends_addStatement hLive)

/-- Nor does one for clearing the queue. -/
theorem ends_clear : Ends (self.clear code) process
    (stored process.handles self.handle (.ok (M.clear ps))) := by
  have hCode : code self.inner.clearFn = _ := hWired .powerShellClear
  simp only [clear, callThrough_of_code hCode, EntryPoint.call]
  exact Ends.method (Abi.ends_clear hLive)

/-- The queue is cleared by a call of its own. -/
theorem ends_invoke (andClear : Bool) : Ends (self.invoke code andClear) process
    (stored process.handles self.handle ((Call.invoke andClear).managed ps)) := by
  have hCode : code self.inner.invokeFn = _ := hWired .powerShellInvoke
  have hInvoke := Abi.ends_invoke hLive
  rw [invoke, callThrough_of_code hCode, EntryPoint.call, bind_map_left]
  simp only [Call.managed]
  cases hResults : (M.invoke ps).1 with
  | error e =>
      rw [hResults] at hInvoke
      exact hInvoke.bind_error
  | ok results =>
      rw [hResults] at hInvoke
      refine hInvoke.bind fun after hAfter => ?_
      cases andClear with
      | false => exact ⟨after, runOn_pure .., rfl, hAfter⟩
      | true =>
          have hNext : after.handles.live self.handle = some ⟨(), (M.invoke ps).2⟩ := by
            rw [hAfter]
            exact Heap.live_set_self hLive _
          have hClear := ends_clear hWired hNext
          rw [hAfter, stored, crossing, Except.map, Heap.set_set] at hClear
          exact hClear

omit hLive in
/-- The pointer for freeing leads to the allocator that the texts of the managed
side come from. -/
theorem marshalFreeCoTaskMem_eq (ptr : Nat) :
    self.marshalFreeCoTaskMem code ptr = release (M := M) .coTaskMem ptr := by
  have hCode : code self.inner.marshalFreeCoTaskMemFn = _ := hWired .marshalFreeCoTaskMem
  rw [marshalFreeCoTaskMem, callThrough_of_code hCode, EntryPoint.call, bind_map_left]
  exact bind_pure _

omit hLive in
/-- The three exports are called through different pointers and do the same with
different scripts. -/
theorem callThrough_exportFn (k : ExportKind) (nameCstr : Nat) :
    callThrough code (self.exportFn k) [.intPtr self.handle, .intPtr nameCstr] =
      some <$> exportWith (M := M) self.handle k.script nameCstr := by
  cases k with
  | xml =>
      have hCode : code (self.exportFn .xml) = _ := hWired .powerShellExportToXml
      exact callThrough_of_code hCode _
  | json =>
      have hCode : code (self.exportFn .json) = _ := hWired .powerShellExportToJson
      exact callThrough_of_code hCode _
  | string =>
      have hCode : code (self.exportFn .string) = _ := hWired .powerShellExportToString
      exact callThrough_of_code hCode _

/-- An export frees what the entry point hands over. -/
theorem ends_exportTo (k : ExportKind) {name : Text} (hName : nul ∉ name) :
    Ends (self.exportTo code k name) process
      ((Bindings.PowerShell.exportTo k ps name).1.map fun text =>
        (text, process.handles.set self.handle (Bindings.PowerShell.exportTo k ps name).2)) := by
  refine Ends.withCString hName fun during nameCstr hHandles hHolds _ => ?_
  rw [← hHandles] at hLive ⊢
  have hRun := runOn_exportWith hLive (k := k) hHolds
  rw [callThrough_exportFn hWired, exportTo_exported ps k hName, bind_map_left]
  rcases hExported : exported ps k name with ⟨e | r, ps'⟩
  · rw [hExported] at hRun
    obtain ⟨after, hRun⟩ := hRun
    exact ⟨after, bind_of_error _ hRun⟩
  · rw [hExported] at hRun
    have hZero : 0 ∈ Bytes.stringToCoTaskMemUTF8 (Utf16.encode r) :=
      List.mem_append_right _ (List.mem_singleton_self 0)
    have hAlloc : (during.heap.alloc .coTaskMem
        (Bytes.stringToCoTaskMemUTF8 (Utf16.encode r))).live = _ := rfl
    obtain ⟨heap, hFree, hKept⟩ := Heap.free_of_alloc hAlloc
    refine ⟨{ heap := heap, handles := during.handles.set self.handle ps' }, ?_, hKept, rfl⟩
    refine (bind_of_ok _ hRun).trans ?_
    refine (bind_of_ok _ (runOn_pure ..)).trans ?_
    refine (bind_of_ok _ (runOn_readZeroTerminated Heap.live_alloc_self hZero)).trans ?_
    rw [marshalFreeCoTaskMem_eq hWired, bind_of_ok _ (runOn_release hFree)]
    exact runOn_pure ..

end PowerShell

omit hWired hLive in
/-- A wrapper that returns nothing ends as the plain call does. -/
theorem Ends.silent {call : Call} (hCrosses : call.Crosses)
    (hSilent : ∀ k name, call ≠ .exportTo k name) {handle : Nat} {x : Execution M Unit}
    (hEnds : Ends x process (stored process.handles handle (call.managed ps))) :
    Ends ((fun _ => (none : Option Text)) <$> x) process
      ((call.reply ps).map fun reply => (reply.1, process.handles.set handle reply.2)) := by
  have hMap := hEnds.map fun _ => (none : Option Text)
  rw [stored] at hMap
  rw [Call.reply_of_silent hSilent, Call.run_of_crosses hCrosses]
  cases hResult : crossing (call.managed ps) with
  | error failure =>
      rw [hResult] at hMap
      exact hMap
  | ok ps' =>
      rw [hResult] at hMap
      exact hMap

/-- A call that gets to its entry point. -/
theorem ends_of_crosses {call : Call} (hCrosses : call.Crosses) :
    Ends (self.issue code call) process ((call.reply ps).map fun reply =>
      (reply.1, process.handles.set self.handle reply.2)) := by
  have hTexts : ∀ s ∈ call.texts, nul ∉ s := hCrosses
  cases call with
  | addArgumentString argument =>
      exact Ends.silent hCrosses (by simp) (PowerShell.ends_addArgumentString hWired hLive
        (hTexts argument (List.mem_singleton_self _)))
  | addParameterString name value =>
      exact Ends.silent hCrosses (by simp) (PowerShell.ends_addParameterString hWired hLive
        (hTexts name (by simp [Call.texts])) (hTexts value (by simp [Call.texts])))
  | addParameterInt name value =>
      exact Ends.silent hCrosses (by simp) (PowerShell.ends_addParameterInt hWired hLive
        (hTexts name (List.mem_singleton_self _)) value)
  | addParameterLong name value =>
      exact Ends.silent hCrosses (by simp) (PowerShell.ends_addParameterLong hWired hLive
        (hTexts name (List.mem_singleton_self _)) value)
  | addCommand command =>
      exact Ends.silent hCrosses (by simp) (PowerShell.ends_addCommand hWired hLive
        (hTexts command (List.mem_singleton_self _)))
  | addScript script =>
      exact Ends.silent hCrosses (by simp) (PowerShell.ends_addScript hWired hLive
        (hTexts script (List.mem_singleton_self _)))
  | addStatement =>
      exact Ends.silent hCrosses (by simp) (PowerShell.ends_addStatement hWired hLive)
  | invoke andClear =>
      exact Ends.silent hCrosses (by simp) (PowerShell.ends_invoke hWired hLive andClear)
  | clear =>
      exact Ends.silent hCrosses (by simp) (PowerShell.ends_clear hWired hLive)
  | exportTo k name =>
      have hEnds := (PowerShell.ends_exportTo hWired hLive k
        (hTexts name (List.mem_singleton_self _))).map some
      simp only [Call.reply]
      cases hResult : (Bindings.PowerShell.exportTo k ps name).1 with
      | error failure =>
          rw [hResult] at hEnds
          exact hEnds
      | ok text =>
          rw [hResult] at hEnds
          exact hEnds

end Calls

/-- A text that cannot cross is an error whatever would have been done with the
answer. -/
theorem Ends.map_nulError {α β : Type} {x : Execution M α} (f : α → β)
    (hEnds : Ends x process (.error .nulError)) : Ends (f <$> x) process (.error .nulError) :=
  hEnds.map f

/-- A call that panics in `CString::new`, before anything else. -/
theorem ends_of_not_crosses {self : PowerShell Pointer} {call : Call} (hNot : ¬ call.Crosses) :
    Ends (self.issue code call) process (.error .nulError) := by
  cases call with
  | addStatement => exact absurd (List.forall_mem_nil _) hNot
  | invoke andClear => exact absurd (List.forall_mem_nil _) hNot
  | clear => exact absurd (List.forall_mem_nil _) hNot
  | addParameterString name value =>
      by_cases hName : nul ∈ name
      · exact Ends.map_nulError _ (Ends.withCString_of_mem hName _)
      · have hValue : nul ∈ value := by
          by_contra hValue
          exact hNot (by simp [Call.Crosses, Call.texts, hName, hValue])
        refine Ends.map_nulError _ ?_
        refine Ends.withCString hName fun during nameCstr hHandles hHolds _ => ?_
        exact Ends.withCString_of_mem hValue _
  | _ =>
      refine Ends.map_nulError _ (Ends.withCString_of_mem ?_ _)
      by_contra hText
      exact hNot (List.forall_mem_singleton.mpr hText)

/-- The refinement of one call. It ends as it does where there is no memory,
without a fault and with its reply, and changes no handle but its own. -/
theorem ends_issue {self : PowerShell Pointer} (hWired : self.inner.Wired code)
    {ps : M.PowerShell} (hLive : process.handles.live self.handle = some ⟨(), ps⟩) (call : Call) :
    Ends (self.issue code call) process ((call.reply ps).map fun reply =>
      (reply.1, process.handles.set self.handle reply.2)) := by
  by_cases hCrosses : call.Crosses
  · exact ends_of_crosses hWired hLive hCrosses
  · rw [Call.reply_of_not_crosses hCrosses]
    exact ends_of_not_crosses hCrosses

end PwshHost.Abi
