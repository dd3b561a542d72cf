import PwshHost.Memory.Heap
import PwshHost.Bindings.Marshalling

/-! Memory and handles at the boundary. A text that crosses it is a block of one
of two allocators, and a handle refers to an object of the managed side. -/
namespace PwshHost.Abi

open PwshHost.Bindings
open Xml (Text)
open Unicode
open Memory

inductive Allocator where
  | rust
  | coTaskMem
  deriving DecidableEq, Repr

structure Process (M : ManagedPowerShell) where
  heap : Heap Allocator (List UInt8)
  handles : Heap Unit M.PowerShell

/-- A call that does not return has used memory or handles that are not there,
has called a function as another one, or has failed in a known way. -/
inductive Crash (ε : Type) where
  | fault (fault : Fault)
  | badCall
  | failure (failure : Failure ε)

abbrev Execution (M : ManagedPowerShell) := ExceptT (Crash M.Exception) (StateM (Process M))

variable {M : ManagedPowerShell} {α β : Type}

def Execution.runOn (x : Execution M α) (process : Process M) :
    Except (Crash M.Exception) α × Process M :=
  x.run.run process

def checked (x : Except Fault α) : Execution M α :=
  match x with
  | .ok a => pure a
  | .error fault => throw (.fault fault)

/-- An exception that reaches the boundary. -/
def raising (x : Except M.Exception α) : Execution M α :=
  match x with
  | .ok a => pure a
  | .error e => throw (.failure (.exception e))

def allocate (allocator : Allocator) (bytes : List UInt8) : Execution M Nat := do
  let process ← get
  set { process with heap := process.heap.alloc allocator bytes }
  return process.heap.next

def release (allocator : Allocator) (address : Nat) : Execution M Unit := do
  let process ← get
  let heap ← checked (process.heap.free allocator address)
  set { process with heap := heap }

/-- Memory that is read up to a zero byte. Without one the read would leave the
block. -/
def readZeroTerminated (address : Nat) : Execution M (List UInt8) := do
  let process ← get
  let memory ← checked (process.heap.read address)
  if 0 ∈ memory then return memory else throw (.fault .outOfBounds)

/-- `GCHandle.Alloc` and `GCHandle.ToIntPtr`. -/
def newHandle (ps : M.PowerShell) : Execution M Nat := do
  let process ← get
  set { process with handles := process.handles.alloc () ps }
  return process.handles.next

/-- `GCHandle.FromIntPtr` and its `Target`. -/
def target (ptrHandle : Nat) : Execution M M.PowerShell := do
  let process ← get
  checked (process.handles.read ptrHandle)

/-- The object of a handle after a method has changed it. -/
def store (ptrHandle : Nat) (ps : M.PowerShell) : Execution M Unit := do
  let process ← get
  let handles ← checked (process.handles.write ptrHandle ps)
  set { process with handles := handles }

/-- `Marshal.PtrToStringUTF8`. A null pointer is not live. -/
def ptrToStringUTF8 (ptr : Nat) : Execution M Text := do
  let memory ← readZeroTerminated ptr
  return Utf16.decodeLossy (Bytes.ptrToStringUTF8 memory)

/-- `Marshal.StringToCoTaskMemUTF8`. -/
def stringToCoTaskMemUTF8 (s : Text) : Execution M Nat :=
  allocate .coTaskMem (Bytes.stringToCoTaskMemUTF8 (Utf16.encode s))

/-- A panic drops what is in scope. An exception at the boundary ends the
process. -/
def unwinding (x : Execution M α) (drop : Execution M Unit) : Execution M α :=
  tryCatch x fun
    | .failure .nulError => do
      drop
      throw (.failure .nulError)
    | crash => throw crash

/-- `CString::new(..).unwrap()`, whose memory is there until the end of the
scope. -/
def withCString (s : Text) (body : Nat → Execution M α) : Execution M α :=
  match Bytes.cStringNew (Utf8.encode s) with
  | none => throw (.failure .nulError)
  | some memory => do
    let cstr ← allocate .rust memory
    let a ← unwinding (body cstr) (release .rust cstr)
    release .rust cstr
    return a

section Runs

variable {process after : Process M} {x : Execution M α} {a : α}

/-- What comes second runs in the process that the first part left, and only if
there was no crash. -/
theorem runOn_bind (x : Execution M α) (f : α → Execution M β) (process : Process M) :
    (x >>= f).runOn process = match x.runOn process with
      | (.ok a, after) => (f a).runOn after
      | (.error crash, after) => (.error crash, after) := by
  change (ExceptT.bindCont f (x.runOn process).1).run (x.runOn process).2 = _
  rcases x.runOn process with ⟨_ | a, after⟩ <;> rfl

theorem bind_of_ok (f : α → Execution M β) (hFirst : x.runOn process = (.ok a, after)) :
    (x >>= f).runOn process = (f a).runOn after := by
  rw [runOn_bind, hFirst]

theorem bind_of_error {crash : Crash M.Exception} (f : α → Execution M β)
    (hFirst : x.runOn process = (.error crash, after)) :
    (x >>= f).runOn process = (.error crash, after) := by
  rw [runOn_bind, hFirst]

theorem runOn_pure (a : α) (process : Process M) :
    (pure a : Execution M α).runOn process = (.ok a, process) :=
  rfl

theorem runOn_throw (crash : Crash M.Exception) (process : Process M) :
    (throw crash : Execution M α).runOn process = (.error crash, process) :=
  rfl

/-- A call of the managed side that returns changes nothing in the process. -/
theorem runOn_raising_ok {result : Except M.Exception α} (hOk : result = .ok a)
    (process : Process M) : (raising result).runOn process = (.ok a, process) := by
  rw [hOk]
  rfl

/-- An exception of the managed side is a failure of the caller. -/
theorem runOn_raising_error {result : Except M.Exception α} {e : M.Exception}
    (hError : result = .error e) (process : Process M) :
    (raising result).runOn process = (.error (.failure (.exception e)), process) := by
  rw [hError]
  rfl

/-- Memory that was changed before a crash stays changed in its handler. -/
theorem runOn_tryCatch (x : Execution M α) (handle : Crash M.Exception → Execution M α)
    (process : Process M) : (tryCatch x handle).runOn process = match x.runOn process with
      | (.ok a, after) => (.ok a, after)
      | (.error crash, after) => (handle crash).runOn after := by
  unfold Execution.runOn
  rw [ExceptT.run_tryCatch, StateT.run_bind]
  rcases x.run.run process with ⟨_ | a, after⟩ <;> rfl

/-- An error is passed on after the drop, an exception without it. -/
theorem runOn_unwinding (x : Execution M α) (drop : Execution M Unit) (process : Process M) :
    (unwinding x drop).runOn process = match x.runOn process with
      | (.ok a, after) => (.ok a, after)
      | (.error (.failure .nulError), after) =>
        (drop >>= fun _ => throw (.failure .nulError)).runOn after
      | (.error crash, after) => (.error crash, after) := by
  rw [unwinding, runOn_tryCatch]
  rcases x.runOn process with ⟨(_ | _ | _ | _) | a, after⟩ <;> rfl

/-- Allocation does not fail and hands out the next address. -/
theorem runOn_allocate (allocator : Allocator) (bytes : List UInt8) (process : Process M) :
    (allocate allocator bytes).runOn process =
      (.ok process.heap.next, { process with heap := process.heap.alloc allocator bytes }) :=
  rfl

/-- So does making a handle. -/
theorem runOn_newHandle (ps : M.PowerShell) (process : Process M) :
    (newHandle ps).runOn process =
      (.ok process.handles.next, { process with handles := process.handles.alloc () ps }) :=
  rfl

/-- A block can be released by the allocator that it is from. -/
theorem runOn_release {allocator : Allocator} {address : Nat} {heap : Heap Allocator (List UInt8)}
    (hFree : process.heap.free allocator address = .ok heap) :
    (release allocator address).runOn process = (.ok (), { process with heap := heap }) := by
  change ((checked (process.heap.free allocator address) >>= _ : Execution M Unit)).runOn process =
    _
  rw [hFree]
  rfl

/-- Reading goes up to a zero byte, which has to be in the block. -/
theorem runOn_readZeroTerminated {address : Nat} {block : Block Allocator (List UInt8)}
    (hLive : process.heap.live address = some block) (hZero : 0 ∈ block.content) :
    (readZeroTerminated address).runOn process = (.ok block.content, process) := by
  change ((checked (process.heap.read address) >>= _ : Execution M (List UInt8))).runOn process = _
  rw [Heap.read_of_live hLive]
  change (if 0 ∈ block.content then _ else _ : Execution M (List UInt8)).runOn process = _
  rw [if_pos hZero]
  rfl

section Handles

variable {ptrHandle : Nat} {ps : M.PowerShell}
  (hLive : process.handles.live ptrHandle = some ⟨(), ps⟩)

include hLive

/-- A live handle refers to its object. -/
theorem runOn_target : (target ptrHandle).runOn process = (.ok ps, process) := by
  change (checked (process.handles.read ptrHandle) : Execution M M.PowerShell).runOn process = _
  rw [Heap.read_of_live hLive]
  rfl

/-- The object behind a handle is replaced by what a method made of it. -/
theorem runOn_store (ps' : M.PowerShell) : (store ptrHandle ps').runOn process =
    (.ok (), { process with handles := process.handles.set ptrHandle ps' }) := by
  change ((checked (process.handles.write ptrHandle ps') >>= _ : Execution M Unit)).runOn process =
    _
  rw [Heap.write_of_live hLive]
  rfl

end Handles

/-- The memory of a text that crosses. -/
theorem runOn_ptrToStringUTF8 {ptr : Nat} {allocator : Allocator} {s : Text}
    (hLive : process.heap.live ptr = some ⟨allocator, Utf8.encode (s ++ [nul])⟩)
    (hText : nul ∉ s) : (ptrToStringUTF8 ptr).runOn process = (.ok s, process) := by
  have hNul : nul ∈ s ++ [nul] := List.mem_append_right s (List.mem_singleton_self nul)
  have hZero : 0 ∈ Utf8.encode (s ++ [nul]) := (Utf8.zero_mem_encode _).mpr hNul
  rw [ptrToStringUTF8, bind_of_ok _ (runOn_readZeroTerminated hLive hZero), runOn_pure,
    Bytes.ptrToStringUTF8_encode, Utf16.decodeLossy_encode, readString_append hText]

end Runs

/-- Without a fault. A call that returns or panics leaves the memory as it was,
and one that panics the handles too. -/
def Ends (x : Execution M α) (process : Process M) :
    Except (Failure M.Exception) (α × Heap Unit M.PowerShell) → Prop
  | .ok (a, handles) => ∃ after, x.runOn process = (.ok a, after) ∧
      after.heap.live = process.heap.live ∧ after.handles = handles
  | .error .nulError => ∃ after, x.runOn process = (.error (.failure .nulError), after) ∧
      after.heap.live = process.heap.live ∧ after.handles = process.handles
  | .error (.exception e) => ∃ after, x.runOn process = (.error (.failure (.exception e)), after)

section Ends

variable {process : Process M} {x : Execution M α} {a : α}
  {outcome : Except (Failure M.Exception) (β × Heap Unit M.PowerShell)}

/-- A first part that only reads. -/
theorem Ends.after_reading {f : α → Execution M β}
    (hFirst : x.runOn process = (.ok a, process)) (hRest : Ends (f a) process outcome) :
    Ends (x >>= f) process outcome := by
  rcases outcome with (_ | e) | ⟨b, handles⟩ <;>
    (rw [Ends, bind_of_ok f hFirst]
     exact hRest)

/-- A first part that changes handles, and a second one that returns. -/
theorem Ends.bind {f : α → Execution M β} {between handles : Heap Unit M.PowerShell} {b : β}
    (hFirst : Ends x process (.ok (a, between)))
    (hRest : ∀ after : Process M, after.handles = between →
      Ends (f a) after (.ok (b, handles))) : Ends (x >>= f) process (.ok (b, handles)) := by
  obtain ⟨after, hRun, hKept, hBetween⟩ := hFirst
  obtain ⟨last, hLast, hLastKept, hHandles⟩ := hRest after hBetween
  exact ⟨last, (bind_of_ok f hRun).trans hLast, hLastKept.trans hKept, hHandles⟩

/-- After a failure nothing runs. -/
theorem Ends.bind_error {f : α → Execution M β} {failure : Failure M.Exception}
    (hFirst : Ends x process (.error failure)) : Ends (x >>= f) process (.error failure) := by
  cases failure with
  | nulError =>
      obtain ⟨after, hRun, hKept⟩ := hFirst
      exact ⟨after, bind_of_error f hRun, hKept⟩
  | exception e =>
      obtain ⟨after, hRun⟩ := hFirst
      exact ⟨after, bind_of_error f hRun⟩

/-- A pure function of the answer leaves the process alone. -/
theorem Ends.map {outcome : Except (Failure M.Exception) (α × Heap Unit M.PowerShell)}
    (f : α → β) (hEnds : Ends x process outcome) :
    Ends (f <$> x) process (outcome.map fun result => (f result.1, result.2)) := by
  have hMap : f <$> x = x >>= fun a => pure (f a) := (bind_pure_comp f x).symm
  rw [hMap]
  cases outcome with
  | error failure => exact hEnds.bind_error
  | ok result =>
      obtain ⟨a, handles⟩ := result
      exact hEnds.bind fun after hHandles => ⟨after, runOn_pure _ _, rfl, hHandles⟩

/-- Storing at a live handle changes this handle and no memory. -/
theorem Ends.store {ptrHandle : Nat} {ps : M.PowerShell}
    (hLive : process.handles.live ptrHandle = some ⟨(), ps⟩) (ps' : M.PowerShell) :
    Ends (store ptrHandle ps') process (.ok ((), process.handles.set ptrHandle ps')) :=
  ⟨_, runOn_store hLive ps', rfl, rfl⟩

/-- A method that throws or changes its object. -/
theorem Ends.raising_store {ptrHandle : Nat} {ps : M.PowerShell}
    (hLive : process.handles.live ptrHandle = some ⟨(), ps⟩)
    (result : Except M.Exception M.PowerShell) :
    Ends (raising result >>= Abi.store ptrHandle) process
      ((crossing result).map fun ps' => ((), process.handles.set ptrHandle ps')) := by
  cases result with
  | error e => exact ⟨process, bind_of_error _ (runOn_raising_error rfl process)⟩
  | ok ps' => exact Ends.after_reading (runOn_raising_ok rfl process) (Ends.store hLive ps')

/-- A text with a null character is refused before there is memory for it. -/
theorem Ends.withCString_of_mem {s : Text} (hText : nul ∈ s) (body : Nat → Execution M β) :
    Ends (withCString s body) process (.error .nulError) := by
  refine ⟨process, ?_, rfl, rfl⟩
  rw [withCString, Bytes.cStringNew_encode, cString, if_pos hText]
  rfl

/-- Any other text is in memory while it is used, and is gone afterwards, also if
the call panics over a null character. -/
theorem Ends.withCString_of_not_mem {s : Text} (hText : nul ∉ s) {body : Nat → Execution M β}
    (hBody : Ends (body process.heap.next)
      { process with heap := process.heap.alloc .rust (Utf8.encode (s ++ [nul])) } outcome) :
    Ends (withCString s body) process outcome := by
  have hMemory : Bytes.cStringNew (Utf8.encode s) = some (Utf8.encode (s ++ [nul])) := by
    rw [Bytes.cStringNew_encode, cString, if_neg hText]
    rfl
  rw [withCString, hMemory]
  dsimp only
  rcases outcome with (_ | e) | ⟨b, handles⟩
  · obtain ⟨after, hRun, hKept, hHandles⟩ := hBody
    obtain ⟨heap, hFree, hLive⟩ := Heap.free_of_alloc hKept
    refine ⟨{ after with heap := heap }, ?_, hLive, hHandles⟩
    rw [bind_of_ok _ (runOn_allocate ..), runOn_bind, runOn_unwinding, hRun]
    dsimp only
    rw [bind_of_ok _ (runOn_release hFree), runOn_throw]
  · obtain ⟨after, hRun⟩ := hBody
    refine ⟨after, ?_⟩
    rw [bind_of_ok _ (runOn_allocate ..), runOn_bind, runOn_unwinding, hRun]
  · obtain ⟨after, hRun, hKept, hHandles⟩ := hBody
    obtain ⟨heap, hFree, hLive⟩ := Heap.free_of_alloc hKept
    refine ⟨{ after with heap := heap }, ?_, hLive, hHandles⟩
    rw [bind_of_ok _ (runOn_allocate ..), runOn_bind, runOn_unwinding, hRun]
    dsimp only
    rw [bind_of_ok _ (runOn_release hFree), runOn_pure]

end Ends

end PwshHost.Abi
