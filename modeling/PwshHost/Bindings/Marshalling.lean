import PwshHost.Bindings.PowerShell
import PwshHost.Bindings.Shell
import PwshHost.Unicode.Encoding

/-! The bytes of a text at the native boundary. Rust holds UTF-8, the managed
side UTF-16, and what lies between them is UTF-8 up to a zero byte. -/
namespace PwshHost.Bindings

open Xml (Text)
open Unicode

/-- A string of the managed side, by its code units. -/
abbrev ManagedString := List UInt16

namespace Bytes

/-- `CString::new` refuses a zero byte, and adds one. -/
def cStringNew (bytes : List UInt8) : Option (List UInt8) :=
  if 0 ∈ bytes then none else some (bytes ++ [0])

/-- `CStr::from_ptr` and `CStr::to_bytes`. -/
def cStrToBytes (memory : List UInt8) : List UInt8 := memory.takeWhile (· ≠ 0)

/-- `Marshal.StringToCoTaskMemUTF8`. The length is counted, so a null character
is written like any other. -/
def stringToCoTaskMemUTF8 (s : ManagedString) : List UInt8 :=
  Utf8.encode (Utf16.decodeLossy s) ++ [0]

/-- `Marshal.PtrToStringUTF8`. -/
def ptrToStringUTF8 (memory : List UInt8) : ManagedString :=
  Utf16.encode (Utf8.decodeLossy (memory.takeWhile (· ≠ 0)))

/-- What the managed side gets of a `&str`. There is none if `unwrap` panics. -/
def handOver (s : Text) : Option ManagedString :=
  (cStringNew (Utf8.encode s)).map ptrToStringUTF8

/-- What Rust gets of a managed string: `String::from_utf8_lossy`. -/
def takeBack (r : ManagedString) : Text :=
  Utf8.decodeLossy (cStrToBytes (stringToCoTaskMemUTF8 r))

/-- In memory a text with a zero byte after it is its characters, encoded. There is
a null character in the one exactly if there is a zero byte in the other. -/
theorem cStringNew_encode (s : Text) :
    cStringNew (Utf8.encode s) = (cString s).map Utf8.encode := by
  by_cases hNul : nul ∈ s
  · rw [cStringNew, if_pos ((Utf8.zero_mem_encode s).mpr hNul), cString, if_pos hNul]
    rfl
  · have hZero : 0 ∉ Utf8.encode s := fun h => hNul ((Utf8.zero_mem_encode s).mp h)
    rw [cStringNew, if_neg hZero, cString, if_neg hNul, Option.map_some, Utf8.encode_append]
    rfl

/-- What is read at a pointer to encoded memory is the text before its first null
character. -/
theorem ptrToStringUTF8_encode (memory : Text) :
    ptrToStringUTF8 (Utf8.encode memory) = Utf16.encode (readString memory) := by
  rw [ptrToStringUTF8, Utf8.takeWhile_encode, Utf8.decodeLossy_encode]
  rfl

/-- The managed side writes the characters of its string, encoded, with a zero byte
after them. -/
theorem stringToCoTaskMemUTF8_encode (s : Text) :
    stringToCoTaskMemUTF8 (Utf16.encode s) =
      Utf8.encode (Bindings.stringToCoTaskMemUTF8 s) := by
  rw [stringToCoTaskMemUTF8, Utf16.decodeLossy_encode, Bindings.stringToCoTaskMemUTF8,
    Utf8.encode_append]
  rfl

theorem cStrToBytes_encode (memory : Text) :
    cStrToBytes (Utf8.encode memory) = Utf8.encode (readString memory) :=
  Utf8.takeWhile_encode memory

/-- So a text that is handed over arrives as it is, unless it has a null character. -/
theorem handOver_eq (s : Text) :
    handOver s = (cString s).map fun memory => Utf16.encode (readString memory) := by
  rw [handOver, cStringNew_encode, Option.map_map]
  congr 1
  funext memory
  exact ptrToStringUTF8_encode memory

/-- On the way back a text ends at its first null character, without a notice. -/
theorem takeBack_encode (r : Text) :
    takeBack (Utf16.encode r) = readString (Bindings.stringToCoTaskMemUTF8 r) := by
  rw [takeBack, stringToCoTaskMemUTF8_encode, cStrToBytes_encode, Utf8.decodeLossy_encode]

/-- A text without a null character is handed over as it is. -/
theorem handOver_of_not_mem {s : Text} (h : nul ∉ s) : handOver s = some (Utf16.encode s) := by
  rw [handOver_eq, cString, if_neg h, Option.map_some, readString_append h]

/-- A text with a null character does not even leave the Rust side. -/
theorem handOver_of_mem {s : Text} (h : nul ∈ s) : handOver s = none := by
  rw [handOver_eq, cString, if_pos h]
  rfl

/-- Rust gets what comes before the first null character. -/
theorem takeBack_eq_takeWhile (r : Text) :
    takeBack (Utf16.encode r) = r.takeWhile (· ≠ nul) := by
  rw [takeBack_encode, Bindings.stringToCoTaskMemUTF8, readString, List.takeWhile_append]
  split
  · rename_i hLength
    have hAll : r.takeWhile (· ≠ nul) = r := (List.takeWhile_sublist _).eq_of_length hLength
    rw [hAll]
    simp
  · rfl

/-- A text comes back whole exactly if it has no null character. -/
theorem takeBack_eq_self (r : Text) : takeBack (Utf16.encode r) = r ↔ nul ∉ r := by
  rw [takeBack_encode]
  exact readString_eq_self

end Bytes

/-- The texts that a call hands over. -/
def Call.texts : Call → List Text
  | .addArgumentString argument => [argument]
  | .addParameterString name value => [name, value]
  | .addParameterInt name _ | .addParameterLong name _ => [name]
  | .addCommand command => [command]
  | .addScript script => [script]
  | .exportTo _ name => [name]
  | .addStatement | .invoke _ | .clear => []

/-- The call gets to its entry point. -/
def Call.Crosses (call : Call) : Prop := ∀ s ∈ call.texts, nul ∉ s

section Calls

variable {M : ManagedPowerShell}

/-- The characters that the managed side gets of a text. -/
def received (s : Text) : Except (Failure M.Exception) Text :=
  match Bytes.handOver s with
  | none => .error .nulError
  | some units => .ok (Utf16.decodeLossy units)

/-- A call with the texts that the managed side gets. -/
def Call.received : Call → Except (Failure M.Exception) Call
  | .addArgumentString argument => do
    let argument ← Bindings.received argument
    return .addArgumentString argument
  | .addParameterString name value => do
    let name ← Bindings.received name
    let value ← Bindings.received value
    return .addParameterString name value
  | .addParameterInt name value => do
    let name ← Bindings.received name
    return .addParameterInt name value
  | .addParameterLong name value => do
    let name ← Bindings.received name
    return .addParameterLong name value
  | .addCommand command => do
    let command ← Bindings.received command
    return .addCommand command
  | .addScript script => do
    let script ← Bindings.received script
    return .addScript script
  | .exportTo k name => do
    let name ← Bindings.received name
    return .exportTo k name
  | .addStatement => .ok .addStatement
  | .invoke andClear => .ok (.invoke andClear)
  | .clear => .ok .clear

/-- The queue that an export invokes. -/
def exportQueue (ps : M.PowerShell) (k : ExportKind) (name : Text) : M.PowerShell :=
  M.addStatement (M.addScript ps (k.script name))

/-- The string that the entry point of an export marshals, and what it leaves. -/
def exported (ps : M.PowerShell) (k : ExportKind) (name : Text) :
    Except M.Exception Text × M.PowerShell :=
  match M.invoke (exportQueue ps k name) with
  | (.error e, ps) => (.error e, ps)
  | (.ok [], ps) => (.error M.argumentOutOfRange, ps)
  | (.ok (first :: _), ps) =>
    match M.toString first with
    | .error e => (.error e, ps)
    | .ok result => (.ok (trim result), M.clear ps)

/-- What the managed class does when it gets the texts of a call as they are. -/
def Call.managed (ps : M.PowerShell) : Call → Except M.Exception M.PowerShell
  | .addArgumentString argument => M.addArgument ps (.string argument)
  | .addParameterString name value => M.addParameter ps name (.string value)
  | .addParameterInt name value => M.addParameter ps name (.int value)
  | .addParameterLong name value => M.addParameter ps name (.long value)
  | .addCommand command => .ok (M.addCommand ps command)
  | .addScript script => .ok (M.addScript ps script)
  | .addStatement => .ok (M.addStatement ps)
  | .invoke andClear =>
    let (results, ps) := M.invoke ps
    results.map fun _ => if andClear then M.clear ps else ps
  | .clear => .ok (M.clear ps)
  | .exportTo k name =>
    let (result, ps) := exported ps k name
    result.map fun _ => ps

/-- A text with a null character goes nowhere, and any other as it is. -/
theorem received_eq (s : Text) : (received s : Except (Failure M.Exception) Text) =
    if nul ∈ s then .error .nulError else .ok s := by
  split_ifs with hNul
  · simp only [received, Bytes.handOver_of_mem hNul]
  · simp only [received, Bytes.handOver_of_not_mem hNul, Utf16.decodeLossy_encode]

/-- What is done with a text that the managed side receives is done only without a
null character. -/
theorem received_bind {α : Type} (s : Text) (f : Text → Except (Failure M.Exception) α) :
    (received s >>= f) = if nul ∈ s then .error .nulError else f s := by
  rw [received_eq]
  split_ifs <;> rfl

/-- What comes back without an exception was returned by the managed side. -/
theorem crossing_eq_ok {α : Type} {x : Except M.Exception α} {a : α}
    (h : crossing x = .ok a) : x = .ok a := by
  cases x with
  | error e => cases h
  | ok b => exact congrArg Except.ok (Except.ok.inj h)

/-- A text without a null character becomes a C string. -/
theorem newCString_of_not_mem {s : Text} (h : nul ∉ s) :
    (newCString s : Except (Failure M.Exception) Text) = .ok (s ++ [nul]) := by
  simp [newCString, cString, h]

/-- A text with one is refused before anything is called. -/
theorem newCString_of_mem {s : Text} (h : nul ∈ s) :
    (newCString s : Except (Failure M.Exception) Text) = .error .nulError := by
  simp [newCString, cString, h]

/-- A wrapper hands a text over and the entry point reads it. -/
theorem newCString_bind {α : Type} (s : Text) (f : Text → Except (Failure M.Exception) α) :
    (newCString s >>= fun memory => f (readString memory)) = received s >>= f := by
  rw [received_bind]
  split_ifs with hNul
  · rw [newCString_of_mem hNul]
    rfl
  · rw [newCString_of_not_mem hNul]
    change f (readString (s ++ [nul])) = f s
    rw [readString_append hNul]

/-- The managed side gets a call as it is, if it gets it. -/
theorem Call.received_of_crosses {call : Call} (h : call.Crosses) :
    (call.received : Except (Failure M.Exception) Call) = .ok call := by
  cases call with
  | addParameterString name value =>
      have hTexts : nul ∉ name ∧ nul ∉ value := by simpa [Call.Crosses, Call.texts] using h
      rw [received, received_bind, if_neg hTexts.1, received_bind, if_neg hTexts.2]
      rfl
  | addStatement => rfl
  | invoke andClear => rfl
  | clear => rfl
  | _ =>
      have hText := h _ (List.mem_singleton_self _)
      rw [received, received_bind, if_neg hText]
      rfl

/-- A call that does not cross panics in `CString::new`. -/
theorem Call.received_of_not_crosses {call : Call} (h : ¬ call.Crosses) :
    (call.received : Except (Failure M.Exception) Call) = .error .nulError := by
  cases call with
  | addParameterString name value =>
      rw [received, received_bind, received_bind]
      split_ifs with hName hValue
      · rfl
      · rfl
      · exact absurd (by simp [Call.Crosses, Call.texts, hName, hValue]) h
  | addStatement => exact absurd (List.forall_mem_nil _) h
  | invoke andClear => exact absurd (List.forall_mem_nil _) h
  | clear => exact absurd (List.forall_mem_nil _) h
  | _ =>
      rw [received, received_bind]
      split_ifs with hText
      · rfl
      · exact absurd (by simp [Call.Crosses, Call.texts, hText]) h

section Export

variable (ps : M.PowerShell) (k : ExportKind) {name : Text} (h : nul ∉ name)

/-- The three exports are one function of their script. -/
theorem exportFn_eq (memory : Text) :
    PowerShell.exportFn k ps memory = exportWith ps k.script memory := by
  cases k <;> rfl

include h

/-- The entry point marshals the string into memory. -/
theorem exportWith_eq : exportWith ps k.script (name ++ [nul]) =
    ((exported ps k name).1.map stringToCoTaskMemUTF8, (exported ps k name).2) := by
  have hQueue : M.addStatement (M.addScript ps (k.script name)) = exportQueue ps k name := rfl
  simp only [exportWith, readString_append h, hQueue, exported]
  rcases M.invoke (exportQueue ps k name) with ⟨_ | (_ | ⟨first, rest⟩), after⟩
  · rfl
  · rfl
  · cases hText : M.toString first with
    | error e => simp [hText, Except.map]
    | ok result => simp [hText, Except.map]

/-- What Rust gets of an export. -/
theorem exportTo_exported : PowerShell.exportTo k ps name =
    ((crossing (exported ps k name).1).map fun r => Bytes.takeBack (Utf16.encode r),
      (exported ps k name).2) := by
  have hRead : ∀ x : Except M.Exception Text, (crossing (x.map stringToCoTaskMemUTF8)).map
      readString = (crossing x).map fun r => Bytes.takeBack (Utf16.encode r) := by
    intro x
    cases x with
    | error e => rfl
    | ok r => exact congrArg Except.ok (Bytes.takeBack_encode r).symm
  rw [PowerShell.exportTo, newCString_of_not_mem h]
  simp only [exportFn_eq]
  rw [exportWith_eq ps k h, hRead]

end Export

/-- The simulation: the wrapper and the entry point of a call come to the
method of the managed class, on what the managed side gets. -/
theorem Call.run_eq (ps : M.PowerShell) (call : Call) :
    call.run ps = call.received >>= fun received => crossing (received.managed ps) := by
  cases call with
  | addArgumentString argument =>
      rw [received, bind_assoc]
      exact newCString_bind argument fun argument => crossing (M.addArgument ps (.string argument))
  | addParameterString name value =>
      simp only [received, bind_assoc]
      rw [← newCString_bind name]
      change (newCString name >>= fun memory => newCString value >>= _) = _
      congr 1
      funext memory
      exact newCString_bind value fun value =>
        crossing (M.addParameter ps (readString memory) (.string value))
  | addParameterInt name value =>
      rw [received, bind_assoc]
      exact newCString_bind name fun name => crossing (M.addParameter ps name (.int value))
  | addParameterLong name value =>
      rw [received, bind_assoc]
      exact newCString_bind name fun name => crossing (M.addParameter ps name (.long value))
  | addCommand command =>
      rw [received, bind_assoc]
      exact newCString_bind command fun command => .ok (M.addCommand ps command)
  | addScript script =>
      rw [received, bind_assoc]
      exact newCString_bind script fun script => .ok (M.addScript ps script)
  | addStatement => rfl
  | clear => rfl
  | invoke andClear =>
      have hEntry : powerShellInvoke ps = ((M.invoke ps).1.map fun _ => (), (M.invoke ps).2) :=
        rfl
      change PowerShell.invoke ps andClear = crossing ((Call.invoke andClear).managed ps)
      simp only [PowerShell.invoke, managed, hEntry]
      cases (M.invoke ps).1 <;> rfl
  | exportTo k name =>
      rw [received, bind_assoc, received_bind]
      split_ifs with hNul
      · rw [run, PowerShell.exportTo, newCString_of_mem hNul]
        rfl
      · change _ = crossing ((Call.exportTo k name).managed ps)
        simp only [run, managed, exportTo_exported ps k hNul]
        cases (exported ps k name).1 <;> rfl

/-- A call that returns did what its method does. -/
theorem Call.managed_of_run {ps ps' : M.PowerShell} {call : Call} (h : call.run ps = .ok ps') :
    call.managed ps = .ok ps' := by
  rw [run_eq] at h
  by_cases hCrosses : call.Crosses
  · rw [received_of_crosses hCrosses] at h
    exact crossing_eq_ok h
  · rw [received_of_not_crosses hCrosses] at h
    cases h

/-- What crosses the boundary, and how. A call hands its texts over unchanged,
or panics if one of them has a null character in it. An export returns what its
entry point marshals, up to the first null character. -/
theorem strings_cross (ps : M.PowerShell) :
    (∀ call : Call,
      call.run ps = (call.received >>= fun received => crossing (received.managed ps)) ∧
        (call.Crosses → (call.received : Except (Failure M.Exception) Call) = .ok call) ∧
        (¬ call.Crosses → (call.received : Except (Failure M.Exception) Call) =
          .error .nulError)) ∧
      (∀ (k : ExportKind) (name : Text), nul ∉ name → PowerShell.exportTo k ps name =
        ((crossing (exported ps k name).1).map fun r => Bytes.takeBack (Utf16.encode r),
          (exported ps k name).2)) ∧
      ∀ r : Text, Bytes.takeBack (Utf16.encode r) = r.takeWhile (· ≠ nul) ∧
        (Bytes.takeBack (Utf16.encode r) = r ↔ nul ∉ r) := by
  refine ⟨?_, ?_, ?_⟩
  · intro call
    exact ⟨call.run_eq ps, Call.received_of_crosses, Call.received_of_not_crosses⟩
  · intro k name hName
    exact exportTo_exported ps k hName
  · intro r
    exact ⟨Bytes.takeBack_eq_takeWhile r, Bytes.takeBack_eq_self r⟩

theorem strings_cross_echo :
    PowerShell.exportTo .string echoShell.create ['é'] =
        ((crossing (exported echoShell.create .string ['é']).1).map fun r =>
          Bytes.takeBack (Utf16.encode r), (exported echoShell.create .string ['é']).2) ∧
      ((Call.addScript ['é']).received : Except (Failure echoShell.Exception) Call) =
        .ok (.addScript ['é']) :=
  ⟨(strings_cross echoShell.create).2.1 .string ['é'] (by decide),
    ((strings_cross echoShell.create).1 (.addScript ['é'])).2.1
      (by simp [Call.Crosses, Call.texts, nul])⟩

end Calls

/-- The shell whose objects have a null character in their text. -/
def nullShell : ManagedPowerShell := { echoShell with toString := fun _ => .ok ['a', nul, 'b'] }

/-- Rust gets less than the entry point marshals, and a script with a null
character does not get to its own. -/
theorem null_not_crossed :
    (exported nullShell.create .string ['x']).1 = .ok ['a', nul, 'b'] ∧
      (PowerShell.exportTo .string nullShell.create ['x']).1 = .ok ['a'] ∧
      (Call.addScript ['a', nul, 'b']).run nullShell.create = .error .nulError :=
  ⟨rfl, rfl, rfl⟩

end PwshHost.Bindings
