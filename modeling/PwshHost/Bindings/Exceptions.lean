import PwshHost.Bindings.Isolation
import PwshHost.Control.Fold

/-! Which calls let a managed exception reach the native boundary. No entry
point catches one, so a call that the managed class refuses ends the process. -/
namespace PwshHost.Bindings

open Xml (Text)
open Rust

variable {M : ManagedPowerShell}

/-- Documented exceptions: arguments and parameters need a command in the
queue, and a parameter needs a name. -/
structure ManagedPowerShell.Documented.Exceptions (D : M.Documented) : Prop where
  addArgument (ps : M.PowerShell) (value : ParameterValue) :
    (∃ e, M.addArgument ps value = .error e) ↔ (D.view ps).commands = []
  addParameter (ps : M.PowerShell) (name : Text) (value : ParameterValue) :
    (∃ e, M.addParameter ps name value = .error e) ↔ (D.view ps).commands = [] ∨ trim name = []

section Calls

variable (D : M.Documented)

/-- What the invocation of a queue comes to. -/
def invoked (ps : M.PowerShell) (commands : List Command) : Except M.Exception (List M.PSObject) :=
  (D.execute (D.view ps).session (statements commands)).1

/-- The call invokes a script that raises a terminating error. -/
def Call.Raises (ps : M.PowerShell) : Call → Prop
  | .invoke _ => ∃ e, invoked D ps (D.view ps).commands = .error e
  | .exportTo k name => ∃ e, invoked D ps ((D.view ps).commands ++ [k.command name]) = .error e
  | _ => False

/-- What the managed class asks of a call, where `queued` says whether commands
are pending. An export also needs a first result with a text. -/
def Call.Sound (queued : Bool) (ps : M.PowerShell) : Call → Prop
  | .addArgumentString _ | .invoke _ => queued = true
  | .addParameterString name _ | .addParameterInt name _ | .addParameterLong name _ =>
    queued = true ∧ trim name ≠ []
  | .exportTo k name => ∃ first rest out,
      invoked D ps ((D.view ps).commands ++ [k.command name]) = .ok (first :: rest) ∧
        M.toString first = .ok out
  | .addCommand _ | .addScript _ | .addStatement | .clear => True

/-- An entry point throws in the call. -/
def Call.Throws (ps : M.PowerShell) (call : Call) : Prop :=
  ∃ e, call.run ps = .error (.exception e)

/-- An exception crosses the boundary as it was thrown. -/
theorem crossing_throws {α : Type} {x : Except M.Exception α} :
    (∃ e, crossing x = .error (.exception e)) ↔ ∃ e, x = .error e := by
  cases x with
  | ok a => simp [crossing]
  | error e => simp [crossing]

/-- An exception comes out of the managed class, on a call that gets there. -/
theorem Call.throws_eq (ps : M.PowerShell) (call : Call) :
    call.Throws ps ↔ call.Crosses ∧ ∃ e, call.managed ps = .error e := by
  rw [Throws, run_eq]
  by_cases hCrosses : call.Crosses
  · rw [received_of_crosses hCrosses, ← crossing_throws]
    exact (and_iff_right hCrosses).symm
  · rw [received_of_not_crosses hCrosses]
    refine iff_of_false ?_ fun h => hCrosses h.1
    intro h
    obtain ⟨e, hError⟩ := h
    cases hError

/-- Unless its own run raises an error, an export throws exactly if the run has no
first object with a text. -/
theorem exported_throws (ps : M.PowerShell) (k : ExportKind) (name : Text)
    (hQuiet : ¬ (Call.exportTo k name).Raises D ps) :
    (∃ e, (exported ps k name).1 = .error e) ↔
      ¬ ∃ first rest out, invoked D ps ((D.view ps).commands ++ [k.command name]) =
        .ok (first :: rest) ∧ M.toString first = .ok out := by
  have hQueue : (D.view (exportQueue ps k name)).commands ≠ [] := by
    simp [view_exportQueue]
  have hResults : (M.invoke (exportQueue ps k name)).1 =
      invoked D ps ((D.view ps).commands ++ [k.command name]) := by
    rw [(D.invoke _ hQueue).1, view_exportQueue]
    rfl
  rw [exported, ← hResults]
  simp only [Call.Raises, ← hResults] at hQuiet
  rcases hInvoke : M.invoke (exportQueue ps k name) with ⟨e | (_ | ⟨first, rest⟩), after⟩
  · exact absurd ⟨e, by rw [hInvoke]⟩ hQuiet
  · simp
  · cases hText : M.toString first with
    | error e =>
        refine iff_of_true ⟨e, by simp [hText]⟩ ?_
        intro h
        obtain ⟨first', rest', out, hSame, hOut⟩ := h
        rw [← (List.cons.inj (Except.ok.inj hSame)).1, hText] at hOut
        cases hOut
    | ok out =>
        refine iff_of_false ?_ fun h => h ⟨first, rest, out, rfl, hText⟩
        intro h
        obtain ⟨e, hError⟩ := h
        simp [hText] at hError

/-- The managed class refuses exactly what is not sound. -/
theorem Call.managed_throws (X : D.Exceptions) {ps : M.PowerShell} {call : Call} {queued : Bool}
    (hQueued : Idle D ps ↔ queued = false) (hQuiet : ¬ call.Raises D ps) :
    (∃ e, call.managed ps = .error e) ↔ ¬ call.Sound D queued ps := by
  have hIdle : (D.view ps).commands = [] ↔ ¬ queued = true := by
    rw [Bool.not_eq_true]
    exact hQueued
  have hParameter : ∀ (name : Text) (value : ParameterValue),
      (∃ e, M.addParameter ps name value = .error e) ↔ ¬ (queued = true ∧ trim name ≠ []) := by
    intro name value
    rw [X.addParameter, hIdle, not_and_or, not_not]
  cases call with
  | addArgumentString argument => exact (X.addArgument ps _).trans hIdle
  | addParameterString name value => exact hParameter name (.string value)
  | addParameterInt name value => exact hParameter name (.int value)
  | addParameterLong name value => exact hParameter name (.long value)
  | addCommand command => simp [managed, Sound]
  | addScript script => simp [managed, Sound]
  | addStatement => simp [managed, Sound]
  | clear => simp [managed, Sound]
  | invoke andClear =>
      have hInvoke : (∃ e, (Call.invoke andClear).managed ps = .error e) ↔
          ∃ e, (M.invoke ps).1 = .error e := by
        simp only [managed]
        cases (M.invoke ps).1 <;> simp [Except.map]
      rw [hInvoke, Sound, ← hIdle]
      constructor
      · intro hThrows
        by_contra hCommands
        rw [(D.invoke ps hCommands).1] at hThrows
        exact hQuiet hThrows
      · intro hEmpty
        obtain ⟨e, after, hError⟩ := D.invokeEmpty ps hEmpty
        exact ⟨e, by rw [hError]⟩
  | exportTo k name =>
      have hExport : (∃ e, (Call.exportTo k name).managed ps = .error e) ↔
          ∃ e, (exported ps k name).1 = .error e := by
        simp only [managed]
        cases (exported ps k name).1 <;> simp [Except.map]
      rw [hExport]
      exact exported_throws D ps k name hQuiet

/-- The step lemma: the entry point behind a call throws exactly when the call
gets to it and asks for what the managed class refuses. -/
theorem Call.throws_iff (X : D.Exceptions) {ps : M.PowerShell} {call : Call} {queued : Bool}
    (hQueued : Idle D ps ↔ queued = false) (hQuiet : ¬ call.Raises D ps) :
    call.Throws ps ↔ call.Crosses ∧ ¬ call.Sound D queued ps := by
  rw [throws_eq, managed_throws D X hQueued hQuiet]

/-- No script that is queued raises a terminating error in the run. -/
def Quiet (calls : List Call) : Prop :=
  ∀ before call after ps, calls = before ++ call :: after → runCalls M before = .ok ps →
    ¬ call.Raises D ps

/-- The run lemma: an exception ends a run exactly at a call that asks for what
the managed class refuses. -/
theorem exception_iff (X : D.Exceptions) {calls : List Call} (hQuiet : Quiet D calls) :
    (∃ e, runCalls M calls = .error (.exception e)) ↔
      ∃ before call after ps, calls = before ++ call :: after ∧ runCalls M before = .ok ps ∧
        call.Crosses ∧ ¬ call.Sound D (pending before) ps := by
  constructor
  · intro h
    obtain ⟨e, hError⟩ := h
    obtain ⟨before, call, after, ps, hCalls, hBefore, hCall⟩ :=
      FailingFold.foldlM_eq_error.mp hError
    refine ⟨before, call, after, ps, hCalls, hBefore, ?_⟩
    exact (Call.throws_iff D X (runCalls_idle D hBefore)
      (hQuiet before call after ps hCalls hBefore)).mp ⟨e, hCall⟩
  · intro h
    obtain ⟨before, call, after, ps, hCalls, hBefore, hUnsound⟩ := h
    obtain ⟨e, hCall⟩ := (Call.throws_iff D X (runCalls_idle D hBefore)
      (hQuiet before call after ps hCalls hBefore)).mpr hUnsound
    exact ⟨e, FailingFold.foldlM_eq_error.mpr ⟨before, call, after, ps, hCalls, hBefore, hCall⟩⟩

end Calls

/-- The engine with a queue only throws exactly where the documentation says. -/
theorem echoShell_exceptions : echoShell_documented.Exceptions where
  addArgument ps value := by
    change (∃ e, needsCommand ps _ = .error e) ↔ ps.commands = []
    unfold needsCommand
    split <;> simp_all
  addParameter ps name value := by
    change (∃ e, (if trim name = [] then .error () else needsCommand ps _) = .error e) ↔
      ps.commands = [] ∨ trim name = []
    unfold needsCommand
    split_ifs <;> simp_all

/-- None of its scripts raises an error. -/
theorem echoShell_quiet (calls : List Call) : Quiet echoShell_documented calls := by
  have hRun : ∀ (session : Unit) (queue : List (List Command)) (e : Unit),
      (echoAll session queue).1 ≠ .error e := fun session queue e hError => by cases hError
  intro before call after ps hCalls hBefore hRaises
  cases call with
  | invoke andClear =>
      obtain ⟨e, hError⟩ := hRaises
      exact hRun _ _ e hError
  | exportTo k name =>
      obtain ⟨e, hError⟩ := hRaises
      exact hRun _ _ e hError
  | _ => exact hRaises

theorem exception_iff_echo :
    (∃ e, runCalls echoShell [.addScript ['1'], .invoke true] = .error (.exception e)) ↔
      ∃ before call after ps, [.addScript ['1'], .invoke true] = before ++ call :: after ∧
        runCalls echoShell before = .ok ps ∧ call.Crosses ∧
        ¬ call.Sound echoShell_documented (pending before) ps :=
  exception_iff echoShell_documented echoShell_exceptions (echoShell_quiet _)

/-- An export empties the queue, and an argument then has nothing to go to. -/
theorem argument_after_export_throws :
    Quiet echoShell_documented
      [.addCommand ['c'], .exportTo .string ['x'], .addArgumentString ['a']] ∧
      runCalls echoShell [.addCommand ['c'], .exportTo .string ['x'], .addArgumentString ['a']] =
        .error (.exception ()) :=
  ⟨echoShell_quiet _, rfl⟩

end PwshHost.Bindings
