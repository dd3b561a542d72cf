import PwshHost.Bindings.Marshalling
import PwshHost.Control.Fold

/-! Isolation of exports. An export runs whatever is queued, so it runs its own
script alone exactly when nothing is pending. -/
namespace PwshHost.Bindings

open Xml (Text)
open Rust
open Unicode

/-- Whether the queue holds commands after a call. -/
def Call.pending (before : Bool) : Call → Bool
  | .addCommand _ | .addScript _ => true
  | .invoke true | .clear | .exportTo _ _ => false
  | _ => before

/-- A command or a script was added since the last call that clears. -/
def pending (calls : List Call) : Bool := calls.foldl Call.pending false

variable {M : ManagedPowerShell} (D : M.Documented)

/-- The queue is empty. -/
def Idle (ps : M.PowerShell) : Prop := (D.view ps).commands = []

/-- Changing the last element keeps how many there are. -/
theorem length_modifyLast {α : Type} (f : α → α) (l : List α) :
    (l.modifyLast f).length = l.length := by
  rcases List.eq_nil_or_concat l with rfl | ⟨init, last, rfl⟩
  · rfl
  · rw [List.concat_eq_append, List.modifyLast_concat]
    simp

/-- So a queue is empty after a change of its last command if it was before. -/
theorem modifyLast_eq_nil {α : Type} {f : α → α} {l : List α} : l.modifyLast f = [] ↔ l = [] := by
  rw [← List.length_eq_zero_iff, length_modifyLast, List.length_eq_zero_iff]

section Steps

variable {ps ps' : M.PowerShell}

/-- A command that is added is in the queue. -/
theorem not_idle_queue {c : Command} (h : D.view ps' = (D.view ps).queue c) : ¬ Idle D ps' := by
  rw [Idle, h]
  simp [View.queue]

/-- Arguments and parameters neither fill nor empty the queue. -/
theorem idle_modify {f : Command → Command} (h : D.view ps' = (D.view ps).modify f) :
    Idle D ps' ↔ Idle D ps := by
  rw [Idle, h]
  exact modifyLast_eq_nil

/-- Clearing empties the queue. -/
theorem idle_clear (ps : M.PowerShell) : Idle D (M.clear ps) := by
  rw [Idle, D.clear]

/-- Running needs a command and keeps the queue, which is what makes the next run
repeat it. -/
theorem idle_invoke {results : List M.PSObject} (h : M.invoke ps = (.ok results, ps')) :
    ¬ Idle D ps ∧ ¬ Idle D ps' := by
  by_cases hIdle : Idle D ps
  · obtain ⟨e, other, hThrows⟩ := D.invokeEmpty ps hIdle
    rw [h] at hThrows
    cases hThrows
  · obtain ⟨-, hView⟩ := D.invoke ps hIdle
    rw [h] at hView
    refine ⟨hIdle, ?_⟩
    rw [Idle, hView]
    exact hIdle

/-- An export that returns leaves the queue empty, since it is cleared at the end. -/
theorem idle_exported {k : ExportKind} {name r : Text} (h : exported ps k name = (.ok r, ps')) :
    Idle D ps' := by
  unfold exported at h
  split at h
  · cases h
  · cases h
  · rename_i first rest after hInvoke
    split at h
    · cases h
    · obtain ⟨-, rfl⟩ := Prod.mk.inj h
      exact idle_clear D after

/-- The step lemma: a call that returns leaves the queue empty or not as the
history of the calls says. -/
theorem Call.run_idle {call : Call} (h : call.run ps = .ok ps') {before : Bool}
    (hBefore : Idle D ps ↔ before = false) : Idle D ps' ↔ call.pending before = false := by
  -- the calls that need a command in the queue
  have hModify : ∀ {f : Command → Command}, D.view ps' = (D.view ps).modify f →
      (Idle D ps' ↔ before = false) := fun hView => (idle_modify D hView).trans hBefore
  have hManaged := Call.managed_of_run h
  cases call with
  | addArgumentString argument => exact hModify (D.addArgument hManaged).2
  | addParameterString name value => exact hModify (D.addParameter hManaged).2
  | addParameterInt name value => exact hModify (D.addParameter hManaged).2
  | addParameterLong name value => exact hModify (D.addParameter hManaged).2
  | addCommand command =>
      obtain rfl := Except.ok.inj hManaged
      simp [Call.pending, not_idle_queue D (D.addCommand ps command)]
  | addScript script =>
      obtain rfl := Except.ok.inj hManaged
      simp [Call.pending, not_idle_queue D (D.addScript ps script)]
  | addStatement =>
      obtain rfl := Except.ok.inj hManaged
      exact hModify (D.addStatement ps)
  | clear =>
      obtain rfl := Except.ok.inj hManaged
      simp [Call.pending, idle_clear D ps]
  | invoke andClear =>
      rcases hInvoke : M.invoke ps with ⟨e | results, after⟩
      · simp [Call.managed, hInvoke, Except.map] at hManaged
      · obtain ⟨hNotIdle, hAfter⟩ := idle_invoke D hInvoke
        have hState : (if andClear then M.clear after else after) = ps' := by
          simpa [Call.managed, hInvoke, Except.map] using hManaged
        cases andClear with
        | true =>
            rw [← hState]
            simp [Call.pending, idle_clear D after]
        | false =>
            have hPending : before = true := by
              cases before with
              | true => rfl
              | false => exact absurd (hBefore.mpr rfl) hNotIdle
            rw [← hState]
            simp [Call.pending, hPending, hAfter]
  | exportTo k name =>
      rcases hExported : exported ps k name with ⟨e | r, after⟩
      · simp [Call.managed, hExported, Except.map] at hManaged
      · have hState : after = ps' := by
          simpa [Call.managed, hExported, Except.map] using hManaged
        rw [← hState]
        simp [Call.pending, idle_exported D hExported]

end Steps

/-- A computation that binds returns when both parts do. -/
theorem bind_eq_ok {ε α β : Type} {x : Except ε α} {f : α → Except ε β} {b : β}
    (h : (x >>= f) = .ok b) : ∃ a, x = .ok a ∧ f a = .ok b := by
  cases x with
  | error e => cases h
  | ok a => exact ⟨a, rfl, h⟩

/-- The run lemma: after any calls that return, the queue is empty exactly when
nothing is pending. -/
theorem runCalls_idle {calls : List Call} {ps : M.PowerShell}
    (h : runCalls M calls = .ok ps) : Idle D ps ↔ pending calls = false :=
  FailingFold.foldlM_follows (f := Call.run) (g := fun before call => call.pending before)
    (R := fun ps before => Idle D ps ↔ before = false)
    (fun _ _ _ _ hBefore hStep => Call.run_idle D hStep hBefore) (iff_of_true D.create rfl) h

/-- The only command of an export. -/
def ExportKind.command (k : ExportKind) (name : Text) : Command :=
  (Command.script (k.script name)).close

/-- The export runs its own script alone, and returns the first result of the
script, trimmed. -/
def ExportIsolated (k : ExportKind) (name : Text) (ps : M.PowerShell) : Prop :=
  (D.view (PowerShell.exportTo k ps name).2).runs = (D.view ps).runs ++ [[[k.command name]]] ∧
    ∀ first rest out,
      (D.execute (D.view ps).session [[k.command name]]).1 = .ok (first :: rest) →
      M.toString first = .ok out → (PowerShell.exportTo k ps name).1 = .ok (trim out)

section Export

variable (ps : M.PowerShell) (k : ExportKind) (name : Text)

/-- While an export runs, its command stands after all that were in the queue. -/
theorem view_exportQueue : D.view (exportQueue ps k name) =
    { D.view ps with commands := (D.view ps).commands ++ [k.command name] } := by
  rw [exportQueue, D.addStatement, D.addScript]
  simp only [View.modify, View.queue, List.modifyLast_concat]
  rfl

/-- Whatever comes of it, an export invokes the queue as it finds it, with its
script at the end. -/
theorem runs_exportTo (h : nul ∉ name) : (D.view (PowerShell.exportTo k ps name).2).runs =
    (D.view ps).runs ++ [statements ((D.view ps).commands ++ [k.command name])] := by
  have hQueue : (D.view (exportQueue ps k name)).commands ≠ [] := by
    simp [view_exportQueue]
  have hRuns : (D.view (M.invoke (exportQueue ps k name)).2).runs =
      (D.view ps).runs ++ [statements ((D.view ps).commands ++ [k.command name])] := by
    rw [(D.invoke _ hQueue).2, view_exportQueue]
  rw [exportTo_exported ps k h, exported]
  split
  · rename_i e after hInvoke
    rw [← hRuns, hInvoke]
  · rename_i after hInvoke
    rw [← hRuns, hInvoke]
  · rename_i first rest after hInvoke
    split
    · rw [← hRuns, hInvoke]
    · rw [D.clear, ← hRuns, hInvoke]

/-- From an empty queue the results are those of the script. -/
theorem result_exportTo (h : nul ∉ name) (hIdle : Idle D ps) {first : M.PSObject}
    {rest : List M.PSObject} {out : Text}
    (hScript : (D.execute (D.view ps).session [[k.command name]]).1 = .ok (first :: rest))
    (hOut : M.toString first = .ok out) :
    (PowerShell.exportTo k ps name).1 = .ok (Bytes.takeBack (Utf16.encode (trim out))) := by
  have hQueue : (D.view (exportQueue ps k name)).commands ≠ [] := by
    simp [view_exportQueue]
  have hView : D.view (exportQueue ps k name) =
      { D.view ps with commands := [k.command name] } := by
    rw [view_exportQueue, show (D.view ps).commands = [] from hIdle]
    rfl
  have hInvoke : (M.invoke (exportQueue ps k name)).1 = .ok (first :: rest) := by
    rw [(D.invoke _ hQueue).1, hView]
    exact hScript
  rw [exportTo_exported ps k h, exported]
  cases hAfter : M.invoke (exportQueue ps k name) with
  | mk results after =>
      rw [hAfter] at hInvoke
      obtain rfl : results = .ok (first :: rest) := hInvoke
      simp only [hOut]
      rfl

/-- The command of an export is a run by itself exactly if the queue was empty. -/
theorem statements_own (commands : List Command) :
    statements (commands ++ [k.command name]) = [[k.command name]] ↔ commands = [] := by
  constructor
  · intro h
    have hFlatten := statements_flatten (commands ++ [k.command name])
    rw [h] at hFlatten
    have hLength := congrArg List.length hFlatten
    simp only [List.flatten_cons, List.flatten_nil, List.length_append, List.length_singleton,
      List.length_nil] at hLength
    exact List.length_eq_zero_iff.mp (by omega)
  · rintro rfl
    rfl

end Export

/-- An export is isolated exactly when nothing is pending and no zero byte
stands in the name or in the result. -/
theorem exportIsolated_iff {calls : List Call} {ps : M.PowerShell}
    (h : runCalls M calls = .ok ps) (k : ExportKind) (name : Text) :
    ExportIsolated D k name ps ↔ pending calls = false ∧ nul ∉ name ∧
      ∀ first rest out,
        (D.execute (D.view ps).session [[k.command name]]).1 = .ok (first :: rest) →
        M.toString first = .ok out → nul ∉ trim out := by
  rw [← runCalls_idle D h]
  constructor
  · intro hIsolated
    obtain ⟨hRuns, hResult⟩ := hIsolated
    have hName : nul ∉ name := by
      intro hMem
      simp [PowerShell.exportTo, newCString_of_mem hMem] at hRuns
    rw [runs_exportTo D ps k name hName] at hRuns
    have hOwn : statements ((D.view ps).commands ++ [k.command name]) = [[k.command name]] := by
      simpa using hRuns
    have hIdle : Idle D ps := (statements_own k name _).mp hOwn
    refine ⟨hIdle, hName, ?_⟩
    intro first rest out hScript hOut
    have hReturned := hResult first rest out hScript hOut
    rw [result_exportTo D ps k name hName hIdle hScript hOut] at hReturned
    exact (Bytes.takeBack_eq_self _).mp (Except.ok.inj hReturned)
  · intro h
    obtain ⟨hIdle, hName, hPlain⟩ := h
    constructor
    · rw [runs_exportTo D ps k name hName, show (D.view ps).commands = [] from hIdle]
      rfl
    · intro first rest out hScript hOut
      rw [result_exportTo D ps k name hName hIdle hScript hOut,
        (Bytes.takeBack_eq_self _).mpr (hPlain first rest out hScript hOut)]

theorem exportIsolated_iff_new :
    ExportIsolated echoShell_documented .string ['x'] echoShell.create ↔ pending [] = false ∧
      nul ∉ ['x'] ∧ ∀ first rest out,
        (echoAll () [[ExportKind.string.command ['x']]]).1 = .ok (first :: rest) →
        echoShell.toString first = .ok out → nul ∉ trim out :=
  have hCalls : runCalls echoShell [] = .ok echoShell.create := rfl
  exportIsolated_iff echoShell_documented hCalls .string ['x']

/-- A script that was invoked without clearing is run again by an export, and
its result is the one that is returned. -/
theorem pending_script_exported :
    ∃ ps, runCalls echoShell [.addScript ['1'], .addStatement, .invoke false] = .ok ps ∧
      (PowerShell.exportTo .string ps ['x']).1 = .ok ['1'] ∧
      ¬ ExportIsolated echoShell_documented .string ['x'] ps := by
  refine ⟨_, rfl, rfl, ?_⟩
  intro hIsolated
  obtain ⟨hRuns, -⟩ := hIsolated
  rw [runs_exportTo echoShell_documented _ _ _ (by decide)] at hRuns
  have hStatements := List.append_cancel_left hRuns
  revert hStatements
  decide

end PwshHost.Bindings
