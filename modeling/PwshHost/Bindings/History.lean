import PwshHost.Bindings.Isolation

/-! What the calls on a handle have led to. The queue and the runs are read off
the calls, whatever the commands do, and the session is what the runs made of
it. -/
namespace PwshHost.Bindings

open Xml (Text)
open Rust

/-- The queue after some calls, and the statements of every invocation. -/
structure History where
  commands : List Command
  runs : List (List (List Command))

namespace History

def queue (h : History) (c : Command) : History := { h with commands := h.commands ++ [c] }

def modify (h : History) (f : Command → Command) : History :=
  { h with commands := h.commands.modifyLast f }

def invoke (h : History) : History := { h with runs := h.runs ++ [statements h.commands] }

def clear (h : History) : History := { h with commands := [] }

def after (h : History) : Call → History
  | .addArgumentString argument => h.modify (Command.bind · ⟨none, .string argument⟩)
  | .addParameterString name value => h.modify (Command.bind · ⟨some name, .string value⟩)
  | .addParameterInt name value => h.modify (Command.bind · ⟨some name, .int value⟩)
  | .addParameterLong name value => h.modify (Command.bind · ⟨some name, .long value⟩)
  | .addCommand command => h.queue (.cmdlet command)
  | .addScript script => h.queue (.script script)
  | .addStatement => h.modify Command.close
  | .invoke andClear => if andClear then h.invoke.clear else h.invoke
  | .clear => h.clear
  | .exportTo k name => (h.queue (k.command name)).invoke.clear

def ofCalls (calls : List Call) : History := calls.foldl after ⟨[], []⟩

end History

variable {M : ManagedPowerShell} (D : M.Documented)

/-- What is executed is executed in order, from the session of a new handle on. -/
def sessionAfter (runs : List (List (List Command))) : D.Session :=
  runs.foldl (fun session run => (D.execute session run).2) (D.view M.create).session

/-- The session after one run more is what that run leaves. -/
theorem sessionAfter_concat (runs : List (List (List Command))) (run : List (List Command)) :
    sessionAfter D (runs ++ [run]) = (D.execute (sessionAfter D runs) run).2 := by
  rw [sessionAfter, List.foldl_append]
  rfl

/-- The state that a history stands for. -/
structure Reached (h : History) (ps : M.PowerShell) : Prop where
  commands : (D.view ps).commands = h.commands
  runs : (D.view ps).runs = (D.view M.create).runs ++ h.runs
  session : (D.view ps).session = sessionAfter D h.runs

namespace Reached

variable {D} {h : History} {ps ps' : M.PowerShell} (hReached : Reached D h ps)

include hReached

/-- A command that is added to the object is added to its history. -/
theorem queue {c : Command} (hView : D.view ps' = (D.view ps).queue c) :
    Reached D (h.queue c) ps' where
  commands := by
    rw [hView, View.queue, hReached.commands]
    rfl
  runs := by
    rw [hView]
    exact hReached.runs
  session := by
    rw [hView]
    exact hReached.session

/-- A change of the last command of the object is one of its history. -/
theorem modify {f : Command → Command} (hView : D.view ps' = (D.view ps).modify f) :
    Reached D (h.modify f) ps' where
  commands := by
    rw [hView, View.modify, hReached.commands]
    rfl
  runs := by
    rw [hView]
    exact hReached.runs
  session := by
    rw [hView]
    exact hReached.session

/-- Clearing takes the commands off the history, and keeps the runs. -/
theorem clear : Reached D h.clear (M.clear ps) where
  commands := by rw [D.clear]; rfl
  runs := by
    rw [D.clear]
    exact hReached.runs
  session := by
    rw [D.clear]
    exact hReached.session

/-- An invocation that returns had commands to execute. -/
theorem invoke {results : List M.PSObject} (hInvoke : M.invoke ps = (.ok results, ps')) :
    Reached D h.invoke ps' := by
  have hCommands : (D.view ps).commands ≠ [] := (idle_invoke D hInvoke).1
  obtain ⟨-, hView⟩ := D.invoke ps hCommands
  rw [hInvoke] at hView
  refine ⟨?_, ?_, ?_⟩
  · rw [hView]
    exact hReached.commands
  · rw [hView, hReached.runs, hReached.commands, List.append_assoc]
    rfl
  · rw [hView, hReached.session, hReached.commands]
    exact (sessionAfter_concat D _ _).symm

/-- The step lemma. -/
theorem step {call : Call} (hRun : call.run ps = .ok ps') : Reached D (h.after call) ps' := by
  have hManaged := Call.managed_of_run hRun
  cases call with
  | addArgumentString argument => exact hReached.modify (D.addArgument hManaged).2
  | addParameterString name value => exact hReached.modify (D.addParameter hManaged).2
  | addParameterInt name value => exact hReached.modify (D.addParameter hManaged).2
  | addParameterLong name value => exact hReached.modify (D.addParameter hManaged).2
  | addCommand command =>
      obtain rfl := Except.ok.inj hManaged
      exact hReached.queue (D.addCommand ps command)
  | addScript script =>
      obtain rfl := Except.ok.inj hManaged
      exact hReached.queue (D.addScript ps script)
  | addStatement =>
      obtain rfl := Except.ok.inj hManaged
      exact hReached.modify (D.addStatement ps)
  | clear =>
      obtain rfl := Except.ok.inj hManaged
      exact hReached.clear
  | invoke andClear =>
      rcases hInvoke : M.invoke ps with ⟨e | results, last⟩
      · simp [Call.managed, hInvoke, Except.map] at hManaged
      · have hState : (if andClear then M.clear last else last) = ps' := by
          simpa [Call.managed, hInvoke, Except.map] using hManaged
        cases andClear with
        | false =>
            obtain rfl : last = ps' := hState
            exact hReached.invoke hInvoke
        | true =>
            obtain rfl : M.clear last = ps' := hState
            exact (hReached.invoke hInvoke).clear
  | exportTo k name =>
      have hQueue := hReached.queue (view_exportQueue D ps k name)
      rcases hExported : exported ps k name with ⟨e | r, last⟩
      · simp [Call.managed, hExported, Except.map] at hManaged
      · obtain rfl : last = ps' := by
          simpa [Call.managed, hExported, Except.map] using hManaged
        unfold exported at hExported
        split at hExported
        · cases hExported
        · cases hExported
        · rename_i first rest left hInvoke
          split at hExported
          · cases hExported
          · obtain ⟨-, rfl⟩ := Prod.mk.inj hExported
            exact (hQueue.invoke hInvoke).clear

/-- What an export executes is the queue with its own script at the end. -/
theorem exportTo_eq {k : ExportKind} {name : Text} (hName : nul ∉ name) {first : M.PSObject}
    {rest : List M.PSObject} {out : Text}
    (hResults : (D.execute (sessionAfter D h.runs)
      (statements (h.queue (k.command name)).commands)).1 = .ok (first :: rest))
    (hOut : M.toString first = .ok out) :
    (PowerShell.exportTo k ps name).1 = .ok ((trim out).takeWhile (· ≠ nul)) := by
  have hQueue := hReached.queue (view_exportQueue D ps k name)
  have hCommands : (D.view (exportQueue ps k name)).commands ≠ [] := by
    simp [view_exportQueue]
  have hInvoke := (D.invoke _ hCommands).1
  rw [hQueue.commands, hQueue.session] at hInvoke
  have hFirst : (M.invoke (exportQueue ps k name)).1 = .ok (first :: rest) :=
    hInvoke.trans hResults
  rw [exportTo_exported ps k hName, exported]
  rcases hAfter : M.invoke (exportQueue ps k name) with ⟨results, after⟩
  rw [hAfter] at hFirst
  obtain rfl : results = .ok (first :: rest) := hFirst
  simp only [hOut]
  exact congrArg Except.ok (Bytes.takeBack_eq_takeWhile (trim out))

end Reached

/-- A new object has no history. -/
theorem Reached.create : Reached D ⟨[], []⟩ M.create where
  commands := D.create
  runs := (List.append_nil _).symm
  session := rfl

/-- The run lemma. -/
theorem Reached.run {calls : List Call} {h : History} {ps ps' : M.PowerShell}
    (hReached : Reached D h ps) (hRun : calls.foldlM Call.run ps = .ok ps') :
    Reached D (calls.foldl History.after h) ps' :=
  FailingFold.foldlM_follows (f := Call.run) (g := History.after)
    (R := fun ps h => Reached D h ps)
    (fun _ _ _ _ hReached hStep => hReached.step hStep) hReached hRun

/-- A handle is where its calls have led to, and the text of an export is that of
the first result of its own run, whatever was executed before. -/
theorem reached_of_calls {calls : List Call} {ps : M.PowerShell}
    (hRun : runCalls M calls = .ok ps) :
    Reached D (.ofCalls calls) ps ∧
      ∀ (k : ExportKind) (name : Text) (first : M.PSObject) (rest : List M.PSObject) (out : Text),
        nul ∉ name →
        (D.execute (sessionAfter D (History.ofCalls calls).runs)
          (statements ((History.ofCalls calls).queue (k.command name)).commands)).1 =
            .ok (first :: rest) →
        M.toString first = .ok out →
        (PowerShell.exportTo k ps name).1 = .ok ((trim out).takeWhile (· ≠ nul)) := by
  have hReached : Reached D (.ofCalls calls) ps := (Reached.create D).run D hRun
  exact ⟨hReached, fun k name first rest out hName => hReached.exportTo_eq hName⟩

/-- The script is still queued after its run, so the export runs it again. -/
theorem reached_of_calls_echo :
    ∃ ps, runCalls echoShell [.addScript ['1'], .addStatement, .invoke false] = .ok ps ∧
      Reached echoShell_documented
        (.ofCalls [.addScript ['1'], .addStatement, .invoke false]) ps ∧
      (PowerShell.exportTo .string ps ['x']).1 = .ok ['1'] := by
  have hRun : runCalls echoShell [.addScript ['1'], .addStatement, .invoke false] = .ok _ := rfl
  obtain ⟨hReached, hExport⟩ := reached_of_calls echoShell_documented hRun
  exact ⟨_, hRun, hReached, hExport .string ['x'] _ _ ['1'] (by decide) rfl rfl⟩

end PwshHost.Bindings
