import PwshHost.Bindings.History
import PwshHost.Bindings.Sessions

/-! The clients of a process. Each keeps the handle of its value, and what is queued
at the object behind it is what its own calls have queued. -/
namespace PwshHost.Abi

open PwshHost.Bindings
open Xml (Text)
open Memory
open FailingFold

variable {M : ManagedPowerShell} {Pointer : Type} {code : Pointer → Option EntryPoint}

instance (call : Call) : Decidable call.Crosses :=
  inferInstanceAs (Decidable (∀ s ∈ call.texts, nul ∉ s))

/-- A call goes to the object of its client, unless it panics on the way. -/
def hear (calls : List (List Call)) : Event code → List (List Call)
  | .new _ => calls ++ [[]]
  | .on client call =>
    if call.Crosses then calls.modify client (· ++ [call]) else calls

/-- What each of the objects has been asked for. -/
def heard (events : List (Event code)) : List (List Call) := events.foldl hear []

/-- Every object is where its calls have led to. -/
structure Sessions.Heard (sessions : Sessions M) (calls : List (List Call)) : Prop where
  length : sessions.objects.length = calls.length
  object : ∀ (client : Nat) (past : List Call) (ps : M.PowerShell), calls[client]? = some past →
    sessions.objects[client]? = some ps → runCalls M past = .ok ps

/-- Once the managed side is called the failure is an exception. -/
theorem crossing_ne_nulError {α : Type} (x : Except M.Exception α) :
    crossing x ≠ .error .nulError := by
  cases x <;> simp [crossing]

/-- The texts of a call that returned have crossed. -/
theorem crosses_of_run {call : Call} {ps ps' : M.PowerShell} (h : call.run ps = .ok ps') :
    call.Crosses := by
  by_contra hNot
  rw [Call.run_of_not_crosses hNot] at h
  cases h

/-- A call after a sequence that completed continues it. -/
theorem runCalls_concat {past : List Call} {call : Call} {ps ps' : M.PowerShell}
    (hPast : runCalls M past = .ok ps) (hRun : call.run ps = .ok ps') :
    runCalls M (past ++ [call]) = .ok ps' := by
  rw [runCalls] at hPast
  rw [runCalls, List.foldlM_append, hPast]
  change [call].foldlM Call.run ps = _
  rw [List.foldlM_cons, hRun]
  rfl

namespace Sessions.Heard

variable {sessions after : Sessions M} {calls : List (List Call)}

/-- Nothing has been heard at the start. -/
theorem of_start : Heard (Sessions.start : Sessions M) [] where
  length := rfl
  object _ _ _ hPast := absurd hPast (by simp)

variable (hHeard : Heard sessions calls)

include hHeard

/-- A new client has made no calls. -/
theorem new : Heard { sessions with objects := sessions.objects ++ [M.create] }
    (calls ++ [[]]) where
  length := by simp [hHeard.length]
  object client past ps hPast hObject := by
    rcases getElem?_concat_eq_some hPast with hOld | ⟨hClient, rfl⟩
    · have hIndex : client < sessions.objects.length :=
        hHeard.length ▸ (List.getElem?_eq_some_iff.mp hOld).1
      rw [List.getElem?_append_left hIndex] at hObject
      exact hHeard.object client past ps hOld hObject
    · rw [hClient, ← hHeard.length, List.getElem?_concat_length] at hObject
      rw [← Option.some.inj hObject]
      rfl

/-- The object of a client is where the call has led to. -/
theorem set {client : Nat} {call : Call} {ps ps' : M.PowerShell}
    (hObject : sessions.objects[client]? = some ps) (hRun : call.run ps = .ok ps') :
    Heard { sessions with objects := sessions.objects.set client ps' }
      (calls.modify client (· ++ [call])) where
  length := by simp [hHeard.length]
  object other past ps₁ hPast hOther := by
    by_cases hSame : client = other
    · subst hSame
      have hIndex := (List.getElem?_eq_some_iff.mp hObject).1
      rw [List.getElem?_set_self hIndex] at hOther
      rw [List.getElem?_modify_eq] at hPast
      obtain ⟨before, hBefore, rfl⟩ := Option.map_eq_some_iff.mp hPast
      rw [← Option.some.inj hOther]
      exact runCalls_concat (hHeard.object client before ps hBefore hObject) hRun
    · rw [List.getElem?_set_ne hSame] at hOther
      rw [List.getElem?_modify_ne _ _ hSame] at hPast
      exact hHeard.object other past ps₁ hPast hOther

/-- The step lemma. -/
theorem step {event : Event code} (hStep : sessions.step event = .ok after) :
    Heard after (hear calls event) := by
  cases event with
  | new table =>
      obtain rfl := Except.ok.inj hStep
      exact hHeard.new
  | on client call =>
      simp only [Sessions.step] at hStep
      cases hObject : sessions.objects[client]? with
      | none =>
          simp only [hObject] at hStep
          obtain rfl := Except.ok.inj hStep
          have hNone : calls.length ≤ client := by
            rw [← hHeard.length]
            exact List.getElem?_eq_none_iff.mp hObject
          have hSame : hear calls (.on client call : Event code) = calls := by
            rw [hear, List.modify_eq_self hNone, ite_self]
          rw [hSame]
          exact hHeard
      | some ps =>
          have hState := Call.map_reply call ps
          rcases hReply : call.reply ps with (_ | e) | ⟨reply, ps'⟩
          · simp only [hObject, hReply] at hStep
            obtain rfl := Except.ok.inj hStep
            have hNot : ¬ call.Crosses := by
              intro hCrosses
              rw [hReply, Call.run_of_crosses hCrosses] at hState
              exact crossing_ne_nulError _ hState.symm
            rw [hear, if_neg hNot]
            exact ⟨hHeard.length, hHeard.object⟩
          · simp only [hObject, hReply] at hStep
            cases hStep
          · simp only [hObject, hReply] at hStep
            obtain rfl := Except.ok.inj hStep
            rw [hReply] at hState
            rw [hear, if_pos (crosses_of_run hState.symm)]
            have hSet := hHeard.set hObject hState.symm
            exact ⟨hSet.length, hSet.object⟩

end Sessions.Heard

/-- The run lemma. -/
theorem Sessions.heard_run {events : List (Event code)} {sessions : Sessions M}
    (hRun : Sessions.run events = .ok sessions) : sessions.Heard (heard events) :=
  foldlM_follows (fun _ _ _ _ hHeard hStep => hHeard.step hStep) Heard.of_start hRun

/-- A value is created, or this client makes a call. -/
def Event.concerns (client : Nat) : Event code → Bool
  | .new _ => true
  | .on other _ => other == client

/-- The events of a run in which no other client makes a call. -/
def alone (client : Nat) (events : List (Event code)) : List (Event code) :=
  events.filter (Event.concerns client)

/-- The same was asked for by one client, of as many objects. -/
structure SameAt (client : Nat) (own calls : List (List Call)) : Prop where
  length : own.length = calls.length
  calls : own[client]? = calls[client]?

/-- An event that concerns the client is heard by both, and one that does not is
heard by neither. -/
theorem SameAt.hear {client : Nat} {own calls : List (List Call)} (h : SameAt client own calls)
    (event : Event code) : SameAt client (hear own event) (hear calls event) := by
  cases event with
  | new table => exact ⟨by simp [Abi.hear, h.length], by
      simp [Abi.hear, List.getElem?_append, h.length, h.calls]⟩
  | on caller call =>
      by_cases hCrosses : call.Crosses
      · exact ⟨by simp [Abi.hear, hCrosses, h.length], by
          simp [Abi.hear, hCrosses, List.getElem?_modify, h.calls]⟩
      · simpa [Abi.hear, hCrosses] using h

/-- The call of another client is not heard by this one. -/
theorem SameAt.hear_other {client : Nat} {own calls : List (List Call)}
    (h : SameAt client own calls) {event : Event code} (hOther : event.concerns client = false) :
    SameAt client own (Abi.hear calls event) := by
  cases event with
  | new table => cases hOther
  | on caller call =>
      have hCaller : caller ≠ client := by simpa [Event.concerns] using hOther
      by_cases hCrosses : call.Crosses
      · exact ⟨by simp [Abi.hear, hCrosses, h.length], by
          simp [Abi.hear, hCrosses, h.calls, hCaller]⟩
      · simpa [Abi.hear, hCrosses] using h

/-- By induction on the events: what a client has called is what it would have
called alone. -/
theorem SameAt.foldl {client : Nat} (events : List (Event code)) {own calls : List (List Call)}
    (h : SameAt client own calls) :
    SameAt client ((alone client events).foldl Abi.hear own) (events.foldl Abi.hear calls) := by
  induction events generalizing own calls with
  | nil => exact h
  | cons event events ih =>
      rw [alone, List.foldl_cons]
      cases hConcerns : event.concerns client with
      | true =>
          rw [List.filter_cons_of_pos hConcerns, List.foldl_cons]
          exact ih (h.hear event)
      | false =>
          rw [List.filter_cons_of_neg (by simp [hConcerns])]
          exact ih (h.hear_other hConcerns)

/-- What a client has asked for can be told from its own events. -/
theorem heard_alone (client : Nat) (events : List (Event code)) :
    (heard (alone client events))[client]? = (heard events)[client]? :=
  (SameAt.foldl events ⟨rfl, rfl⟩).calls

/-- A value is never taken back, whatever happens next. -/
theorem World.held_step {world after : World M Pointer} {event : Event code}
    (hStep : world.step event = .ok after) : world.held <+: after.held := by
  cases event with
  | new table =>
      simp only [World.step, World.create] at hStep
      split at hStep
      · obtain rfl := Except.ok.inj hStep
        exact List.prefix_append _ _
      · cases hStep
  | on client call =>
      simp only [World.step, World.issue] at hStep
      split at hStep
      · obtain rfl := Except.ok.inj hStep
        exact List.prefix_rfl
      · split at hStep
        · obtain rfl := Except.ok.inj hStep
          exact List.prefix_rfl
        · obtain rfl := Except.ok.inj hStep
          exact List.prefix_rfl
        · cases hStep

/-- Over a run the handles that are held stay held, in their order. -/
theorem World.held_run {world after : World M Pointer} {events : List (Event code)}
    (hRun : events.foldlM World.step world = .ok after) : world.held <+: after.held := by
  have hFollows : world.held <+: after.held := foldlM_follows (R := fun next (_ : Unit) =>
    world.held <+: next.held) (g := fun _ _ => ()) (t := ())
    (fun _ _ _ _ hHeld hStep => hHeld.trans (held_step hStep)) List.prefix_rfl hRun
  exact hFollows

/-- Whatever the others call in between, a client keeps its handle for good, which is
live and that of no other client, and the commands queued at the object behind it
are those that the client's own calls have queued. -/
theorem clients_apart (D : M.Documented) {before later : List (Event code)}
    {world after : World M Pointer} (hBefore : World.run before = .ok world)
    (hAfter : World.run (before ++ later) = .ok after) {client : Nat} {self : PowerShell Pointer}
    (hHeld : world.held[client]? = some self) :
    after.held[client]? = some self ∧
      (∀ other self', after.held[other]? = some self' → self'.handle = self.handle →
        other = client) ∧
      ∃ calls ps, (heard (alone client (before ++ later)))[client]? = some calls ∧
        after.process.handles.live self.handle = some ⟨(), ps⟩ ∧
        (D.view ps).commands = (History.ofCalls calls).commands := by
  have hRest : later.foldlM World.step world = .ok after := by
    rw [World.run] at hBefore
    rw [World.run, List.foldlM_append, hBefore] at hAfter
    exact hAfter
  obtain ⟨more, hMore⟩ := World.held_run hRest
  have hKept : after.held[client]? = some self := by
    rw [← hMore, List.getElem?_append_left (List.getElem?_eq_some_iff.mp hHeld).1, hHeld]
  obtain ⟨sessions, hSessions, hRefines⟩ := (run_refines (before ++ later)).exists_of_ok hAfter
  have hHeard := Sessions.heard_run hSessions
  obtain ⟨ps, hObject, hLive⟩ := hRefines.object client self hKept
  have hIndex : client < (heard (before ++ later)).length :=
    hHeard.length ▸ (List.getElem?_eq_some_iff.mp hObject).1
  have hCalls : (heard (before ++ later))[client]? = some (heard (before ++ later))[client] :=
    List.getElem?_eq_getElem hIndex
  have hReached := (Reached.create D).run D (hHeard.object client _ ps hCalls hObject)
  refine ⟨hKept, fun other self' hOther hSame => ?_, _, ps, ?_, hLive, hReached.commands⟩
  · exact hRefines.distinct other client self' self hOther hKept hSame
  · rw [heard_alone, hCalls]

/-- The table of a process in which the methods are their own pointers. -/
def plainTable : Table (some : EntryPoint → Option EntryPoint) where
  inner :=
    { createFn := .powerShellCreate
      addArgumentStringFn := .powerShellAddArgumentString
      addParameterStringFn := .powerShellAddParameterString
      addParameterIntFn := .powerShellAddParameterInt
      addParameterLongFn := .powerShellAddParameterLong
      addCommandFn := .powerShellAddCommand
      addScriptFn := .powerShellAddScript
      addStatementFn := .powerShellAddStatement
      invokeFn := .powerShellInvoke
      clearFn := .powerShellClear
      exportToXmlFn := .powerShellExportToXml
      exportToJsonFn := .powerShellExportToJson
      exportToStringFn := .powerShellExportToString
      marshalFreeCoTaskMemFn := .marshalFreeCoTaskMem }
  wired entryPoint := by cases entryPoint <;> rfl

def twoClients : List (Event (some : EntryPoint → Option EntryPoint)) :=
  [.new plainTable, .new plainTable, .on 1 (.addScript ['1']), .on 0 (.addScript ['2']),
    .on 1 (.invoke true)]

/-- The client's own script is left in its queue, and not that of the other client. -/
theorem clients_apart_two :
    ∃ (world after : World echoShell EntryPoint) (self : PowerShell EntryPoint),
      World.run (twoClients.take 3) = .ok world ∧ world.held[0]? = some self ∧
        after.held[0]? = some self ∧
        (∀ other self', after.held[other]? = some self' → self'.handle = self.handle →
          other = 0) ∧
        ∃ calls ps, (heard (alone 0 twoClients))[0]? = some calls ∧
          after.process.handles.live self.handle = some ⟨(), ps⟩ ∧
          (echoShell_documented.view ps).commands = (History.ofCalls calls).commands := by
  obtain ⟨world, hWorld⟩ : ∃ world : World echoShell EntryPoint,
      World.run (twoClients.take 3) = .ok world := (World.run_ok_iff _).mpr ⟨_, rfl⟩
  obtain ⟨after, hAfter⟩ : ∃ after : World echoShell EntryPoint,
      World.run (twoClients.take 3 ++ twoClients.drop 3) = .ok after :=
    (World.run_ok_iff _).mpr ⟨_, rfl⟩
  obtain ⟨sessions, hSessions, hRefines⟩ := (run_refines (twoClients.take 3)).exists_of_ok hWorld
  have hLength : sessions.objects.length = 2 := Sessions.length_run hSessions
  have hIndex : 0 < world.held.length := by rw [hRefines.length, hLength]; decide
  obtain ⟨self, hHeld⟩ : ∃ self, world.held[0]? = some self := ⟨_, List.getElem?_eq_getElem hIndex⟩
  obtain ⟨hKept, hOther, hCommands⟩ := clients_apart echoShell_documented hWorld hAfter hHeld
  exact ⟨world, after, self, hWorld, hHeld, hKept, hOther, hCommands⟩

end PwshHost.Abi
