import PwshHost.Bindings.Isolation
import PwshHost.Bindings.Wrapper
import PwshHost.Control.Fold

/-! Clients that use their values in any order. A panic may be caught, so the
run goes on after one; an exception at the boundary ends it. -/
namespace PwshHost.Abi

open PwshHost.Bindings
open Xml (Text)
open Memory
open FailingFold

/-- Bindings whose fields point to their own methods. -/
structure Table {Pointer : Type} (code : Pointer → Option EntryPoint) where
  inner : Bindings Pointer
  wired : inner.Wired code

inductive Event {Pointer : Type} (code : Pointer → Option EntryPoint) where
  | new (table : Table code)
  | on (client : Nat) (call : Call)

inductive Answer where
  | returned (reply : Option Text)
  | panicked
  deriving DecidableEq

variable {M : ManagedPowerShell} {Pointer : Type} {code : Pointer → Option EntryPoint}

/-- The clients are numbered as their values are created. -/
structure World (M : ManagedPowerShell) (Pointer : Type) where
  process : Process M
  held : List (PowerShell Pointer)
  answers : List (Nat × Answer)

namespace World

def start : World M Pointer := ⟨⟨Heap.empty, Heap.empty⟩, [], []⟩

def answer (world : World M Pointer) (process : Process M) (client : Nat) (answer : Answer) :
    World M Pointer :=
  { world with process := process, answers := world.answers ++ [(client, answer)] }

variable (code) in
def create (world : World M Pointer) (bindings : Bindings Pointer) :
    Except (Crash M.Exception) (World M Pointer) :=
  match (PowerShell.new code bindings).runOn world.process with
  | (.ok self, process) => .ok { world with process := process, held := world.held ++ [self] }
  | (.error crash, _) => .error crash

variable (code) in
/-- A client without a value has nothing to call. -/
def issue (world : World M Pointer) (client : Nat) (call : Call) :
    Except (Crash M.Exception) (World M Pointer) :=
  match world.held[client]? with
  | none => .ok world
  | some self =>
    match (self.issue code call).runOn world.process with
    | (.ok reply, process) => .ok (world.answer process client (.returned reply))
    | (.error (.failure .nulError), process) => .ok (world.answer process client .panicked)
    | (.error crash, _) => .error crash

def step (world : World M Pointer) : Event code → Except (Crash M.Exception) (World M Pointer)
  | .new table => world.create code table.inner
  | .on client call => world.issue code client call

def run (events : List (Event code)) : Except (Crash M.Exception) (World M Pointer) :=
  events.foldlM step start

/-- The object behind the handle of a client. -/
def object (world : World M Pointer) (client : Nat) : Option M.PowerShell :=
  world.held[client]?.bind fun self =>
    (world.process.handles.live self.handle).map Block.content

end World

structure Sessions (M : ManagedPowerShell) where
  objects : List M.PowerShell
  answers : List (Nat × Answer)

namespace Sessions

def start : Sessions M := ⟨[], []⟩

def answer (sessions : Sessions M) (client : Nat) (answer : Answer) : Sessions M :=
  { sessions with answers := sessions.answers ++ [(client, answer)] }

def step (sessions : Sessions M) : Event code → Except (Crash M.Exception) (Sessions M)
  | .new _ => .ok { sessions with objects := sessions.objects ++ [M.create] }
  | .on client call =>
    match sessions.objects[client]? with
    | none => .ok sessions
    | some ps =>
      match call.reply ps with
      | .ok (reply, ps') =>
        let sessions := sessions.answer client (.returned reply)
        .ok { sessions with objects := sessions.objects.set client ps' }
      | .error .nulError => .ok (sessions.answer client .panicked)
      | .error (.exception e) => .error (.failure (.exception e))

def run (events : List (Event code)) : Except (Crash M.Exception) (Sessions M) :=
  events.foldlM step start

end Sessions

variable (code) in
/-- No memory of a text is left, and the live handles are those of the clients,
one for each object. -/
structure World.Refines (world : World M Pointer) (sessions : Sessions M) : Prop where
  answers : world.answers = sessions.answers
  memory : ∀ address, world.process.heap.live address = none
  length : world.held.length = sessions.objects.length
  wired : ∀ self ∈ world.held, self.inner.Wired code
  object : ∀ (client : Nat) (self : PowerShell Pointer), world.held[client]? = some self →
    ∃ ps, sessions.objects[client]? = some ps ∧
      world.process.handles.live self.handle = some ⟨(), ps⟩
  distinct : ∀ (client other : Nat) (self self' : PowerShell Pointer),
    world.held[client]? = some self → world.held[other]? = some self' →
    self.handle = self'.handle → client = other
  owned : ∀ address block, world.process.handles.live address = some block →
    ∃ self ∈ world.held, self.handle = address

/-- An element of a list with one more is one from before or the last. -/
theorem getElem?_concat_eq_some {α : Type} {l : List α} {last a : α} {index : Nat}
    (h : (l ++ [last])[index]? = some a) : l[index]? = some a ∨ (index = l.length ∧ a = last) := by
  rw [List.getElem?_append] at h
  split_ifs at h with hIndex
  · exact .inl h
  · obtain ⟨hZero, hLast⟩ := List.getElem?_eq_some_iff.mp h
    have hLength : index = l.length := by
      rw [List.length_singleton] at hZero
      omega
    exact .inr ⟨hLength, by simpa using hLast.symm⟩

/-- A new handle, and nothing else. -/
theorem ends_new (table : Table code) (process : Process M) :
    Ends (PowerShell.new code table.inner) process
      (.ok (⟨table.inner, process.handles.next⟩, process.handles.alloc () M.create)) := by
  have hCode : code table.inner.createFn = _ := table.wired .powerShellCreate
  refine ⟨{ process with handles := process.handles.alloc () M.create }, ?_, rfl, rfl⟩
  rw [PowerShell.new, callThrough_of_code hCode, EntryPoint.call, bind_map_left]
  exact bind_of_ok _ (runOn_newHandle ..)

namespace World.Refines

variable {world : World M Pointer} {sessions : Sessions M}

/-- At the start there are no clients on either side. -/
theorem of_start : Refines code (World.start : World M Pointer) Sessions.start where
  answers := rfl
  memory _ := rfl
  length := rfl
  wired _ hHeld := absurd hHeld (by simp [World.start])
  object _ _ hHeld := absurd hHeld (by simp [World.start])
  distinct _ _ _ _ hHeld := absurd hHeld (by simp [World.start])
  owned _ _ hLive := absurd hLive (by simp [World.start, Heap.empty])

variable (hRefines : Refines code world sessions)

include hRefines

/-- A new client has the next handle on the one side and the next index on the
other. -/
theorem new (table : Table code) {after : Process M}
    (hMemory : after.heap.live = world.process.heap.live)
    (hHandles : after.handles = world.process.handles.alloc () M.create) :
    Refines code { world with
        process := after
        held := world.held ++ [⟨table.inner, world.process.handles.next⟩] }
      { sessions with objects := sessions.objects ++ [M.create] } where
  answers := hRefines.answers
  memory address := by
    rw [hMemory]
    exact hRefines.memory address
  length := by simp [hRefines.length]
  wired self hHeld := by
    rcases List.mem_append.mp hHeld with hOld | hNew
    · exact hRefines.wired self hOld
    · obtain rfl := List.mem_singleton.mp hNew
      exact table.wired
  object client self hHeld := by
    rw [hHandles]
    rcases getElem?_concat_eq_some hHeld with hOld | ⟨hClient, rfl⟩
    · obtain ⟨ps, hObject, hLive⟩ := hRefines.object client self hOld
      have hClient : client < sessions.objects.length := (List.getElem?_eq_some_iff.mp hObject).1
      refine ⟨ps, ?_, Heap.live_alloc_of_live hLive⟩
      rw [List.getElem?_append_left hClient, hObject]
    · refine ⟨M.create, ?_, Heap.live_alloc_self⟩
      rw [hClient, hRefines.length]
      exact List.getElem?_concat_length
  distinct client other self self' hHeld hOther hSame := by
    have hNew : ∀ (index : Nat) (old : PowerShell Pointer), world.held[index]? = some old →
        old.handle ≠ world.process.handles.next := by
      intro index old hOld
      obtain ⟨ps, -, hLive⟩ := hRefines.object index old hOld
      exact Nat.ne_of_lt (Heap.lt_next hLive)
    rcases getElem?_concat_eq_some hHeld with hOld | ⟨hClient, rfl⟩
    · rcases getElem?_concat_eq_some hOther with hOld' | ⟨-, rfl⟩
      · exact hRefines.distinct client other self self' hOld hOld' hSame
      · exact absurd hSame (hNew client self hOld)
    · rcases getElem?_concat_eq_some hOther with hOld' | ⟨hOther, -⟩
      · exact absurd hSame.symm (hNew other self' hOld')
      · exact hClient.trans hOther.symm
  owned address block hLive := by
    rw [hHandles] at hLive
    rcases Heap.eq_next_or_live hLive with hNext | hOld
    · exact ⟨_, List.mem_append_right _ (List.mem_singleton_self _), hNext.symm⟩
    · obtain ⟨self, hHeld, hSelf⟩ := hRefines.owned address block hOld
      exact ⟨self, List.mem_append_left _ hHeld, hSelf⟩

/-- An answer that changes no object is recorded on both sides. -/
theorem answer {after : Process M} (hMemory : after.heap.live = world.process.heap.live)
    (hHandles : after.handles = world.process.handles) (client : Nat) (answer : Answer) :
    Refines code (world.answer after client answer) (sessions.answer client answer) where
  answers := congrArg (· ++ [(client, answer)]) hRefines.answers
  memory address := by
    rw [World.answer, hMemory]
    exact hRefines.memory address
  length := hRefines.length
  wired := hRefines.wired
  object := by
    rw [World.answer, hHandles]
    exact hRefines.object
  distinct := hRefines.distinct
  owned := by
    rw [World.answer, hHandles]
    exact hRefines.owned

/-- The object of one client is another one afterwards. -/
theorem set {client : Nat} {self : PowerShell Pointer} (hHeld : world.held[client]? = some self)
    {after : Process M} (ps' : M.PowerShell)
    (hMemory : after.heap.live = world.process.heap.live)
    (hHandles : after.handles = world.process.handles.set self.handle ps') :
    Refines code { world with process := after }
      { sessions with objects := sessions.objects.set client ps' } where
  answers := hRefines.answers
  memory address := by
    rw [hMemory]
    exact hRefines.memory address
  length := by simp [hRefines.length]
  wired := hRefines.wired
  object other self' hOther := by
    rw [hHandles]
    obtain ⟨ps, hObject, hLive⟩ := hRefines.object other self' hOther
    have hIndex : other < sessions.objects.length := (List.getElem?_eq_some_iff.mp hObject).1
    by_cases hSame : self'.handle = self.handle
    · obtain rfl := hRefines.distinct other client self' self hOther hHeld hSame
      refine ⟨ps', List.getElem?_set_self hIndex, ?_⟩
      rw [hSame] at hLive ⊢
      exact Heap.live_set_self hLive ps'
    · have hClient : client ≠ other := by
        rintro rfl
        rw [hHeld] at hOther
        exact hSame (congrArg PowerShell.handle (Option.some.inj hOther).symm)
      exact ⟨ps, (List.getElem?_set_ne hClient).trans hObject,
        (Heap.live_set_of_ne hSame ps').trans hLive⟩
  distinct := hRefines.distinct
  owned address block hLive := by
    rw [hHandles] at hLive
    by_cases hSame : address = self.handle
    · exact ⟨self, List.mem_of_getElem? hHeld, hSame.symm⟩
    · rw [Heap.live_set_of_ne hSame] at hLive
      exact hRefines.owned address block hLive

/-- The step lemma. -/
theorem step (event : Event code) :
    Paired (Refines code) (world.step event) (sessions.step event) := by
  cases event with
  | new table =>
      obtain ⟨after, hRun, hMemory, hHandles⟩ := ends_new table world.process
      simp only [World.step, World.create, Sessions.step, hRun]
      exact Paired.ok (hRefines.new table hMemory hHandles)
  | on client call =>
      simp only [World.step, World.issue, Sessions.step]
      cases hHeld : world.held[client]? with
      | none =>
          have hNone : sessions.objects[client]? = none := by
            rw [List.getElem?_eq_none_iff] at hHeld ⊢
            exact hRefines.length ▸ hHeld
          simp only [hNone]
          exact Paired.ok hRefines
      | some self =>
          obtain ⟨ps, hObject, hLive⟩ := hRefines.object client self hHeld
          have hEnds := ends_issue (hRefines.wired self (List.mem_of_getElem? hHeld)) hLive call
          simp only [hObject]
          rcases hReply : call.reply ps with (_ | e) | ⟨reply, ps'⟩
          · rw [hReply] at hEnds
            obtain ⟨after, hRun, hMemory, hHandles⟩ := hEnds
            simp only [hRun]
            exact Paired.ok (hRefines.answer hMemory hHandles client .panicked)
          · rw [hReply] at hEnds
            obtain ⟨after, hRun⟩ := hEnds
            simp only [hRun]
            exact Paired.error _
          · rw [hReply] at hEnds
            obtain ⟨after, hRun, hMemory, hHandles⟩ := hEnds
            simp only [hRun]
            have hSet := hRefines.set hHeld ps' hMemory hHandles
            exact Paired.ok (hSet.answer rfl rfl client (.returned reply))

end World.Refines

/-- The run lemma, by induction on the events. -/
theorem run_refines (events : List (Event code)) :
    Paired (World.Refines code) (World.run (M := M) events) (Sessions.run events) :=
  foldlM_paired (fun _ _ event hRefines => hRefines.step event) events World.Refines.of_start

def Event.isNew : Event code → Bool
  | .new _ => true
  | .on _ _ => false

/-- Only a new client makes an object. -/
theorem Sessions.length_step {sessions after : Sessions M} {event : Event code}
    (hStep : sessions.step event = .ok after) :
    after.objects.length = sessions.objects.length + [event].countP Event.isNew := by
  cases event with
  | new table =>
      obtain rfl := Except.ok.inj hStep
      simp [Event.isNew]
  | on client call =>
      simp only [step] at hStep
      split at hStep
      · obtain rfl := Except.ok.inj hStep
        simp [Event.isNew]
      · split at hStep
        · obtain rfl := Except.ok.inj hStep
          simp [Event.isNew, answer]
        · obtain rfl := Except.ok.inj hStep
          simp [Event.isNew, answer]
        · cases hStep

/-- There are as many objects as clients that came, whatever they did. -/
theorem Sessions.length_run {events : List (Event code)} {sessions after : Sessions M}
    (hRun : events.foldlM step sessions = .ok after) :
    after.objects.length = sessions.objects.length + events.countP Event.isNew := by
  induction events generalizing sessions with
  | nil =>
      obtain rfl := Except.ok.inj hRun
      rfl
  | cons event events ih =>
      rw [List.foldlM_cons] at hRun
      obtain ⟨next, hStep, hRest⟩ := bind_eq_ok hRun
      rw [ih hRest, length_step hStep, Nat.add_assoc, ← List.countP_append]
      rfl

/-- The run over memory comes to its end exactly if the plain one does. -/
theorem World.run_ok_iff (events : List (Event code)) :
    (∃ world : World M Pointer, run events = .ok world) ↔
      ∃ sessions : Sessions M, Sessions.run events = .ok sessions := by
  constructor
  · intro hRun
    obtain ⟨world, hWorld⟩ := hRun
    obtain ⟨sessions, hSessions, -⟩ := (run_refines events).exists_of_ok hWorld
    exact ⟨sessions, hSessions⟩
  · intro hRun
    obtain ⟨sessions, hSessions⟩ := hRun
    obtain ⟨world, hWorld, -⟩ := (run_refines events).exists_of_ok_right hSessions
    exact ⟨world, hWorld⟩

end PwshHost.Abi
