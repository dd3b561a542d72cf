import PwshHost.CliXml.Nesting
import PwshHost.Bindings.Exporting
import PwshHost.Bindings.Clients

/-! From one end to the other: objects that a serializer writes, memory, handles
and pointers, clients that take turns, and the parser. -/
namespace PwshHost.Abi

open PwshHost.Bindings
open CliXml (Crates Document ObjLayout Returns)
open Xml (Text PullReader Blanks)
open Memory
open FailingFold

variable {M : ManagedPowerShell} {Pointer : Type} {code : Pointer → Option EntryPoint}

section EndToEnd

variable (S : M.Documented) {Q : PullReader} (R : Q.Documented) {E : Crates}

include R in
/-- A client that has nothing pending asks for the CLIXML of a variable, after
whatever it and the other clients have done in whatever order. If the serializer
writes some objects, the text that the client gets is parsed to these objects. -/
theorem objects_arrive {events : List (Event code)} {world : World M Pointer}
    (hRun : World.run events = .ok world) {client : Nat} {past : List Call}
    (hPast : (heard events)[client]? = some past) (hPending : pending past = false)
    {name : Text} (hName : nul ∉ name) {d : Document} (hTight : Tight d)
    (layouts : List (Blanks × ObjLayout E)) (trail : Blanks) {first : M.PSObject}
    {rest : List M.PSObject} {before after : Text}
    (hScript : (S.execute (sessionAfter S (History.ofCalls past).runs)
      [[ExportKind.xml.command name]]).1 = .ok (first :: rest))
    (hOut : M.toString first = .ok (before ++ (rendered d layouts trail).text ++ after))
    (hBefore : ∀ c ∈ before, isWhiteSpace c = true)
    (hAfter : ∀ c ∈ after, isWhiteSpace c = true)
    (hPlain : nul ∉ (rendered d layouts trail).text) :
    ∃ (next : World M Pointer) (cliXml : Text),
      World.run (events ++ [.on client (.exportTo .xml name)]) = .ok next ∧
        next.answers = world.answers ++ [(client, .returned (some cliXml))] ∧
        Returns Q E cliXml (layouts.map fun l => l.2.object) := by
  obtain ⟨sessions, hSessions, hRefines⟩ := (run_refines events).exists_of_ok hRun
  have hHeard : sessions.Heard (heard events) := Sessions.heard_run hSessions
  -- the object of the client
  have hIndex : client < sessions.objects.length :=
    hHeard.length ▸ (List.getElem?_eq_some_iff.mp hPast).1
  obtain ⟨ps, hObject⟩ : ∃ ps, sessions.objects[client]? = some ps :=
    ⟨_, List.getElem?_eq_getElem hIndex⟩
  have hCalls := hHeard.object client past ps hPast hObject
  have hSession := ((Reached.create S).run S hCalls).session
  change _ = sessionAfter S (History.ofCalls past).runs at hSession
  rw [← hSession] at hScript
  obtain ⟨cliXml, hExport, hReturns⟩ := exported_objects_return S R hCalls hPending hName hTight
    layouts trail hScript hOut hBefore hAfter hPlain
  -- the answer that it gets
  obtain ⟨ps', hReply⟩ : ∃ ps', (Call.exportTo .xml name).reply ps = .ok (some cliXml, ps') := by
    simp only [Call.reply, hExport]
    exact ⟨_, rfl⟩
  have hNext : Sessions.run (events ++ [.on client (.exportTo .xml name)]) = .ok
      { objects := sessions.objects.set client ps'
        answers := sessions.answers ++ [(client, .returned (some cliXml))] } := by
    rw [Sessions.run] at hSessions
    rw [Sessions.run, List.foldlM_append, hSessions]
    change [_].foldlM Sessions.step sessions = _
    rw [List.foldlM_cons]
    simp only [Sessions.step, hObject, hReply]
    rfl
  obtain ⟨next, hWorld, hAfterwards⟩ := (run_refines _).exists_of_ok_right hNext
  refine ⟨next, cliXml, hWorld, ?_, hReturns⟩
  rw [hAfterwards.answers, hRefines.answers]

end EndToEnd

/-- The shell in which every result is the given text. -/
def writerShell (text : Text) : ManagedPowerShell :=
  { echoShell with toString := fun _ => .ok text }

def writerShell_documented (text : Text) : (writerShell text).Documented where
  Session := Unit
  execute := echoAll
  view v := v
  create := rfl
  addCommand _ _ := rfl
  addScript _ _ := rfl
  addArgument h := needsCommand_eq_ok h
  addParameter h := needsCommand_eq_ok (addParameter_eq_ok h)
  addStatement _ := rfl
  invoke := echoShell_documented.invoke
  invokeEmpty := echoShell_documented.invokeEmpty
  clear _ := rfl

open CliXml (textCrates noBlanks bareDocument)

/-- An object with one property. -/
def oneProperty : ObjLayout textCrates where
  refId := none
  typing := none
  repr := none
  sections := [(noBlanks,
    { kind := .props
      leaves := [(noBlanks,
        { val := .cliString ⟨['v'], some ['n']⟩
          text := ⟨['v'], by decide, by decide⟩
          spelled := rfl })]
      trail := noBlanks })]
  trail := noBlanks

def oneDocument : Document := rendered bareDocument [(noBlanks, oneProperty)] noBlanks

open Xml.SliceReader in
theorem objects_arrive_between :
    ∃ (world next : World (writerShell (oneDocument.text ++ ['\n'])) EntryPoint) (cliXml : Text),
      World.run twoClients = .ok world ∧
        World.run (twoClients ++ [.on 1 (.exportTo .xml ['x'])]) = .ok next ∧
        next.answers = world.answers ++ [(1, .returned (some cliXml))] ∧
        Returns sliceReader textCrates cliXml [oneProperty.object] := by
  obtain ⟨world, hRun⟩ : ∃ world : World (writerShell (oneDocument.text ++ ['\n'])) EntryPoint,
      World.run twoClients = .ok world := (World.run_ok_iff twoClients).mpr ⟨_, rfl⟩
  have hPast : (heard twoClients)[1]? = some [.addScript ['1'], .invoke true] := rfl
  have hName : nul ∉ ['x'] := by decide
  have hTight : Tight bareDocument :=
    ⟨by simp [bareDocument, CliXml.documentOf], by simp [bareDocument, CliXml.documentOf]⟩
  have hOut : (writerShell (oneDocument.text ++ ['\n'])).toString [] =
      .ok ([] ++ oneDocument.text ++ ['\n']) := rfl
  obtain ⟨next, cliXml, hNext, hAnswers, hReturns⟩ := objects_arrive (writerShell_documented _)
    documented hRun hPast rfl hName hTight [(noBlanks, oneProperty)] noBlanks rfl hOut
    (by simp) (by decide) (by decide)
  exact ⟨world, next, cliXml, hRun, hNext, hAnswers, hReturns⟩

end PwshHost.Abi
