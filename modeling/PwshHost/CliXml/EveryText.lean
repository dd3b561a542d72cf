import PwshHost.CliXml.RoundTrip
import PwshHost.Xml.SliceProgress

/-! The parser on any text, well-formed or not, and with any reader. Each pass
takes one report of the reader into the objects, whatever they are. -/
namespace PwshHost.CliXml

open Xml
open Rust

/-- The value of an element: the null, or what a leaf text decodes to. -/
inductive CliValue.Decoded {E : Crates} (ε : Type) : CliValue E → Prop where
  | null (name : Option Text) : Decoded ε (.cliNull (CliNull.new name))
  | leaf {val : CliValue E} (kind : LeafKind) (name : Option Text) (txt : Text)
    (h : (kind.decode E name txt : Except (Panic ε) (CliValue E)) = .ok val) : Decoded ε val

section Decoded

variable {E : Crates} {ε : Type} {name : Option Text} {txt : Text} {val : CliValue E}

/-- If an arm that unwraps is left with a value, the text was parsed. -/
theorem unwrap_newFromStr_ok {α : Type} {parse : Text → Option α} {wrap : Leaf α → CliValue E}
    (h : (unwrap (Leaf.newFromStr parse name txt) >>= fun leaf => pure (wrap leaf) :
      Except (Panic ε) (CliValue E)) = .ok val) :
    ∃ value, parse txt = some value ∧ val = wrap (Leaf.new name value) := by
  unfold Leaf.newFromStr at h
  cases hParse : parse txt with
  | none => simp [hParse, unwrap, bind, Except.bind] at h
  | some value =>
      rw [hParse] at h
      exact ⟨value, rfl, (Except.ok.inj h).symm⟩

theorem decode_char_ok
    (h : (LeafKind.char.decode E name txt : Except (Panic ε) (CliValue E)) = .ok val) :
    ∃ unit c, parseInt 0 65535 txt = some unit ∧ decodeUtf16 [unit] = [.ok c] ∧
      val = .cliChar ⟨c, name⟩ := by
  simp only [LeafKind.decode, CliChar.newFromStr] at h
  cases hParse : (parseInt 0 65535 txt : Option U16) with
  | none =>
      rw [hParse] at h
      cases h
  | some unit =>
      have hUnit : ∃ last, decodeUtf16 [unit] = [last] := ⟨_, rfl⟩
      obtain ⟨last, hLast⟩ := hUnit
      simp only [hParse, hLast] at h
      cases last with
      | error surrogate => cases h
      | ok c => exact ⟨unit, c, rfl, hLast, (Except.ok.inj h).symm⟩

theorem decode_duration_ok
    (h : (LeafKind.duration.decode E name txt : Except (Panic ε) (CliValue E)) = .ok val) :
    ∃ x duration, E.duration.parse txt = some x ∧ E.duration.toStd x = some duration ∧
      val = .cliDuration ⟨duration, name⟩ := by
  simp only [LeafKind.decode, CliDuration.newFromStr, parseIso8601Duration] at h
  cases hParse : E.duration.parse txt with
  | none =>
      rw [hParse] at h
      cases h
  | some x =>
      cases hStd : E.duration.toStd x with
      | none =>
          simp only [hParse, hStd] at h
          cases h
      | some duration =>
          simp only [hParse, hStd] at h
          exact ⟨x, duration, rfl, hStd, (Except.ok.inj h).symm⟩

/-- A leaf text decodes to a value of the kind and with the name, which the text
spells. -/
theorem decode_ok {kind : LeafKind}
    (h : (kind.decode E name txt : Except (Panic ε) (CliValue E)) = .ok val) :
    val.leafKind = some kind ∧ val.getName = name ∧ val.SpelledBy txt := by
  cases kind with
  | string | version | xmlDocument | scriptBlock =>
      obtain rfl := Except.ok.inj h
      exact ⟨rfl, rfl, rfl⟩
  | char =>
      obtain ⟨unit, c, hParse, hUnit, rfl⟩ := decode_char_ok h
      exact ⟨rfl, rfl, unit, hParse, hUnit⟩
  | duration =>
      obtain ⟨x, duration, hParse, hStd, rfl⟩ := decode_duration_ok h
      exact ⟨rfl, rfl, x, hParse, hStd⟩
  | _ =>
      obtain ⟨value, hParse, rfl⟩ := unwrap_newFromStr_ok h
      exact ⟨rfl, rfl, hParse⟩

/-- What is decoded from text is never an object. -/
theorem CliValue.Decoded.not_object (h : val.Decoded ε) (inner : CliObject E) :
    val ≠ .cliObject inner := by
  cases h with
  | null name => simp
  | leaf kind name txt hDecode =>
      rintro rfl
      cases (decode_ok hDecode).1

end Decoded

/-- An event with the text of the element, where the parser asks for one, and the
reader after both. -/
structure Report (Q : PullReader) where
  event : Event
  txt : Text
  reader : Q.Reader

/-- The next report: the next event, and the text of an element that starts where its
kind has one. There is none at the end of input. -/
def report (Q : PullReader) (r : Q.Reader) : Except Q.Error (Option (Report Q)) :=
  match Q.readEvent r with
  | (.error e, _) => .error e
  | (.ok .eof, _) => .ok none
  | (.ok (.start tag), r') =>
    if (ElementKind.ofName tag.name).readsText then
      match Q.readText r' tag.name with
      | (.error e, _) => .error e
      | (.ok txt, r'') => .ok (some ⟨.start tag, txt, r''⟩)
    else .ok (some ⟨.start tag, [], r'⟩)
  | (.ok event, r') => .ok (some ⟨event, [], r'⟩)

/-- Everything that is reported from `r` up to the end of input. -/
abbrev Reported (Q : PullReader) : Q.Reader → List (Report Q) → Prop :=
  UnboundedLoop.Trace (fun r p r' => report Q r = .ok (some p) ∧ r' = p.reader)
    fun r => report Q r = .ok none

variable {Q : PullReader} {E : Crates}

/-- A report leaves less to read than there was. -/
theorem report_progress {r : Q.Reader} {p : Report Q} (h : report Q r = .ok (some p))
    (P : Q.Progresses) : P.left p.reader < P.left r := by
  unfold report at h
  split at h
  · cases h
  · cases h
  · rename_i tag r' hRead
    have hLess : P.left r' < P.left r := P.readEvent hRead (by simp)
    split_ifs at h
    · split at h
      · cases h
      · rename_i txt r'' hText
        obtain rfl := Option.some.inj (Except.ok.inj h)
        exact Nat.lt_of_le_of_lt (P.readText hText) hLess
    · obtain rfl := Option.some.inj (Except.ok.inj h)
      exact hLess
  · rename_i event r' hEof hStart hRead
    obtain rfl := Option.some.inj (Except.ok.inj h)
    exact P.readEvent hRead hEof

namespace Report

variable (p : Report Q)

variable (E) in
/-- The values that a report stands for, unless the parser panics at it. -/
def decode : Except (Panic Q.Error) (List (CliValue E)) :=
  match p.event with
  | .start tag => match ElementKind.ofName tag.name with
    | .leaf kind => do
      let name ← tryGetNameAttr Q p.reader tag
      return [← kind.decode E name p.txt]
    | .nil => do
      let name ← tryGetNameAttr Q p.reader tag
      return [.cliNull (CliNull.new name)]
    | .obj | .tn | .tnRef => do
      let _refId ← tryGetRefIdAttr Q p.reader tag
      return []
    | _ => .ok []
  | _ => .ok []

variable (E) in
def values : List (CliValue E) :=
  match p.decode E with
  | .ok values => values
  | .error _ => []

def startKind : Option ElementKind :=
  match p.event with
  | .start tag => some (ElementKind.ofName tag.name)
  | _ => none

def typeNames : List Text := if p.startKind = some .t then [p.txt] else []

def stringRepr : Option Text := if p.startKind = some .toString then some p.txt else none

def refId : Option Text :=
  match p.event with
  | .start tag =>
    if ElementKind.ofName tag.name = .obj then
      match tryGetRefIdAttr Q p.reader tag with
      | .ok refId => refId
      | .error _ => none
    else none
  | _ => none

def endsObj : Bool := p.event = .stop "Obj"

end Report

def CliObject.gather (o : CliObject E) (p : Report Q) : CliObject E :=
  { o with
    values := o.values ++ p.values E
    refId := p.refId.or o.refId
    typeNames := o.typeNames ++ p.typeNames
    stringRepr := p.stringRepr.or o.stringRepr }

/-- What a report does to the objects. -/
def Build.note (b : Build E) (p : Report Q) : Build E :=
  if p.endsObj then b.finish else { b with obj := b.obj.gather p }

/-- The report is read from `r` and the parser does not panic at it. -/
structure ReadsOn (E : Crates) (r : Q.Reader) (p : Report Q) (r' : Q.Reader) : Prop where
  reported : report Q r = .ok (some p)
  decoded : p.decode E = .ok (p.values E)
  next : r' = p.reader

section Start

variable {tag : BytesStart} (b : Build E) {r : Q.Reader} {txt : Text}

/-- The start of an element is no end of an object. -/
theorem note_start {vals : List (CliValue E)}
    (h : (⟨.start tag, txt, r⟩ : Report Q).decode E = .ok vals) :
    b.note ⟨.start tag, txt, r⟩ = { b with obj := { b.obj with
      values := b.obj.values ++ vals
      refId := (⟨.start tag, txt, r⟩ : Report Q).refId.or b.obj.refId
      typeNames := b.obj.typeNames ++ (⟨.start tag, txt, r⟩ : Report Q).typeNames
      stringRepr := (⟨.start tag, txt, r⟩ : Report Q).stringRepr.or b.obj.stringRepr } } := by
  simp [Build.note, Report.endsObj, CliObject.gather, Report.values, h]

/-- Without a text to read, the arm does what the report says. -/
theorem onStart_plain (h : (ElementKind.ofName tag.name).readsText = false) :
    (b.at r).onStart tag =
      ((⟨.start tag, [], r⟩ : Report Q).decode E).map
        fun _ => (b.note ⟨.start tag, [], r⟩).at r := by
  cases hKind : ElementKind.ofName tag.name with
  | t | toString | leaf kind => simp [hKind, ElementKind.readsText] at h
  | objs | props | ms | lst | ie | unsupported =>
      have hDecode : (⟨.start tag, [], r⟩ : Report Q).decode E = .ok [] := by
        simp [Report.decode, hKind]
      rw [hDecode, note_start b hDecode]
      simp [ParseState.onStart, hKind, Build.at, Except.map, Report.refId, Report.typeNames,
        Report.stringRepr, Report.startKind]
  | obj | tn | tnRef =>
      have hDecode : (⟨.start tag, [], r⟩ : Report Q).decode E =
          (tryGetRefIdAttr Q r tag).map fun _ => [] := by
        simp only [Report.decode, hKind]
        rfl
      cases hAttr : tryGetRefIdAttr Q r tag with
      | error panic =>
          rw [hAttr] at hDecode
          simp [hDecode, ParseState.onStart, hKind, Build.at, hAttr, Except.map, bind, Except.bind]
      | ok refId =>
          rw [hAttr] at hDecode
          rw [hDecode, note_start b hDecode]
          cases refId <;>
            simp [ParseState.onStart, hKind, Build.at, hAttr, Except.map, bind, Except.bind, pure,
              Except.pure, Report.refId, Report.typeNames, Report.stringRepr, Report.startKind]
  | nil =>
      have hDecode : (⟨.start tag, [], r⟩ : Report Q).decode E =
          (tryGetNameAttr Q r tag).map fun name => [.cliNull (CliNull.new name)] := by
        simp only [Report.decode, hKind]
        rfl
      cases hAttr : tryGetNameAttr Q r tag with
      | error panic =>
          rw [hAttr] at hDecode
          simp [hDecode, ParseState.onStart, hKind, Build.at, hAttr, Except.map, bind, Except.bind]
      | ok name =>
          rw [hAttr] at hDecode
          rw [hDecode, note_start b hDecode]
          simp [ParseState.onStart, hKind, Build.at, hAttr, Except.map, bind, Except.bind, pure,
            Except.pure, Report.refId, Report.typeNames, Report.stringRepr, Report.startKind]

/-- So it does with the text that was read. -/
theorem onStart_read {r' : Q.Reader} (h : (ElementKind.ofName tag.name).readsText = true)
    (hRead : Q.readText r tag.name = (.ok txt, r')) :
    (b.at r).onStart tag = ((⟨.start tag, txt, r'⟩ : Report Q).decode E).map fun _ =>
      (b.note ⟨.start tag, txt, r'⟩).at r' := by
  have hText : readText Q r tag = .ok (txt, r') := by
    rw [readText, hRead]
    rfl
  cases hKind : ElementKind.ofName tag.name with
  | t | toString =>
      have hDecode : (⟨.start tag, txt, r'⟩ : Report Q).decode E = .ok [] := by
        simp [Report.decode, hKind]
      rw [hDecode, note_start b hDecode]
      simp [ParseState.onStart, hKind, Build.at, hText, Except.map, bind, Except.bind, pure,
        Except.pure, Report.refId, Report.typeNames, Report.stringRepr, Report.startKind]
  | leaf kind =>
      have hDecode : (⟨.start tag, txt, r'⟩ : Report Q).decode E =
          (tryGetNameAttr Q r' tag).bind
            fun name => (kind.decode E name txt).map fun val => [val] := by
        simp only [Report.decode, hKind]
        rfl
      cases hAttr : tryGetNameAttr Q r' tag with
      | error panic =>
          rw [hAttr] at hDecode
          simp [hDecode, ParseState.onStart, hKind, Build.at, hText, hAttr, Except.map, bind,
            Except.bind]
      | ok name =>
          cases hLeaf : (kind.decode E name txt : Except (Panic Q.Error) (CliValue E)) with
          | error panic =>
              rw [hAttr] at hDecode
              simp [hDecode, ParseState.onStart, hKind, Build.at, hText, hAttr, hLeaf, Except.map,
                bind, Except.bind]
          | ok val =>
              simp only [hAttr, Except.bind, hLeaf, Except.map] at hDecode
              rw [hDecode, note_start b hDecode]
              simp [ParseState.onStart, hKind, Build.at, hText, hAttr, hLeaf, Except.map, bind,
                Except.bind, pure, Except.pure, Report.refId, Report.typeNames, Report.stringRepr,
                Report.startKind]
  | _ => simp [hKind, ElementKind.readsText] at h

end Start

/-- A panic at a report is one whatever the objects are, and otherwise the report is
taken into them. -/
theorem driven_of_report {r : Q.Reader} {p : Report Q} (hReport : report Q r = .ok (some p))
    (h : ∀ b : Build E, (b.at r).pass = match p.decode E with
      | .error panic => .inr (.error panic)
      | .ok _ => .inl ((b.note p).at p.reader)) :
    UnboundedLoop.Driven ParseState.pass (Build.at (E := E)) Build.note Build.objs (ReadsOn E)
      (fun r => report Q r = .ok none) r := by
  cases hDecode : p.decode E with
  | error panic => exact .fails panic fun b => by rw [h, hDecode]
  | ok vals =>
      have hDecoded : p.decode E = .ok (p.values E) := by rw [Report.values, hDecode]
      exact .reads p p.reader ⟨hReport, hDecoded, rfl⟩ fun b => by rw [h, hDecode]

/-- The start of an element is a pass that notes what was read, if the arm of the
element does. -/
theorem driven_start {r r₁ : Q.Reader} {tag : BytesStart} {txt : Text} {r' : Q.Reader}
    (hRead : Q.readEvent r = (.ok (.start tag), r₁))
    (hReport : report Q r = .ok (some ⟨.start tag, txt, r'⟩))
    (hArm : ∀ b : Build E, (b.at r₁).onStart tag =
      ((⟨.start tag, txt, r'⟩ : Report Q).decode E).map fun _ =>
        (b.note ⟨.start tag, txt, r'⟩).at r') :
    UnboundedLoop.Driven ParseState.pass (Build.at (E := E)) Build.note Build.objs (ReadsOn E)
      (fun r => report Q r = .ok none) r := by
  apply driven_of_report hReport
  intro b
  have hOnStart := hArm b
  cases hDecode : (⟨.start tag, txt, r'⟩ : Report Q).decode E with
  | error panic =>
      rw [hDecode] at hOnStart
      exact pass_start_panic hRead hOnStart
  | ok vals =>
      rw [hDecode] at hOnStart
      exact pass_start hRead hOnStart

/-- What a pass does depends on the reader only. -/
theorem pass_driven (r : Q.Reader) :
    UnboundedLoop.Driven ParseState.pass (Build.at (E := E)) Build.note Build.objs (ReadsOn E)
      (fun r => report Q r = .ok none) r := by
  cases hRead : Q.readEvent r with
  | mk result r₁ =>
      cases result with
      | error e =>
          refine .fails (.errorAt (Q.bufferPosition r₁) e) fun b => ?_
          simp only [ParseState.pass, Build.at, hRead]
      | ok event =>
          cases event with
          | start tag =>
              cases hKind : (ElementKind.ofName tag.name).readsText with
              | false =>
                  have hReport : report Q r = .ok (some ⟨.start tag, [], r₁⟩) := by
                    simp [report, hRead, hKind]
                  exact driven_start hRead hReport fun b => onStart_plain b hKind
              | true =>
                  cases hText : Q.readText r₁ tag.name with
                  | mk read r' =>
                      cases read with
                      | error e =>
                          exact .fails (.unwrapErr e) fun b =>
                            pass_start_panic hRead (onStart_unread b hKind hText)
                      | ok txt =>
                          have hReport : report Q r = .ok (some ⟨.start tag, txt, r'⟩) := by
                            simp [report, hRead, hKind, hText]
                          exact driven_start hRead hReport fun b => onStart_read b hKind hText
          | eof =>
              refine .ends (by simp [report, hRead]) fun b => ?_
              simp only [ParseState.pass, Build.at, hRead]
          | stop name =>
              have hReport : report Q r = .ok (some ⟨.stop name, [], r₁⟩) := by
                simp [report, hRead]
              apply driven_of_report hReport
              intro b
              have hStop : (b.at r).pass = .inl ((b.stop name).at r₁) := by
                rw [← onEnd_at]
                simp only [ParseState.pass, Build.at, hRead]
              rw [hStop]
              by_cases hName : name = "Obj" <;>
                simp [Report.decode, Build.note, Report.endsObj, Build.stop, Build.finish, hName,
                  CliObject.gather, Report.values, Report.refId, Report.typeNames,
                  Report.stringRepr, Report.startKind]
          | text raw | empty tag | comment raw | cdata raw | instruction raw | doctype raw =>
              apply driven_of_report (p := ⟨_, [], r₁⟩) (by simp only [report, hRead]; rfl)
              intro b
              simp [ParseState.pass, Build.at, hRead, Report.decode, Build.note, Report.endsObj,
                CliObject.gather, Report.values, Report.refId, Report.typeNames,
                Report.stringRepr, Report.startKind]

/-- The parser comes to an end on every text, within as many passes as there is
to read. -/
theorem parser_ends (P : Q.Progresses) (E : Crates) (cliXml : Text) :
    ∃ outcome, parseCliXml Q E (P.left (ParseState.initial Q E cliXml).reader + 1) cliXml =
      some outcome := by
  apply UnboundedLoop.run_of_measure fun s : ParseState Q E => P.left s.reader
  · intro s next hPass
    have hBuild : s = (⟨s.objs, s.obj⟩ : Build E).at s.reader := rfl
    rw [hBuild] at hPass
    cases pass_driven (E := E) s.reader with
    | fails panic h => simp [h] at hPass
    | ends hEnd h => simp [h] at hPass
    | reads p r' hReads h =>
        rw [h, Sum.inl.injEq] at hPass
        subst hPass
        have hLess : P.left p.reader < P.left s.reader := report_progress hReads.reported P
        rwa [← hReads.next] at hLess
  · exact Nat.lt_succ_self _

/-- The text ends before the second object does. -/
def unfinished : Text := "<Obj><S>a</S></Obj><Obj><S>b</S>".toList

open SliceReader in
theorem parser_ends_unfinished :
    ∃ outcome, parseCliXml sliceReader textCrates (2 * unfinished.length + 1) unfinished =
      some outcome :=
  parser_ends progresses textCrates unfinished

/-- The object that reports amount to. -/
def CliObject.ofReports (reports : List (Report Q)) : CliObject E where
  name := none
  values := reports.flatMap (Report.values E)
  refId := (reports.filterMap Report.refId).getLast?
  typeNames := reports.flatMap Report.typeNames
  stringRepr := (reports.filterMap Report.stringRepr).getLast?

/-- A report more makes the object that gathers it. -/
theorem ofReports_gather (reports : List (Report Q)) (p : Report Q) :
    (CliObject.ofReports (reports ++ [p]) : CliObject E) =
      (CliObject.ofReports reports).gather p := by
  simp [CliObject.ofReports, CliObject.gather]

/-- Reports up to the end of an object. -/
def EndsOnce (group : List (Report Q)) : Prop :=
  ∃ front last, group = front ++ [last] ∧ last.endsObj = true ∧ ∀ p ∈ front, p.endsObj = false

/-- The end of an object has nothing else in it. -/
theorem ofReports_end (reports : List (Report Q)) {p : Report Q} (h : p.endsObj = true) :
    (CliObject.ofReports (reports ++ [p]) : CliObject E) = CliObject.ofReports reports := by
  have hStop : p.event = .stop "Obj" := by simpa [Report.endsObj] using h
  rw [ofReports_gather]
  simp [CliObject.gather, Report.values, Report.decode, Report.refId, Report.typeNames,
    Report.stringRepr, Report.startKind, hStop]

/-- The objects are the groups of reports between the ends of objects, by induction
on the reports from the back. -/
theorem foldl_note (reports : List (Report Q)) :
    ∃ (groups : List (List (Report Q))) (rest : List (Report Q)),
      reports = groups.flatten ++ rest ∧ (∀ group ∈ groups, EndsOnce group) ∧
      (∀ p ∈ rest, p.endsObj = false) ∧
      reports.foldl Build.note (Build.initial E) =
        ⟨groups.map CliObject.ofReports, CliObject.ofReports rest⟩ := by
  induction reports using List.reverseRecOn with
  | nil => exact ⟨[], [], rfl, by simp, by simp, rfl⟩
  | append_singleton reports p ih =>
      obtain ⟨groups, rest, rfl, hGroups, hRest, hFold⟩ := ih
      rw [List.foldl_append, hFold]
      cases hEnd : p.endsObj with
      | true =>
          refine ⟨groups ++ [rest ++ [p]], [], by simp, ?_, by simp, ?_⟩
          · intro group hMem
            rcases List.mem_append.mp hMem with hOld | hNew
            · exact hGroups group hOld
            · exact ⟨rest, p, List.mem_singleton.mp hNew, hEnd, hRest⟩
          · simp [Build.note, hEnd, Build.finish, ofReports_end rest hEnd]
            rfl
      | false =>
          refine ⟨groups, rest ++ [p], by simp, hGroups, ?_, ?_⟩
          · intro q hMem
            rcases List.mem_append.mp hMem with hOld | hNew
            · exact hRest q hOld
            · exact List.mem_singleton.mp hNew ▸ hEnd
          · simp [Build.note, hEnd, ofReports_gather]

/-- The reports that a returned list comes from, none of which made the parser panic. -/
theorem reports_of_returns {cliXml : Text} {objs : List (CliObject E)}
    (h : Returns Q E cliXml objs) :
    ∃ reports, Reported Q (ParseState.initial Q E cliXml).reader reports ∧
      (∀ p ∈ reports, p.decode E = .ok (p.values E)) ∧
      objs = (reports.foldl Build.note (Build.initial E)).objs := by
  obtain ⟨reports, hTrace, hObjs⟩ := UnboundedLoop.Yields.driven pass_driven
    (show Stops ((Build.initial E).at (ParseState.initial Q E cliXml).reader) _ from h)
  exact ⟨reports, hTrace.imp fun _ _ _ hReads => ⟨hReads.reported, hReads.next⟩,
    hTrace.forall fun _ _ _ hReads => hReads.decoded, hObjs⟩

/-- On every text the parser reads what the reader reports up to the end of input, and
each returned object is what was reported since the end of the object before it:
every value that is reported decodes, and none is lost, doubled or moved. Only what
is reported after the last end of an object is dropped. -/
theorem returned_conserves {cliXml : Text} {objs : List (CliObject E)}
    (h : Returns Q E cliXml objs) :
    ∃ (groups : List (List (Report Q))) (rest : List (Report Q)),
      Reported Q (ParseState.initial Q E cliXml).reader (groups.flatten ++ rest) ∧
      (∀ p ∈ groups.flatten ++ rest, p.decode E = .ok (p.values E)) ∧
      (∀ group ∈ groups, EndsOnce group) ∧ (∀ p ∈ rest, p.endsObj = false) ∧
      objs = groups.map CliObject.ofReports := by
  obtain ⟨reports, hReported, hDecoded, rfl⟩ := reports_of_returns h
  obtain ⟨groups, rest, rfl, hGroups, hRest, hFold⟩ := foldl_note (E := E) reports
  exact ⟨groups, rest, hReported, hDecoded, hGroups, hRest, by rw [hFold]⟩

def finished : CliObject textCrates := ⟨none, [.cliString ⟨['a'], none⟩], none, [], none⟩

open SliceReader in
theorem returns_unfinished : Returns sliceReader textCrates unfinished [finished] := ⟨20, rfl⟩

open SliceReader in
theorem returned_conserves_unfinished :
    ∃ (groups : List (List (Report sliceReader))) (rest : List (Report sliceReader)),
      Reported sliceReader (ParseState.initial sliceReader textCrates unfinished).reader
        (groups.flatten ++ rest) ∧
      (∀ p ∈ groups.flatten ++ rest, p.decode textCrates = .ok (p.values textCrates)) ∧
      (∀ group ∈ groups, EndsOnce group) ∧ (∀ p ∈ rest, p.endsObj = false) ∧
      [finished] = groups.map CliObject.ofReports :=
  returned_conserves returns_unfinished

/-- The values of a report are decoded ones. -/
theorem Report.decoded_of_values {p : Report Q} {val : CliValue E} (hMem : val ∈ p.values E) :
    val.Decoded Q.Error := by
  unfold Report.values at hMem
  cases hDecode : p.decode E with
  | error panic => simp [hDecode] at hMem
  | ok vals =>
      rw [hDecode] at hMem
      unfold Report.decode at hDecode
      split at hDecode
      · rename_i tag hEvent
        split at hDecode
        · rename_i kind hKind
          cases hName : tryGetNameAttr Q p.reader tag with
          | error panic => simp [hName, bind, Except.bind] at hDecode
          | ok name =>
              cases hLeaf : (kind.decode E name p.txt : Except (Panic Q.Error) (CliValue E)) with
              | error panic => simp [hName, hLeaf, bind, Except.bind] at hDecode
              | ok val' =>
                  simp only [hName, hLeaf, bind, Except.bind, pure, Except.pure,
                    Except.ok.injEq] at hDecode
                  subst hDecode
                  obtain rfl := List.mem_singleton.mp hMem
                  exact .leaf kind name p.txt hLeaf
        · cases hName : tryGetNameAttr Q p.reader tag with
          | error panic => simp [hName, bind, Except.bind] at hDecode
          | ok name =>
              simp only [hName, bind, Except.bind, pure, Except.pure, Except.ok.injEq] at hDecode
              subst hDecode
              obtain rfl := List.mem_singleton.mp hMem
              exact .null name
        -- the other elements stand for no value
        iterate 3
          · cases hRefId : tryGetRefIdAttr Q p.reader tag with
            | error panic => simp [hRefId, bind, Except.bind] at hDecode
            | ok refId =>
                simp only [hRefId, bind, Except.bind, pure, Except.pure, Except.ok.injEq] at hDecode
                simp [← hDecode] at hMem
        · simp [← Except.ok.inj hDecode] at hMem
      · simp [← Except.ok.inj hDecode] at hMem

/-- On no text does the parser name an object or put an object into another one. -/
theorem returned_flat {cliXml : Text} {objs : List (CliObject E)} (h : Returns Q E cliXml objs) :
    ∀ o ∈ objs, o.name = none ∧
      ∀ val ∈ o.values, val.Decoded Q.Error ∧ ∀ inner, val ≠ .cliObject inner := by
  obtain ⟨reports, -, -, rfl⟩ := reports_of_returns h
  obtain ⟨groups, rest, -, -, -, hFold⟩ := foldl_note (E := E) reports
  rw [hFold]
  intro o hMem
  obtain ⟨group, -, rfl⟩ := List.mem_map.mp hMem
  refine ⟨rfl, fun val hVal => ?_⟩
  obtain ⟨p, -, hReport⟩ := List.mem_flatMap.mp hVal
  have hDecoded : val.Decoded Q.Error := Report.decoded_of_values hReport
  exact ⟨hDecoded, hDecoded.not_object⟩

open SliceReader in
theorem returned_flat_unfinished : finished.name = none ∧
    ∀ val ∈ finished.values, val.Decoded Unit ∧ ∀ inner, val ≠ .cliObject inner :=
  returned_flat returns_unfinished finished (List.mem_singleton_self finished)

end PwshHost.CliXml
