import PwshHost.CliXml.Document
import Mathlib.Logic.Relation

/-! Documents of any shape, with leaves that may have markup in them, and what
the parser acts on in them: starts and ends of objects, nulls, and elements
whose text is read. -/
namespace PwshHost.CliXml

open Xml
open Rust

/-- An item, or an element whose text has markup in it. -/
inductive Node where
  | item (i : Item)
  | mixed (tag : TextTag) (content : Mixed) (trail : Blanks)

namespace Node

def source : Node → Text
  | .item i => i.source
  | .mixed tag content trail =>
    (Markup.opening tag.tag).source ++ (content.source ++ closingSource tag.tag.name trail)

def nest (opened : List Name) : Node → Option (List Name)
  | .item i => i.nest opened
  | .mixed _ _ _ => some opened

def apply (Q : PullReader) {E : Crates} (b : Build E) : Node → Except (Panic Q.Error) (Build E)
  | .item i => i.apply Q b
  | .mixed tag content _ => b.text Q tag.tag content.reported

end Node

def nodesSource (nodes : List Node) : Text := nodes.flatMap Node.source

def nestNodes (opened : List Name) (nodes : List Node) : Option (List Name) :=
  nodes.foldlM Node.nest opened

/-- Every element opened in the nodes is closed in them, and conversely. -/
def WellNested (nodes : List Node) : Prop := nestNodes [] nodes = some []

instance (nodes : List Node) : Decidable (WellNested nodes) :=
  inferInstanceAs (Decidable (nestNodes [] nodes = some []))

/-- Nodes are nested like items, one run after the other. -/
theorem nestNodes_append (opened : List Name) (first second : List Node) :
    nestNodes opened (first ++ second) =
      (nestNodes opened first).bind fun opened => nestNodes opened second := by
  simp only [nestNodes, List.foldlM_append]
  rfl

theorem nestNodes_cons (opened : List Name) (node : Node) (nodes : List Node) :
    nestNodes opened (node :: nodes) =
      (node.nest opened).bind fun opened => nestNodes opened nodes := rfl

/-- A node that is fine by itself is fine with other elements open around it. -/
theorem Node.nest_under {node : Node} {opened opened' : List Name}
    (h : node.nest opened = some opened') (below : List Name) :
    node.nest (opened ++ below) = some (opened' ++ below) := by
  cases node with
  | item i => exact Item.nest_under h below
  | mixed tag content trail => rw [← Option.some.inj h]; rfl

/-- So is a run of nodes, by induction. -/
theorem nestNodes_under {nodes : List Node} {opened opened' : List Name}
    (h : nestNodes opened nodes = some opened') (below : List Name) :
    nestNodes (opened ++ below) nodes = some (opened' ++ below) := by
  induction nodes generalizing opened with
  | nil => rw [← Option.some.inj h]; rfl
  | cons node nodes ih =>
      rw [nestNodes_cons, Option.bind_eq_some_iff] at h ⊢
      obtain ⟨middle, hNode, hNodes⟩ := h
      exact ⟨middle ++ below, Node.nest_under hNode below, ih hNodes⟩

/-- Nodes that are well nested leave the open elements as they were. -/
theorem WellNested.under {nodes : List Node} (h : WellNested nodes) (below : List Name) :
    nestNodes below nodes = some below := nestNodes_under h below

section Run

variable {Q : PullReader} {E : Crates} (D : Q.Documented) (hMixed : D.ReadsMixed)

include hMixed in
/-- The step lemma: a node is read in a few passes, after which its effect has been
applied. -/
theorem reads_node (b : Build E) {r : Q.Reader} {u rest : Text} {opened opened' : List Name}
    (node : Node) (hNest : node.nest opened = some opened') (hData : '<' ∉ u)
    (h : D.At r (u ++ (node.source ++ rest)) opened) :
    Reads D b r rest opened' (node.apply Q b) := by
  cases node with
  | item i => exact reads_item D b i hNest hData h
  | mixed tag content trail =>
      obtain rfl := Option.some.inj hNest
      have hSource : u ++ ((Node.mixed tag content trail).source ++ rest) =
          u ++ ((Markup.opening tag.tag).source ++
            (content.source ++ closingSource tag.tag.name trail ++ rest)) := by
        simp [Node.source]
      rw [hSource] at h
      obtain ⟨r₁, hAt, hLeads⟩ := leads_data D b hData ((Markup.opening tag.tag).atMarkup _) h
      obtain ⟨r₂, hStart, hContent⟩ := D.opening tag.tag hAt
      obtain ⟨r', hRead, hAt'⟩ := hMixed.readMixed content hContent
      exact Reads.of_leads D hLeads (reads_start_text D b tag.tag tag.text hStart hRead hAt')

include hMixed in
/-- The run lemma, by induction on the nodes. -/
theorem reads_nodes (b : Build E) {r : Q.Reader} {u : Text} {opened opened' : List Name}
    (nodes : List Node) (hNest : nestNodes opened nodes = some opened') (hData : '<' ∉ u)
    (h : D.At r (u ++ nodesSource nodes) opened) :
    Reads D b r [] opened' (nodes.foldlM (Node.apply Q) b) := by
  induction nodes generalizing b r u opened with
  | nil =>
      obtain rfl := Option.some.inj hNest
      exact ⟨r, u, hData, by simpa [nodesSource] using h, .refl _⟩
  | cons node nodes ih =>
      rw [nestNodes_cons, Option.bind_eq_some_iff] at hNest
      obtain ⟨middle, hNode, hNodes⟩ := hNest
      have hStep := reads_node D hMixed b node hNode hData h
      rw [List.foldlM_cons]
      cases hEffect : node.apply Q b with
      | error panic =>
          rw [hEffect] at hStep
          exact hStep
      | ok b₁ =>
          rw [hEffect] at hStep
          obtain ⟨r₁, u₁, hData₁, hAt₁, hLeads₁⟩ := hStep
          exact Reads.of_leads D hLeads₁ (ih b₁ hNodes hData₁ hAt₁)

include hMixed in
/-- The parser stops with what the fold of the nodes computes. -/
theorem parsesTo_nodes {nodes : List Node} (hNest : WellNested nodes) :
    ParsesTo Q E (nodesSource nodes)
      ((nodes.foldlM (Node.apply Q) (Build.initial E)).map Build.objs) := by
  have hAt : D.At (ParseState.initial Q E (nodesSource nodes)).reader
      ([] ++ nodesSource nodes) [] := D.fromStr (nodesSource nodes)
  have hRun := reads_nodes D hMixed (Build.initial E) nodes hNest (by simp) hAt
  change Stops ((Build.initial E).at _) _
  cases hBuild : nodes.foldlM (Node.apply Q) (Build.initial E) with
  | error panic =>
      rw [hBuild] at hRun
      exact hRun
  | ok b =>
      rw [hBuild] at hRun
      obtain ⟨r', v, hPending, hEnd, hLeads⟩ := hRun
      exact hLeads _ (stops_eof D b hPending (by simpa using hEnd))

end Run

/-- What the parser acts on, with the tag and the text that it sees. -/
inductive Signal where
  | enter (tag : Tag)
  | leave
  | null (tag : Tag)
  | text (tag : Tag) (txt : Text)
  deriving DecidableEq

/-- The start of an element whose text is not read. -/
def startSignals (tag : Tag) : List Signal :=
  match kindOf tag with
  | .obj => [.enter tag]
  | .nil => [.null tag]
  | _ => []

def stopSignals (name : Name) : List Signal := if name.val = "Obj" then [.leave] else []

def Item.signals : Item → List Signal
  | .opening tag => startSignals tag.tag
  | .closing name _ => stopSignals name
  | .empty tag =>
    if (kindOf tag).readsText then [.text tag []] else startSignals tag ++ stopSignals tag.name
  | .leaf tag content _ => [.text tag.tag (reported content.val)]
  | .text _ => []
  | .misc _ => []

def Node.signals : Node → List Signal
  | .item i => i.signals
  | .mixed tag content _ => [.text tag.tag content.reported]

def signals (nodes : List Node) : List Signal := nodes.flatMap Node.signals

@[simp] theorem signals_nil : signals [] = [] := rfl

@[simp] theorem signals_cons (node : Node) (nodes : List Node) :
    signals (node :: nodes) = node.signals ++ signals nodes := rfl

@[simp] theorem signals_append (first second : List Node) :
    signals (first ++ second) = signals first ++ signals second := by
  simp [signals]

section Apply

variable {Q : PullReader} {E : Crates}

def Signal.apply (Q : PullReader) {E : Crates} (b : Build E) :
    Signal → Except (Panic Q.Error) (Build E)
  | .enter tag => .ok { b with obj := b.obj.enter Q tag }
  | .leave => .ok b.finish
  | .null tag => .ok (b.push (.cliNull (CliNull.new (attrValue Q tag "N"))))
  | .text tag txt => b.text Q tag txt

/-- A start tag does what its signal says, and nothing without one. -/
theorem startSignals_apply (b : Build E) (t : Tag) :
    (startSignals t).foldlM (Signal.apply Q) b = .ok (b.start Q t) := by
  unfold startSignals Build.start
  cases hKind : kindOf t with
  | obj =>
      cases hRefId : attrValue Q t "RefId" <;>
        simp [Signal.apply, CliObject.enter, hRefId]
  | nil => rfl
  | _ => rfl

/-- An end tag finishes an object or does nothing. -/
theorem stopSignals_apply (b : Build E) (name : Name) :
    (stopSignals name).foldlM (Signal.apply Q) b = .ok (b.stop name.val) := by
  unfold stopSignals Build.stop
  split <;> rfl

/-- A node does what its signals do. -/
theorem Node.apply_signals (b : Build E) (node : Node) :
    node.apply Q b = node.signals.foldlM (Signal.apply Q) b := by
  cases node with
  | mixed tag content trail =>
      simp [Node.apply, Node.signals, Signal.apply]
  | item i =>
      cases i with
      | opening tag => exact (startSignals_apply b tag.tag).symm
      | closing name trail => exact (stopSignals_apply b name).symm
      | empty tag =>
          simp only [Node.apply, Item.apply, Node.signals, Item.signals]
          split
          · simp [Signal.apply]
          · rw [List.foldlM_append, startSignals_apply]
            exact (stopSignals_apply (b.start Q tag) tag.name).symm
      | leaf tag content trail =>
          simp [Node.apply, Item.apply, Node.signals, Item.signals, Signal.apply]
      | text data => rfl
      | misc m => rfl

/-- The effect of the nodes is that of their signals, one after another. -/
theorem foldlM_signals (b : Build E) (nodes : List Node) :
    nodes.foldlM (Node.apply Q) b = (signals nodes).foldlM (Signal.apply Q) b := by
  induction nodes generalizing b with
  | nil => rfl
  | cons node nodes ih =>
      rw [List.foldlM_cons, signals_cons, List.foldlM_append, node.apply_signals]
      exact bind_congr ih

end Apply

/-- What a run over the signals returns. -/
def outcomeOf (Q : PullReader) (E : Crates) (sent : List Signal) :
    Except (Panic Q.Error) (List (CliObject E)) :=
  (sent.foldlM (Signal.apply Q) (Build.initial E)).map Build.objs

/-- The parser stops with what the signals amount to. -/
theorem parsesTo_signals {Q : PullReader} {E : Crates} (D : Q.Documented) (hMixed : D.ReadsMixed)
    {nodes : List Node} (hNest : WellNested nodes) :
    ParsesTo Q E (nodesSource nodes) (outcomeOf Q E (signals nodes)) := by
  have hParses : ParsesTo Q E (nodesSource nodes) _ := parsesTo_nodes D hMixed hNest
  rwa [foldlM_signals] at hParses

end PwshHost.CliXml
