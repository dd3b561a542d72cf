import PwshHost.CliXml.Signals
import PwshHost.CliXml.TextDecoding

/-! Only objects and leaves matter: insertions that send no signal leave the
outcome as it is, wherever they are made and however many there are. -/
namespace PwshHost.CliXml

open Xml
open Rust

/-- Elements that are neither objects nor leaves. -/
def ElementKind.passive : ElementKind → Bool
  | .objs | .tn | .tnRef | .props | .ms | .lst | .ie | .unsupported => true
  | _ => false

/-- One insertion of something that is not an object, a leaf or part of a leaf. -/
inductive Insertion : List Node → List Node → Prop where
  /-- Text, a comment, a CDATA section, an instruction or a declaration. -/
  | inert (before after : List Node) (i : Item) (hInert : i.inert = true) :
    Insertion (before ++ after) (before ++ .item i :: after)
  /-- An element around a balanced run. -/
  | wrap (before run after : List Node) (tag : ContainerTag) (trail : Blanks)
    (hPassive : (kindOf tag.tag).passive = true) (hRun : WellNested run) :
    Insertion (before ++ (run ++ after))
      (before ++ .item (.opening tag) :: (run ++ .item (.closing tag.tag.name trail) :: after))
  /-- An element around nothing, written as an empty element. -/
  | empty (before after : List Node) (tag : Tag) (hPassive : (kindOf tag).passive = true) :
    Insertion (before ++ after) (before ++ .item (.empty tag) :: after)

/-- Any number of insertions and deletions. -/
abbrev Edits : List Node → List Node → Prop := Relation.EqvGen Insertion

/-- The start of an element that the parser passes over sends no signal. -/
theorem startSignals_passive {t : Tag} (h : (kindOf t).passive = true) : startSignals t = [] := by
  unfold startSignals
  cases hKind : kindOf t <;> simp_all [ElementKind.passive]

/-- Neither does its end, since only the end of an object does. -/
theorem stopSignals_passive {t : Tag} (h : (kindOf t).passive = true) :
    stopSignals t.name = [] := by
  have hName : t.name.val ≠ "Obj" := by
    intro hObj
    rw [kindOf_eq_obj.mpr hObj] at h
    cases h
  exact if_neg hName

/-- Such an element has no text of its own to be read. -/
theorem passive_readsText {kind : ElementKind} (h : kind.passive = true) :
    kind.readsText = false := by
  cases kind <;> simp_all [ElementKind.passive, ElementKind.readsText]

/-- An insertion sends no signal. -/
theorem Insertion.signals_eq {first second : List Node} (h : Insertion first second) :
    signals first = signals second := by
  cases h with
  | inert before after i hInert =>
      have hSilent : (Node.item i).signals = [] := by
        cases i <;> simp_all [Item.inert, Node.signals, Item.signals]
      simp [hSilent]
  | wrap before run after tag trail hPassive hRun =>
      have hStart : (Node.item (.opening tag)).signals = [] := startSignals_passive hPassive
      have hStop : (Node.item (.closing tag.tag.name trail)).signals = [] :=
        stopSignals_passive hPassive
      simp [hStart, hStop]
  | empty before after tag hPassive =>
      have hSilent : (Node.item (.empty tag)).signals = [] := by
        simp [Node.signals, Item.signals, passive_readsText hPassive,
          startSignals_passive hPassive, stopSignals_passive hPassive]
      simp [hSilent]

/-- An insertion neither opens nor closes an element for what follows. -/
theorem Insertion.nest_eq {first second : List Node} (h : Insertion first second)
    (opened : List Name) : nestNodes opened first = nestNodes opened second := by
  cases h with
  | inert before after i hInert =>
      have hNest : ∀ opened : List Name, (Node.item i).nest opened = some opened := by
        intro opened
        cases i <;> simp_all [Item.inert, Node.nest, Item.nest]
      simp [nestNodes_append, nestNodes_cons, hNest]
  | wrap before run after tag trail hPassive hRun =>
      have hWrapped : ∀ opened : List Name,
          nestNodes opened (.item (.opening tag) ::
            (run ++ .item (.closing tag.tag.name trail) :: after)) = nestNodes opened after := by
        intro opened
        change nestNodes (tag.tag.name :: opened) _ = _
        rw [nestNodes_append, hRun.under, Option.bind_some, nestNodes_cons]
        simp [Node.nest, Item.nest]
      have hRunOnly : ∀ opened : List Name,
          nestNodes opened (run ++ after) = nestNodes opened after := by
        intro opened
        rw [nestNodes_append, hRun.under, Option.bind_some]
      simp only [nestNodes_append _ before, hWrapped, hRunOnly]
  | empty before after tag hPassive =>
      simp only [nestNodes_append]
      rfl

/-- By induction on the edits: insertions and deletions send no signal. -/
theorem Edits.signals_eq {first second : List Node} (h : Edits first second) :
    signals first = signals second := by
  induction h with
  | rel first second hInsert => exact hInsert.signals_eq
  | refl nodes => rfl
  | symm first second hEdits ih => exact ih.symm
  | trans first middle second hLeft hRight ihLeft ihRight => exact ihLeft.trans ihRight

/-- They keep the nesting as well. -/
theorem Edits.nest_eq {first second : List Node} (h : Edits first second) (opened : List Name) :
    nestNodes opened first = nestNodes opened second := by
  induction h with
  | rel first second hInsert => exact hInsert.nest_eq opened
  | refl nodes => rfl
  | symm first second hEdits ih => exact ih.symm
  | trans first middle second hLeft hRight ihLeft ihRight => exact ihLeft.trans ihRight

/-- The parser comes to the same end on both texts. -/
def SameOutcome (Q : PullReader) (E : Crates) (first second : Text) : Prop :=
  ∃ outcome, ParsesTo Q E first outcome ∧ ParsesTo Q E second outcome

/-- The outcome is a function of the signals, which insertions and deletions
do not change. -/
theorem outcome_of_signals {Q : PullReader} {E : Crates} (D : Q.Documented)
    (hMixed : D.ReadsMixed) :
    (∀ first second : List Node, WellNested first → WellNested second →
      signals first = signals second →
        SameOutcome Q E (nodesSource first) (nodesSource second)) ∧
    ∀ first second : List Node, WellNested first → Edits first second →
      WellNested second ∧ SameOutcome Q E (nodesSource first) (nodesSource second) := by
  have hSame : ∀ first second : List Node, WellNested first → WellNested second →
      signals first = signals second →
        SameOutcome Q E (nodesSource first) (nodesSource second) := by
    intro first second hFirst hSecond hSignals
    refine ⟨_, parsesTo_signals D hMixed hFirst, ?_⟩
    rw [hSignals]
    exact parsesTo_signals D hMixed hSecond
  refine ⟨hSame, ?_⟩
  intro first second hFirst hEdits
  have hSecond : WellNested second := by
    rw [WellNested, ← hEdits.nest_eq]
    exact hFirst
  exact ⟨hSecond, hSame first second hFirst hSecond hEdits.signals_eq⟩

open SliceReader in
/-- A wrapper around the only leaf of an object. -/
theorem outcome_of_signals_props :
    SameOutcome sliceReader textCrates
      "<Obj><S N=\"n\">v</S></Obj>".toList "<Obj><Props><S N=\"n\">v</S></Props></Obj>".toList :=
  ((outcome_of_signals documented readsMixed).2
    [.item (Structural.obj.start none), .item (TextElement.s.item ['n'] ['v']),
      .item Structural.obj.stop] _ (by decide)
    (.rel _ _ (.wrap [.item (Structural.obj.start none)] [.item (TextElement.s.item ['n'] ['v'])]
      [.item Structural.obj.stop] (Structural.props.tag none) noBlanks rfl (by decide)))).2

end PwshHost.CliXml
