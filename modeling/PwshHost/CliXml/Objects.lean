import PwshHost.CliXml.Writing
import PwshHost.Xml.SliceText

/-! What holds of the objects of every document: nothing written inside
objects is lost, doubled or moved, and sibling objects do not meet. -/
namespace PwshHost.CliXml

open Xml
open Rust

variable {Q : PullReader} {E : Crates} (D : Q.Documented)

/-- Leaves, nulls and type names are stored in the current object. -/
def ElementKind.isStored : ElementKind → Bool
  | .leaf _ | .nil | .t => true
  | _ => false

def Item.isStored (item : Item) : Bool := item.startKind.any ElementKind.isStored

/-- What is stored lies inside some object. -/
def storedInside (opened : List Name) (item : Item) : Bool :=
  !item.isStored || 0 < openObjs opened

/-- An item without anything to store starts no element that is stored. -/
theorem startKind_of_not_stored {item : Item} {kind : ElementKind} (h : item.isStored = false)
    (hKind : kind.isStored = true) : item.startKind ≠ some kind := by
  intro hStart
  rw [Item.isStored, hStart, Option.any_some, hKind] at h
  cases h

/-- `P` holds of the object being built wherever no object is open. -/
def OutsideObjs (P : CliObject E → Prop) (opened : List Name) (b : Build E) : Prop :=
  openObjs opened = 0 → P b.obj

/-- What holds of a fresh object and is kept by the items outside of all
objects holds of the object being built there. -/
theorem outside_effect {P : CliObject E → Prop} (hFresh : P CliObject.default)
    {opened opened' : List Name} {item : Item} {b : Build E}
    (hAbsorb : openObjs opened = 0 → P b.obj → P (b.obj.absorb Q item))
    (hNest : item.nest opened = some opened') (h : OutsideObjs P opened b) :
    OutsideObjs P opened' (b.effect Q item) := by
  intro hOutside
  have hObjs := nest_objs hNest
  cases hEnds : item.endsObj with
  | true =>
      -- the end of an object leaves a fresh one
      cases item with
      | closing name trail =>
          have hName : name.val = "Obj" := by simpa [Item.endsObj] using hEnds
          simpa [Build.effect, Item.isObj, hName, Build.finish] using hFresh
      | empty tag =>
          have hKind : kindOf tag = .obj := by simpa [Item.endsObj] using hEnds
          simpa [Build.effect, Item.isObj, hKind, Build.finish] using hFresh
      | _ => simp [Item.endsObj] at hEnds
  | false =>
      have hStarts : item.startsObj = false := by
        cases hCase : item.startsObj with
        | false => rfl
        | true => simp [hCase, hEnds, hOutside] at hObjs
      have hBefore : openObjs opened = 0 := by simpa [hStarts, hEnds, hOutside] using hObjs
      have hPlain : item.isObj = false := by
        cases item <;> simp_all [Item.isObj, Item.startsObj, Item.endsObj]
      rw [effect_plain b hPlain]
      exact hAbsorb hBefore (h hBefore)

def CliObject.Bare (o : CliObject E) : Prop := o.values = [] ∧ o.typeNames = []

/-- Outside of all objects the one being built stays without values and type names,
since leaves are only inside. -/
theorem bare_effect {opened opened' : List Name} {item : Item} {b : Build E}
    (hInside : storedInside opened item = true) (hNest : item.nest opened = some opened')
    (h : OutsideObjs CliObject.Bare opened b) :
    OutsideObjs CliObject.Bare opened' (b.effect Q item) := by
  refine outside_effect ⟨rfl, rfl⟩ (fun hBefore hBare => ?_) hNest h
  have hNotStored : item.isStored = false := by simpa [storedInside, hBefore] using hInside
  obtain ⟨hValues, hTypeNames⟩ := hBare
  have hItemValues : item.values Q E = [] :=
    values_eq_nil (startKind_of_not_stored hNotStored rfl)
      fun _ => startKind_of_not_stored hNotStored rfl
  have hItemNames : item.typeNames = [] := typeNames_eq_nil (startKind_of_not_stored hNotStored rfl)
  simp [CliObject.Bare, CliObject.absorb, hValues, hTypeNames, hItemValues, hItemNames]

include D in
/-- Where everything stored lies inside objects, the values and the type names
of the returned objects are those of the document, in its order, and there are
as many objects as the document has. -/
theorem objects_conserve (d : Document) (hInside : along storedInside [] d.content = true)
    (hValid : Valid Q E d.content) :
    ∃ objs, Returns Q E d.text objs ∧
      objs.flatMap CliObject.values = values Q E d.content ∧
      objs.flatMap CliObject.typeNames = typeNames d.content ∧
      objs.length = d.content.countP Item.startsObj := by
  have hBare : OutsideObjs CliObject.Bare []
      (d.content.foldl (Build.effect Q) (Build.initial E)) :=
    along_run bare_effect hInside d.balanced fun _ => ⟨rfl, rfl⟩
  obtain ⟨hValues, hTypeNames⟩ := hBare rfl
  refine ⟨result Q E d.content, d.returns D hValid, ?_, ?_, d.balanced.length_result⟩
  · have hTotal : (d.content.foldl (Build.effect Q) (Build.initial E)).values = _ :=
      foldl_values d.content (Build.initial E)
    rwa [Build.values, hValues, List.append_nil] at hTotal
  · have hTotal : (d.content.foldl (Build.effect Q) (Build.initial E)).typeNames = _ :=
      foldl_typeNames d.content (Build.initial E)
    rwa [Build.typeNames, hTypeNames, List.append_nil] at hTotal

/-- An object in an object, with values before, in and after it. -/
def nestedContent : List Item :=
  [Structural.obj.start (some ['0']),
    .leaf tTag ⟨['t'], by decide⟩ noBlanks,
    .leaf (LeafKind.string.tag (some ['a'])) ⟨['1'], by decide⟩ noBlanks,
    Structural.obj.start (some ['1']),
    .leaf (LeafKind.string.tag (some ['b'])) ⟨['2'], by decide⟩ noBlanks,
    Structural.obj.stop,
    .leaf (LeafKind.string.tag (some ['c'])) ⟨['3'], by decide⟩ noBlanks,
    Structural.obj.stop]

def nested : Document := documentOf nestedContent (by decide)

open SliceReader in
theorem objects_conserve_nested : ∃ objs, Returns sliceReader textCrates nested.text objs ∧
    objs.flatMap CliObject.values = values sliceReader textCrates nested.content ∧
    objs.flatMap CliObject.typeNames = typeNames nested.content ∧
    objs.length = nested.content.countP Item.startsObj :=
  objects_conserve documented nested (by decide) (check_eq_ok.mp rfl)

/-- Outside of all elements only objects start. -/
def objOutermost (opened : List Name) (item : Item) : Bool :=
  !opened.isEmpty || item.inert || item.startsObj

/-- Complete objects one after another. -/
structure ObjSequence where
  items : List Item
  balanced : Balanced items
  objects : along objOutermost [] items = true

def ObjSequence.append (A B : ObjSequence) : ObjSequence where
  items := A.items ++ B.items
  balanced := A.balanced.append B.balanced
  objects := along_append A.balanced A.objects B.objects

/-- The outermost open element is an object, and without one the object being
built is a fresh one. -/
structure AtRest (opened : List Name) (b : Build E) : Prop where
  outermost : ∀ name ∈ opened.getLast?, name.val = "Obj"
  fresh : opened = [] → b.obj = CliObject.default

/-- Between two outermost objects the object being built is a fresh one again, and
what opens there is an object. -/
theorem atRest_effect {opened opened' : List Name} {item : Item} {b : Build E}
    (hOutermost : objOutermost opened item = true) (hNest : item.nest opened = some opened')
    (h : AtRest opened b) : AtRest opened' (b.effect Q item) := by
  cases item with
  | opening tag =>
      obtain rfl := Option.some.inj hNest
      refine ⟨?_, by simp⟩
      cases opened with
      | nil => simpa [objOutermost, Item.inert, Item.startsObj, kindOf_eq_obj] using hOutermost
      | cons top below => simpa using h.outermost
  | closing name trail =>
      obtain rfl := nest_closing hNest
      cases opened' with
      | nil =>
          have hName : name.val = "Obj" := h.outermost name (by simp)
          refine ⟨by simp, fun _ => ?_⟩
          simp [Build.effect, Item.isObj, hName, Build.finish]
      | cons next below => exact ⟨by simpa using h.outermost, by simp⟩
  | empty tag =>
      obtain rfl := Option.some.inj hNest
      refine ⟨h.outermost, fun hOutside => ?_⟩
      subst hOutside
      have hObj : kindOf tag = .obj := by
        simpa [objOutermost, Item.inert, Item.startsObj] using hOutermost
      simp [Build.effect, Item.isObj, hObj, Build.finish]
  | leaf tag content trail =>
      obtain rfl := Option.some.inj hNest
      refine ⟨h.outermost, fun hOutside => ?_⟩
      subst hOutside
      simp [objOutermost, Item.inert, Item.startsObj] at hOutermost
  | text data =>
      obtain rfl := Option.some.inj hNest
      simpa [Build.effect, Item.isObj] using h
  | misc m =>
      obtain rfl := Option.some.inj hNest
      simpa [Build.effect, Item.isObj] using h

/-- Complete objects add their results and leave a fresh object behind. -/
theorem ObjSequence.foldl_effect (A : ObjSequence) (objs : List (CliObject E)) :
    A.items.foldl (Build.effect Q) ⟨objs, CliObject.default⟩ =
      ⟨objs ++ result Q E A.items, CliObject.default⟩ := by
  have hRest : AtRest [] (A.items.foldl (Build.effect Q) (Build.initial E)) :=
    along_run atRest_effect A.objects A.balanced ⟨by simp, fun _ => rfl⟩
  have hFresh := hRest.fresh rfl
  rw [Build.initial] at hFresh
  rw [foldl_front]
  simp only [Build.behind, hFresh, result, Build.initial]

/-- The second sequence starts from a fresh object, so the results of both are
appended. -/
theorem ObjSequence.result_append (A B : ObjSequence) :
    result Q E (A.append B).items = result Q E A.items ++ result Q E B.items := by
  have hA : A.items.foldl (Build.effect Q) (Build.initial E) = _ := A.foldl_effect []
  have hB : B.items.foldl (Build.effect Q) _ = _ := B.foldl_effect (result Q E A.items)
  rw [result, ObjSequence.append, List.foldl_append, hA, List.nil_append, hB]

/-- A document that holds a sequence of objects. -/
def Document.holdingObjs (d : Document) (A : ObjSequence) : Document := d.holding A.items A.balanced

/-- What the parser does on both of two parts. -/
def bothOutcomes {ε α : Type} (first second : Except ε (List α)) : Except ε (List α) := do
  return (← first) ++ (← second)

/-- With a panic on either side the outcome of both is the first panic. -/
theorem ObjSequence.outcome_append {ε : Type} (A B : ObjSequence) (first second : Except ε Unit) :
    ((first.bind fun _ => second).map fun _ => result Q E (A.append B).items) =
      bothOutcomes (first.map fun _ => result Q E A.items)
        (second.map fun _ => result Q E B.items) := by
  rw [A.result_append]
  cases first with
  | error panic => rfl
  | ok done => cases second <;> rfl

include D in
/-- Sibling objects are decoded independently: two sequences of objects side
by side give the results of the two, in either order, and a panic in one of
them is a panic of the whole. -/
theorem siblings_independent (d : Document) (A B : ObjSequence) :
    ∃ first second, ParsesTo Q E (d.holdingObjs A).text first ∧
      ParsesTo Q E (d.holdingObjs B).text second ∧
      ParsesTo Q E (d.holdingObjs (A.append B)).text (bothOutcomes first second) ∧
      ParsesTo Q E (d.holdingObjs (B.append A)).text (bothOutcomes second first) := by
  have hBoth : ∀ A B : ObjSequence, ParsesTo Q E (d.holdingObjs (A.append B)).text
      (bothOutcomes ((check Q E A.items).map fun _ => result Q E A.items)
        ((check Q E B.items).map fun _ => result Q E B.items)) := by
    intro A B
    have hParses : ParsesTo Q E (d.holdingObjs (A.append B)).text
        ((check Q E (A.items ++ B.items)).map fun _ => result Q E (A.append B).items) :=
      (d.holdingObjs (A.append B)).parsesTo D
    rwa [check_append, A.outcome_append] at hParses
  exact ⟨_, _, (d.holdingObjs A).parsesTo D, (d.holdingObjs B).parsesTo D, hBoth A B, hBoth B A⟩

def nestedObjs : ObjSequence := ⟨nestedContent, by decide, by decide⟩

/-- `<Obj><B>1</B></Obj>`, which no boolean is decoded from. -/
def digitObjs : ObjSequence where
  items := [Structural.obj.start none, .leaf (LeafKind.bool.tag none) ⟨['1'], by decide⟩ noBlanks,
    Structural.obj.stop]
  balanced := by decide
  objects := by decide

open SliceReader in
theorem siblings_independent_nested :
    ∃ first second, ParsesTo sliceReader textCrates (nested.holdingObjs nestedObjs).text first ∧
      ParsesTo sliceReader textCrates (nested.holdingObjs digitObjs).text second ∧
      ParsesTo sliceReader textCrates (nested.holdingObjs (nestedObjs.append digitObjs)).text
        (bothOutcomes first second) ∧
      ParsesTo sliceReader textCrates (nested.holdingObjs (digitObjs.append nestedObjs)).text
        (bothOutcomes second first) :=
  siblings_independent documented nested nestedObjs digitObjs

end PwshHost.CliXml
