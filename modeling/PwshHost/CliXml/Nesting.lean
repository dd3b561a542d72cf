import PwshHost.CliXml.Tree
import Mathlib.Data.List.Forall2

/-! Objects inside objects. The parser has one object under construction, so
the tree of objects comes back only where no object lies in another one. -/
namespace PwshHost.CliXml

open Xml
open Rust

theorem Atom.isObj_item (a : Atom) : a.item.isObj = a.isObj := by
  obtain ⟨item, hSingle⟩ := a
  cases item with
  | opening tag => cases hSingle
  | closing name trail => cases hSingle
  | _ => rfl

variable {Q : PullReader} {E : Crates}

namespace Content

/-- A tree without objects has no item that starts or ends one. -/
theorem isObj_of_noObj {c : Content} (h : c.noObj = true) :
    ∀ item ∈ c.items, item.isObj = false := by
  induction c with
  | done => simp [items]
  | atom a rest ih =>
      simp only [noObj, Bool.and_eq_true, Bool.not_eq_true'] at h
      obtain ⟨hAtom, hRest⟩ := h
      intro item hMem
      rcases List.mem_cons.mp hMem with rfl | hLater
      · rw [a.isObj_item, hAtom]
      · exact ih hRest item hLater
  | element tag children trail rest ihChildren ihRest =>
      simp only [noObj, Bool.and_eq_true, decide_eq_true_eq] at h
      obtain ⟨⟨hTag, hChildren⟩, hRest⟩ := h
      have hName : tag.tag.name.val ≠ "Obj" := fun hName => hTag (kindOf_eq_obj.mpr hName)
      intro item hMem
      simp only [items, List.mem_cons, List.mem_append] at hMem
      rcases hMem with rfl | hInside | rfl | hLater
      · simp [Item.isObj, hTag]
      · exact ihChildren hChildren item hInside
      · simp [Item.isObj, hName]
      · exact ihRest hRest item hLater

/-- An atom that is no object holds none. -/
theorem objects_of_noObj {a : Atom} (h : a.isObj = false) : a.objects Q E = [] := by
  obtain ⟨item, hSingle⟩ := a
  cases item with
  | empty tag =>
      have hTag : kindOf tag ≠ .obj := by simpa [Atom.isObj, Item.startsObj] using h
      simp [Atom.objects, hTag]
  | _ => rfl

/-- Without objects in it, what the items of a tree contribute is what the tree
says. -/
theorem values_of_noObj {c : Content} (h : c.noObj = true) :
    CliXml.values Q E c.items = c.values Q E := by
  induction c with
  | done => rfl
  | atom a rest ih =>
      simp only [noObj, Bool.and_eq_true, Bool.not_eq_true'] at h
      obtain ⟨hAtom, hRest⟩ := h
      have hTail := ih hRest
      rw [CliXml.values] at hTail
      simp [items, CliXml.values, values, objects_of_noObj hAtom, hTail]
  | element tag children trail rest ihChildren ihRest =>
      simp only [noObj, Bool.and_eq_true, decide_eq_true_eq] at h
      obtain ⟨⟨hTag, hChildren⟩, hRest⟩ := h
      have hInside := ihChildren hChildren
      have hTail := ihRest hRest
      rw [CliXml.values] at hInside hTail
      simp [items, CliXml.values, values, hTag, hInside, hTail, Item.values]

theorem typeNames_of_noObj {c : Content} (h : c.noObj = true) :
    CliXml.typeNames c.items = c.typeNames := by
  induction c with
  | done => rfl
  | atom a rest ih =>
      simp only [noObj, Bool.and_eq_true] at h
      have hTail := ih h.2
      rw [CliXml.typeNames] at hTail
      simp [items, CliXml.typeNames, typeNames, hTail]
  | element tag children trail rest ihChildren ihRest =>
      simp only [noObj, Bool.and_eq_true, decide_eq_true_eq] at h
      obtain ⟨⟨hTag, hChildren⟩, hRest⟩ := h
      have hInside := ihChildren hChildren
      have hTail := ihRest hRest
      rw [CliXml.typeNames] at hInside hTail
      simp [items, CliXml.typeNames, typeNames, hTag, hInside, hTail, Item.typeNames]

theorem stringRepr_of_noObj {c : Content} (h : c.noObj = true) :
    CliXml.stringRepr c.items = c.stringRepr := by
  induction c with
  | done => rfl
  | atom a rest ih =>
      simp only [noObj, Bool.and_eq_true] at h
      rw [items, stringRepr_cons, ih h.2, stringRepr]
  | element tag children trail rest ihChildren ihRest =>
      simp only [noObj, Bool.and_eq_true, decide_eq_true_eq] at h
      obtain ⟨⟨hTag, hChildren⟩, hRest⟩ := h
      have hOpening : (Item.opening tag).stringRepr = none := rfl
      have hClosing : (Item.closing tag.tag.name trail).stringRepr = none := rfl
      rw [items, stringRepr_cons, stringRepr_append, stringRepr_cons, ihChildren hChildren,
        ihRest hRest, hOpening, hClosing, stringRepr, if_neg hTag]
      simp

/-- The parser leaves the names of objects out. -/
def unnamed (o : CliObject E) : CliObject E := { o with name := none }

/-- Each outermost object is built from its own items alone. -/
theorem foldl_flat {c : Content} (hObjs : c.onlyObjs = true) (hFlat : c.flat = true)
    (objs : List (CliObject E)) :
    c.items.foldl (Build.effect Q) ⟨objs, CliObject.default⟩ =
      ⟨objs ++ (c.objects Q E).map unnamed, CliObject.default⟩ := by
  induction c generalizing objs with
  | done => simp [items, objects]
  | atom a rest ih =>
      simp only [onlyObjs, Bool.and_eq_true, Bool.or_eq_true] at hObjs
      obtain ⟨hAtom, hRest⟩ := hObjs
      have hHead : (⟨objs, CliObject.default⟩ : Build E).effect Q a.item =
          ⟨objs ++ (a.objects Q E).map unnamed, CliObject.default⟩ := by
        obtain ⟨item, hSingle⟩ := a
        cases item with
        | empty tag =>
            have hTag : kindOf tag = .obj := by
              simpa [Atom.isObj, Item.startsObj, Item.inert] using hAtom
            simp [Build.effect, Item.isObj, hTag, Build.finish, CliObject.enter, Atom.objects,
              emptyObj, unnamed, CliObject.default]
        | leaf tag content trail =>
            simp [Atom.isObj, Item.startsObj, Item.inert] at hAtom
        | text data => simp [Build.effect, Item.isObj, Atom.objects]
        | misc m => simp [Build.effect, Item.isObj, Atom.objects]
        | opening tag => cases hSingle
        | closing name trail => cases hSingle
      rw [items, List.foldl_cons, hHead, ih hRest hFlat]
      simp [objects]
  | element tag children trail rest ihChildren ihRest =>
      simp only [onlyObjs, Bool.and_eq_true, decide_eq_true_eq] at hObjs
      obtain ⟨hTag, hRest⟩ := hObjs
      simp only [flat, hTag, if_true, Bool.and_eq_true] at hFlat
      obtain ⟨hChildren, hFlat⟩ := hFlat
      have hOpening : (⟨objs, CliObject.default⟩ : Build E).effect Q (.opening tag) =
          ⟨objs, CliObject.default.enter Q tag.tag⟩ := by
        simp [Build.effect, Item.isObj, hTag]
      have hClosing : ∀ b : Build E, b.effect Q (.closing tag.tag.name trail) = b.finish := by
        intro b
        simp [Build.effect, Item.isObj, kindOf_eq_obj.mp hTag]
      rw [items, List.foldl_cons, hOpening, List.foldl_append,
        foldl_plain (isObj_of_noObj hChildren), List.foldl_cons, hClosing, Build.finish,
        ihRest hRest hFlat]
      simp [objects, hTag, unnamed, CliObject.absorbAll, CliObject.enter, CliObject.default,
        values_of_noObj hChildren, typeNames_of_noObj hChildren, stringRepr_of_noObj hChildren]

/-- Of objects without objects in them the parser returns each as it is written, but
for its name. -/
theorem result_flat {c : Content} (hObjs : c.onlyObjs = true) (hFlat : c.flat = true) :
    result Q E c.items = (c.objects Q E).map unnamed := by
  have hRun : c.items.foldl (Build.effect Q) (Build.initial E) = _ := foldl_flat hObjs hFlat []
  rw [result, hRun, List.nil_append]

/-- How many objects there are at any depth. -/
def countObjs (c : Content) : Nat := c.items.countP Item.startsObj

/-- A tree in which no object is counted has none. -/
theorem noObj_of_countObjs {c : Content} (h : c.countObjs = 0) : c.noObj = true := by
  induction c with
  | done => rfl
  | atom a rest ih =>
      simp only [countObjs, items, List.countP_cons] at h
      have hRest : rest.countObjs = 0 := by
        rw [countObjs]
        omega
      have hAtom : a.isObj = false := by
        cases hCase : a.item.startsObj with
        | false => exact hCase
        | true => simp [hCase] at h
      simp [noObj, hAtom, ih hRest]
  | element tag children trail rest ihChildren ihRest =>
      simp only [countObjs, items, List.countP_cons, List.countP_append] at h
      have hChildren : children.countObjs = 0 := by
        rw [countObjs]
        omega
      have hRest : rest.countObjs = 0 := by
        rw [countObjs]
        omega
      have hTag : kindOf tag.tag ≠ .obj := by
        intro hTag
        simp [Item.startsObj, hTag] at h
      simp [noObj, hTag, ihChildren hChildren, ihRest hRest]

/-- An atom is one object or none. -/
theorem Atom.length_objects (a : Atom) :
    (a.objects Q E).length = if a.item.startsObj then 1 else 0 := by
  obtain ⟨item, hSingle⟩ := a
  cases item with
  | empty tag => by_cases hTag : kindOf tag = .obj <;>
      simp [Atom.objects, Item.startsObj, hTag]
  | opening tag => cases hSingle
  | _ => rfl

/-- The outermost objects are some of all the objects. -/
theorem length_objects_le {c : Content} (hObjs : c.onlyObjs = true) :
    (c.objects Q E).length ≤ c.countObjs := by
  induction c with
  | done => simp [objects]
  | atom a rest ih =>
      simp only [onlyObjs, Bool.and_eq_true] at hObjs
      have hRest := ih hObjs.2
      simp only [countObjs, objects, items, List.countP_cons, List.length_append,
        Atom.length_objects] at hRest ⊢
      omega
  | element tag children trail rest ihChildren ihRest =>
      simp only [onlyObjs, Bool.and_eq_true, decide_eq_true_eq] at hObjs
      have hRest := ihRest hObjs.2
      simp only [countObjs, objects, items, List.countP_cons, List.countP_append,
        List.length_append, hObjs.1, if_true, List.length_singleton, Item.startsObj,
        decide_true] at hRest ⊢
      omega

/-- An object for each one written, and none lies in another. -/
theorem flat_of_length {c : Content} (hObjs : c.onlyObjs = true)
    (h : (c.objects Q E).length = c.countObjs) : c.flat = true := by
  induction c with
  | done => rfl
  | atom a rest ih =>
      simp only [onlyObjs, Bool.and_eq_true] at hObjs
      apply ih hObjs.2
      simp only [countObjs, objects, items, List.countP_cons, List.length_append,
        Atom.length_objects] at h ⊢
      omega
  | element tag children trail rest ihChildren ihRest =>
      simp only [onlyObjs, Bool.and_eq_true, decide_eq_true_eq] at hObjs
      obtain ⟨hTag, hRest⟩ := hObjs
      have hBound : (rest.objects Q E).length ≤ rest.countObjs := length_objects_le hRest
      simp only [countObjs, objects, items, List.countP_cons, List.countP_append,
        List.length_append, hTag, if_true, List.length_singleton, Item.startsObj,
        decide_true] at h hBound
      have hChildren : children.countObjs = 0 := by
        rw [countObjs]
        omega
      have hLater : (rest.objects Q E).length = rest.countObjs := by
        rw [countObjs]
        omega
      simp [flat, hTag, noObj_of_countObjs hChildren, ihRest hRest hLater]

end Content

/-- The same object up to its name. -/
structure CliObject.SameContent (o written : CliObject E) : Prop where
  values : o.values = written.values
  refId : o.refId = written.refId
  typeNames : o.typeNames = written.typeNames
  stringRepr : o.stringRepr = written.stringRepr

variable (Q E) in
/-- The parser returns the outermost objects of the tree, with the inner ones
among their values. -/
def NestingPreserved (cliXml : Text) (c : Content) : Prop :=
  ∃ objs, Returns Q E cliXml objs ∧ List.Forall₂ CliObject.SameContent objs (c.objects Q E)

variable (D : Q.Documented)

include D in
/-- Objects that do not nest come back as they are written. -/
theorem nestingPreserved_of_flat (d : Document) {c : Content} (hObjs : c.onlyObjs = true)
    (hValid : Valid Q E c.items) (hFlat : c.flat = true) :
    NestingPreserved Q E (d.holdingTree c).text c := by
  refine ⟨result Q E c.items, (d.holdingTree c).returns D hValid, ?_⟩
  rw [Content.result_flat hObjs hFlat, List.forall₂_map_left_iff]
  exact List.forall₂_same.mpr fun o _ => ⟨rfl, rfl, rfl, rfl⟩

include D in
/-- The parser returns one object for each one written at any depth. If those are
the outermost ones, none lies in another. -/
theorem flat_of_nestingPreserved (d : Document) {c : Content} (hObjs : c.onlyObjs = true)
    (h : NestingPreserved Q E (d.holdingTree c).text c) : c.flat = true := by
  obtain ⟨objs, hReturns, hSame⟩ := h
  obtain ⟨-, rfl⟩ := ((d.holdingTree c).returns_iff D objs).mp hReturns
  have hLength : (result Q E c.items).length = c.countObjs := c.balanced.length_result
  apply Content.flat_of_length hObjs
  rw [← hSame.length_eq]
  exact hLength

include D in
/-- The nesting of objects comes back exactly when there is none. -/
theorem nestingPreserved_iff (d : Document) {c : Content} (hObjs : c.onlyObjs = true)
    (hValid : Valid Q E c.items) :
    NestingPreserved Q E (d.holdingTree c).text c ↔ c.flat = true :=
  ⟨flat_of_nestingPreserved D d hObjs, nestingPreserved_of_flat D d hObjs hValid⟩

def stringAtom (name value : Char) (h : ('<' == value) = false) : Atom where
  item := .leaf (LeafKind.string.tag (some [name])) (oneChar value h) noBlanks
  single := rfl

def atomA : Atom := stringAtom 'a' '1' rfl

def atomB : Atom := stringAtom 'b' '2' rfl

def atomC : Atom := stringAtom 'c' '3' rfl

/-- An object between two values of another object. -/
def nestedTree : Content :=
  .element (Structural.obj.tag (some ['0']))
    (.atom atomA
      (.element (Structural.obj.tag (some ['1'])) (.atom atomB .done) noBlanks
        (.atom atomC .done)))
    noBlanks .done

def bareDocument : Document := documentOf [] rfl

open SliceReader in
theorem nestingPreserved_iff_nested :
    NestingPreserved sliceReader textCrates (bareDocument.holdingTree nestedTree).text nestedTree ↔
      nestedTree.flat = true :=
  nestingPreserved_iff documented bareDocument rfl (check_eq_ok.mp rfl)

open SliceReader in
/-- The outer object does not come back with the inner one among its values. -/
theorem nesting_lost :
    (bareDocument.holdingTree nestedTree).text =
      ("<Objs><Obj RefId=\"0\"><S N=\"a\">1</S><Obj RefId=\"1\"><S N=\"b\">2</S></Obj>" ++
        "<S N=\"c\">3</S></Obj></Objs>").toList ∧
      nestedTree.onlyObjs = true ∧ Valid sliceReader textCrates nestedTree.items ∧
      ¬ NestingPreserved sliceReader textCrates (bareDocument.holdingTree nestedTree).text
        nestedTree := by
  refine ⟨by decide, rfl, check_eq_ok.mp rfl, ?_⟩
  intro hPreserved
  have hFlat := flat_of_nestingPreserved documented bareDocument rfl hPreserved
  revert hFlat
  decide

end PwshHost.CliXml
