import PwshHost.CliXml.Nesting
import Mathlib.Data.List.Perm.Subperm

/-! Leaves at the top level. They fall into the object that happens to be
finished next, or into none. -/
namespace PwshHost.CliXml

open Xml
open Rust

def ElementKind.isPrimitive : ElementKind → Bool
  | .leaf _ | .nil => true
  | _ => false

/-- A whole leaf or null element. -/
def Item.isPrimitive : Item → Bool
  | .empty tag => (kindOf tag).isPrimitive
  | .leaf tag _ _ => (kindOf tag.tag).isPrimitive
  | _ => false

variable (Q : PullReader) (E : Crates)

namespace Content

/-- Primitive elements and objects without objects in them, in any order. -/
def mixed : Content → Bool
  | .done => true
  | .atom a rest => (a.item.inert || a.isObj || a.item.isPrimitive) && rest.mixed
  | .element tag children _ rest =>
    (if kindOf tag.tag = .obj then children.noObj
      else (kindOf tag.tag = .nil) && children.items.all Item.inert) && rest.mixed

/-- The values of the primitive elements. -/
def topValues : Content → List (CliValue E)
  | .done => []
  | .atom a rest => a.item.values Q E ++ rest.topValues
  | .element tag _ _ rest => nullValues Q E tag.tag ++ rest.topValues

/-- The values of the leaves inside each object. -/
def innerValues : Content → List (List (CliValue E))
  | .done => []
  | .atom a rest => (if a.isObj then [[]] else []) ++ rest.innerValues
  | .element tag children _ rest =>
    (if kindOf tag.tag = .obj then [CliXml.values Q E children.items] else []) ++
      rest.innerValues

end Content

/-- The returned objects are one for each object element, with values of leaves
written inside it only, and others that hold each top-level leaf once. -/
def PrimitivesKept (cliXml : Text) (c : Content) : Prop :=
  ∃ objs built others, Returns Q E cliXml objs ∧ objs.Perm (built ++ others) ∧
    List.Forall₂ (fun o inner => (CliObject.values o).Subperm inner) built (c.innerValues Q E) ∧
    (others.flatMap CliObject.values).Perm (c.topValues Q E)

variable {Q E}

/-- A primitive element that can be decoded contributes a value. -/
theorem Item.values_ne_nil {item : Item} (h : item.isPrimitive = true)
    (hCheck : item.check Q E = .ok ()) : item.values Q E ≠ [] := by
  have hText : ∀ (t : Tag) (txt : Text) (kind : LeafKind), kindOf t = .leaf kind →
      textCheck Q E t txt = .ok () → textValues Q E t txt ≠ [] := by
    intro t txt kind hKind hOk
    simp only [textCheck, hKind] at hOk
    cases hDecode : leafValue Q E t txt kind with
    | error panic =>
        rw [hDecode] at hOk
        cases hOk
    | ok val => simp [textValues, hKind, hDecode]
  cases item with
  | empty tag =>
      cases hKind : kindOf tag with
      | leaf kind => simp [Item.values, hText tag [] kind hKind hCheck]
      | nil => simp [Item.values, nullValues, hKind]
      | _ => simp [Item.isPrimitive, hKind, ElementKind.isPrimitive] at h
  | leaf tag content trail =>
      cases hKind : kindOf tag.tag with
      | leaf kind => exact hText tag.tag _ kind hKind hCheck
      | nil =>
          have hReads := tag.text
          simp [hKind, ElementKind.readsText] at hReads
      | _ => simp [Item.isPrimitive, hKind, ElementKind.isPrimitive] at h
  | _ => simp [Item.isPrimitive] at h

/-- White space, comments and instructions contribute none. -/
theorem Item.values_of_inert {item : Item} (h : item.inert = true) : item.values Q E = [] := by
  cases item <;> simp_all [Item.inert, Item.values]

namespace Content

/-- In the trees that are looked at objects do not nest. -/
theorem flat_of_mixed {c : Content} (h : c.mixed = true) : c.onlyObjs = true → c.flat = true := by
  induction c with
  | done => simp [flat]
  | atom a rest ih =>
      simp only [mixed, onlyObjs, flat, Bool.and_eq_true] at h ⊢
      exact fun hObjs => ih h.2 hObjs.2
  | element tag children trail rest ihChildren ihRest =>
      simp only [mixed, onlyObjs, flat, Bool.and_eq_true, decide_eq_true_eq] at h ⊢
      intro hOnly
      obtain ⟨hTag, hObjs⟩ := hOnly
      simp only [hTag, if_true] at h ⊢
      exact ⟨h.1, ihRest h.2 hObjs⟩

/-- With nothing but objects at the top level, the values inside them are those of
the objects. -/
theorem innerValues_eq {c : Content} (hObjs : c.onlyObjs = true) (hFlat : c.flat = true) :
    c.innerValues Q E = (c.objects Q E).map CliObject.values := by
  induction c with
  | done => rfl
  | atom a rest ih =>
      simp only [onlyObjs, flat, Bool.and_eq_true] at hObjs hFlat
      have hHead : (if a.isObj then [[]] else []) = (a.objects Q E).map CliObject.values := by
        obtain ⟨item, hSingle⟩ := a
        cases item with
        | empty tag => by_cases hTag : kindOf tag = .obj <;>
            simp [Atom.isObj, Item.startsObj, Atom.objects, emptyObj, hTag]
        | opening tag => cases hSingle
        | _ => rfl
      rw [innerValues, objects, List.map_append, ih hObjs.2 hFlat, hHead]
  | element tag children trail rest ihChildren ihRest =>
      simp only [onlyObjs, flat, Bool.and_eq_true, decide_eq_true_eq] at hObjs hFlat
      obtain ⟨hTag, hObjs⟩ := hObjs
      simp only [hTag, if_true] at hFlat
      simp [innerValues, objects, hTag, values_of_noObj hFlat.1, ihRest hObjs hFlat.2]

/-- Then no value lies outside of objects. -/
theorem topValues_of_onlyObjs {c : Content} (hObjs : c.onlyObjs = true) :
    c.topValues Q E = [] := by
  induction c with
  | done => rfl
  | atom a rest ih =>
      simp only [onlyObjs, Bool.and_eq_true, Bool.or_eq_true] at hObjs
      obtain ⟨hAtom, hRest⟩ := hObjs
      have hHead : a.item.values Q E = [] := by
        rcases hAtom with hObj | hInert
        · exact isObj_values (a.isObj_item.trans hObj)
        · exact Item.values_of_inert hInert
      rw [topValues, hHead, ih hRest, List.append_nil]
  | element tag children trail rest ihChildren ihRest =>
      simp only [onlyObjs, Bool.and_eq_true, decide_eq_true_eq] at hObjs
      simp [topValues, nullValues, hObjs.1, ihRest hObjs.2]

/-- A primitive element whose text is valid has a value. -/
theorem onlyObjs_of_topValues {c : Content} (hMixed : c.mixed = true)
    (hValid : Valid Q E c.items) (h : c.topValues Q E = []) : c.onlyObjs = true := by
  induction c with
  | done => rfl
  | atom a rest ih =>
      simp only [mixed, Bool.and_eq_true, Bool.or_eq_true] at hMixed
      obtain ⟨hAtom, hRest⟩ := hMixed
      simp only [topValues, List.append_eq_nil_iff] at h
      have hLater : rest.onlyObjs = true :=
        ih hRest (fun item hMem => hValid item (List.mem_cons_of_mem _ hMem)) h.2
      have hHead : a.isObj = true ∨ a.item.inert = true := by
        rcases hAtom with (hInert | hObj) | hPrimitive
        · exact .inr hInert
        · exact .inl hObj
        · exact absurd h.1 (Item.values_ne_nil hPrimitive (hValid a.item (by simp [items])))
      simp [onlyObjs, hLater, hHead]
  | element tag children trail rest ihChildren ihRest =>
      simp only [mixed, Bool.and_eq_true] at hMixed
      obtain ⟨hTag, hRest⟩ := hMixed
      simp only [topValues, List.append_eq_nil_iff] at h
      have hLater : rest.onlyObjs = true := by
        apply ihRest hRest _ h.2
        intro item hMem
        exact hValid item (by simp [items, hMem])
      by_cases hObj : kindOf tag.tag = .obj
      · simp [onlyObjs, hObj, hLater]
      · simp only [hObj, if_false, Bool.and_eq_true, decide_eq_true_eq] at hTag
        have hNull := h.1
        simp [nullValues, hTag.1] at hNull

/-- No object is counted in a tree that has none. -/
theorem countObjs_of_noObj {c : Content} (h : c.noObj = true) : c.countObjs = 0 := by
  rw [countObjs, List.countP_eq_zero]
  intro item hMem
  have hPlain := isObj_of_noObj h item hMem
  cases item <;> simp_all [Item.startsObj, Item.isObj]

/-- Nor in one of white space, comments and instructions. -/
theorem countObjs_of_inert {c : Content} (h : c.items.all Item.inert = true) :
    c.countObjs = 0 := by
  rw [countObjs, List.countP_eq_zero]
  intro item hMem
  have hInert := List.all_eq_true.mp h item hMem
  cases item <;> simp_all [Item.startsObj, Item.inert]

/-- There is a list of inner values for each object. -/
theorem length_innerValues {c : Content} (h : c.mixed = true) :
    (c.innerValues Q E).length = c.countObjs := by
  induction c with
  | done => rfl
  | atom a rest ih =>
      simp only [mixed, Bool.and_eq_true] at h
      have hRest := ih h.2
      rw [countObjs] at hRest ⊢
      rw [innerValues, items, List.length_append, hRest, List.countP_cons, Nat.add_comm]
      cases hObj : a.isObj with
      | true =>
          rw [Atom.isObj] at hObj
          simp [hObj]
      | false =>
          rw [Atom.isObj] at hObj
          simp [hObj]
  | element tag children trail rest ihChildren ihRest =>
      simp only [mixed, Bool.and_eq_true] at h
      obtain ⟨hTag, hRest⟩ := h
      have hLater := ihRest hRest
      have hInside : children.countObjs = 0 := by
        by_cases hObj : kindOf tag.tag = .obj
        · exact countObjs_of_noObj (by simpa [hObj] using hTag)
        · simp only [hObj, if_false, Bool.and_eq_true] at hTag
          exact countObjs_of_inert hTag.2
      rw [countObjs] at hLater hInside ⊢
      rw [innerValues, items, List.length_append, hLater, List.countP_cons, List.countP_append,
        List.countP_cons, hInside]
      by_cases hObj : kindOf tag.tag = .obj
      · simp [hObj, Item.startsObj]
        omega
      · simp [hObj, Item.startsObj]

end Content

variable (D : Q.Documented)

include D in
/-- Without primitive elements at the top level every object keeps its own values. -/
theorem primitivesKept_of_onlyObjs (d : Document) {c : Content} (hMixed : c.mixed = true)
    (hValid : Valid Q E c.items) (hObjs : c.onlyObjs = true) :
    PrimitivesKept Q E (d.holdingTree c).text c := by
  have hFlat := Content.flat_of_mixed hMixed hObjs
  have hResult : result Q E c.items = _ := Content.result_flat hObjs hFlat
  refine ⟨result Q E c.items, result Q E c.items, [], (d.holdingTree c).returns D hValid,
    ?_, ?_, ?_⟩
  · rw [List.append_nil]
  · rw [hResult, Content.innerValues_eq hObjs hFlat, List.forall₂_map_left_iff,
      List.forall₂_map_right_iff]
    exact List.forall₂_same.mpr fun o _ => List.Subperm.refl _
  · rw [Content.topValues_of_onlyObjs hObjs, List.flatMap_nil]

include D in
/-- There are as many objects as object elements, so nothing holds the leaves. -/
theorem onlyObjs_of_primitivesKept (d : Document) {c : Content} (hMixed : c.mixed = true)
    (h : PrimitivesKept Q E (d.holdingTree c).text c) : c.onlyObjs = true := by
  obtain ⟨objs, built, others, hReturns, hPerm, hInner, hTop⟩ := h
  obtain ⟨hValid, rfl⟩ := ((d.holdingTree c).returns_iff D objs).mp hReturns
  have hCount : (result Q E c.items).length = c.countObjs := c.balanced.length_result
  have hBuilt : built.length = c.countObjs := by
    rw [hInner.length_eq, Content.length_innerValues hMixed]
  have hLength : (result Q E c.items).length = (built ++ others).length := hPerm.length_eq
  obtain rfl : others = [] := by
    rw [List.length_append] at hLength
    exact List.length_eq_zero_iff.mp (by omega)
  rw [List.flatMap_nil] at hTop
  exact Content.onlyObjs_of_topValues hMixed hValid hTop.symm.eq_nil

include D in
/-- Leaves at the top level are kept apart exactly when there are none. -/
theorem primitivesKept_iff (d : Document) {c : Content} (hMixed : c.mixed = true)
    (hValid : Valid Q E c.items) :
    PrimitivesKept Q E (d.holdingTree c).text c ↔ c.onlyObjs = true :=
  ⟨onlyObjs_of_primitivesKept D d hMixed, primitivesKept_of_onlyObjs D d hMixed hValid⟩

/-- A leaf before, in and after an object. -/
def mixedTree : Content :=
  .atom atomA
    (.element (Structural.obj.tag none) (.atom atomB .done) noBlanks (.atom atomC .done))

open SliceReader in
theorem primitivesKept_iff_mixedTree :
    PrimitivesKept sliceReader textCrates (bareDocument.holdingTree mixedTree).text mixedTree ↔
      mixedTree.onlyObjs = true :=
  primitivesKept_iff documented bareDocument rfl (check_eq_ok.mp rfl)

open SliceReader in
/-- The first leaf ends up in the object and the last one nowhere. -/
theorem primitives_lost :
    (bareDocument.holdingTree mixedTree).text =
      ("<Objs><S N=\"a\">1</S><Obj><S N=\"b\">2</S></Obj><S N=\"c\">3</S></Objs>").toList ∧
      mixedTree.mixed = true ∧ Valid sliceReader textCrates mixedTree.items ∧
      ¬ PrimitivesKept sliceReader textCrates (bareDocument.holdingTree mixedTree).text
        mixedTree := by
  refine ⟨by decide, rfl, check_eq_ok.mp rfl, ?_⟩
  intro hKept
  have hObjs := onlyObjs_of_primitivesKept documented bareDocument rfl hKept
  revert hObjs
  decide

end PwshHost.CliXml
