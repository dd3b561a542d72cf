import PwshHost.CliXml.Objects

/-! Type names by reference. The parser keeps no table of the type names it
has read, so an object that refers to some gets none. -/
namespace PwshHost.CliXml

open Xml
open Rust

def ElementKind.isTyping : ElementKind → Bool
  | .tn | .t => true
  | _ => false

def Item.isTyping (item : Item) : Bool := item.startKind.any ElementKind.isTyping

/-- Type names are written in inner objects only. -/
def typingInside (opened : List Name) (item : Item) : Bool :=
  !item.isTyping || 0 < openObjs opened

variable (Q : PullReader) (E : Crates)

/-- The key of a reference to type names. -/
def Item.typeRef : Item → Option Text
  | .opening tag => if kindOf tag.tag = .tnRef then attrValue Q tag.tag "RefId" else none
  | .empty tag => if kindOf tag = .tnRef then attrValue Q tag "RefId" else none
  | _ => none

/-- Among the items type names are defined under a key. -/
inductive Defines (items : List Item) (key : Text) : List Text → Prop where
  | element (before : List Item) (tag : ContainerTag) (body : List Item) (trail : Blanks)
      (after : List Item) (hBody : Balanced body)
      (hItems : items = before ++ .opening tag :: (body ++ .closing tag.tag.name trail :: after))
      (hKind : kindOf tag.tag = .tn) (hKey : attrValue Q tag.tag "RefId" = some key) :
      Defines items key (typeNames body)
  | empty (before : List Item) (tag : Tag) (after : List Item)
      (hItems : items = before ++ .empty tag :: after)
      (hKind : kindOf tag = .tn) (hKey : attrValue Q tag "RefId" = some key) :
      Defines items key []

/-- An object without type names of its own, among its siblings. -/
structure UntypedObj where
  before : ObjSequence
  tag : ContainerTag
  isObj : kindOf tag.tag = .obj
  body : List Item
  balanced : Balanced body
  untyped : along typingInside [] body = true
  trail : Blanks
  after : ObjSequence

namespace UntypedObj

def items (r : UntypedObj) : List Item :=
  r.before.items ++ .opening r.tag :: (r.body ++ .closing r.tag.tag.name r.trail :: r.after.items)

/-- The place among the results of the object that ends with the end tag. -/
def index (r : UntypedObj) : Nat :=
  r.before.items.countP Item.endsObj + r.body.countP Item.endsObj

/-- The object itself refers to a key, not an object inside it. -/
def Refers (r : UntypedObj) (key : Text) : Prop :=
  ∃ before item after opened, r.body = before ++ item :: after ∧ item.typeRef Q = some key ∧
    nest [] before = some opened ∧ openObjs opened = 0

end UntypedObj

/-- Every object that refers to type names defined before it has them. -/
def TypeNamesResolved (d : Document) : Prop :=
  ∃ objs, Returns Q E d.text objs ∧ ∀ r : UntypedObj, r.items = d.content →
    ∀ key names, r.Refers Q key → Defines Q r.before.items key names →
      ∃ o, objs[r.index]? = some o ∧ o.typeNames = names

variable {Q E}

def CliObject.Untyped (o : CliObject E) : Prop := o.typeNames = []

/-- Outside of all objects the one being built stays without type names. -/
theorem untyped_effect {opened opened' : List Name} {item : Item} {b : Build E}
    (hInside : typingInside opened item = true) (hNest : item.nest opened = some opened')
    (h : OutsideObjs CliObject.Untyped opened b) :
    OutsideObjs CliObject.Untyped opened' (b.effect Q item) := by
  have hFresh : (CliObject.default : CliObject E).Untyped := rfl
  refine outside_effect hFresh (fun hBefore hUntyped => ?_) hNest h
  have hNot : item.isTyping = false := by simpa [typingInside, hBefore] using hInside
  have hItemNames : item.typeNames = [] := by
    apply typeNames_eq_nil
    intro hStart
    simp [Item.isTyping, hStart, ElementKind.isTyping] at hNot
  rw [CliObject.Untyped] at hUntyped ⊢
  simp [CliObject.absorb, hUntyped, hItemNames]

/-- The object comes back without type names. -/
theorem UntypedObj.result_index (r : UntypedObj) :
    ∃ o, (result Q E r.items)[r.index]? = some o ∧ o.typeNames = [] := by
  have hBefore : r.before.items.foldl (Build.effect Q) (Build.initial E) = _ :=
    r.before.foldl_effect []
  have hOpening : (⟨[] ++ result Q E r.before.items, CliObject.default⟩ : Build E).effect Q
      (.opening r.tag) = ⟨result Q E r.before.items, CliObject.default.enter Q r.tag.tag⟩ := by
    simp [Build.effect, Item.isObj, r.isObj]
  let inner : Build E := r.body.foldl (Build.effect Q)
    ⟨result Q E r.before.items, CliObject.default.enter Q r.tag.tag⟩
  have hUntyped : OutsideObjs CliObject.Untyped [] inner :=
    along_run untyped_effect r.untyped r.balanced fun _ => rfl
  have hLength : inner.objs.length = r.index := by
    have hBody : inner.objs.length = (result Q E r.before.items).length + _ :=
      foldl_length r.body _
    rw [hBody, length_result, UntypedObj.index]
  have hClosing : inner.effect Q (.closing r.tag.tag.name r.trail) =
      ⟨inner.objs ++ [inner.obj], CliObject.default⟩ := by
    simp [Build.effect, Item.isObj, kindOf_eq_obj.mp r.isObj, Build.finish]
  have hResult : result Q E r.items =
      inner.objs ++ [inner.obj] ++ result Q E r.after.items := by
    rw [result, UntypedObj.items, List.foldl_append, hBefore, List.foldl_cons, hOpening,
      List.foldl_append, List.foldl_cons]
    change (r.after.items.foldl _ (inner.effect Q _)).objs = _
    rw [hClosing, r.after.foldl_effect]
  refine ⟨inner.obj, ?_, hUntyped rfl⟩
  rw [hResult, ← hLength]
  simp

variable (D : Q.Documented)

include D in
/-- Where every reference is to a list without names, there is nothing to be
resolved. -/
theorem typeNamesResolved_of_empty (d : Document) (hValid : Valid Q E d.content)
    (hEmpty : ∀ r : UntypedObj, r.items = d.content → ∀ key names, r.Refers Q key →
      Defines Q r.before.items key names → names = []) :
    TypeNamesResolved Q E d := by
  refine ⟨result Q E d.content, d.returns D hValid, ?_⟩
  intro r hItems key names hRefers hDefines
  obtain ⟨o, hIndex, hTypeNames⟩ := r.result_index (Q := Q) (E := E)
  refine ⟨o, by rw [← hItems]; exact hIndex, ?_⟩
  rw [hTypeNames, hEmpty r hItems key names hRefers hDefines]

include D in
/-- An object with a reference gets no type names from it, so that the list it
refers to must have none. -/
theorem empty_of_typeNamesResolved (d : Document) (h : TypeNamesResolved Q E d)
    (r : UntypedObj) (hItems : r.items = d.content) {key : Text} {names : List Text}
    (hRefers : r.Refers Q key) (hDefines : Defines Q r.before.items key names) : names = [] := by
  obtain ⟨objs, hReturns, hResolved⟩ := h
  obtain ⟨-, rfl⟩ := (d.returns_iff D objs).mp hReturns
  obtain ⟨o, hIndex, hTypeNames⟩ := hResolved r hItems key names hRefers hDefines
  obtain ⟨o', hIndex', hNone⟩ := r.result_index (Q := Q) (E := E)
  rw [hItems, hIndex] at hIndex'
  obtain rfl := Option.some.inj hIndex'
  rw [← hTypeNames, hNone]

include D in
/-- References are resolved exactly when there is nothing to resolve: every
definition that is referred to is empty. -/
theorem typeNamesResolved_iff (d : Document) (hValid : Valid Q E d.content) :
    TypeNamesResolved Q E d ↔ ∀ r : UntypedObj, r.items = d.content → ∀ key names,
      r.Refers Q key → Defines Q r.before.items key names → names = [] :=
  ⟨fun h r hItems _ _ hRefers hDefines =>
    empty_of_typeNamesResolved D d h r hItems hRefers hDefines,
    typeNamesResolved_of_empty D d hValid⟩

def typeItem (c : Char) (h : ('<' == c) = false) : Item := .leaf tTag (oneChar c h) noBlanks

/-- Two objects of one type, the second by reference. -/
def typedTwice : Document :=
  documentOf
    [Structural.obj.start none, Structural.tn.start (some ['0']), typeItem 't' rfl,
      Structural.tn.stop, Structural.obj.stop, Structural.obj.start none,
      .empty (Structural.tnRef.tag (some ['0'])).tag, Structural.obj.stop]
    (by decide)

open SliceReader in
theorem typeNamesResolved_iff_typedTwice :
    TypeNamesResolved sliceReader textCrates typedTwice ↔
      ∀ r : UntypedObj, r.items = typedTwice.content → ∀ key names, r.Refers sliceReader key →
        Defines sliceReader r.before.items key names → names = [] :=
  typeNamesResolved_iff documented typedTwice (check_eq_ok.mp rfl)

open SliceReader in
/-- The second object comes back without its type name. -/
theorem typeNames_unresolved :
    typedTwice.text = ("<Objs><Obj><TN RefId=\"0\"><T>t</T></TN></Obj>" ++
      "<Obj><TNRef RefId=\"0\"/></Obj></Objs>").toList ∧
      Valid sliceReader textCrates typedTwice.content ∧
      ¬ TypeNamesResolved sliceReader textCrates typedTwice := by
  refine ⟨by decide, check_eq_ok.mp rfl, ?_⟩
  intro hResolved
  let before : ObjSequence :=
    { items := typedTwice.content.take 5, balanced := by decide, objects := by decide }
  let second : UntypedObj :=
    { before := before
      tag := Structural.obj.tag none
      isObj := rfl
      body := [.empty (Structural.tnRef.tag (some ['0'])).tag]
      balanced := by decide
      untyped := by decide
      trail := noBlanks
      after := { items := [], balanced := rfl, objects := rfl } }
  have hRefers : second.Refers sliceReader ['0'] :=
    ⟨[], _, [], [], rfl, by decide, rfl, rfl⟩
  have hDefines : Defines sliceReader before.items ['0'] [['t']] :=
    .element [Structural.obj.start none] (Structural.tn.tag (some ['0']))
      [typeItem 't' rfl] noBlanks [Structural.obj.stop] (by decide) rfl rfl (by decide)
  have hEmpty := empty_of_typeNamesResolved documented typedTwice hResolved second rfl hRefers
    hDefines
  cases hEmpty

end PwshHost.CliXml
