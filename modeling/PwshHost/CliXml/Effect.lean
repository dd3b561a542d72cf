import PwshHost.CliXml.Simulation

/-! The abstract view of a document: what each item contributes to the object
it stands in, and which items finish an object. Where every leaf can be
decoded, the parser returns what these contributions amount to. -/
namespace PwshHost.CliXml

open Xml
open Rust

section Contributions

variable (Q : PullReader) (E : Crates) (t : Tag) (txt : Text)

/-- Decoding of a leaf element. -/
def leafValue (kind : LeafKind) : Except (Panic Q.Error) (CliValue E) :=
  kind.decode E (attrValue Q t "N") txt

def textValues : List (CliValue E) :=
  match kindOf t with
  | .leaf kind => match leafValue Q E t txt kind with
    | .ok val => [val]
    | .error _ => []
  | _ => []

def nullValues : List (CliValue E) :=
  if kindOf t = .nil then [.cliNull (CliNull.new (attrValue Q t "N"))] else []

def textTypeNames : List Text := if kindOf t = .t then [txt] else []

def textRepr : Option Text := if kindOf t = .toString then some txt else none

/-- Whether the text of an element is decoded or makes the parser panic. -/
def textCheck : Except (Panic Q.Error) Unit :=
  match kindOf t with
  | .leaf kind => (leafValue Q E t txt kind).map fun _ => ()
  | _ => .ok ()

end Contributions

section Items

variable (Q : PullReader) (E : Crates)

def Item.values : Item → List (CliValue E)
  | .opening tag => nullValues Q E tag.tag
  | .empty tag => textValues Q E tag [] ++ nullValues Q E tag
  | .leaf tag content _ => textValues Q E tag.tag (reported content.val)
  | _ => []

def Item.typeNames : Item → List Text
  | .empty tag => textTypeNames tag []
  | .leaf tag content _ => textTypeNames tag.tag (reported content.val)
  | _ => []

def Item.stringRepr : Item → Option Text
  | .empty tag => textRepr tag []
  | .leaf tag content _ => textRepr tag.tag (reported content.val)
  | _ => none

/-- Start and end tags of objects. -/
def Item.isObj : Item → Bool
  | .opening tag => kindOf tag.tag = .obj
  | .closing name _ => name.val = "Obj"
  | .empty tag => kindOf tag = .obj
  | _ => false

/-- The kind of the element that an item starts. -/
def Item.startKind : Item → Option ElementKind
  | .opening tag => some (kindOf tag.tag)
  | .empty tag => some (kindOf tag)
  | .leaf tag _ _ => some (kindOf tag.tag)
  | _ => none

def Item.check : Item → Except (Panic Q.Error) Unit
  | .empty tag => textCheck Q E tag []
  | .leaf tag content _ => textCheck Q E tag.tag (reported content.val)
  | _ => .ok ()

/-- The values, type names and text representation that items contribute to
the object they stand in. -/
def values (items : List Item) : List (CliValue E) := items.flatMap (Item.values Q E)

def typeNames (items : List Item) : List Text := items.flatMap Item.typeNames

/-- Of several text representations the last one counts. -/
def stringRepr (items : List Item) : Option Text :=
  items.foldl (fun repr item => item.stringRepr.or repr) none

/-- The first panic of the items, if there is one. -/
def check : List Item → Except (Panic Q.Error) Unit
  | [] => .ok ()
  | item :: items => (item.check Q E).bind fun _ => check items

/-- Every leaf text can be decoded. -/
def Valid (items : List Item) : Prop := ∀ item ∈ items, item.check Q E = .ok ()

variable {E}

/-- An object takes in what an item contributes. -/
def CliObject.absorb (o : CliObject E) (item : Item) : CliObject E :=
  { o with
    values := o.values ++ item.values Q E
    typeNames := o.typeNames ++ item.typeNames
    stringRepr := item.stringRepr.or o.stringRepr }

def CliObject.enter (o : CliObject E) (t : Tag) : CliObject E :=
  { o with refId := (attrValue Q t "RefId").or o.refId }

def Build.finish (b : Build E) : Build E := ⟨b.objs ++ [b.obj], CliObject.default⟩

def Build.effect (b : Build E) (item : Item) : Build E :=
  if item.isObj then
    match item with
    | .opening tag => { b with obj := b.obj.enter Q tag.tag }
    | .empty tag => Build.finish { b with obj := b.obj.enter Q tag }
    | _ => b.finish
  else { b with obj := b.obj.absorb Q item }

end Items

variable {Q : PullReader} {E : Crates}

/-- The element of an object is known by its name alone. -/
theorem kindOf_eq_obj {t : Tag} : kindOf t = .obj ↔ t.name.val = "Obj" := by
  constructor
  · intro h
    unfold kindOf ElementKind.ofName at h
    split at h <;> first | assumption | cases h
  · intro h
    rw [kindOf, h]
    rfl

@[simp] theorem absorb_closing (o : CliObject E) (name : Name) (trail : Blanks) :
    o.absorb Q (.closing name trail) = o := by
  simp [CliObject.absorb, Item.values, Item.typeNames, Item.stringRepr]

@[simp] theorem absorb_text (o : CliObject E) (data : CharData) : o.absorb Q (.text data) = o := by
  simp [CliObject.absorb, Item.values, Item.typeNames, Item.stringRepr]

@[simp] theorem absorb_misc (o : CliObject E) (m : Misc) : o.absorb Q (.misc m) = o := by
  simp [CliObject.absorb, Item.values, Item.typeNames, Item.stringRepr]

/-- A start tag enters an object or adds a null. -/
theorem start_eq (b : Build E) (t : Tag) :
    b.start Q t = if kindOf t = .obj then { b with obj := b.obj.enter Q t }
      else { b with obj := { b.obj with values := b.obj.values ++ nullValues Q E t } } := by
  unfold Build.start
  cases hKind : kindOf t with
  | obj => cases hAttr : attrValue Q t "RefId" <;> simp [CliObject.enter, hAttr]
  | nil => simp [Build.push, nullValues, hKind]
  | _ => simp [nullValues, hKind]

/-- An element with text adds what its text is decoded to, if it can be decoded. -/
theorem text_eq (b : Build E) (t : Tag) (txt : Text) (hText : (kindOf t).readsText = true) :
    b.text Q t txt = (textCheck Q E t txt).map fun _ => { b with obj := { b.obj with
      values := b.obj.values ++ textValues Q E t txt
      typeNames := b.obj.typeNames ++ textTypeNames t txt
      stringRepr := (textRepr t txt).or b.obj.stringRepr } } := by
  unfold Build.text
  cases hKind : kindOf t with
  | t => simp [textValues, textTypeNames, textRepr, textCheck, hKind, Except.map]
  | toString => simp [textValues, textTypeNames, textRepr, textCheck, hKind, Except.map]
  | leaf kind =>
      cases hDecode : (kind.decode E (attrValue Q t "N") txt : Except (Panic Q.Error) _) with
      | ok val =>
          simp [hDecode, textValues, textTypeNames, textRepr, textCheck, hKind, leafValue,
            Build.push, Except.map]
      | error panic => simp [hDecode, textCheck, hKind, leafValue, Except.map]
  | _ => simp [hKind, ElementKind.readsText] at hText

/-- An item panics, or does what it contributes. -/
theorem apply_eq (b : Build E) (item : Item) :
    item.apply Q b = (item.check Q E).map fun _ => b.effect Q item := by
  cases item with
  | opening tag =>
      rw [Item.apply, start_eq b tag.tag]
      by_cases hObj : kindOf tag.tag = .obj
      · simp [Build.effect, Item.isObj, hObj, Item.check, Except.map]
      · simp [Build.effect, Item.isObj, hObj, Item.check, Except.map, CliObject.absorb,
          Item.values, Item.typeNames, Item.stringRepr]
  | closing name trail =>
      by_cases hObj : name.val = "Obj"
      · simp [Item.apply, Build.stop, Build.effect, Item.isObj, hObj, Build.finish, Item.check,
          Except.map]
      · simp [Item.apply, Build.stop, Build.effect, Item.isObj, hObj, Item.check, Except.map]
  | empty tag =>
      cases hText : (kindOf tag).readsText with
      | true =>
          have hObj : kindOf tag ≠ .obj := by
            intro hEq
            simp [hEq, ElementKind.readsText] at hText
          have hNil : kindOf tag ≠ .nil := by
            intro hEq
            simp [hEq, ElementKind.readsText] at hText
          simp [Item.apply, hText, text_eq b tag [] hText, Build.effect, Item.isObj, hObj,
            CliObject.absorb, Item.values, Item.typeNames, Item.stringRepr, nullValues, hNil,
            Item.check]
      | false =>
          have hName : kindOf tag = .obj ↔ tag.name.val = "Obj" := kindOf_eq_obj
          have hQuiet : textValues Q E tag [] = [] ∧ textTypeNames tag [] = [] ∧
              textRepr tag [] = none ∧ textCheck Q E tag [] = .ok () := by
            cases hKind : kindOf tag <;>
              simp_all [textValues, textTypeNames, textRepr, textCheck, ElementKind.readsText]
          rw [Item.apply, if_neg (by simp [hText]), start_eq b tag]
          by_cases hObj : kindOf tag = .obj
          · simp [hObj, Build.stop, hName.mp hObj, Build.effect, Item.isObj, Build.finish,
              Item.check, hQuiet, Except.map]
          · have hOther : tag.name.val ≠ "Obj" := fun h => hObj (hName.mpr h)
            simp [hObj, Build.stop, hOther, Build.effect, Item.isObj, CliObject.absorb,
              Item.values, Item.typeNames, Item.stringRepr, hQuiet, Item.check, Except.map]
  | leaf tag content trail =>
      rw [Item.apply, text_eq b tag.tag _ tag.text]
      rfl
  | text data => simp [Item.apply, Build.effect, Item.isObj, Item.check, Except.map]
  | misc m => simp [Item.apply, Build.effect, Item.isObj, Item.check, Except.map]

/-- The checks and the effects of a run of items can be told apart: what the items
contribute does not depend on which of them panics. -/
theorem foldlM_apply (b : Build E) (items : List Item) :
    items.foldlM (Item.apply Q) b =
      (check Q E items).map fun _ => items.foldl (Build.effect Q) b := by
  induction items generalizing b with
  | nil => rfl
  | cons item items ih =>
      simp only [List.foldlM_cons, apply_eq, check, List.foldl_cons]
      cases item.check Q E with
      | error panic => rfl
      | ok done => exact ih _

/-- The first panic is the one that counts. -/
theorem check_append (first second : List Item) :
    check Q E (first ++ second) = (check Q E first).bind fun _ => check Q E second := by
  induction first with
  | nil => rfl
  | cons item first ih =>
      simp only [List.cons_append, check, ih]
      cases item.check Q E <;> rfl

/-- There is no panic exactly when every leaf text can be decoded. -/
theorem check_eq_ok {items : List Item} : check Q E items = .ok () ↔ Valid Q E items := by
  induction items with
  | nil => simp [check, Valid]
  | cons item items ih =>
      have hValid : Valid Q E (item :: items) ↔ item.check Q E = .ok () ∧ Valid Q E items := by
        simp [Valid]
      rw [hValid, ← ih, check]
      cases item.check Q E with
      | error panic => simp [Except.bind]
      | ok done => simp [Except.bind]

end PwshHost.CliXml
