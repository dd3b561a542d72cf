import PwshHost.CliXml.Parse

/-! CLIXML text as a sequence of items, and what each item does to the objects
that the parser builds. -/
namespace PwshHost.CliXml

open Xml
open Rust

/-- The elements whose start makes the parser read on to their end tag. -/
def ElementKind.readsText : ElementKind → Bool
  | .t | .toString | .leaf _ => true
  | _ => false

def kindOf (t : Tag) : ElementKind := ElementKind.ofName t.name.val

structure ContainerTag where
  tag : Tag
  container : (kindOf tag).readsText = false

structure TextTag where
  tag : Tag
  text : (kindOf tag).readsText = true

/-- A leaf is one item: nothing but character data stands in it. -/
inductive Item where
  | opening (tag : ContainerTag)
  | closing (name : Name) (trail : Blanks)
  | empty (tag : Tag)
  | leaf (tag : TextTag) (content : CharData) (trail : Blanks)
  | text (data : CharData)
  | misc (m : Misc)

def Item.source : Item → Text
  | .opening tag => (Markup.opening tag.tag).source
  | .closing name trail => (Markup.closing name trail).source
  | .empty tag => (Markup.empty tag).source
  | .leaf tag content trail =>
    (Markup.opening tag.tag).source ++ (content.val ++ closingSource tag.tag.name trail)
  | .text data => data.val
  | .misc m => (Markup.misc m).source

def source (items : List Item) : Text := items.flatMap Item.source

@[simp] theorem source_nil : source [] = [] := rfl

@[simp] theorem source_cons (item : Item) (items : List Item) :
    source (item :: items) = item.source ++ source items := rfl

@[simp] theorem source_append (first second : List Item) :
    source (first ++ second) = source first ++ source second := by
  simp [source]

/-- The open elements after an item, unless it is an end tag that does not match. -/
def Item.nest (opened : List Name) : Item → Option (List Name)
  | .opening tag => some (tag.tag.name :: opened)
  | .closing name _ => match opened with
    | top :: rest => if top = name then some rest else none
    | [] => none
  | _ => some opened

def nest (opened : List Name) (items : List Item) : Option (List Name) :=
  items.foldlM Item.nest opened

/-- Every element opened in the items is closed in them, and conversely. -/
def Balanced (items : List Item) : Prop := nest [] items = some []

instance (items : List Item) : Decidable (Balanced items) :=
  inferInstanceAs (Decidable (nest [] items = some []))

theorem nest_cons (opened : List Name) (item : Item) (items : List Item) :
    nest opened (item :: items) = (item.nest opened).bind fun opened => nest opened items := rfl

/-- What a run of items opens is open for the run after it. -/
theorem nest_append (opened : List Name) (first second : List Item) :
    nest opened (first ++ second) = (nest opened first).bind fun opened => nest opened second := by
  simp only [nest, List.foldlM_append]
  rfl

/-- An end tag closes the innermost open element. -/
theorem nest_closing {name : Name} {trail : Blanks} {opened opened' : List Name}
    (h : (Item.closing name trail).nest opened = some opened') : opened = name :: opened' := by
  cases opened with
  | nil => simp [Item.nest] at h
  | cons top rest =>
      simp only [Item.nest] at h
      split at h
      · rename_i hTop
        rw [hTop, Option.some.inj h]
      · simp at h

/-- An item that is fine by itself is fine with other elements open around it. -/
theorem Item.nest_under {item : Item} {opened opened' : List Name}
    (h : item.nest opened = some opened') (below : List Name) :
    item.nest (opened ++ below) = some (opened' ++ below) := by
  cases item with
  | closing name trail =>
      rw [nest_closing h]
      simp [Item.nest]
  | opening tag => rw [← Option.some.inj h]; rfl
  | empty tag => rw [← Option.some.inj h]; rfl
  | leaf tag content trail => rw [← Option.some.inj h]; rfl
  | text data => rw [← Option.some.inj h]; rfl
  | misc m => rw [← Option.some.inj h]; rfl

/-- What is balanced on its own is balanced inside other elements. -/
theorem nest_under {items : List Item} {opened opened' : List Name}
    (h : nest opened items = some opened') (below : List Name) :
    nest (opened ++ below) items = some (opened' ++ below) := by
  induction items generalizing opened with
  | nil => rw [← Option.some.inj h]; rfl
  | cons item items ih =>
      rw [nest_cons, Option.bind_eq_some_iff] at h ⊢
      obtain ⟨middle, hItem, hItems⟩ := h
      exact ⟨middle ++ below, Item.nest_under hItem below, ih hItems⟩

/-- Balanced items leave the open elements as they were. -/
theorem Balanced.under {items : List Item} (h : Balanced items) (below : List Name) :
    nest below items = some below := nest_under h below

/-- Two balanced runs make a balanced one. -/
theorem Balanced.append {first second : List Item} (hFirst : Balanced first)
    (hSecond : Balanced second) : Balanced (first ++ second) := by
  rw [Balanced, nest_append, hFirst]
  exact hSecond

variable (Q : PullReader) (E : Crates)

/-- The value of an attribute as the parser sees it. -/
def attrValue (t : Tag) (key : String) : Option Text :=
  (t.find key).bind fun a =>
    match Q.decodeAndUnescapeValue (Q.fromStr []) a.attribute with
    | .ok value => some value
    | .error _ => none

/-- The finished objects and the object being built. -/
structure Build where
  objs : List (CliObject E)
  obj : CliObject E

variable {E}

def Build.push (b : Build E) (val : CliValue E) : Build E :=
  { b with obj := { b.obj with values := b.obj.values ++ [val] } }

/-- The start of an element whose text is not read. -/
def Build.start (b : Build E) (t : Tag) : Build E :=
  match kindOf t with
  | .obj => match attrValue Q t "RefId" with
    | some refId => { b with obj := { b.obj with refId := some refId } }
    | none => b
  | .nil => b.push (.cliNull (CliNull.new (attrValue Q t "N")))
  | _ => b

/-- An element whose text is read. -/
def Build.text (b : Build E) (t : Tag) (txt : Text) : Except (Panic Q.Error) (Build E) :=
  match kindOf t with
  | .t => .ok { b with obj := { b.obj with typeNames := b.obj.typeNames ++ [txt] } }
  | .toString => .ok { b with obj := { b.obj with stringRepr := some txt } }
  | .leaf kind => (kind.decode E (attrValue Q t "N") txt).map b.push
  | _ => .ok b

def Build.stop (b : Build E) (name : String) : Build E :=
  if name = "Obj" then { objs := b.objs ++ [b.obj], obj := CliObject.default } else b

/-- What an item does to the objects. -/
def Item.apply (b : Build E) : Item → Except (Panic Q.Error) (Build E)
  | .opening tag => .ok (b.start Q tag.tag)
  | .closing name _ => .ok (b.stop name.val)
  | .empty tag =>
    if (kindOf tag).readsText then b.text Q tag []
    else .ok ((b.start Q tag).stop tag.name.val)
  | .leaf tag content _ => b.text Q tag.tag (reported content.val)
  | .text _ => .ok b
  | .misc _ => .ok b

variable (E)

def Build.initial : Build E := ⟨[], CliObject.default⟩

/-- The fold of the items from the initial state. -/
def build (items : List Item) : Except (Panic Q.Error) (Build E) :=
  items.foldlM (Item.apply Q) (Build.initial E)

def Build.at {Q : PullReader} {E : Crates} (b : Build E) (r : Q.Reader) : ParseState Q E :=
  ⟨r, b.objs, b.obj⟩

end PwshHost.CliXml
