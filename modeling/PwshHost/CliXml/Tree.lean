import PwshHost.CliXml.Objects

/-! The element tree of balanced items, and the objects it describes. -/
namespace PwshHost.CliXml

open Xml
open Rust

def Item.isSingle : Item → Bool
  | .opening _ | .closing _ _ => false
  | _ => true

structure Atom where
  item : Item
  single : item.isSingle = true

/-- First child and next sibling. -/
inductive Content where
  | done
  | atom (a : Atom) (rest : Content)
  | element (tag : ContainerTag) (children : Content) (trail : Blanks) (rest : Content)

def Content.items : Content → List Item
  | .done => []
  | .atom a rest => a.item :: rest.items
  | .element tag children trail rest =>
    .opening tag :: (children.items ++ .closing tag.tag.name trail :: rest.items)

/-- An atom opens nothing that it does not close. -/
theorem Atom.nest (a : Atom) (opened : List Name) : a.item.nest opened = some opened := by
  obtain ⟨item, hSingle⟩ := a
  cases item with
  | opening tag => cases hSingle
  | closing name trail => cases hSingle
  | _ => rfl

/-- A tree is properly nested by construction. -/
theorem Content.nest_items (c : Content) (opened : List Name) :
    nest opened c.items = some opened := by
  induction c generalizing opened with
  | done => rfl
  | atom a rest ih =>
      rw [Content.items, nest_cons, a.nest]
      exact ih opened
  | element tag children trail rest ihChildren ihRest =>
      have hClosing : (Item.closing tag.tag.name trail).nest (tag.tag.name :: opened) =
          some opened := by simp [Item.nest]
      rw [Content.items, nest_cons]
      change nest (tag.tag.name :: opened) _ = _
      rw [nest_append, ihChildren, Option.bind_some, nest_cons, hClosing]
      exact ihRest opened

theorem Content.balanced (c : Content) : Balanced c.items := c.nest_items []

/-- What follows the content of the innermost open element. -/
def AfterContent : List Name → List Item → Prop
  | [], rest => rest = []
  | top :: below, rest => ∃ trail rest', rest = .closing top trail :: rest' ∧
      nest below rest' = some []

/-- The items up to the end of the innermost open element form a tree. -/
theorem exists_content (n : Nat) (items : List Item) (hLength : items.length ≤ n)
    (opened : List Name) (hNest : nest opened items = some []) :
    ∃ (c : Content) (rest : List Item), items = c.items ++ rest ∧ rest.length ≤ items.length ∧
      AfterContent opened rest := by
  induction n generalizing items opened with
  | zero =>
      obtain rfl : items = [] := List.length_eq_zero_iff.mp (by omega)
      obtain rfl : opened = [] := Option.some.inj hNest
      exact ⟨.done, [], rfl, by simp, rfl⟩
  | succ n ih =>
      cases items with
      | nil =>
          obtain rfl : opened = [] := Option.some.inj hNest
          exact ⟨.done, [], rfl, by simp, rfl⟩
      | cons item items =>
          rw [List.length_cons] at hLength
          rw [nest_cons, Option.bind_eq_some_iff] at hNest
          obtain ⟨middle, hItem, hItems⟩ := hNest
          cases hSingle : item.isSingle with
          | true =>
              obtain rfl : opened = middle :=
                Option.some.inj ((Atom.nest ⟨item, hSingle⟩ opened).symm.trans hItem)
              obtain ⟨c, rest, hSplit, hRest, hEnd⟩ := ih items (by omega) opened hItems
              refine ⟨.atom ⟨item, hSingle⟩ c, rest, by rw [hSplit]; rfl, ?_, hEnd⟩
              rw [List.length_cons]
              omega
          | false =>
              cases item with
              | opening tag =>
                  obtain rfl := Option.some.inj hItem
                  obtain ⟨children, rest, hSplit, hRest, trail, rest', rfl, hNest'⟩ :=
                    ih items (by omega) (tag.tag.name :: opened) hItems
                  rw [List.length_cons] at hRest
                  obtain ⟨c, after, hSplit', hAfter, hEnd⟩ := ih rest' (by omega) opened hNest'
                  refine ⟨.element tag children trail c, after, ?_, ?_, hEnd⟩
                  · simp [hSplit, hSplit', Content.items]
                  · rw [List.length_cons]
                    omega
              | closing name trail =>
                  obtain rfl := nest_closing hItem
                  exact ⟨.done, _, rfl, by simp, trail, items, rfl, hItems⟩
              | _ => simp [Item.isSingle] at hSingle

/-- Every balanced list of items is that of a tree. -/
theorem Balanced.content {items : List Item} (h : Balanced items) :
    ∃ c : Content, c.items = items := by
  obtain ⟨c, rest, hSplit, -, hRest⟩ := exists_content items.length items le_rfl [] h
  exact ⟨c, by rw [hSplit, hRest, List.append_nil]⟩

def Document.holdingTree (d : Document) (c : Content) : Document := d.holding c.items c.balanced

variable (Q : PullReader) (E : Crates)

def Atom.isObj (a : Atom) : Bool := a.item.startsObj

/-- An object without content. -/
def emptyObj (t : Tag) : CliObject E where
  name := attrValue Q t "N"
  values := []
  refId := attrValue Q t "RefId"
  typeNames := []
  stringRepr := none

def Atom.objects (a : Atom) : List (CliObject E) :=
  match a.item with
  | .empty tag => if kindOf tag = .obj then [emptyObj Q E tag] else []
  | _ => []

namespace Content

/-- The type names that belong to the object around the content. -/
def typeNames : Content → List Text
  | .done => []
  | .atom a rest => a.item.typeNames ++ rest.typeNames
  | .element tag children _ rest =>
    (if kindOf tag.tag = .obj then [] else children.typeNames) ++ rest.typeNames

def stringRepr : Content → Option Text
  | .done => none
  | .atom a rest => rest.stringRepr.or a.item.stringRepr
  | .element tag children _ rest =>
    rest.stringRepr.or (if kindOf tag.tag = .obj then none else children.stringRepr)

/-- The values that belong to the object around the content. An object in it
is one of them, at its place. -/
def values : Content → List (CliValue E)
  | .done => []
  | .atom a rest =>
    (a.objects Q E).map .cliObject ++ a.item.values Q E ++ rest.values
  | .element tag children _ rest =>
    (if kindOf tag.tag = .obj then
      [.cliObject
        { name := attrValue Q tag.tag "N"
          values := children.values
          refId := attrValue Q tag.tag "RefId"
          typeNames := children.typeNames
          stringRepr := children.stringRepr }]
    else nullValues Q E tag.tag ++ children.values) ++ rest.values

/-- The outermost objects. -/
def objects : Content → List (CliObject E)
  | .done => []
  | .atom a rest => a.objects Q E ++ rest.objects
  | .element tag children _ rest =>
    (if kindOf tag.tag = .obj then
      [{ name := attrValue Q tag.tag "N"
         values := children.values Q E
         refId := attrValue Q tag.tag "RefId"
         typeNames := children.typeNames
         stringRepr := children.stringRepr }]
    else children.objects) ++ rest.objects

/-- Nothing but objects and inert items. -/
def onlyObjs : Content → Bool
  | .done => true
  | .atom a rest => (a.isObj || a.item.inert) && rest.onlyObjs
  | .element tag _ _ rest => (kindOf tag.tag = .obj) && rest.onlyObjs

def noObj : Content → Bool
  | .done => true
  | .atom a rest => !a.isObj && rest.noObj
  | .element tag children _ rest => (kindOf tag.tag ≠ .obj) && children.noObj && rest.noObj

/-- No object lies inside an object. -/
def flat : Content → Bool
  | .done => true
  | .atom _ rest => rest.flat
  | .element tag children _ rest =>
    (if kindOf tag.tag = .obj then children.noObj else children.flat) && rest.flat

end Content

end PwshHost.CliXml
