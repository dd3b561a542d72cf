import PwshHost.CliXml.Effect

/-! Whole documents: an `Objs` root around balanced content, with white space,
comments and instructions before and after it. -/
namespace PwshHost.CliXml

open Xml
open Rust

/-- Character data, comments, CDATA sections and processing instructions. -/
def Item.inert : Item → Bool
  | .text _ | .misc _ => true
  | _ => false

structure Document where
  prolog : List Item
  prologInert : ∀ item ∈ prolog, item.inert = true
  root : ContainerTag
  isObjs : kindOf root.tag = .objs
  content : List Item
  balanced : Balanced content
  trail : Blanks
  epilog : List Item
  epilogInert : ∀ item ∈ epilog, item.inert = true

namespace Document

/-- The root element with its content, up to the end tag. -/
def opened (d : Document) : List Item := d.prolog ++ [.opening d.root] ++ d.content

def items (d : Document) : List Item :=
  d.opened ++ .closing d.root.tag.name d.trail :: d.epilog

def text (d : Document) : Text := source d.items

/-- The same document around other content. -/
def holding (d : Document) (content : List Item) (balanced : Balanced content) : Document :=
  { d with content := content, balanced := balanced }

end Document

/-- White space, comments and instructions open nothing. -/
theorem nest_inert {items : List Item} (h : ∀ item ∈ items, item.inert = true)
    (opened : List Name) : nest opened items = some opened := by
  induction items with
  | nil => rfl
  | cons item items ih =>
      have hItem : item.nest opened = some opened := by
        have hInert := h item (by simp)
        cases item <;> simp_all [Item.inert, Item.nest]
      rw [nest_cons, hItem]
      exact ih fun later hLater => h later (List.mem_cons_of_mem item hLater)

/-- Up to its end tag a document has the root element open. -/
theorem Document.nest_opened (d : Document) : nest [] d.opened = some [d.root.tag.name] := by
  rw [Document.opened, nest_append, nest_append, nest_inert d.prologInert]
  exact d.balanced.under [d.root.tag.name]

/-- A whole document is properly nested. -/
theorem Document.nest_items (d : Document) : nest [] d.items = some [] := by
  rw [Document.items, nest_append, d.nest_opened]
  change (Item.nest [d.root.tag.name] (.closing d.root.tag.name d.trail)).bind _ = _
  simp only [Item.nest, if_true, Option.bind_some]
  exact nest_inert d.epilogInert []

variable {Q : PullReader} {E : Crates}

/-- White space, comments and instructions change nothing that is built. -/
theorem foldlM_inert {items : List Item} (h : ∀ item ∈ items, item.inert = true) (b : Build E) :
    items.foldlM (Item.apply Q) b = .ok b := by
  induction items with
  | nil => rfl
  | cons item items ih =>
      have hItem : item.apply Q b = .ok b := by
        have hInert := h item (by simp)
        cases item <;> simp_all [Item.inert, Item.apply]
      rw [List.foldlM_cons, hItem]
      exact ih fun later hLater => h later (List.mem_cons_of_mem item hLater)

/-- The end tag of the root is not taken for that of an object. -/
theorem objs_name_ne {t : Tag} (hObjs : kindOf t = .objs) : t.name.val ≠ "Obj" := by
  intro h
  have hObj := kindOf_eq_obj.mpr h
  rw [hObjs] at hObj
  cases hObj

theorem Document.root_name (d : Document) : d.root.tag.name.val ≠ "Obj" := objs_name_ne d.isObjs

/-- The prolog and the start tag of the root are read without effect. -/
theorem Document.build_opened (d : Document) : build Q E d.opened = build Q E d.content := by
  have hRoot : Item.apply Q (Build.initial E) (.opening d.root) = .ok (Build.initial E) := by
    simp [Item.apply, Build.start, d.isObjs]
  simp only [build, Document.opened, List.foldlM_append, foldlM_inert d.prologInert,
    List.foldlM_cons, List.foldlM_nil]
  change (((Item.apply Q (Build.initial E) (.opening d.root)) >>= pure) >>= _) = _
  rw [hRoot]
  rfl

/-- What is built from a document is built from its content. -/
theorem Document.build_items (d : Document) : build Q E d.items = build Q E d.content := by
  have hOpened : build Q E d.opened = build Q E d.content := d.build_opened
  rw [build] at hOpened
  rw [build, Document.items, List.foldlM_append, hOpened]
  cases build Q E d.content with
  | error panic => rfl
  | ok b =>
      have hRoot : Item.apply Q b (.closing d.root.tag.name d.trail) = .ok b := by
        rw [Item.apply, Build.stop, if_neg d.root_name]
      simp only [List.foldlM_cons, bind, Except.bind, hRoot, foldlM_inert d.epilogInert b]

/-- What the contributions of the items amount to. -/
def result (Q : PullReader) (E : Crates) (items : List Item) : List (CliObject E) :=
  (items.foldl (Build.effect Q) (Build.initial E)).objs

variable (D : Q.Documented)

include D in
/-- The parser panics at the first leaf text that cannot be decoded, and returns
the contributions of the content if there is none. -/
theorem Document.parsesTo (d : Document) :
    ParsesTo Q E d.text ((check Q E d.content).map fun _ => result Q E d.content) := by
  have hStops : ParsesTo Q E (source d.items) _ := parsesTo_source D d.nest_items
  rw [d.build_items, build, foldlM_apply] at hStops
  have hOutcome : ((check Q E d.content).map fun _ =>
      d.content.foldl (Build.effect Q) (Build.initial E)).map Build.objs =
      (check Q E d.content).map fun _ => result Q E d.content := by
    cases check Q E d.content <;> rfl
  rwa [hOutcome] at hStops

include D in
/-- On a document whose texts can all be decoded the parser returns what the content
amounts to. -/
theorem Document.returns (d : Document) (hValid : Valid Q E d.content) :
    Returns Q E d.text (result Q E d.content) := by
  have hParses : ParsesTo Q E d.text _ := d.parsesTo D
  rwa [check_eq_ok.mpr hValid] at hParses

include D in
/-- It returns nothing else, and on no other document. -/
theorem Document.returns_iff (d : Document) (objs : List (CliObject E)) :
    Returns Q E d.text objs ↔ Valid Q E d.content ∧ objs = result Q E d.content := by
  constructor
  · intro h
    have hOutcome := h.unique (d.parsesTo D)
    cases hCheck : check Q E d.content with
    | error panic =>
        rw [hCheck] at hOutcome
        cases hOutcome
    | ok done =>
        rw [hCheck] at hOutcome
        exact ⟨check_eq_ok.mp hCheck, Except.ok.inj hOutcome⟩
  · intro h
    obtain ⟨hValid, rfl⟩ := h
    exact d.returns D hValid

include D in
/-- A root element `<Objs/>` without content holds no objects. -/
theorem returns_emptyRoot {prolog epilog : List Item} {root : Tag}
    (hProlog : ∀ item ∈ prolog, item.inert = true) (hRoot : kindOf root = .objs)
    (hEpilog : ∀ item ∈ epilog, item.inert = true) :
    Returns Q E (source (prolog ++ .empty root :: epilog)) [] := by
  have hNest : nest [] (prolog ++ .empty root :: epilog) = some [] := by
    rw [nest_append, nest_inert hProlog, Option.bind_some, nest_cons]
    exact nest_inert hEpilog []
  have hApply : (Item.empty root).apply Q (Build.initial E) = .ok (Build.initial E) := by
    simp [Item.apply, hRoot, ElementKind.readsText, Build.start, Build.stop, objs_name_ne hRoot]
  have hBuild : build Q E (prolog ++ .empty root :: epilog) = .ok (Build.initial E) := by
    rw [build, List.foldlM_append, foldlM_inert hProlog]
    change (Item.empty root :: epilog).foldlM (Item.apply Q) (Build.initial E) = _
    rw [List.foldlM_cons, hApply]
    exact foldlM_inert hEpilog (Build.initial E)
  have hParses : ParsesTo Q E (source (prolog ++ .empty root :: epilog)) _ :=
    parsesTo_source D hNest
  rwa [hBuild] at hParses

end PwshHost.CliXml
