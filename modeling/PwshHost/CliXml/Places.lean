import PwshHost.CliXml.Objects

/-! One item in the middle of a document: the object it goes to is the next
one to be finished, which takes in all that is written since the last end of an
object. -/
namespace PwshHost.CliXml

open Xml
open Rust

variable {Q : PullReader} {E : Crates}

/-- The objects are those of `objs`, and the one being built is `o` with the
contributions of the items. -/
structure Gathers (Q : PullReader) (objs : List (CliObject E)) (o : CliObject E)
    (items : List Item) (b : Build E) : Prop where
  objs : b.objs = objs
  values : b.obj.values = o.values ++ values Q E items
  typeNames : b.obj.typeNames = o.typeNames ++ typeNames items
  stringRepr : b.obj.stringRepr = (stringRepr items).or o.stringRepr

/-- The step lemma: an item that ends no object adds to the one being built. -/
theorem gathers_one (b : Build E) {item : Item} (h : item.endsObj = false) :
    Gathers Q b.objs b.obj [item] (b.effect Q item) := by
  cases hObj : item.isObj with
  | false =>
      rw [effect_plain b hObj]
      refine ⟨rfl, ?_, ?_, ?_⟩
      · simp [CliObject.absorb, values]
      · simp [CliObject.absorb, typeNames]
      · simp [CliObject.absorb, stringRepr]
  | true =>
      cases item with
      | opening tag =>
          have hTag : kindOf tag.tag = .obj := by simpa [Item.isObj] using hObj
          have hEffect : b.effect Q (.opening tag) = ⟨b.objs, b.obj.enter Q tag.tag⟩ := by
            simp [Build.effect, Item.isObj, hTag]
          have hValues : values Q E [.opening tag] = [] := by
            simp [values, isObj_values hObj]
          rw [hEffect]
          refine ⟨rfl, ?_, ?_, ?_⟩
          · rw [hValues, List.append_nil]
            rfl
          · exact (List.append_nil _).symm
          · exact (Option.none_or).symm
      | _ => simp_all [Item.isObj, Item.endsObj]

/-- The run lemma: until an object ends all contributions gather in one. -/
theorem foldl_gathers {items : List Item} (h : ∀ item ∈ items, item.endsObj = false)
    (b : Build E) : Gathers Q b.objs b.obj items (items.foldl (Build.effect Q) b) := by
  induction items generalizing b with
  | nil => exact ⟨rfl, by simp [values], by simp [typeNames], by simp [stringRepr]⟩
  | cons item items ih =>
      have hHead : Gathers Q b.objs b.obj [item] _ := gathers_one b (h item (by simp))
      have hTail := ih (fun later hLater => h later (List.mem_cons_of_mem item hLater))
        (b.effect Q item)
      refine ⟨hTail.objs.trans hHead.objs, ?_, ?_, ?_⟩
      · rw [List.foldl_cons, hTail.values, hHead.values]
        simp [values]
      · rw [List.foldl_cons, hTail.typeNames, hHead.typeNames]
        simp [typeNames]
      · rw [List.foldl_cons, hTail.stringRepr, hHead.stringRepr, ← Option.or_assoc,
          stringRepr_cons item items]
        simp [stringRepr]

/-- After the end of an object the next one is fresh. -/
theorem effect_ends (b : Build E) {item : Item} (h : item.endsObj = true) :
    ∃ o, b.effect Q item = ⟨b.objs ++ [o], CliObject.default⟩ ∧ o.values = b.obj.values ∧
      o.typeNames = b.obj.typeNames ∧ o.stringRepr = b.obj.stringRepr := by
  cases item with
  | closing name trail =>
      have hName : name.val = "Obj" := by simpa [Item.endsObj] using h
      exact ⟨b.obj, by simp [Build.effect, Item.isObj, hName, Build.finish], rfl, rfl, rfl⟩
  | empty tag =>
      have hTag : kindOf tag = .obj := by simpa [Item.endsObj] using h
      exact ⟨b.obj.enter Q tag, by simp [Build.effect, Item.isObj, hTag, Build.finish],
        rfl, rfl, rfl⟩
  | _ => simp [Item.endsObj] at h

/-- A place for an item: what is written up to an end of an object, between
there and the item, between the item and the next end of an object, and after. -/
structure Place where
  done : List Item
  fresh : ∀ item ∈ done.getLast?, item.endsObj = true
  before : List Item
  noEndBefore : ∀ item ∈ before, item.endsObj = false
  after : List Item
  noEndAfter : ∀ item ∈ after, item.endsObj = false
  finish : Item
  ends : finish.endsObj = true
  rest : List Item
  balanced : Balanced (done ++ (before ++ (after ++ finish :: rest)))

namespace Place

def around (p : Place) : List Item := p.done ++ (p.before ++ (p.after ++ p.finish :: p.rest))

/-- The items with one put in the place. -/
def put (p : Place) (item : Item) : List Item :=
  p.done ++ (p.before ++ item :: (p.after ++ p.finish :: p.rest))

/-- The number of the object that the item goes to. -/
def index (p : Place) : Nat := p.done.countP Item.endsObj

/-- A single item in the place keeps the whole balanced. -/
theorem balanced_put (p : Place) {item : Item}
    (hSingle : ∀ opened, item.nest opened = some opened) : Balanced (p.put item) := by
  have hBalanced := p.balanced
  rw [Balanced, nest_append, Option.bind_eq_some_iff] at hBalanced
  obtain ⟨first, hDone, hBalanced⟩ := hBalanced
  rw [nest_append, Option.bind_eq_some_iff] at hBalanced
  obtain ⟨second, hBefore, hAfter⟩ := hBalanced
  rw [Place.put, Balanced, nest_append, hDone, Option.bind_some, nest_append, hBefore,
    Option.bind_some, nest_cons, hSingle, Option.bind_some, hAfter]

/-- The texts around the place and the one in it can be looked at separately. -/
theorem valid_put (p : Place) {item : Item} :
    Valid Q E (p.put item) ↔ Valid Q E p.around ∧ item.check Q E = .ok () := by
  simp only [Valid, Place.put, around, List.mem_append, List.mem_cons]
  constructor
  · intro h
    exact ⟨fun other hOther => h other (by tauto), h item (by tauto)⟩
  · intro h other hOther
    obtain ⟨hAround, hItem⟩ := h
    by_cases hSame : other = item
    · rw [hSame]
      exact hItem
    · exact hAround other (by tauto)

/-- After the objects before the place a fresh one is being built. -/
theorem fresh_done (p : Place) :
    p.done.foldl (Build.effect Q) (Build.initial E) =
      ⟨result Q E p.done, CliObject.default⟩ := by
  rcases List.eq_nil_or_concat p.done with hNil | ⟨init, last, hDone⟩
  · rw [hNil]
    rfl
  · have hLast : last.endsObj = true := p.fresh last (by simp [hDone])
    obtain ⟨o, hEffect, -⟩ :
        ∃ o, (init.foldl (Build.effect Q) (Build.initial E)).effect Q last = _ ∧ _ :=
      effect_ends _ hLast
    rw [result, hDone, List.concat_eq_append, List.foldl_concat, hEffect]

/-- What is stored of the items of the next object to be finished. -/
theorem result_index (p : Place) {item : Item} (hItem : item.endsObj = false) :
    ∃ o, (result Q E (p.put item))[p.index]? = some o ∧
      o.values = values Q E p.before ++ item.values Q E ++ values Q E p.after ∧
      o.typeNames = typeNames p.before ++ item.typeNames ++ typeNames p.after ∧
      o.stringRepr = (stringRepr p.after).or (item.stringRepr.or (stringRepr p.before)) := by
  let inner := p.before ++ item :: p.after
  have hInner : ∀ other ∈ inner, other.endsObj = false := by
    intro other hOther
    rcases List.mem_append.mp hOther with hBefore | hOther
    · exact p.noEndBefore other hBefore
    · rcases List.mem_cons.mp hOther with rfl | hAfter
      · exact hItem
      · exact p.noEndAfter other hAfter
  have hItems : p.put item = p.done ++ (inner ++ p.finish :: p.rest) := by
    simp [Place.put, inner]
  let b : Build E := inner.foldl (Build.effect Q) ⟨result Q E p.done, CliObject.default⟩
  have hGathers : Gathers Q (result Q E p.done) CliObject.default inner b :=
    foldl_gathers hInner ⟨result Q E p.done, CliObject.default⟩
  obtain ⟨o, hFinish, hValues, hTypeNames, hRepr⟩ : ∃ o, b.effect Q p.finish = _ ∧ _ :=
    effect_ends b p.ends
  have hResult : ∃ more, result Q E (p.put item) = result Q E p.done ++ [o] ++ more := by
    have hRun : (p.put item).foldl (Build.effect Q) (Build.initial E) =
        p.rest.foldl (Build.effect Q) ⟨result Q E p.done ++ [o], CliObject.default⟩ := by
      rw [hItems, List.foldl_append, p.fresh_done, List.foldl_append, List.foldl_cons]
      change p.rest.foldl _ (b.effect Q p.finish) = _
      rw [hFinish, hGathers.objs]
    rw [result, hRun, foldl_front]
    exact ⟨_, rfl⟩
  obtain ⟨more, hMore⟩ := hResult
  have hIndex : p.index = (result Q E p.done).length := (length_result p.done).symm
  refine ⟨o, ?_, ?_, ?_, ?_⟩
  · rw [hMore, hIndex]
    simp
  · rw [hValues, hGathers.values]
    simp [inner, values, CliObject.default]
  · rw [hTypeNames, hGathers.typeNames]
    simp [inner, typeNames, CliObject.default]
  · rw [hRepr, hGathers.stringRepr, stringRepr_append, stringRepr_cons]
    simp [CliObject.default, Option.or_assoc]

end Place

end PwshHost.CliXml
