import PwshHost.CliXml.Document

/-! Runs over items: conditions along the open elements, the totals that no
item loses, the frame of the objects finished before, and the runs in which
no object starts or ends. -/
namespace PwshHost.CliXml

open Xml
open Rust

/-- `p` holds at every item, for the elements that are open there. -/
def along (p : List Name → Item → Bool) : List Name → List Item → Bool
  | _, [] => true
  | opened, item :: items => p opened item &&
    match item.nest opened with
    | some opened' => along p opened' items
    | none => false

/-- A condition along a run is one on its first item and one along the rest. -/
theorem along_cons {p : List Name → Item → Bool} {opened : List Name} {item : Item}
    {items : List Item} (h : along p opened (item :: items) = true) :
    p opened item = true ∧
      ∃ opened', item.nest opened = some opened' ∧ along p opened' items = true := by
  simp only [along, Bool.and_eq_true] at h
  obtain ⟨hItem, hItems⟩ := h
  cases hNest : item.nest opened with
  | none => simp [hNest] at hItems
  | some opened' => exact ⟨hItem, opened', rfl, by simpa [hNest] using hItems⟩

/-- A condition along two runs, the second of which starts where the first ends. -/
theorem along_append {p : List Name → Item → Bool} {opened opened' : List Name}
    {first second : List Item} (hNest : nest opened first = some opened')
    (hFirst : along p opened first = true) (hSecond : along p opened' second = true) :
    along p opened (first ++ second) = true := by
  induction first generalizing opened with
  | nil =>
      obtain rfl := Option.some.inj hNest
      exact hSecond
  | cons item first ih =>
      obtain ⟨hItem, middle, hMiddle, hRest⟩ := along_cons hFirst
      rw [nest_cons, hMiddle] at hNest
      simp [along, hItem, hMiddle, ih hNest hRest]

variable {Q : PullReader} {E : Crates}

/-- The invariant rule: what every item preserves holds after all of them. -/
theorem along_run {p : List Name → Item → Bool} {Inv : List Name → Build E → Prop}
    (hStep : ∀ {opened opened' : List Name} {item : Item} {b : Build E}, p opened item = true →
      item.nest opened = some opened' → Inv opened b → Inv opened' (b.effect Q item))
    {opened opened' : List Name} {items : List Item} {b : Build E}
    (hAlong : along p opened items = true) (hNest : nest opened items = some opened')
    (h : Inv opened b) : Inv opened' (items.foldl (Build.effect Q) b) := by
  induction items generalizing opened b with
  | nil =>
      obtain rfl := Option.some.inj hNest
      exact h
  | cons item items ih =>
      obtain ⟨hItem, middle, hMiddle, hItems⟩ := along_cons hAlong
      rw [nest_cons, hMiddle] at hNest
      exact ih hItems hNest (hStep hItem hMiddle h)

def Build.values (b : Build E) : List (CliValue E) :=
  b.objs.flatMap CliObject.values ++ b.obj.values

def Build.typeNames (b : Build E) : List Text :=
  b.objs.flatMap CliObject.typeNames ++ b.obj.typeNames

def Item.startsObj : Item → Bool
  | .opening tag => kindOf tag.tag = .obj
  | .empty tag => kindOf tag = .obj
  | _ => false

def Item.endsObj : Item → Bool
  | .closing name _ => name.val = "Obj"
  | .empty tag => kindOf tag = .obj
  | _ => false

/-- Only leaves and nulls have values. -/
theorem values_eq_nil {item : Item} (hNil : item.startKind ≠ some .nil)
    (hLeaf : ∀ kind, item.startKind ≠ some (.leaf kind)) : item.values Q E = [] := by
  have hText : ∀ (t : Tag) (txt : Text), (∀ kind, kindOf t ≠ .leaf kind) →
      textValues Q E t txt = [] := by
    intro t txt hOther
    unfold textValues
    split
    · rename_i kind hKind
      exact absurd hKind (hOther kind)
    · rfl
  cases item with
  | opening tag =>
      have hKind : kindOf tag.tag ≠ .nil := by simpa [Item.startKind] using hNil
      simp [Item.values, nullValues, hKind]
  | empty tag =>
      have hKind : kindOf tag ≠ .nil := by simpa [Item.startKind] using hNil
      rw [Item.values, hText tag [] (by simpa [Item.startKind] using hLeaf)]
      simp [nullValues, hKind]
  | leaf tag content trail => exact hText tag.tag _ (by simpa [Item.startKind] using hLeaf)
  | _ => rfl

/-- Only `T` elements have type names. -/
theorem typeNames_eq_nil {item : Item} (h : item.startKind ≠ some .t) : item.typeNames = [] := by
  cases item with
  | empty tag =>
      have hKind : kindOf tag ≠ .t := by simpa [Item.startKind] using h
      exact if_neg hKind
  | leaf tag content trail =>
      have hKind : kindOf tag.tag ≠ .t := by simpa [Item.startKind] using h
      exact if_neg hKind
  | _ => rfl

/-- The tags of an object start no element of another kind. -/
theorem startKind_of_isObj {item : Item} (h : item.isObj = true) :
    item.startKind = none ∨ item.startKind = some .obj := by
  cases item with
  | opening tag => exact .inr (by simpa [Item.isObj, Item.startKind] using h)
  | closing name trail => exact .inl rfl
  | empty tag => exact .inr (by simpa [Item.isObj, Item.startKind] using h)
  | _ => simp [Item.isObj] at h

/-- The tags of an object contribute no value. -/
theorem isObj_values {item : Item} (h : item.isObj = true) : item.values Q E = [] := by
  rcases startKind_of_isObj h with hKind | hKind
  · exact values_eq_nil (by simp [hKind]) (by simp [hKind])
  · exact values_eq_nil (by simp [hKind]) (by simp [hKind])

/-- Nor do they contribute a type name. -/
theorem isObj_typeNames {item : Item} (h : item.isObj = true) : item.typeNames = [] := by
  rcases startKind_of_isObj h with hKind | hKind
  · exact typeNames_eq_nil (by simp [hKind])
  · exact typeNames_eq_nil (by simp [hKind])

/-- Items other than the tags of objects add to the object being built and finish
none. -/
theorem effect_plain (b : Build E) {item : Item} (h : item.isObj = false) :
    b.effect Q item = ⟨b.objs, b.obj.absorb Q item⟩ := by
  simp [Build.effect, h]

/-- The step lemma for values: an item appends what it contributes, whether it goes
to a finished object or to the one being built. -/
theorem effect_values (b : Build E) (item : Item) :
    (b.effect Q item).values = b.values ++ item.values Q E := by
  cases hObj : item.isObj with
  | false => simp [effect_plain b hObj, Build.values, CliObject.absorb]
  | true =>
      rw [isObj_values hObj]
      cases item <;>
        simp_all [Build.effect, Build.values, Build.finish, CliObject.enter, CliObject.default,
          Item.isObj]

/-- The step lemma for type names. -/
theorem effect_typeNames (b : Build E) (item : Item) :
    (b.effect Q item).typeNames = b.typeNames ++ item.typeNames := by
  cases hObj : item.isObj with
  | false => simp [effect_plain b hObj, Build.typeNames, CliObject.absorb]
  | true =>
      rw [isObj_typeNames hObj]
      cases item <;>
        simp_all [Build.effect, Build.typeNames, Build.finish, CliObject.enter, CliObject.default,
          Item.isObj]

/-- One object is finished for each end of an object. -/
theorem effect_length (b : Build E) (item : Item) :
    (b.effect Q item).objs.length = b.objs.length + if item.endsObj then 1 else 0 := by
  cases item with
  | opening tag => by_cases hObj : kindOf tag.tag = .obj <;>
      simp [Build.effect, Item.isObj, Item.endsObj, hObj]
  | closing name trail => by_cases hObj : name.val = "Obj" <;>
      simp [Build.effect, Item.isObj, Item.endsObj, Build.finish, hObj]
  | empty tag => by_cases hObj : kindOf tag = .obj <;>
      simp [Build.effect, Item.isObj, Item.endsObj, Build.finish, hObj]
  | _ => simp [Build.effect, Item.isObj, Item.endsObj]

/-- No item loses a value, and none adds one that is not written in it. -/
theorem foldl_values (items : List Item) (b : Build E) :
    (items.foldl (Build.effect Q) b).values = b.values ++ values Q E items := by
  induction items generalizing b with
  | nil => simp [values]
  | cons item items ih =>
      rw [List.foldl_cons, ih, effect_values]
      simp [values]

/-- The run lemma for type names, by induction on the items. -/
theorem foldl_typeNames (items : List Item) (b : Build E) :
    (items.foldl (Build.effect Q) b).typeNames = b.typeNames ++ typeNames items := by
  induction items generalizing b with
  | nil => simp [typeNames]
  | cons item items ih =>
      rw [List.foldl_cons, ih, effect_typeNames]
      simp [typeNames]

/-- As many objects are finished as there are ends. -/
theorem foldl_length (items : List Item) (b : Build E) :
    (items.foldl (Build.effect Q) b).objs.length =
      b.objs.length + items.countP Item.endsObj := by
  induction items generalizing b with
  | nil => simp
  | cons item items ih =>
      rw [List.foldl_cons, ih, effect_length, List.countP_cons]
      omega

/-- The length of what is returned is the number of ends. -/
theorem length_result (items : List Item) :
    (result Q E items).length = items.countP Item.endsObj := by
  have hLength : (items.foldl (Build.effect Q) (Build.initial E)).objs.length = _ :=
    foldl_length items (Build.initial E)
  rw [result, hLength, Build.initial, List.length_nil, Nat.zero_add]

/-- How many of the open elements are objects. -/
def openObjs (opened : List Name) : Nat := opened.countP (·.val = "Obj")

/-- An item that starts an object opens one and an item that ends one closes it. -/
theorem nest_objs {item : Item} {opened opened' : List Name}
    (h : item.nest opened = some opened') :
    openObjs opened + (if item.startsObj then 1 else 0) =
      openObjs opened' + if item.endsObj then 1 else 0 := by
  cases item with
  | opening tag =>
      obtain rfl := Option.some.inj h
      by_cases hObj : tag.tag.name.val = "Obj" <;>
        simp [openObjs, Item.startsObj, Item.endsObj, kindOf_eq_obj, hObj]
  | closing name trail =>
      rw [nest_closing h]
      by_cases hObj : name.val = "Obj" <;>
        simp [openObjs, Item.startsObj, Item.endsObj, hObj]
  | empty tag =>
      obtain rfl := Option.some.inj h
      rfl
  | leaf tag content trail =>
      obtain rfl := Option.some.inj h
      rfl
  | text data =>
      obtain rfl := Option.some.inj h
      rfl
  | misc m =>
      obtain rfl := Option.some.inj h
      rfl

/-- In balanced items as many objects end as start. -/
theorem countP_objs {items : List Item} {opened opened' : List Name}
    (h : nest opened items = some opened') :
    openObjs opened + items.countP Item.startsObj =
      openObjs opened' + items.countP Item.endsObj := by
  induction items generalizing opened with
  | nil =>
      obtain rfl := Option.some.inj h
      rfl
  | cons item items ih =>
      rw [nest_cons, Option.bind_eq_some_iff] at h
      obtain ⟨middle, hItem, hItems⟩ := h
      have hHere := nest_objs hItem
      have hLater := ih hItems
      rw [List.countP_cons, List.countP_cons]
      omega

/-- As many objects are returned as are written. -/
theorem Balanced.length_result {items : List Item} (h : Balanced items) :
    (result Q E items).length = items.countP Item.startsObj := by
  have hCount := countP_objs h
  rw [CliXml.length_result]
  simp only [openObjs, List.countP_nil] at hCount
  omega

def Build.behind (front : List (CliObject E)) (b : Build E) : Build E :=
  { b with objs := front ++ b.objs }

/-- An item does the same with other objects finished before. -/
theorem effect_behind (front : List (CliObject E)) (b : Build E) (item : Item) :
    (b.behind front).effect Q item = (b.effect Q item).behind front := by
  cases hObj : item.isObj with
  | false => simp [Build.effect, hObj, Build.behind]
  | true => cases item <;> simp_all [Build.effect, Item.isObj, Build.behind, Build.finish]

/-- No item looks at the objects finished before it. -/
theorem foldl_behind (front : List (CliObject E)) (items : List Item) (b : Build E) :
    items.foldl (Build.effect Q) (b.behind front) =
      (items.foldl (Build.effect Q) b).behind front := by
  induction items generalizing b with
  | nil => rfl
  | cons item items ih => rw [List.foldl_cons, effect_behind, ih, List.foldl_cons]

/-- So a run of items can be looked at as if it came first. -/
theorem foldl_front (objs : List (CliObject E)) (o : CliObject E) (items : List Item) :
    items.foldl (Build.effect Q) ⟨objs, o⟩ =
      (items.foldl (Build.effect Q) ⟨[], o⟩).behind objs := by
  have hFront : items.foldl (Build.effect Q) _ = _ := foldl_behind objs items ⟨[], o⟩
  simpa [Build.behind] using hFront

/-- The last text representation is kept. -/
theorem stringRepr_foldl (items : List Item) (repr : Option Text) :
    items.foldl (fun repr item => item.stringRepr.or repr) repr = (stringRepr items).or repr := by
  unfold stringRepr
  induction items generalizing repr with
  | nil => simp
  | cons item items ih =>
      rw [List.foldl_cons, List.foldl_cons, ih, ih (item.stringRepr.or none), Option.or_none,
        Option.or_assoc]

theorem stringRepr_cons (item : Item) (items : List Item) :
    stringRepr (item :: items) = (stringRepr items).or item.stringRepr := by
  rw [← stringRepr_foldl]
  simp [stringRepr]

/-- A later text representation hides an earlier one. -/
theorem stringRepr_append (first second : List Item) :
    stringRepr (first ++ second) = (stringRepr second).or (stringRepr first) := by
  rw [← stringRepr_foldl, stringRepr, List.foldl_append]
  rfl

variable (Q) in
/-- An object takes in what a run of items contributes. -/
def CliObject.absorbAll (o : CliObject E) (items : List Item) : CliObject E :=
  { o with
    values := o.values ++ CliXml.values Q E items
    typeNames := o.typeNames ++ CliXml.typeNames items
    stringRepr := (CliXml.stringRepr items).or o.stringRepr }

/-- Without tags of objects a whole run is taken in by the object being built. -/
theorem foldl_plain {items : List Item} (h : ∀ item ∈ items, item.isObj = false) (b : Build E) :
    items.foldl (Build.effect Q) b = ⟨b.objs, b.obj.absorbAll Q items⟩ := by
  induction items generalizing b with
  | nil => simp [CliObject.absorbAll, values, typeNames, stringRepr]
  | cons item items ih =>
      have hHead : item.isObj = false := h item (by simp)
      have hTail : ∀ later ∈ items, later.isObj = false := fun later hLater =>
        h later (List.mem_cons_of_mem item hLater)
      rw [List.foldl_cons, effect_plain b hHead, ih hTail]
      simp [CliObject.absorbAll, CliObject.absorb, values, typeNames, stringRepr_cons,
        Option.or_assoc]

end PwshHost.CliXml
