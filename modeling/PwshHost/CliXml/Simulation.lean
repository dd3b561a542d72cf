import PwshHost.CliXml.Items

/-! On the text of properly nested items the loop of the parser computes the
fold of the items, whatever reader delivers the events. -/
namespace PwshHost.CliXml

open Xml
open Rust

variable {Q : PullReader} {E : Crates} (D : Q.Documented)

include D in
/-- An attribute is looked up without an error, and is what the tag says after
unescaping. Whichever reader is asked, the decoder is the same. -/
theorem tryGetAttr_tag (t : Tag) (key : String) (r : Q.Reader) :
    tryGetAttr Q key r t.bytesStart = .ok (attrValue Q t key) := by
  simp only [tryGetAttr, D.lookup, attrValue]
  cases hFind : t.find key with
  | none => simp
  | some a =>
      simp only [Option.map_some, Option.bind_some, D.decoder r (Q.fromStr [])]
      cases Q.decodeAndUnescapeValue (Q.fromStr []) a.attribute <;> rfl

include D in
/-- The arms of the elements that hold others read nothing, and look at one
attribute at most. -/
theorem onStart_container (b : Build E) (r : Q.Reader) (t : Tag)
    (h : (kindOf t).readsText = false) :
    (b.at r).onStart t.bytesStart = .ok ((b.start Q t).at r) := by
  have hKind : ElementKind.ofName t.bytesStart.name = kindOf t := rfl
  unfold ParseState.onStart
  rw [hKind]
  cases hCase : kindOf t with
  | t => simp [hCase, ElementKind.readsText] at h
  | toString => simp [hCase, ElementKind.readsText] at h
  | leaf kind => simp [hCase, ElementKind.readsText] at h
  | obj =>
      simp only [tryGetRefIdAttr, tryGetAttr_tag D, Build.start, hCase]
      cases attrValue Q t "RefId" <;> rfl
  | nil =>
      simp only [tryGetNameAttr, tryGetAttr_tag D, Build.start, hCase]
      rfl
  | tn =>
      simp only [tryGetRefIdAttr, tryGetAttr_tag D, Build.start, hCase]
      rfl
  | tnRef =>
      simp only [tryGetRefIdAttr, tryGetAttr_tag D, Build.start, hCase]
      rfl
  | _ => simp [Build.start, hCase]

include D in
/-- The arms of the elements that hold text read it up to the end tag, so that the
loop never sees that tag. -/
theorem onStart_text (b : Build E) (r r' : Q.Reader) (t : Tag) (txt : Text)
    (h : (kindOf t).readsText = true) (hRead : Q.readText r t.name.val = (.ok txt, r')) :
    (b.at r).onStart t.bytesStart = (b.text Q t txt).map fun b => b.at r' := by
  have hKind : ElementKind.ofName t.bytesStart.name = kindOf t := rfl
  have hText : readText Q (b.at r).reader t.bytesStart = .ok (txt, r') := by
    change readText Q r t.bytesStart = .ok (txt, r')
    simp only [readText, Tag.bytesStart, hRead]
    rfl
  unfold ParseState.onStart
  rw [hKind]
  cases hCase : kindOf t with
  | t => simp only [hText, Build.text, hCase]; rfl
  | toString => simp only [hText, Build.text, hCase]; rfl
  | leaf kind =>
      simp only [hText, tryGetNameAttr, Build.text, hCase]
      change (tryGetAttr Q "N" r' t.bytesStart >>= _) = _
      rw [tryGetAttr_tag D]
      cases hDecode : (kind.decode E (attrValue Q t "N") txt : Except (Panic Q.Error) _) with
      | ok val => simp [hDecode, bind, Except.bind, Except.map]; rfl
      | error panic => simp [hDecode, bind, Except.bind, Except.map]
  | _ => simp [hCase, ElementKind.readsText] at h

/-- A text that cannot be read is a panic, whatever the element is read for. -/
theorem onStart_unread (b : Build E) {r r' : Q.Reader} {e : Q.Error} {event : BytesStart}
    (h : (ElementKind.ofName event.name).readsText = true)
    (hRead : Q.readText r event.name = (.error e, r')) :
    (b.at r).onStart event = .error (.unwrapErr e) := by
  have hUnwrap : readText Q (b.at r).reader event = .error (.unwrapErr e) := by
    change readText Q r event = _
    rw [readText, hRead]
    rfl
  unfold ParseState.onStart
  cases hCase : ElementKind.ofName event.name with
  | t => simp only [hUnwrap]; rfl
  | toString => simp only [hUnwrap]; rfl
  | leaf kind => simp only [hUnwrap]; rfl
  | _ => simp [hCase, ElementKind.readsText] at h

/-- The end of an element counts if it is the one of an object. -/
theorem onEnd_at (b : Build E) (r : Q.Reader) (name : String) :
    (b.at r).onEnd name = (b.stop name).at r := by
  unfold ParseState.onEnd Build.stop
  split
  · rfl
  · rename_i hName
    rw [if_neg fun h => hName h]

/-- A pass only looks at the next event and at what was read before. -/
theorem pass_congr {b : Build E} {r r' : Q.Reader} (h : Q.readEvent r = Q.readEvent r') :
    (b.at r).pass = (b.at r').pass := by
  simp only [ParseState.pass, Build.at, h]

/-- A start event that is handled leads to the next pass. -/
theorem pass_start {b : Build E} {r r₁ : Q.Reader} {event : BytesStart} {s : ParseState Q E}
    (hStart : Q.readEvent r = (.ok (.start event), r₁))
    (hArm : (b.at r₁).onStart event = .ok s) : (b.at r).pass = .inl s := by
  simp only [Build.at] at hArm
  simp only [ParseState.pass, Build.at, hStart, hArm]

/-- A panic in the arm of an element is the outcome of the loop. -/
theorem pass_start_panic {b : Build E} {r r₁ : Q.Reader} {event : BytesStart}
    {panic : Panic Q.Error} (hStart : Q.readEvent r = (.ok (.start event), r₁))
    (hArm : (b.at r₁).onStart event = .error panic) : (b.at r).pass = .inr (.error panic) := by
  simp only [Build.at] at hArm
  simp only [ParseState.pass, Build.at, hStart, hArm]

/-- The loop continues from one state as from another. -/
abbrev Leads (s s' : ParseState Q E) : Prop := UnboundedLoop.LeadsTo ParseState.pass s s'

/-- The loop entered at `s` stops with `outcome`. -/
abbrev Stops (s : ParseState Q E) (outcome : Except (Panic Q.Error) (List (CliObject E))) : Prop :=
  UnboundedLoop.Yields ParseState.pass s outcome

include D in
/-- Character data read so far has no effect. -/
theorem leads_data (b : Build E) {r : Q.Reader} {u s : Text} {opened : List Name}
    (hData : '<' ∉ u) (hNext : AtMarkup s) (h : D.At r (u ++ s) opened) :
    ∃ r', D.At r' s opened ∧ Leads (b.at r) (b.at r') := by
  by_cases hBlank : Blank u
  · obtain ⟨r', hAt, hSame⟩ := D.blank hBlank hNext h
    exact ⟨r', hAt, .of_eq (pass_congr hSame)⟩
  · obtain ⟨raw, r', hRead, hAt⟩ := D.text hData hBlank hNext h
    refine ⟨r', hAt, .of_next ?_⟩
    simp only [ParseState.pass, Build.at, hRead]

include D in
/-- At the end of the input the loop returns the objects finished so far, also where
elements are open. -/
theorem stops_eof (b : Build E) {r : Q.Reader} {u : Text} {opened : List Name}
    (hData : '<' ∉ u) (h : D.At r u opened) : Stops (b.at r) (.ok b.objs) := by
  obtain ⟨r₁, hAt, hLeads⟩ := leads_data D b hData AtMarkup.nil (by simpa using h)
  obtain ⟨r₂, hRead⟩ := D.eof hAt
  apply hLeads
  apply UnboundedLoop.Yields.of_done
  simp only [ParseState.pass, Build.at, hRead]

/-- Reading one item from `s` under `opened`: either its effect is a panic, or
the loop gets to the state after it, possibly with character data pending. -/
def Reads (D : Q.Documented) (b : Build E) (r : Q.Reader) (rest : Text)
    (opened' : List Name) : Except (Panic Q.Error) (Build E) → Prop
  | .error panic => Stops (b.at r) (.error panic)
  | .ok b' => ∃ r' u, '<' ∉ u ∧ D.At r' (u ++ rest) opened' ∧ Leads (b.at r) (b'.at r')

/-- Passes before an item is reached belong to its reading. -/
theorem Reads.of_leads {b b₁ : Build E} {r r₁ : Q.Reader} {rest : Text} {opened' : List Name}
    {effect : Except (Panic Q.Error) (Build E)} (hLeads : Leads (b.at r) (b₁.at r₁))
    (h : Reads D b₁ r₁ rest opened' effect) : Reads D b r rest opened' effect := by
  cases effect with
  | error panic => exact hLeads _ h
  | ok b' =>
      obtain ⟨r', u, hData, hAt, hRest⟩ := h
      exact ⟨r', u, hData, hAt, hLeads.trans hRest⟩

/-- An item is read once the reader stands after it, with the state that it leads
to. -/
theorem Reads.of_at {b b' : Build E} {r r' : Q.Reader} {rest : Text} {opened' : List Name}
    (hAt : D.At r' rest opened') (hLeads : Leads (b.at r) (b'.at r')) :
    Reads D b r rest opened' (.ok b') :=
  ⟨r', [], by simp, by simpa using hAt, hLeads⟩

include D in
/-- An element with text takes a single pass. -/
theorem reads_start_text (b : Build E) {r r₁ r' : Q.Reader} {rest txt : Text}
    {opened' : List Name} (t : Tag) (hText : (kindOf t).readsText = true)
    (hStart : Q.readEvent r = (.ok (.start t.bytesStart), r₁))
    (hRead : Q.readText r₁ t.name.val = (.ok txt, r')) (hAt : D.At r' rest opened') :
    Reads D b r rest opened' (b.text Q t txt) := by
  have hArm := onStart_text D b r₁ r' t txt hText hRead
  cases hEffect : b.text Q t txt with
  | error panic =>
      rw [hEffect] at hArm
      exact UnboundedLoop.Yields.of_done (pass_start_panic hStart hArm)
  | ok b' =>
      rw [hEffect] at hArm
      exact Reads.of_at D hAt (.of_next (pass_start hStart hArm))

include D in
/-- The start of an element that holds others takes one pass. -/
theorem leads_start (b : Build E) {r r' : Q.Reader} (t : Tag)
    (hContainer : (kindOf t).readsText = false)
    (hStart : Q.readEvent r = (.ok (.start t.bytesStart), r')) :
    Leads (b.at r) ((b.start Q t).at r') :=
  .of_next (pass_start hStart (onStart_container D b r' t hContainer))

/-- So does its end. -/
theorem leads_stop (b : Build E) {r r' : Q.Reader} {name : String}
    (hStop : Q.readEvent r = (.ok (.stop name), r')) : Leads (b.at r) ((b.stop name).at r') := by
  apply UnboundedLoop.LeadsTo.of_next
  simp only [ParseState.pass, Build.at, hStop]
  exact congrArg Sum.inl (onEnd_at b r' name)

include D in
/-- An item at the very front of the unread text. -/
theorem reads_item_front (b : Build E) {r : Q.Reader} {rest : Text} {opened opened' : List Name}
    (item : Item) (hNest : item.nest opened = some opened')
    (h : D.At r (item.source ++ rest) opened) (hText : ∀ data, item ≠ .text data) :
    Reads D b r rest opened' (item.apply Q b) := by
  cases item with
  | text data => exact absurd rfl (hText data)
  | opening tag =>
      obtain ⟨r', hStart, hAt⟩ := D.opening tag.tag h
      obtain rfl := Option.some.inj hNest
      exact Reads.of_at D hAt (leads_start D b tag.tag tag.container hStart)
  | closing name trail =>
      obtain rfl := nest_closing hNest
      obtain ⟨r', hStop, hAt⟩ := D.closing name trail h
      exact Reads.of_at D hAt (leads_stop b hStop)
  | empty tag =>
      obtain ⟨r₁, hStart, hExpanding⟩ := D.empty tag h
      obtain rfl := Option.some.inj hNest
      cases hKind : (kindOf tag).readsText with
      | true =>
          obtain ⟨r', hRead, hAt⟩ := D.readTextEmpty hExpanding
          simpa [Item.apply, hKind] using reads_start_text D b tag hKind hStart hRead hAt
      | false =>
          obtain ⟨r', hStop, hAt⟩ := D.expanded hExpanding
          have hLeads := (leads_start D b tag hKind hStart).trans (leads_stop _ hStop)
          simpa [Item.apply, hKind] using Reads.of_at D hAt hLeads
  | leaf tag content trail =>
      obtain rfl := Option.some.inj hNest
      have hSource : (Item.leaf tag content trail).source ++ rest =
          (Markup.opening tag.tag).source ++
            (content.val ++ closingSource tag.tag.name trail ++ rest) := by
        simp [Item.source]
      rw [hSource] at h
      obtain ⟨r₁, hStart, hContent⟩ := D.opening tag.tag h
      obtain ⟨r', hRead, hAt⟩ := D.readText content.noMarkup hContent
      exact reads_start_text D b tag.tag tag.text hStart hRead hAt
  | misc m =>
      obtain rfl := Option.some.inj hNest
      obtain ⟨r', hRead, hAt⟩ := D.misc m h
      apply Reads.of_at D hAt
      apply UnboundedLoop.LeadsTo.of_next
      obtain ⟨kind, body, hEnds⟩ := m
      cases kind <;> simp [ParseState.pass, Build.at, hRead, Misc.event]

/-- Items other than character data start with the character that ends it. -/
theorem Item.source_head (item : Item) (hText : ∀ data, item ≠ .text data) :
    ∃ rest, item.source = '<' :: rest := by
  cases item with
  | text data => exact absurd rfl (hText data)
  | opening tag => exact (Markup.opening tag.tag).source_head
  | closing name trail => exact (Markup.closing name trail).source_head
  | empty tag => exact (Markup.empty tag).source_head
  | leaf tag content trail =>
      obtain ⟨rest, hSource⟩ := (Markup.opening tag.tag).source_head
      exact ⟨_, by rw [Item.source, hSource, List.cons_append]⟩
  | misc m => exact (Markup.misc m).source_head

/-- All items but character data start with an angle bracket. -/
theorem Item.atMarkup (item : Item) (rest : Text) (hText : ∀ data, item ≠ .text data) :
    AtMarkup (item.source ++ rest) := by
  obtain ⟨tail, hSource⟩ := item.source_head hText
  rw [hSource]
  exact AtMarkup.cons _

include D in
/-- The step lemma: an item after any pending character data. -/
theorem reads_item (b : Build E) {r : Q.Reader} {u rest : Text} {opened opened' : List Name}
    (item : Item) (hNest : item.nest opened = some opened') (hData : '<' ∉ u)
    (h : D.At r (u ++ (item.source ++ rest)) opened) :
    Reads D b r rest opened' (item.apply Q b) := by
  by_cases hText : ∃ data, item = .text data
  · obtain ⟨data, rfl⟩ := hText
    obtain rfl := Option.some.inj hNest
    refine ⟨r, u ++ data.val, ?_, by simpa [Item.source] using h, .refl _⟩
    simp [hData, data.noMarkup]
  · simp only [not_exists] at hText
    obtain ⟨r₁, hAt, hLeads⟩ := leads_data D b hData (item.atMarkup rest hText) h
    exact Reads.of_leads D hLeads (reads_item_front D b item hNest hAt hText)

include D in
/-- The run lemma, by induction on the items. -/
theorem reads_items (b : Build E) {r : Q.Reader} {u rest : Text} {opened opened' : List Name}
    (items : List Item) (hNest : nest opened items = some opened') (hData : '<' ∉ u)
    (h : D.At r (u ++ (source items ++ rest)) opened) :
    Reads D b r rest opened' (items.foldlM (Item.apply Q) b) := by
  induction items generalizing b r u opened with
  | nil =>
      obtain rfl := Option.some.inj hNest
      exact ⟨r, u, hData, by simpa using h, .refl _⟩
  | cons item items ih =>
      rw [nest_cons, Option.bind_eq_some_iff] at hNest
      obtain ⟨middle, hItem, hItems⟩ := hNest
      rw [source_cons, List.append_assoc] at h
      have hStep := reads_item D b item hItem hData h
      rw [List.foldlM_cons]
      cases hEffect : item.apply Q b with
      | error panic =>
          rw [hEffect] at hStep
          exact hStep
      | ok b₁ =>
          rw [hEffect] at hStep
          obtain ⟨r₁, u₁, hData₁, hAt₁, hLeads₁⟩ := hStep
          exact Reads.of_leads D hLeads₁ (ih b₁ hItems hData₁ hAt₁)

/-- What the loop stops with after some items, from what it stops with behind them. -/
theorem Reads.stops {b : Build E} {r : Q.Reader} {rest : Text} {opened' : List Name}
    {effect : Except (Panic Q.Error) (Build E)}
    {outcome : Build E → Except (Panic Q.Error) (List (CliObject E))}
    (h : Reads D b r rest opened' effect)
    (hRest : ∀ b' r' u, '<' ∉ u → D.At r' (u ++ rest) opened' → Stops (b'.at r') (outcome b')) :
    Stops (b.at r) (effect.bind outcome) := by
  cases effect with
  | error panic => exact h
  | ok b' =>
      obtain ⟨r', u, hData, hAt, hLeads⟩ := h
      exact hLeads _ (hRest b' r' u hData hAt)

include D in
/-- From the initial state properly nested items are read one after another, and the
text after them is left. -/
theorem reads_initial {items : List Item} {opened : List Name} (hNest : nest [] items = some opened)
    (rest : Text) : Reads D (Build.initial E) (ParseState.initial Q E (source items ++ rest)).reader
      rest opened (build Q E items) := by
  have hAt : D.At (ParseState.initial Q E (source items ++ rest)).reader
      ([] ++ (source items ++ rest)) [] := D.fromStr (source items ++ rest)
  exact reads_items D (Build.initial E) items hNest (by simp) hAt

include D in
/-- On the text of properly nested items the parser stops with what the fold of
the items computes, also when elements are still open at the end and when
character data follows. -/
theorem parsesTo_cut {items : List Item} {opened : List Name} (hNest : nest [] items = some opened)
    {u : Text} (hData : '<' ∉ u) :
    ParsesTo Q E (source items ++ u) ((build Q E items).map Build.objs) := by
  have hStops : ParsesTo Q E (source items ++ u) ((build Q E items).bind fun b => .ok b.objs) :=
    (reads_initial D hNest u).stops D fun b r v hPending hAt =>
      stops_eof D b (by simp [hPending, hData]) hAt
  exact hStops

include D in
/-- On the source of properly nested items the loop comes to the outcome of their
fold. -/
theorem parsesTo_source {items : List Item} {opened : List Name}
    (hNest : nest [] items = some opened) :
    ParsesTo Q E (source items) ((build Q E items).map Build.objs) := by
  have hCut : ParsesTo Q E (source items ++ []) _ := parsesTo_cut D hNest (by simp)
  rwa [List.append_nil] at hCut

end PwshHost.CliXml
