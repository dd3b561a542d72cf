import PwshHost.CliXml.Signals
import PwshHost.CliXml.TextDecoding
import PwshHost.Control.Fold

/-! String data cannot influence structure: documents that differ in the text
of one string element, or in the name of one leaf, have outcomes that differ in
that entry at most. -/
namespace PwshHost.CliXml

open Xml
open Rust
open FailingFold

/-- One entry of an object, as it is and as it may be instead. -/
inductive Change (E : Crates) where
  | value (entry : Nat) (old new : CliValue E)
  | typeName (entry : Nat) (old new : Text)
  | repr (old new : Text)

namespace Change

variable {E : Crates}

/-- The objects are equal but for that entry. A text representation may have
been replaced since. -/
def Between (c : Change E) (o o' : CliObject E) : Prop :=
  match c with
  | .value entry old new =>
    o.values[entry]? = some old ∧ o' = { o with values := o.values.set entry new }
  | .typeName entry old new =>
    o.typeNames[entry]? = some old ∧ o' = { o with typeNames := o.typeNames.set entry new }
  | .repr old new =>
    o' = o ∨ (o.stringRepr = some old ∧ o' = { o with stringRepr := some new })

/-- The lists are equal but for that entry of the object at `index`. -/
def Within (c : Change E) (index : Nat) (objs objs' : List (CliObject E)) : Prop :=
  (objs.length ≤ index ∧ objs' = objs) ∨
    ∃ o o', objs[index]? = some o ∧ c.Between o o' ∧ objs' = objs.set index o'

/-- The same for a state of the parser, where the object may be unfinished. -/
def Pending (c : Change E) (index : Nat) (b b' : Build E) : Prop :=
  (index = b.objs.length ∧ b'.objs = b.objs ∧ c.Between b.obj b'.obj) ∨
    ∃ o o', b.objs[index]? = some o ∧ c.Between o o' ∧
      b'.objs = b.objs.set index o' ∧ b'.obj = b.obj

/-- When the parser stops, an entry of an unfinished object has not reached the
list. -/
theorem Pending.within {c : Change E} {index : Nat} {b b' : Build E} (h : c.Pending index b b') :
    c.Within index b.objs b'.objs := by
  rcases h with hOpen | hDone
  · obtain ⟨hIndex, hObjs, -⟩ := hOpen
    exact .inl ⟨hIndex.ge, hObjs⟩
  · obtain ⟨o, o', hAt, hBetween, hObjs, -⟩ := hDone
    exact .inr ⟨o, o', hAt, hBetween, hObjs⟩

end Change

/-- What a signal adds to an object. -/
structure Growth (E : Crates) where
  refId : Option Text
  values : List (CliValue E)
  typeNames : List Text
  stringRepr : Option Text

variable {E : Crates}

def CliObject.grow (o : CliObject E) (g : Growth E) : CliObject E :=
  { o with
    refId := g.refId.or o.refId
    values := o.values ++ g.values
    typeNames := o.typeNames ++ g.typeNames
    stringRepr := g.stringRepr.or o.stringRepr }

/-- A signal fails, adds to the object or finishes it, whatever was built before. -/
inductive Effect (Q : PullReader) (E : Crates) where
  | fail (panic : Panic Q.Error)
  | grow (g : Growth E)
  | finish

def Effect.run {Q : PullReader} (b : Build E) : Effect Q E → Except (Panic Q.Error) (Build E)
  | .fail panic => .error panic
  | .grow g => .ok { b with obj := b.obj.grow g }
  | .finish => .ok b.finish

/-- What a signal does depends on the signal alone, not on what was built before. -/
theorem Signal.effect {Q : PullReader} (sent : Signal) :
    ∃ e : Effect Q E, ∀ b : Build E, sent.apply Q b = e.run b := by
  cases sent with
  | enter tag =>
      refine ⟨.grow ⟨attrValue Q tag "RefId", [], [], none⟩, fun b => ?_⟩
      simp [Signal.apply, Effect.run, CliObject.grow, CliObject.enter]
  | leave => exact ⟨.finish, fun b => rfl⟩
  | null tag =>
      refine ⟨.grow ⟨none, [.cliNull (CliNull.new (attrValue Q tag "N"))], [], none⟩, fun b => ?_⟩
      simp [Signal.apply, Effect.run, CliObject.grow, Build.push]
  | text tag txt =>
      simp only [Signal.apply, Build.text]
      cases hKind : kindOf tag with
      | t => exact ⟨.grow ⟨none, [], [txt], none⟩, fun b => by simp [Effect.run, CliObject.grow]⟩
      | toString =>
          exact ⟨.grow ⟨none, [], [], some txt⟩, fun b => by simp [Effect.run, CliObject.grow]⟩
      | leaf kind =>
          cases hDecode : (kind.decode E (attrValue Q tag "N") txt :
              Except (Panic Q.Error) _) with
          | error panic => exact ⟨.fail panic, fun b => by simp [hDecode, Effect.run, Except.map]⟩
          | ok val =>
              refine ⟨.grow ⟨none, [val], [], none⟩, fun b => ?_⟩
              simp [hDecode, Effect.run, CliObject.grow, Except.map, Build.push]
      | _ =>
          exact ⟨.grow ⟨none, [], [], none⟩, fun b => by simp [Effect.run, CliObject.grow]⟩

namespace Change

/-- An entry is not moved by what comes after it. -/
theorem getElem?_of_append {α : Type} {l more : List α} {i : Nat} {a : α} (h : l[i]? = some a) :
    (l ++ more)[i]? = some a ∧ ∀ b, (l ++ more).set i b = l.set i b ++ more := by
  have hLength : i < l.length := (List.getElem?_eq_some_iff.mp h).1
  exact ⟨by rw [List.getElem?_append_left hLength, h], fun b => List.set_append_left i b hLength⟩

/-- An entry stays where it is while its object grows. Only a text representation
may be replaced. -/
theorem Between.grow {c : Change E} {o o' : CliObject E} (h : c.Between o o') (g : Growth E) :
    c.Between (o.grow g) (o'.grow g) := by
  cases c with
  | value entry old new =>
      obtain ⟨hAt, rfl⟩ := h
      obtain ⟨hAt', hSet⟩ := getElem?_of_append hAt
      exact ⟨hAt', by simp [CliObject.grow, hSet]⟩
  | typeName entry old new =>
      obtain ⟨hAt, rfl⟩ := h
      obtain ⟨hAt', hSet⟩ := getElem?_of_append hAt
      exact ⟨hAt', by simp [CliObject.grow, hSet]⟩
  | repr old new =>
      rcases h with rfl | hRepr
      · exact .inl rfl
      · obtain ⟨hOld, rfl⟩ := hRepr
        cases hMore : g.stringRepr with
        | none =>
            exact .inr ⟨by simp [CliObject.grow, hMore, hOld], by simp [CliObject.grow, hMore]⟩
        | some more => exact .inl (by simp [CliObject.grow, hMore])

/-- The step lemma: a signal keeps two states equal but for the entry. -/
theorem Pending.step {Q : PullReader} {c : Change E} {index : Nat} {b b' : Build E}
    (h : c.Pending index b b') (sent : Signal) :
    Paired (c.Pending index) (sent.apply Q b) (sent.apply Q b') := by
  obtain ⟨e, hEffect⟩ := sent.effect (Q := Q) (E := E)
  rw [hEffect, hEffect]
  cases e with
  | fail panic => exact .error panic
  | grow g =>
      apply Paired.ok
      rcases h with hOpen | hDone
      · obtain ⟨hIndex, hObjs, hBetween⟩ := hOpen
        exact .inl ⟨hIndex, hObjs, hBetween.grow g⟩
      · obtain ⟨o, o', hAt, hBetween, hObjs, hObj⟩ := hDone
        exact .inr ⟨o, o', hAt, hBetween, hObjs, congrArg (CliObject.grow · g) hObj⟩
  | finish =>
      apply Paired.ok
      rcases h with hOpen | hDone
      · obtain ⟨hIndex, hObjs, hBetween⟩ := hOpen
        refine .inr ⟨b.obj, b'.obj, ?_, hBetween, ?_, rfl⟩
        · simp [Build.finish, hIndex]
        · simp [Build.finish, hIndex, hObjs]
      · obtain ⟨o, o', hAt, hBetween, hObjs, hObj⟩ := hDone
        obtain ⟨hAt', hSet⟩ := getElem?_of_append hAt
        exact .inr ⟨o, o', hAt', hBetween, by simp [Build.finish, hObjs, hObj, hSet], rfl⟩

end Change

section Documents

variable {Q : PullReader} (D : Q.Documented) (hMixed : D.ReadsMixed)

include hMixed in
/-- Where the nodes that are put in one place of a document send signals that
differ in one entry at most, so do the outcomes. The object and the entry are
found from what stands before that place. -/
theorem outcomes_paired {V : Type} (before after : List Node) (node : V → Node)
    (hNest : ∀ v, WellNested (before ++ node v :: after)) (sent : V → Signal)
    (hSent : ∀ v, (node v).signals = [sent v]) (entryOf : Build E → Nat)
    (changes : Nat → V → V → Change E → Prop)
    (hChange : ∀ (b : Build E) (v v' : V),
      Paired (fun b₁ b₂ => ∃ c, changes (entryOf b) v v' c ∧ c.Pending b.objs.length b₁ b₂)
        ((sent v).apply Q b) ((sent v').apply Q b)) :
    ∃ index entry, ∀ v v', ∃ o₁ o₂,
      ParsesTo Q E (nodesSource (before ++ node v :: after)) o₁ ∧
      ParsesTo Q E (nodesSource (before ++ node v' :: after)) o₂ ∧
      Paired (fun objs objs' => ∃ c, changes entry v v' c ∧ c.Within index objs objs') o₁ o₂ := by
  have hParses : ∀ v, ParsesTo Q E (nodesSource (before ++ node v :: after))
      (outcomeOf Q E (signals before ++ sent v :: signals after)) := by
    intro v
    have hOutcome : ParsesTo Q E _ _ := parsesTo_signals D hMixed (hNest v)
    rwa [signals_append, signals_cons, hSent] at hOutcome
  have hSplit : ∀ v, outcomeOf Q E (signals before ++ sent v :: signals after) =
      ((signals before).foldlM (Signal.apply Q) (Build.initial E) >>= fun b =>
        (sent v).apply Q b >>= fun b =>
          (signals after).foldlM (Signal.apply Q) b).map Build.objs := by
    intro v
    rw [outcomeOf, List.foldlM_append]
    rfl
  cases hBefore : (signals before).foldlM (Signal.apply Q) (Build.initial E) with
  | error panic =>
      refine ⟨0, 0, fun v v' => ⟨_, _, hParses v, hParses v', ?_⟩⟩
      rw [hSplit, hSplit, hBefore]
      exact .error panic
  | ok b =>
      refine ⟨b.objs.length, entryOf b, fun v v' => ⟨_, _, hParses v, hParses v', ?_⟩⟩
      rw [hSplit, hSplit, hBefore]
      refine Paired.map ((hChange b v v').bind fun b₁ b₂ hPending => ?_) ?_
        (R := fun b₁ b₂ => ∃ c, changes (entryOf b) v v' c ∧ c.Pending b.objs.length b₁ b₂)
      · apply foldlM_paired _ _ hPending
        intro s t i h
        obtain ⟨c, hc, hStates⟩ := h
        exact (hStates.step i).mono fun _ _ h => ⟨c, hc, h⟩
      · intro b₁ b₂ h
        obtain ⟨c, hc, hStates⟩ := h
        exact ⟨c, hc, hStates.within⟩

/-- The elements that hold arbitrary strings. -/
inductive StringElement where
  | s
  | sbk
  | version
  | xd
  | t
  | toString
  deriving DecidableEq, Repr

def StringElement.kind : StringElement → ElementKind
  | .s => .leaf .string
  | .sbk => .leaf .scriptBlock
  | .version => .leaf .version
  | .xd => .leaf .xmlDocument
  | .t => .t
  | .toString => .toString

def StringElement.change (E : Crates) (k : StringElement) (name : Option Text) (entry : Nat)
    (old new : Text) : Change E :=
  match k with
  | .s => .value entry (.cliString (Leaf.new name old)) (.cliString (Leaf.new name new))
  | .sbk =>
    .value entry (.cliScriptBlock (Leaf.new name old)) (.cliScriptBlock (Leaf.new name new))
  | .version => .value entry (.cliVersion (Leaf.new name old)) (.cliVersion (Leaf.new name new))
  | .xd =>
    .value entry (.cliXmlDocument (Leaf.new name old)) (.cliXmlDocument (Leaf.new name new))
  | .t => .typeName entry old new
  | .toString => .repr old new

/-- Where the next text of the element goes. -/
def StringElement.entryOf (k : StringElement) (b : Build E) : Nat :=
  match k with
  | .t => b.obj.typeNames.length
  | _ => b.obj.values.length

/-- Two values pushed on equal objects are one entry that differs. -/
theorem Change.pending_push (b : Build E) (old new : CliValue E) :
    (Change.value b.obj.values.length old new).Pending b.objs.length (b.push old) (b.push new) := by
  refine .inl ⟨rfl, rfl, ?_, ?_⟩
  · simp [Build.push]
  · simp [Build.push]

/-- Two texts of a string element make two states that differ in the entry of the
text, and neither of them panics. -/
theorem StringElement.text_paired (k : StringElement) (b : Build E) {tag : Tag}
    (hKind : kindOf tag = k.kind) (old new : Text) :
    Paired ((k.change E (attrValue Q tag "N") (k.entryOf b) old new).Pending b.objs.length)
      (b.text Q tag old) (b.text Q tag new) := by
  cases k with
  | t =>
      simp only [Build.text, hKind, StringElement.kind]
      exact .ok (.inl ⟨rfl, rfl, by simp [StringElement.entryOf], by simp [StringElement.entryOf]⟩)
  | toString =>
      simp only [Build.text, hKind, StringElement.kind]
      exact .ok (.inl ⟨rfl, rfl, .inr ⟨rfl, rfl⟩⟩)
  | _ =>
      simp only [Build.text, hKind, StringElement.kind]
      exact .ok (Change.pending_push b _ _)

variable (E) in
def CliValue.rename (name : Option Text) : CliValue E → CliValue E
  | .cliObject prop => .cliObject { prop with name := name }
  | .cliNull _ => .cliNull ⟨name⟩
  | .cliString prop => .cliString { prop with name := name }
  | .cliChar prop => .cliChar { prop with name := name }
  | .cliBool prop => .cliBool { prop with name := name }
  | .cliDateTime prop => .cliDateTime { prop with name := name }
  | .cliDuration prop => .cliDuration { prop with name := name }
  | .cliUInt8 prop => .cliUInt8 { prop with name := name }
  | .cliInt8 prop => .cliInt8 { prop with name := name }
  | .cliUInt16 prop => .cliUInt16 { prop with name := name }
  | .cliInt16 prop => .cliInt16 { prop with name := name }
  | .cliUInt32 prop => .cliUInt32 { prop with name := name }
  | .cliInt32 prop => .cliInt32 { prop with name := name }
  | .cliUInt64 prop => .cliUInt64 { prop with name := name }
  | .cliInt64 prop => .cliInt64 { prop with name := name }
  | .cliFloat prop => .cliFloat { prop with name := name }
  | .cliDouble prop => .cliDouble { prop with name := name }
  | .cliDecimal prop => .cliDecimal { prop with name := name }
  | .cliBuffer prop => .cliBuffer { prop with name := name }
  | .cliGuid prop => .cliGuid { prop with name := name }
  | .cliUri prop => .cliUri { prop with name := name }
  | .cliVersion prop => .cliVersion { prop with name := name }
  | .cliXmlDocument prop => .cliXmlDocument { prop with name := name }
  | .cliScriptBlock prop => .cliScriptBlock { prop with name := name }

/-- Decoding with another name is decoding and renaming: the name is only stored. -/
theorem newFromStr_rename {ε α : Type} (parse : Text → Option α) (wrap : Leaf α → CliValue E)
    {name name' : Option Text} (txt : Text)
    (hWrap : ∀ value, wrap (Leaf.new name' value) = (wrap (Leaf.new name value)).rename E name') :
    ((do return wrap (← unwrap (Leaf.newFromStr parse name' txt))) :
      Except (Panic ε) (CliValue E)) =
      (do return wrap (← unwrap (Leaf.newFromStr parse name txt))).map
        (CliValue.rename E name') := by
  rw [Leaf.newFromStr, Leaf.newFromStr]
  cases parse txt with
  | none => rfl
  | some value => exact congrArg Except.ok (hWrap value)

/-- A decoder does not look at the name. -/
theorem LeafKind.decode_rename {ε : Type} (kind : LeafKind) (name name' : Option Text)
    (txt : Text) :
    (kind.decode E name' txt : Except (Panic ε) (CliValue E)) =
      (kind.decode E name txt).map (CliValue.rename E name') := by
  cases kind with
  | string => rfl
  | version => rfl
  | xmlDocument => rfl
  | scriptBlock => rfl
  | char =>
      simp only [LeafKind.decode, CliChar.newFromStr]
      cases parseInt 0 65535 txt with
      | none => rfl
      | some unit =>
          dsimp only
          cases (decodeUtf16 [unit]).getLast? with
          | none => rfl
          | some last => cases last <;> rfl
  | duration =>
      simp only [LeafKind.decode, CliDuration.newFromStr]
      cases (parseIso8601Duration E.duration txt : Except (Panic ε) _) with
      | error panic => rfl
      | ok value => cases value <;> rfl
  | bool => exact newFromStr_rename parseBool .cliBool txt fun _ => rfl
  | uint8 => exact newFromStr_rename _ .cliUInt8 txt fun _ => rfl
  | int8 => exact newFromStr_rename _ .cliInt8 txt fun _ => rfl
  | uint16 => exact newFromStr_rename _ .cliUInt16 txt fun _ => rfl
  | int16 => exact newFromStr_rename _ .cliInt16 txt fun _ => rfl
  | uint32 => exact newFromStr_rename _ .cliUInt32 txt fun _ => rfl
  | int32 => exact newFromStr_rename _ .cliInt32 txt fun _ => rfl
  | uint64 => exact newFromStr_rename _ .cliUInt64 txt fun _ => rfl
  | int64 => exact newFromStr_rename _ .cliInt64 txt fun _ => rfl
  | dateTime => exact newFromStr_rename _ .cliDateTime txt fun _ => rfl
  | float => exact newFromStr_rename _ .cliFloat txt fun _ => rfl
  | double => exact newFromStr_rename _ .cliDouble txt fun _ => rfl
  | decimal => exact newFromStr_rename _ .cliDecimal txt fun _ => rfl
  | buffer => exact newFromStr_rename _ .cliBuffer txt fun _ => rfl
  | guid => exact newFromStr_rename _ .cliGuid txt fun _ => rfl
  | uri => exact newFromStr_rename _ .cliUri txt fun _ => rfl

end Documents

/-- An element with a place for the value of its `N` attribute. -/
structure NamedTag where
  name : Name
  before : List Attr
  gap : Blanks
  gap_ne : gap.val ≠ []
  beforeEq : Blanks
  afterEq : Blanks
  quote : Quote
  after : List Attr
  trail : Blanks
  keys : (before.map Attr.key ++ nameKey :: after.map Attr.key).Nodup

/-- No quote of either kind is left in an escaped text. -/
theorem escape_unquoted (quote : Quote) (v : Text) : quote.char ∉ escape v ∧ '<' ∉ escape v := by
  have hChar : ∀ c, ∀ d ∈ escapeChar c, d ≠ quote.char := by
    intro c
    unfold escapeChar
    split_ifs with hAmp hLt hGt hQuot hApos
    iterate 5
      · cases quote <;> decide
    · intro d hMem
      obtain rfl := List.mem_singleton.mp hMem
      cases quote <;> assumption
  refine ⟨?_, (escape_quoted v).2⟩
  intro hMem
  obtain ⟨c, -, hQuote⟩ := List.mem_flatMap.mp hMem
  exact hChar c _ hQuote rfl

def NamedTag.nameAttr (t : NamedTag) (v : Text) : Attr where
  gap := t.gap
  gap_ne := t.gap_ne
  key := nameKey
  beforeEq := t.beforeEq
  afterEq := t.afterEq
  quote := t.quote
  raw := escape v
  quoted := escape_unquoted t.quote v

/-- The tag with an escaped text as the value of the attribute. -/
def NamedTag.tag (t : NamedTag) (v : Text) : Tag where
  name := t.name
  attrs := t.before ++ t.nameAttr v :: t.after
  trail := t.trail
  keys := by simpa [NamedTag.nameAttr] using t.keys

/-- The name is read back as it was before it was escaped, since no other attribute
has its key. -/
theorem NamedTag.attrValue_tag {Q : PullReader} (D : Q.Documented) (t : NamedTag) (v : Text) :
    attrValue Q (t.tag v) "N" = some v := by
  have hBefore : ∀ a ∈ t.before, (a.key.val == "N") = false := by
    intro a hMem
    rw [beq_eq_false_iff_ne]
    intro hKey
    have hSame : a.key = nameKey := by
      cases hEq : a.key
      simp_all [nameKey]
    have hDisjoint := (List.nodup_append.mp t.keys).2.2
    exact hDisjoint _ (List.mem_map_of_mem hMem) nameKey (by simp) hSame
  have hFind : (t.tag v).find "N" = some (t.nameAttr v) := by
    rw [Tag.find, NamedTag.tag, List.find?_append, List.find?_eq_none.mpr]
    · simp [NamedTag.nameAttr, nameKey]
    · intro a hMem
      simp [hBefore a hMem]
  simp only [attrValue, hFind, Option.bind_some, NamedTag.nameAttr, Attr.attribute, D.unescape]

/-- A leaf or a null with a place for its name. -/
inductive NamedLeaf where
  | text (t : NamedTag) (kind : LeafKind) (hKind : ElementKind.ofName t.name.val = .leaf kind)
    (content : CharData) (trail : Blanks)
  | mixed (t : NamedTag) (kind : LeafKind) (hKind : ElementKind.ofName t.name.val = .leaf kind)
    (content : Mixed) (trail : Blanks)
  | empty (t : NamedTag) (kind : LeafKind) (hKind : ElementKind.ofName t.name.val = .leaf kind)
  | null (t : NamedTag) (hNil : ElementKind.ofName t.name.val = .nil)
  | emptyNull (t : NamedTag) (hNil : ElementKind.ofName t.name.val = .nil)

def NamedTag.textTag (t : NamedTag) {kind : LeafKind}
    (hKind : ElementKind.ofName t.name.val = .leaf kind) (v : Text) : TextTag :=
  ⟨t.tag v, congrArg ElementKind.readsText hKind⟩

namespace NamedLeaf

/-- The node with the escaped name in it. A null is followed by its end tag. -/
def node : NamedLeaf → Text → Node
  | .text t _ hKind content trail, v => .item (.leaf (t.textTag hKind v) content trail)
  | .mixed t _ hKind content trail, v => .mixed (t.textTag hKind v) content trail
  | .empty t _ _, v => .item (.empty (t.tag v))
  | .null t hNil, v => .item (.opening ⟨t.tag v, congrArg ElementKind.readsText hNil⟩)
  | .emptyNull t _, v => .item (.empty (t.tag v))

def sent : NamedLeaf → Text → Signal
  | .text t _ _ content _, v => .text (t.tag v) (reported content.val)
  | .mixed t _ _ content _, v => .text (t.tag v) content.reported
  | .empty t _ _, v => .text (t.tag v) []
  | .null t _, v => .null (t.tag v)
  | .emptyNull t _, v => .null (t.tag v)

theorem kindOf_tag (t : NamedTag) (v : Text) :
    kindOf (t.tag v) = ElementKind.ofName t.name.val := rfl

/-- A leaf or a null sends one signal. -/
theorem signals_node (l : NamedLeaf) (v : Text) : (l.node v).signals = [l.sent v] := by
  cases l with
  | text t kind hKind content trail => rfl
  | mixed t kind hKind content trail => rfl
  | empty t kind hKind =>
      simp [node, sent, Node.signals, Item.signals, kindOf_tag, hKind, ElementKind.readsText]
  | null t hNil => simp [node, sent, Node.signals, Item.signals, startSignals, kindOf_tag, hNil]
  | emptyNull t hNil =>
      have hName : (t.tag v).name.val ≠ "Obj" := by
        intro hObj
        rw [← kindOf_tag t v, kindOf_eq_obj.mpr hObj] at hNil
        cases hNil
      simp [node, sent, Node.signals, Item.signals, startSignals, stopSignals, kindOf_tag, hNil,
        hName, ElementKind.readsText]

/-- The name of a leaf does not change what it opens. -/
theorem nest_node (l : NamedLeaf) (v v' : Text) (opened : List Name) :
    (l.node v).nest opened = (l.node v').nest opened := by
  cases l <;> rfl

/-- One value differs, and only in its name. -/
def changes (entry : Nat) (v v' : Text) (c : Change E) : Prop :=
  ∃ val : CliValue E, c = .value entry (val.rename E (some v)) (val.rename E (some v'))

/-- With two names the same text is decoded alike, to values that are equal but for
the name. -/
theorem text_paired {Q : PullReader} (D : Q.Documented) (t : NamedTag) {kind : LeafKind}
    (hKind : ElementKind.ofName t.name.val = .leaf kind) (txt : Text) (b : Build E)
    (v v' : Text) :
    Paired (fun b₁ b₂ => ∃ c, changes b.obj.values.length v v' c ∧ c.Pending b.objs.length b₁ b₂)
      (b.text Q (t.tag v) txt) (b.text Q (t.tag v') txt) := by
  have hText : ∀ v, b.text Q (t.tag v) txt =
      ((kind.decode E none txt).map (CliValue.rename E (some v))).map b.push := by
    intro v
    simp only [Build.text, kindOf_tag, hKind, t.attrValue_tag D, ← LeafKind.decode_rename]
  rw [hText, hText]
  cases (kind.decode E none txt : Except (Panic Q.Error) (CliValue E)) with
  | error panic => exact .error panic
  | ok val => exact .ok ⟨_, ⟨val, rfl⟩, Change.pending_push b _ _⟩

/-- The step lemma: two leaves that differ in the name make states that differ in
one entry. -/
theorem sent_paired {Q : PullReader} (D : Q.Documented) (l : NamedLeaf) (b : Build E)
    (v v' : Text) :
    Paired (fun b₁ b₂ => ∃ c, changes b.obj.values.length v v' c ∧ c.Pending b.objs.length b₁ b₂)
      ((l.sent v).apply Q b) ((l.sent v').apply Q b) := by
  have hNull : ∀ t : NamedTag, Paired (fun b₁ b₂ => ∃ c,
      changes b.obj.values.length v v' c ∧ c.Pending b.objs.length b₁ b₂)
      ((Signal.null (t.tag v)).apply Q b) ((Signal.null (t.tag v')).apply Q b) := by
    intro t
    simp only [Signal.apply, t.attrValue_tag D]
    exact .ok ⟨_, ⟨.cliNull ⟨none⟩, rfl⟩, Change.pending_push b _ _⟩
  cases l with
  | text t kind hKind content trail => exact text_paired D t hKind _ b v v'
  | mixed t kind hKind content trail => exact text_paired D t hKind _ b v v'
  | empty t kind hKind => exact text_paired D t hKind _ b v v'
  | null t hNil => exact hNull t
  | emptyNull t hNil => exact hNull t

end NamedLeaf

/-- A node can be replaced by one that opens and closes the same. -/
theorem nestNodes_exchange {before after : List Node} {node node' : Node}
    (hNode : ∀ opened, node.nest opened = node'.nest opened)
    (h : WellNested (before ++ node :: after)) : WellNested (before ++ node' :: after) := by
  simp only [WellNested, nestNodes_append, nestNodes_cons, hNode] at h ⊢
  exact h

variable {Q : PullReader} (D : Q.Documented) (hMixed : D.ReadsMixed)

include hMixed in
/-- Whatever strings stand in one string element, or in the `N` attribute of
one leaf, the parser panics alike or returns lists that are equal but for that
value, type name or text representation, and in the second case but for the
name of that value. -/
theorem strings_do_not_interfere :
    (∀ (k : StringElement) (before after : List Node) (tag : TextTag) (content : CharData)
      (trail : Blanks), kindOf tag.tag = k.kind →
      WellNested (before ++ .item (.leaf tag content trail) :: after) →
      ∃ index entry, ∀ old new : CharData, ∃ o₁ o₂,
        ParsesTo Q E (nodesSource (before ++ .item (.leaf tag old trail) :: after)) o₁ ∧
        ParsesTo Q E (nodesSource (before ++ .item (.leaf tag new trail) :: after)) o₂ ∧
        Paired ((k.change E (attrValue Q tag.tag "N") entry (reported old.val)
          (reported new.val)).Within index) o₁ o₂) ∧
    ∀ (l : NamedLeaf) (before after : List Node) (name : Text),
      WellNested (before ++ l.node name :: after) →
      ∃ index entry, ∀ old new : Text, ∃ o₁ o₂,
        ParsesTo Q E (nodesSource (before ++ l.node old :: after)) o₁ ∧
        ParsesTo Q E (nodesSource (before ++ l.node new :: after)) o₂ ∧
        Paired (fun objs objs' => ∃ val : CliValue E,
          (Change.value entry (val.rename E (some old)) (val.rename E (some new))).Within index
            objs objs') o₁ o₂ := by
  constructor
  · intro k before after tag content trail hKind hNest
    have hNode : ∀ (v : CharData) (opened : List Name),
        (Node.item (.leaf tag content trail)).nest opened =
          (Node.item (.leaf tag v trail)).nest opened := fun _ _ => rfl
    obtain ⟨index, entry, hRuns⟩ := outcomes_paired D hMixed before after
      (fun content => .item (.leaf tag content trail))
      (fun v => nestNodes_exchange (hNode v) hNest)
      (fun content => .text tag.tag (reported content.val)) (fun _ => rfl) (E := E) k.entryOf
      (fun entry old new c =>
        c = k.change E (attrValue Q tag.tag "N") entry (reported old.val) (reported new.val))
      (fun b old new => (k.text_paired b hKind _ _).mono fun _ _ h => ⟨_, rfl, h⟩)
    refine ⟨index, entry, fun old new => ?_⟩
    obtain ⟨o₁, o₂, hOld, hNew, hPaired⟩ := hRuns old new
    refine ⟨o₁, o₂, hOld, hNew, hPaired.mono ?_⟩
    intro objs objs' h
    obtain ⟨c, rfl, hWithin⟩ := h
    exact hWithin
  · intro l before after name hNest
    obtain ⟨index, entry, hRuns⟩ := outcomes_paired D hMixed before after l.node
      (fun v => nestNodes_exchange (l.nest_node name v) hNest) l.sent l.signals_node (E := E)
      (fun b => b.obj.values.length) NamedLeaf.changes (l.sent_paired D)
    refine ⟨index, entry, fun old new => ?_⟩
    obtain ⟨o₁, o₂, hOld, hNew, hPaired⟩ := hRuns old new
    refine ⟨o₁, o₂, hOld, hNew, hPaired.mono ?_⟩
    intro objs objs' h
    obtain ⟨c, hChanges, hWithin⟩ := h
    obtain ⟨val, rfl⟩ := hChanges
    exact ⟨val, hWithin⟩

open SliceReader in
/-- Escaped tags in the text of a leaf. -/
theorem strings_do_not_interfere_tags : ∃ index entry o₁ o₂,
    ParsesTo sliceReader textCrates "<Obj><S N=\"n\">v</S></Obj>".toList o₁ ∧
    ParsesTo sliceReader textCrates
      "<Obj><S N=\"n\">&lt;/S&gt;&lt;/Obj&gt;</S></Obj>".toList o₂ ∧
    Paired ((StringElement.s.change textCrates (some ['n']) entry ['v']
      "&lt;/S&gt;&lt;/Obj&gt;".toList).Within index) o₁ o₂ := by
  obtain ⟨index, entry, hRuns⟩ := (strings_do_not_interfere documented readsMixed).1 .s
    [.item (Structural.obj.start none)] [.item Structural.obj.stop]
    (LeafKind.string.tag (some ['n'])) (escapedData ['v']) noBlanks rfl (by decide)
  exact ⟨index, entry, hRuns (escapedData ['v']) (escapedData "</S></Obj>".toList)⟩

end PwshHost.CliXml
