import PwshHost.CliXml.TextDecoding

/-! Flat documents. Objects without objects in them are written as CLIXML, in
any split into sections and with any white space between the elements, and
read back. -/
namespace PwshHost.CliXml

open Xml
open Rust

variable {E : Crates}

/-- The leaf element that a value is written as. A null has an element without
text, and an object none of these. -/
def CliValue.leafKind : CliValue E → Option LeafKind
  | .cliObject _ | .cliNull _ => none
  | .cliString _ => some .string
  | .cliChar _ => some .char
  | .cliBool _ => some .bool
  | .cliDateTime _ => some .dateTime
  | .cliDuration _ => some .duration
  | .cliUInt8 _ => some .uint8
  | .cliInt8 _ => some .int8
  | .cliUInt16 _ => some .uint16
  | .cliInt16 _ => some .int16
  | .cliUInt32 _ => some .uint32
  | .cliInt32 _ => some .int32
  | .cliUInt64 _ => some .uint64
  | .cliInt64 _ => some .int64
  | .cliFloat _ => some .float
  | .cliDouble _ => some .double
  | .cliDecimal _ => some .decimal
  | .cliBuffer _ => some .buffer
  | .cliGuid _ => some .guid
  | .cliUri _ => some .uri
  | .cliVersion _ => some .version
  | .cliXmlDocument _ => some .xmlDocument
  | .cliScriptBlock _ => some .scriptBlock

/-- The decoder for the type of a value inverts the text. -/
def CliValue.SpelledBy (val : CliValue E) (txt : Text) : Prop :=
  match val with
  | .cliObject _ => False
  | .cliNull _ => txt = []
  | .cliString prop | .cliVersion prop | .cliXmlDocument prop | .cliScriptBlock prop =>
    txt = prop.value
  | .cliChar prop =>
    ∃ unit, parseInt 0 65535 txt = some unit ∧ decodeUtf16 [unit] = [.ok prop.value]
  | .cliBool prop => parseBool txt = some prop.value
  | .cliDateTime prop => DateTime.parse E.time txt = some prop.value
  | .cliDuration prop => ∃ x, E.duration.parse txt = some x ∧ E.duration.toStd x = some prop.value
  | .cliUInt8 prop => parseInt 0 255 txt = some prop.value
  | .cliInt8 prop => parseInt (-128) 127 txt = some prop.value
  | .cliUInt16 prop => parseInt 0 65535 txt = some prop.value
  | .cliInt16 prop => parseInt (-32768) 32767 txt = some prop.value
  | .cliUInt32 prop => parseInt 0 4294967295 txt = some prop.value
  | .cliInt32 prop => parseInt (-2147483648) 2147483647 txt = some prop.value
  | .cliUInt64 prop => parseInt 0 18446744073709551615 txt = some prop.value
  | .cliInt64 prop => parseInt (-9223372036854775808) 9223372036854775807 txt = some prop.value
  | .cliFloat prop => E.parseF32 txt = some prop.value
  | .cliDouble prop => E.parseF64 txt = some prop.value
  | .cliDecimal prop => E.parseD128 txt = some prop.value
  | .cliBuffer prop => E.base64Decode txt = some prop.value
  | .cliGuid prop => E.uuidParseStr txt = some prop.value
  | .cliUri prop => E.urlParse txt = some prop.value

/-- A decoder that inverts the text gives the leaf back, with its name. -/
theorem newFromStr_spelled {α : Type} {parse : Text → Option α} {prop : Leaf α} {txt : Text}
    (h : parse txt = some prop.value) : Leaf.newFromStr parse prop.name txt = some prop := by
  rw [Leaf.newFromStr, h]
  rfl

/-- Each kind of leaf is decoded with the decoder of its own type. -/
theorem decode_spelled {ε : Type} {val : CliValue E} {kind : LeafKind} {txt : Text}
    (hKind : val.leafKind = some kind) (h : val.SpelledBy txt) :
    (kind.decode E val.getName txt : Except (Panic ε) _) = .ok val := by
  cases val with
  | cliObject prop => cases hKind
  | cliNull prop => cases hKind
  | cliString prop | cliVersion prop | cliXmlDocument prop | cliScriptBlock prop =>
      obtain rfl := Option.some.inj hKind
      obtain rfl : txt = prop.value := h
      rfl
  | cliChar prop =>
      obtain rfl := Option.some.inj hKind
      obtain ⟨unit, hParse, hUnit⟩ := h
      have hDecode : (CliChar.newFromStr prop.name txt : Except (Panic ε) _) = .ok (some prop) := by
        simp only [CliChar.newFromStr, hParse, hUnit]
        rfl
      simp only [LeafKind.decode, CliValue.getName, hDecode]
      rfl
  | cliDuration prop =>
      obtain rfl := Option.some.inj hKind
      obtain ⟨x, hParse, hStd⟩ := h
      have hDecode : (CliDuration.newFromStr prop.name txt E : Except (Panic ε) _) =
          .ok (some prop) := by
        simp only [CliDuration.newFromStr, parseIso8601Duration, hParse, hStd]
        rfl
      simp only [LeafKind.decode, CliValue.getName, hDecode]
      rfl
  | cliBool prop | cliDateTime prop | cliUInt8 prop | cliInt8 prop | cliUInt16 prop
  | cliInt16 prop | cliUInt32 prop | cliInt32 prop | cliUInt64 prop | cliInt64 prop
  | cliFloat prop | cliDouble prop | cliDecimal prop | cliBuffer prop | cliGuid prop
  | cliUri prop =>
      obtain rfl := Option.some.inj hKind
      have hDecode := newFromStr_spelled h
      simp only [LeafKind.decode, CliValue.getName, CliBool.newFromStr, CliDateTime.newFromStr,
        CliUInt8.newFromStr, CliInt8.newFromStr, CliUInt16.newFromStr, CliInt16.newFromStr,
        CliUInt32.newFromStr, CliInt32.newFromStr, CliUInt64.newFromStr, CliInt64.newFromStr,
        CliFloat.newFromStr, CliDouble.newFromStr, CliDecimal.newFromStr, CliBuffer.newFromStr,
        CliGuid.newFromStr, CliUri.newFromStr, hDecode]
      rfl

/-- Text free of markup that is not blank, unless it is empty. -/
structure SpelledText where
  val : Text
  noMarkup : '<' ∉ val
  notBlank : Blank val → val = []

def SpelledText.data (t : SpelledText) : CharData := ⟨t.val, t.noMarkup⟩

/-- Text that is not blank is reported as it is written. -/
theorem SpelledText.reported (t : SpelledText) : reported t.data.val = t.val := by
  change (if Blank t.val then [] else t.val) = t.val
  split
  · rename_i hBlank
    exact (t.notBlank hBlank).symm
  · rfl

variable (E) in
structure SpelledLeaf where
  val : CliValue E
  text : SpelledText
  spelled : val.SpelledBy text.val

/-- The elements that hold leaves. -/
inductive SectionKind where
  | props
  | ms
  | lst
  | ie
  deriving DecidableEq, Repr

def SectionKind.structural : SectionKind → Structural
  | .props => .props
  | .ms => .ms
  | .lst => .lst
  | .ie => .ie

variable (E) in
/-- Each leaf with the white space before it. -/
structure SectionLayout where
  kind : SectionKind
  leaves : List (Blanks × SpelledLeaf E)
  trail : Blanks

structure TypingLayout where
  refId : Option Text
  names : List (Blanks × SpelledText)
  trail : Blanks

variable (E) in
structure ObjLayout where
  refId : Option Text
  typing : Option (Blanks × TypingLayout)
  repr : Option (Blanks × SpelledText)
  sections : List (Blanks × SectionLayout E)
  trail : Blanks

/-- The object that is laid out. -/
def ObjLayout.object (l : ObjLayout E) : CliObject E where
  name := none
  values := l.sections.flatMap fun s => s.2.leaves.map fun leaf => leaf.2.val
  refId := l.refId
  typeNames := (l.typing.map fun t => t.2.names.map fun name => name.2.val).getD []
  stringRepr := l.repr.map fun t => t.2.val

theorem Blanks.noMarkup (b : Blanks) : '<' ∉ b.val := fun hMem =>
  absurd (b.blank _ hMem) (by decide)

def gap (b : Blanks) : Item := .text ⟨b.val, Blanks.noMarkup b⟩

/-- Things one after another, each with white space before it. -/
def spaced {α : Type} (write : α → List Item) (things : List (Blanks × α)) : List Item :=
  things.flatMap fun thing => gap thing.1 :: write thing.2

def Structural.around (s : Structural) (label : Option Text) (inner : List Item) : List Item :=
  s.start label :: (inner ++ [s.stop])

def SpelledLeaf.write (l : SpelledLeaf E) : List Item :=
  match l.val.leafKind with
  | some kind => [.leaf (kind.tag l.val.getName) l.text.data noBlanks]
  | none => [.empty (Structural.nil.tag l.val.getName).tag]

def SectionLayout.write (s : SectionLayout E) : List Item :=
  s.kind.structural.around none (spaced SpelledLeaf.write s.leaves ++ [gap s.trail])

def writeTypeName (t : SpelledText) : List Item := [.leaf tTag t.data noBlanks]

def TypingLayout.write (t : TypingLayout) : List Item :=
  Structural.tn.around t.refId (spaced writeTypeName t.names ++ [gap t.trail])

def writeRepr (t : SpelledText) : List Item := [.leaf toStringTag t.data noBlanks]

def ObjLayout.inner (l : ObjLayout E) : List Item :=
  spaced TypingLayout.write l.typing.toList ++ (spaced writeRepr l.repr.toList ++
    (spaced SectionLayout.write l.sections ++ [gap l.trail]))

def ObjLayout.write (l : ObjLayout E) : List Item := Structural.obj.around l.refId l.inner

/-- The content of the root element. -/
def writeObjs (layouts : List (Blanks × ObjLayout E)) (trail : Blanks) : List Item :=
  spaced ObjLayout.write layouts ++ [gap trail]

/-- Items that close what they open, have no object among them and contribute
what is listed. -/
structure Writes (Q : PullReader) (items : List Item) (vals : List (CliValue E))
    (names : List Text) (repr : Option Text) : Prop where
  balanced : Balanced items
  plain : ∀ item ∈ items, item.isObj = false
  valid : Valid Q E items
  values : values Q E items = vals
  typeNames : typeNames items = names
  stringRepr : stringRepr items = repr

variable {Q : PullReader}

namespace Writes

variable {items first second : List Item} {vals vals' : List (CliValue E)}
  {names names' : List Text} {repr repr' : Option Text}

/-- Nothing is written by no items. -/
theorem nil : Writes Q [] ([] : List (CliValue E)) [] none :=
  ⟨rfl, by simp, by simp [Valid], rfl, rfl, rfl⟩

/-- Two runs of items write what each of them writes, in this order. Of two text
representations the later one counts. -/
theorem append (hFirst : Writes Q first vals names repr)
    (hSecond : Writes Q second vals' names' repr') :
    Writes Q (first ++ second) (vals ++ vals') (names ++ names') (repr'.or repr) where
  balanced := hFirst.balanced.append hSecond.balanced
  plain item hMem := (List.mem_append.mp hMem).elim (hFirst.plain item) (hSecond.plain item)
  valid item hMem := (List.mem_append.mp hMem).elim (hFirst.valid item) (hSecond.valid item)
  values := by rw [← hFirst.values, ← hSecond.values]; simp [CliXml.values]
  typeNames := by rw [← hFirst.typeNames, ← hSecond.typeNames]; simp [CliXml.typeNames]
  stringRepr := by rw [stringRepr_append, hFirst.stringRepr, hSecond.stringRepr]

/-- White space between elements writes nothing. -/
theorem gap (b : Blanks) : Writes Q [gap b] ([] : List (CliValue E)) [] none where
  balanced := rfl
  plain := by simp [CliXml.gap, Item.isObj]
  valid := by simp [Valid, CliXml.gap, Item.check]
  values := rfl
  typeNames := rfl
  stringRepr := rfl

/-- The elements around leaves, other than the object and the null, write nothing of
their own. -/
theorem around (h : Writes Q items vals names repr) (s : Structural) (label : Option Text)
    (hObj : s ≠ .obj) (hNil : s ≠ .nil) : Writes Q (s.around label items) vals names repr where
  balanced := by
    have hStop : s.stop.nest [s.element] = some [] := by simp [Structural.stop, Item.nest]
    rw [Structural.around, Balanced, nest_cons]
    change nest [s.element] (items ++ [s.stop]) = _
    rw [nest_append, h.balanced.under, Option.bind_some, nest_cons, hStop]
    rfl
  plain := by
    intro item hMem
    simp only [Structural.around, List.mem_cons, List.mem_append, List.not_mem_nil,
      or_false] at hMem
    rcases hMem with rfl | hMem | rfl
    · cases s <;> first | rfl | exact absurd rfl hObj
    · exact h.plain item hMem
    · cases s <;> first | rfl | exact absurd rfl hObj
  valid := by
    intro item hMem
    simp only [Structural.around, List.mem_cons, List.mem_append, List.not_mem_nil,
      or_false] at hMem
    rcases hMem with rfl | hMem | rfl
    · rfl
    · exact h.valid item hMem
    · rfl
  values := by
    have hStart : (s.start label).values Q E = [] := by
      cases s <;> first | rfl | exact absurd rfl hNil
    have hStop : s.stop.values Q E = [] := rfl
    have hItems := h.values
    rw [CliXml.values] at hItems
    simp [CliXml.values, Structural.around, hStart, hStop, hItems]
  typeNames := by
    have hItems := h.typeNames
    rw [CliXml.typeNames] at hItems
    simp [CliXml.typeNames, Structural.around, Structural.start, Structural.stop,
      Item.typeNames, hItems]
  stringRepr := by
    rw [Structural.around, stringRepr_cons, stringRepr_append, h.stringRepr]
    simp [CliXml.stringRepr, Structural.start, Structural.stop, Item.stringRepr]

/-- A list of things that each contribute values only. -/
theorem spaced_values {α : Type} {write : α → List Item} {vals : α → List (CliValue E)}
    (h : ∀ a, Writes Q (write a) (vals a) [] none) (things : List (Blanks × α)) :
    Writes Q (spaced write things) (things.flatMap fun thing => vals thing.2) [] none := by
  induction things with
  | nil => exact nil
  | cons thing things ih =>
      have hHead : Writes Q (CliXml.gap thing.1 :: write thing.2) (vals thing.2) [] none :=
        (gap thing.1).append (h thing.2)
      exact hHead.append ih

/-- Type names are read in the order they are written in. -/
theorem spaced_typeNames (things : List (Blanks × SpelledText)) :
    Writes Q (spaced writeTypeName things) ([] : List (CliValue E))
      (things.map fun thing => thing.2.val) none := by
  induction things with
  | nil => exact nil
  | cons thing things ih =>
      have hName : Writes Q (writeTypeName thing.2) ([] : List (CliValue E)) [thing.2.val] none :=
        { balanced := rfl
          plain := by simp [writeTypeName, Item.isObj]
          valid := by
            intro item hMem
            obtain rfl := List.mem_singleton.mp hMem
            rfl
          values := rfl
          typeNames := congrArg (fun txt => [txt]) thing.2.reported
          stringRepr := rfl }
      have hHead : Writes Q (CliXml.gap thing.1 :: writeTypeName thing.2) ([] : List (CliValue E))
          [thing.2.val] none := (gap thing.1).append hName
      exact hHead.append ih

end Writes

variable (D : Q.Documented)

include D in
/-- A value is written as the element of its kind, or as a null, with its name in
the attribute. -/
theorem writes_leaf (l : SpelledLeaf E) : Writes Q l.write [l.val] [] none := by
  cases hKind : l.val.leafKind with
  | some kind =>
      have hDecode : (kind.decode E l.val.getName (reported l.text.data.val) :
          Except (Panic Q.Error) _) = .ok l.val := by
        rw [l.text.reported]
        exact decode_spelled hKind l.spelled
      rw [SpelledLeaf.write, hKind]
      refine ⟨rfl, by simp [Item.isObj], ?_, ?_, ?_, ?_⟩
      · intro item hMem
        obtain rfl := List.mem_singleton.mp hMem
        rw [leaf_check D, hDecode]
        rfl
      · simpa [values] using leaf_values D kind l.val.getName l.text.data noBlanks hDecode
      · simp [typeNames, Item.typeNames, textTypeNames]
      · simp [stringRepr, Item.stringRepr, textRepr]
  | none =>
      obtain ⟨prop, hVal⟩ : ∃ prop, l.val = .cliNull prop := by
        have hSpelled := l.spelled
        cases hVal : l.val with
        | cliNull prop => exact ⟨prop, rfl⟩
        | cliObject prop =>
            rw [hVal] at hSpelled
            exact hSpelled.elim
        | _ =>
            rw [hVal] at hKind
            cases hKind
      have hName : attrValue Q (Structural.nil.tag l.val.getName).tag "N" = l.val.getName :=
        attrValue_labelled D Structural.nil.element nameKey l.val.getName
      have hValues : (Item.empty (Structural.nil.tag l.val.getName).tag).values Q E = [l.val] := by
        change [CliValue.cliNull (CliNull.new _)] = [l.val]
        rw [hName, hVal]
        rfl
      rw [SpelledLeaf.write, hKind]
      refine ⟨rfl, ?_, ?_, by simpa [values] using hValues, rfl, rfl⟩
      · intro item hMem
        obtain rfl := List.mem_singleton.mp hMem
        rfl
      · intro item hMem
        obtain rfl := List.mem_singleton.mp hMem
        rfl

include D in
/-- A section writes its leaves in order. -/
theorem writes_section (s : SectionLayout E) :
    Writes Q s.write (s.leaves.map fun leaf => leaf.2.val) [] none := by
  have hLeaves : Writes Q (spaced SpelledLeaf.write s.leaves ++ [gap s.trail])
      ((s.leaves.flatMap fun leaf => [leaf.2.val]) ++ []) ([] ++ []) (Option.or none none) :=
    (Writes.spaced_values (writes_leaf D) s.leaves).append (Writes.gap s.trail)
  have hMap : (s.leaves.flatMap fun leaf => [leaf.2.val]) = s.leaves.map fun leaf => leaf.2.val :=
    List.map_eq_flatMap.symm
  rw [List.append_nil, hMap] at hLeaves
  exact hLeaves.around s.kind.structural none (by cases s.kind <;> decide)
    (by cases s.kind <;> decide)

/-- The type names inside `TN` are read, whatever reference the element has. -/
theorem writes_typing (t : Option (Blanks × TypingLayout)) :
    Writes Q (spaced TypingLayout.write t.toList) ([] : List (CliValue E))
      ((t.map fun t => t.2.names.map fun name => name.2.val).getD []) none := by
  cases t with
  | none => exact Writes.nil
  | some t =>
      have hNames : Writes Q (spaced writeTypeName t.2.names ++ [gap t.2.trail])
          ([] ++ [] : List (CliValue E)) ((t.2.names.map fun name => name.2.val) ++ [])
          (Option.or none none) := (Writes.spaced_typeNames t.2.names).append (Writes.gap t.2.trail)
      have hTn := hNames.around .tn t.2.refId (by decide) (by decide)
      simpa [spaced, TypingLayout.write] using (Writes.gap t.1).append hTn

/-- The text representation is an element of its own. -/
theorem writes_repr (t : Option (Blanks × SpelledText)) :
    Writes Q (spaced writeRepr t.toList) ([] : List (CliValue E)) []
      (t.map fun t => t.2.val) := by
  cases t with
  | none => exact Writes.nil
  | some t =>
      have hRepr : Writes Q (writeRepr t.2) ([] : List (CliValue E)) [] (some t.2.val) :=
        { balanced := rfl
          plain := by simp [writeRepr, Item.isObj]
          valid := by
            intro item hMem
            obtain rfl := List.mem_singleton.mp hMem
            rfl
          values := rfl
          typeNames := rfl
          stringRepr := congrArg some t.2.reported }
      simpa [spaced] using (Writes.gap t.1).append hRepr

include D in
/-- The three parts of an object one after another. -/
theorem writes_inner (l : ObjLayout E) :
    Writes Q l.inner l.object.values l.object.typeNames l.object.stringRepr := by
  have hSections := Writes.spaced_values (writes_section D) l.sections
  have hAll := (writes_typing l.typing).append
    ((writes_repr l.repr).append (hSections.append (Writes.gap l.trail)))
  simpa [ObjLayout.inner, ObjLayout.object] using hAll

/-- An object that is written is closed, valid and read back as it is. -/
structure ReadsBack (Q : PullReader) (items : List Item) (written : List (CliObject E)) : Prop where
  balanced : Balanced items
  valid : Valid Q E items
  objs (objs : List (CliObject E)) : items.foldl (Build.effect Q) ⟨objs, CliObject.default⟩ =
    ⟨objs ++ written, CliObject.default⟩

/-- Objects that are read back one by one are read back side by side. -/
theorem ReadsBack.append {first second : List Item} {written written' : List (CliObject E)}
    (hFirst : ReadsBack Q first written) (hSecond : ReadsBack Q second written') :
    ReadsBack Q (first ++ second) (written ++ written') where
  balanced := hFirst.balanced.append hSecond.balanced
  valid item hMem := (List.mem_append.mp hMem).elim (hFirst.valid item) (hSecond.valid item)
  objs objs := by
    rw [List.foldl_append, hFirst.objs, hSecond.objs, List.append_assoc]

/-- White space between objects is no object. -/
theorem readsBack_gap (b : Blanks) : ReadsBack Q [gap b] ([] : List (CliObject E)) where
  balanced := rfl
  valid := by simp [Valid, gap, Item.check]
  objs objs := by simp [gap, Build.effect, Item.isObj]

include D in
/-- One object is read back, between its start tag with the reference and its end
tag. -/
theorem readsBack_obj (l : ObjLayout E) : ReadsBack Q l.write [l.object] where
  balanced := by
    have hStop : Structural.obj.stop.nest [Structural.obj.element] = some [] := by decide
    rw [ObjLayout.write, Structural.around, Balanced, nest_cons]
    change nest [Structural.obj.element] (l.inner ++ [Structural.obj.stop]) = _
    rw [nest_append, (writes_inner D l).balanced.under, Option.bind_some, nest_cons, hStop]
    rfl
  valid := by
    intro item hMem
    simp only [ObjLayout.write, Structural.around, List.mem_cons, List.mem_append,
      List.not_mem_nil, or_false] at hMem
    rcases hMem with rfl | hMem | rfl
    · rfl
    · exact (writes_inner D l).valid item hMem
    · rfl
  objs objs := by
    have hInner := writes_inner D l
    have hRefId : attrValue Q (Structural.obj.tag l.refId).tag "RefId" = l.refId :=
      attrValue_labelled D Structural.obj.element refIdKey l.refId
    have hStart : (⟨objs, CliObject.default⟩ : Build E).effect Q (Structural.obj.start l.refId) =
        ⟨objs, { (CliObject.default : CliObject E) with refId := l.refId }⟩ := by
      change (⟨objs, CliObject.default.enter Q (Structural.obj.tag l.refId).tag⟩ : Build E) = _
      simp [CliObject.enter, hRefId, CliObject.default]
    have hStop : ∀ b : Build E, b.effect Q Structural.obj.stop = b.finish := fun _ => rfl
    rw [ObjLayout.write, Structural.around, List.foldl_cons, hStart, List.foldl_append,
      foldl_plain hInner.plain, List.foldl_cons, List.foldl_nil, hStop]
    simp [CliObject.absorbAll, Build.finish, hInner.values, hInner.typeNames, hInner.stringRepr,
      CliObject.default, ObjLayout.object]

include D in
/-- By induction on the layouts: a list of objects is read back in order. -/
theorem readsBack_objs (layouts : List (Blanks × ObjLayout E)) (trail : Blanks) :
    ReadsBack Q (writeObjs layouts trail) (layouts.map fun l => l.2.object) := by
  induction layouts with
  | nil => exact readsBack_gap trail
  | cons l layouts ih =>
      have hHead : ReadsBack Q (gap l.1 :: l.2.write) [l.2.object] :=
        (readsBack_gap l.1).append (readsBack_obj D l.2)
      have hAll := hHead.append ih
      simpa [writeObjs, spaced] using hAll

/-- What is written closes what it opens, whichever reader reads it. -/
theorem balanced_writeObjs (layouts : List (Blanks × ObjLayout E)) (trail : Blanks) :
    Balanced (writeObjs layouts trail) :=
  (readsBack_objs SliceReader.documented layouts trail).balanced

include D in
/-- A list of flat objects comes back as it was written, whatever the split
into sections and the white space. -/
theorem flat_round_trip (d : Document) (layouts : List (Blanks × ObjLayout E)) (trail : Blanks) :
    Returns Q E (d.holding (writeObjs layouts trail) (balanced_writeObjs layouts trail)).text
      (layouts.map fun l => l.2.object) := by
  have hReads := readsBack_objs D layouts trail
  have hResult : result Q E (writeObjs layouts trail) = layouts.map fun l => l.2.object := by
    have hRun := hReads.objs []
    rw [result, Build.initial, hRun, List.nil_append]
  rw [← hResult]
  exact (d.holding (writeObjs layouts trail) hReads.balanced).returns D hReads.valid

def noText : SpelledText := ⟨[], by simp, fun _ => rfl⟩

def oneLetter (c : Char) (hMarkup : ('<' == c) = false) (hSpace : isSpace c = false) :
    SpelledText where
  val := [c]
  noMarkup := (oneChar c hMarkup).noMarkup
  notBlank := by simp [Blank, hSpace]

/-- Two objects. The first has a type name, a text representation, a string and
a number in two sections, and a null. -/
def flatLayouts : List (Blanks × ObjLayout textCrates) :=
  [(noBlanks,
    { refId := some ['0']
      typing := some (noBlanks, ⟨some ['1'], [(noBlanks, oneLetter 'k' rfl rfl)], noBlanks⟩)
      repr := some (noBlanks, oneLetter 'r' rfl rfl)
      sections :=
        [(noBlanks, ⟨.ms, [(noBlanks, ⟨.cliString ⟨['w'], some ['a']⟩,
          oneLetter 'w' rfl rfl, rfl⟩)], noBlanks⟩),
        (noBlanks, ⟨.props, [(noBlanks, ⟨.cliInt32 ⟨⟨7, by decide⟩, none⟩,
          oneLetter '7' rfl rfl, rfl⟩),
          (noBlanks, ⟨.cliNull ⟨some ['b']⟩, noText, rfl⟩)], noBlanks⟩)]
      trail := noBlanks }),
  (noBlanks, ⟨none, none, none, [], noBlanks⟩)]

open SliceReader in
theorem flat_round_trip_two :
    ((documentOf [] rfl).holding (writeObjs flatLayouts noBlanks)
        (balanced_writeObjs flatLayouts noBlanks)).text =
      ("<Objs><Obj RefId=\"0\"><TN RefId=\"1\"><T>k</T></TN><ToString>r</ToString>".toList ++
        "<MS><S N=\"a\">w</S></MS><Props><I32>7</I32><Nil N=\"b\"/></Props></Obj>".toList ++
        "<Obj></Obj></Objs>".toList) ∧
      Returns sliceReader textCrates
        ((documentOf [] rfl).holding (writeObjs flatLayouts noBlanks)
          (balanced_writeObjs flatLayouts noBlanks)).text
        (flatLayouts.map fun l => l.2.object) :=
  ⟨by decide +kernel, flat_round_trip documented (documentOf [] rfl) flatLayouts noBlanks⟩

end PwshHost.CliXml
