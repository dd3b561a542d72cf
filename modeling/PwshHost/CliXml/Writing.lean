import PwshHost.CliXml.Flow

/-! Tags as a serializer writes them: bare, or with one escaped attribute. -/
namespace PwshHost.CliXml

open Xml
open Rust

/-- An escaped character neither ends the quotes nor starts markup. -/
theorem escapeChar_quoted (c : Char) :
    ∀ d ∈ escapeChar c, d ≠ Quote.double.char ∧ d ≠ '<' := by
  unfold escapeChar
  split_ifs with hAmp hLt hGt hQuot hApos
  iterate 5
    · decide
  · intro d hMem
    obtain rfl := List.mem_singleton.mp hMem
    exact ⟨hQuot, hLt⟩

/-- So an escaped text can stand in double quotes. -/
theorem escape_quoted (v : Text) : Quote.double.char ∉ escape v ∧ '<' ∉ escape v := by
  constructor
  · intro hMem
    obtain ⟨c, -, hChar⟩ := List.mem_flatMap.mp hMem
    exact (escapeChar_quoted c _ hChar).1 rfl
  · intro hMem
    obtain ⟨c, -, hChar⟩ := List.mem_flatMap.mp hMem
    exact (escapeChar_quoted c _ hChar).2 rfl

def noBlanks : Blanks := ⟨[], Blank.nil⟩

def oneChar (c : Char) (h : ('<' == c) = false) : CharData := ⟨[c], by simpa using h⟩

def escapedAttr (key : Name) (value : Text) : Attr where
  gap := ⟨[' '], by decide⟩
  gap_ne := by decide
  key := key
  beforeEq := noBlanks
  afterEq := noBlanks
  quote := .double
  raw := escape value
  quoted := escape_quoted value

/-- A tag with at most one attribute. -/
def labelled (name key : Name) (label : Option Text) : Tag where
  name := name
  attrs := (label.map (escapedAttr key)).toList
  trail := noBlanks
  keys := by cases label <;> simp

@[simp] theorem kindOf_labelled (name key : Name) (label : Option Text) :
    kindOf (labelled name key label) = ElementKind.ofName name.val := rfl

def nameKey : Name := ⟨"N", by decide⟩

def refIdKey : Name := ⟨"RefId", by decide⟩

variable {Q : PullReader} (D : Q.Documented)

include D in
/-- The parser reads back the label that was escaped. -/
theorem attrValue_labelled (name key : Name) (label : Option Text) :
    attrValue Q (labelled name key label) key.val = label := by
  cases label with
  | none => rfl
  | some value =>
      have hFind : (labelled name key (some value)).find key.val =
          some (escapedAttr key value) := by
        simp [labelled, Tag.find, escapedAttr]
      simp only [attrValue, hFind, Option.bind_some, escapedAttr, Attr.attribute, D.unescape]

/-- The name of the element that a leaf is written as. -/
def LeafKind.elementName : LeafKind → String
  | .bool => "B"
  | .string => "S"
  | .char => "C"
  | .uint8 => "By"
  | .int8 => "SB"
  | .uint16 => "U16"
  | .int16 => "I16"
  | .uint32 => "U32"
  | .int32 => "I32"
  | .uint64 => "U64"
  | .int64 => "I64"
  | .dateTime => "DT"
  | .duration => "TS"
  | .float => "Sg"
  | .double => "Db"
  | .decimal => "D"
  | .buffer => "BA"
  | .guid => "G"
  | .uri => "URI"
  | .version => "Version"
  | .xmlDocument => "XD"
  | .scriptBlock => "SBK"

/-- The names of the leaf elements are names. -/
theorem LeafKind.elementName_valid (kind : LeafKind) :
    kind.elementName.toList ≠ [] ∧ ∀ c ∈ kind.elementName.toList, isNameChar c = true := by
  cases kind <;> decide

def LeafKind.element (kind : LeafKind) : Name := ⟨kind.elementName, kind.elementName_valid⟩

@[simp] theorem ofName_element (kind : LeafKind) :
    ElementKind.ofName kind.element.val = .leaf kind := by
  cases kind <;> rfl

/-- An element of any kind but those that are decoded, under its name. -/
inductive Structural where
  | objs
  | obj
  | tn
  | tnRef
  | props
  | ms
  | lst
  | ie
  | nil
  deriving DecidableEq, Repr

def Structural.elementName : Structural → String
  | .objs => "Objs"
  | .obj => "Obj"
  | .tn => "TN"
  | .tnRef => "TNRef"
  | .props => "Props"
  | .ms => "MS"
  | .lst => "LST"
  | .ie => "IE"
  | .nil => "Nil"

/-- So are those of the elements around them. -/
theorem Structural.elementName_valid (s : Structural) :
    s.elementName.toList ≠ [] ∧ ∀ c ∈ s.elementName.toList, isNameChar c = true := by
  cases s <;> decide

def Structural.element (s : Structural) : Name := ⟨s.elementName, s.elementName_valid⟩

/-- The key of the attribute that the parser looks for in an element. -/
def Structural.key : Structural → Name
  | .nil => nameKey
  | _ => refIdKey

def Structural.tag (s : Structural) (label : Option Text) : ContainerTag where
  tag := labelled s.element s.key label
  container := by cases s <;> rfl

def Structural.start (s : Structural) (label : Option Text) : Item := .opening (s.tag label)

def Structural.stop (s : Structural) : Item := .closing s.element noBlanks

def LeafKind.tag (kind : LeafKind) (name : Option Text) : TextTag where
  tag := labelled kind.element nameKey name
  text := by simp [ElementKind.readsText]

@[simp] theorem LeafKind.kindOf_tag (kind : LeafKind) (name : Option Text) :
    kindOf (kind.tag name).tag = .leaf kind := by
  simp [LeafKind.tag]

include D in
/-- The name of a leaf is read back from its attribute, and there is none without
it. -/
theorem LeafKind.attrValue_tag (kind : LeafKind) (name : Option Text) :
    attrValue Q (kind.tag name).tag "N" = name :=
  attrValue_labelled D kind.element nameKey name

def tTag : TextTag := ⟨labelled ⟨"T", by decide⟩ nameKey none, by rfl⟩

def toStringTag : TextTag := ⟨labelled ⟨"ToString", by decide⟩ nameKey none, by rfl⟩

/-- A document with nothing around the root element. -/
def documentOf (content : List Item) (balanced : Balanced content) : Document where
  prolog := []
  prologInert := by simp
  root := Structural.objs.tag none
  isObjs := rfl
  content := content
  balanced := balanced
  trail := noBlanks
  epilog := []
  epilogInert := by simp

end PwshHost.CliXml
