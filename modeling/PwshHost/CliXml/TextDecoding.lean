import PwshHost.CliXml.Places

/-! Escaped text as the content of an element. Attribute values are unescaped
by the reader, element text is stored as it is written. -/
namespace PwshHost.CliXml

open Xml
open Rust

/-- Character data needs three of the references. -/
def escapeDataChar (c : Char) : Text :=
  if c = '&' then ['&', 'a', 'm', 'p', ';']
  else if c = '<' then ['&', 'l', 't', ';']
  else if c = '>' then ['&', 'g', 't', ';']
  else [c]

def escapeData (v : Text) : Text := v.flatMap escapeDataChar

def isSpecial (c : Char) : Bool := c == '&' || c == '<' || c == '>'

/-- Most characters stand for themselves. -/
theorem escapeDataChar_plain {c : Char} (h : isSpecial c = false) : escapeDataChar c = [c] := by
  simp only [isSpecial, Bool.or_eq_false_iff, beq_eq_false_iff_ne] at h
  simp [escapeDataChar, h]

/-- A reference is longer than the character that it stands for, and is not white
space. -/
theorem escapeDataChar_special {c : Char} (h : isSpecial c = true) :
    3 < (escapeDataChar c).length ∧ ¬ Blank (escapeDataChar c) := by
  simp only [isSpecial, Bool.or_eq_true, beq_iff_eq] at h
  rcases h with (rfl | rfl) | rfl <;> decide

/-- No reference has an angle bracket in it. -/
theorem lt_not_mem_escapeDataChar (c : Char) : '<' ∉ escapeDataChar c := by
  unfold escapeDataChar
  split_ifs with hAmp hLt hGt
  iterate 3
    · decide
  · intro hMem
    exact hLt (List.mem_singleton.mp hMem).symm

/-- So escaped text has no markup. -/
theorem lt_not_mem_escapeData (v : Text) : '<' ∉ escapeData v := by
  intro hMem
  obtain ⟨c, -, hChar⟩ := List.mem_flatMap.mp hMem
  exact lt_not_mem_escapeDataChar c hChar

/-- Escaping never makes a text shorter. -/
theorem length_escapeData (v : Text) : v.length ≤ (escapeData v).length := by
  induction v with
  | nil => simp [escapeData]
  | cons c v ih =>
      have hChar : 1 ≤ (escapeDataChar c).length := by
        cases hSpecial : isSpecial c with
        | true => exact le_trans (by omega) (escapeDataChar_special hSpecial).1
        | false => simp [escapeDataChar_plain hSpecial]
      simp only [escapeData, List.flatMap_cons, List.length_append, List.length_cons] at ih ⊢
      omega

/-- Escaping changes every text that has something to escape. -/
theorem escapeData_eq_self {v : Text} : escapeData v = v ↔ ∀ c ∈ v, isSpecial c = false := by
  constructor
  · intro h
    induction v with
    | nil => simp
    | cons c v ih =>
        cases hSpecial : isSpecial c with
        | true =>
            have hLong := (escapeDataChar_special hSpecial).1
            have hRest := length_escapeData v
            have hLength := congrArg List.length h
            simp only [escapeData, List.flatMap_cons, List.length_append, List.length_cons]
              at hLength hRest
            omega
        | false =>
            have hTail : escapeData v = v := by
              simpa [escapeData, escapeDataChar_plain hSpecial] using h
            simpa [hSpecial] using ih hTail
  · intro h
    induction v with
    | nil => rfl
    | cons c v ih =>
        have hTail := ih fun d hd => h d (List.mem_cons_of_mem c hd)
        rw [escapeData] at hTail
        rw [escapeData, List.flatMap_cons, escapeDataChar_plain (h c (by simp)), hTail]
        rfl

/-- What the parser gets to see of an escaped text. -/
def shown (v : Text) : Text := reported (escapeData v)

/-- Text without anything to escape, and not of white space alone. -/
def PlainText (v : Text) : Prop := (∀ c ∈ v, isSpecial c = false) ∧ (Blank v → v = [])

/-- The parser sees a text as it was before it was escaped exactly if nothing was
escaped and nothing is dropped as blank. -/
theorem shown_eq_self {v : Text} : shown v = v ↔ PlainText v := by
  constructor
  · intro h
    by_cases hBlank : Blank (escapeData v)
    · rw [shown, reported, if_pos hBlank] at h
      subst h
      simp [PlainText]
    · rw [shown, reported, if_neg hBlank] at h
      rw [h] at hBlank
      exact ⟨escapeData_eq_self.mp h, fun hv => absurd hv hBlank⟩
  · intro hPlainText
    obtain ⟨hPlain, hBlank⟩ := hPlainText
    rw [shown, reported, escapeData_eq_self.mpr hPlain]
    split
    · rename_i hv
      exact (hBlank hv).symm
    · rfl

inductive TextElement where
  | s
  | sbk
  | uri
  | toString
  | t
  deriving DecidableEq, Repr

def escapedData (v : Text) : CharData := ⟨escapeData v, lt_not_mem_escapeData v⟩

/-- The element around the escaped text, with the escaped name for a leaf. -/
def TextElement.item (k : TextElement) (name v : Text) : Item :=
  match k with
  | .s => .leaf (LeafKind.string.tag (some name)) (escapedData v) noBlanks
  | .sbk => .leaf (LeafKind.scriptBlock.tag (some name)) (escapedData v) noBlanks
  | .uri => .leaf (LeafKind.uri.tag (some name)) (escapedData v) noBlanks
  | .toString => .leaf toStringTag (escapedData v) noBlanks
  | .t => .leaf tTag (escapedData v) noBlanks

theorem TextElement.nest_item (k : TextElement) (name v : Text) (opened : List Name) :
    (k.item name v).nest opened = some opened := by
  cases k <;> rfl

variable (Q : PullReader) (E : Crates)

/-- A URI can be parsed, and a text representation is the last of its object. -/
def TextElement.Suits (k : TextElement) (p : Place) (v : Text) : Prop :=
  match k with
  | .uri => (E.urlParse v).isSome
  | .toString => stringRepr p.after = none
  | _ => True

variable {E} in
/-- The object has exactly `v` where the element stands. -/
def TextElement.Decoded (k : TextElement) (p : Place) (name v : Text) (o : CliObject E) : Prop :=
  match k with
  | .s => o.values[(values Q E p.before).length]? = some (.cliString (Leaf.new (some name) v))
  | .sbk => o.values[(values Q E p.before).length]? =
      some (.cliScriptBlock (Leaf.new (some name) v))
  | .uri => ∃ url, E.urlParse v = some url ∧
      o.values[(values Q E p.before).length]? = some (.cliUri (Leaf.new (some name) url))
  | .toString => o.stringRepr = some v
  | .t => o.typeNames[(typeNames p.before).length]? = some v

/-- The text that the parser gets to see stands for the same value. -/
def TextElement.Keeps (k : TextElement) (v : Text) : Prop :=
  match k with
  | .uri => E.urlParse (shown v) = E.urlParse v
  | _ => PlainText v

variable {E} in
/-- Without anything to escape a URI is parsed from its own text, whatever the
crate makes of it. -/
theorem keeps_of_plain (k : TextElement) {v : Text} (h : PlainText v) : k.Keeps E v := by
  cases k with
  | uri =>
      change E.urlParse (shown v) = E.urlParse v
      rw [shown_eq_self.mpr h]
  | _ => exact h

/-- A document with the element in the place. -/
def TextElement.document (k : TextElement) (d : Document) (p : Place) (name v : Text) : Document :=
  d.holding (p.put (k.item name v)) (p.balanced_put (k.nest_item name v))

def TextDecoded (k : TextElement) (d : Document) (p : Place) (name v : Text) : Prop :=
  ∃ objs, Returns Q E (k.document d p name v).text objs ∧
    ∃ o, objs[p.index]? = some o ∧ k.Decoded Q p name v o

variable {Q E} (D : Q.Documented)

include D in
/-- What the parser returns is settled by the items, so the claim about the text is
one about the object at the place. -/
theorem textDecoded_iff_object (k : TextElement) (d : Document) (p : Place) (name v : Text)
    (hAround : Valid Q E p.around) :
    TextDecoded Q E k d p name v ↔ (k.item name v).check Q E = .ok () ∧
      ∃ o, (result Q E (p.put (k.item name v)))[p.index]? = some o ∧ k.Decoded Q p name v o := by
  constructor
  · intro h
    obtain ⟨objs, hReturns, o, hIndex, hDecoded⟩ := h
    obtain ⟨hValid, rfl⟩ := ((k.document d p name v).returns_iff D objs).mp hReturns
    exact ⟨(p.valid_put.mp hValid).2, o, hIndex, hDecoded⟩
  · intro h
    obtain ⟨hCheck, o, hIndex, hDecoded⟩ := h
    exact ⟨_, (k.document d p name v).returns D (p.valid_put.mpr ⟨hAround, hCheck⟩), o, hIndex,
      hDecoded⟩

include D in
/-- A leaf contributes what its text, as the reader reports it, is decoded to. -/
theorem leaf_values (kind : LeafKind) (name : Option Text) (content : CharData) (trail : Blanks)
    {val : CliValue E}
    (h : (kind.decode E name (reported content.val) : Except (Panic Q.Error) _) = .ok val) :
    (Item.leaf (kind.tag name) content trail).values Q E = [val] := by
  simp only [Item.values, textValues, LeafKind.kindOf_tag, leafValue, LeafKind.attrValue_tag D, h]

include D in
/-- It is checked by the same decoder. -/
theorem leaf_check (kind : LeafKind) (name : Option Text) (content : CharData) (trail : Blanks) :
    (Item.leaf (kind.tag name) content trail).check Q E =
      (kind.decode E name (reported content.val)).map fun _ => () := by
  simp only [Item.check, textCheck, LeafKind.kindOf_tag, leafValue, LeafKind.attrValue_tag D]

/-- The value of an item stands in its object after the values that come before it. -/
theorem Place.value_at (p : Place) {item : Item} (hEnds : item.endsObj = false)
    {val : CliValue E} (hVal : item.values Q E = [val]) :
    ∃ o, (result Q E (p.put item))[p.index]? = some o ∧
      o.values[(values Q E p.before).length]? = some val := by
  obtain ⟨o, hIndex, hValues, -⟩ : ∃ o, (result Q E (p.put item))[p.index]? = some o ∧ _ :=
    p.result_index hEnds
  exact ⟨o, hIndex, by rw [hValues, hVal]; simp⟩

/-- At a given index there is one object. -/
theorem exists_at_iff {α : Type} {l : List α} {i : Nat} {a : α} (h : l[i]? = some a)
    (P : α → Prop) : (∃ b, l[i]? = some b ∧ P b) ↔ P a := by
  constructor
  · intro hSome
    obtain ⟨b, hb, hP⟩ := hSome
    rw [h] at hb
    obtain rfl := Option.some.inj hb
    exact hP
  · intro hP
    exact ⟨a, h, hP⟩

include D in
/-- A leaf whose decoder only wraps the text. -/
theorem decoded_string_iff (kind : LeafKind) (wrap : Leaf Text → CliValue E)
    (hInj : Function.Injective wrap)
    (hDecode : ∀ name txt, (kind.decode E name txt : Except (Panic Q.Error) _) =
      .ok (wrap (Leaf.new name txt)))
    (p : Place) (name v : Text) :
    ((Item.leaf (kind.tag (some name)) (escapedData v) noBlanks).check Q E = .ok () ∧
      ∃ o, (result Q E (p.put (.leaf (kind.tag (some name)) (escapedData v) noBlanks)))[p.index]? =
        some o ∧ o.values[(values Q E p.before).length]? =
          some (wrap (Leaf.new (some name) v))) ↔ PlainText v := by
  have hValues : (Item.leaf (kind.tag (some name)) (escapedData v) noBlanks).values Q E =
      [wrap (Leaf.new (some name) (shown v))] := leaf_values D _ _ _ _ (hDecode _ _)
  obtain ⟨o, hIndex, hAt⟩ := p.value_at rfl hValues
  rw [exists_at_iff hIndex, hAt, leaf_check D, hDecode, ← shown_eq_self]
  constructor
  · intro h
    obtain ⟨-, hSame⟩ := h
    exact congrArg Leaf.value (hInj (Option.some.inj hSame))
  · intro hShown
    rw [hShown]
    exact ⟨rfl, rfl⟩

include D in
/-- For a URI it is the crate that decides, on the escaped text and on the text
itself. -/
theorem decoded_uri_iff (p : Place) (name v : Text) (hUrl : (E.urlParse v).isSome) :
    ((TextElement.uri.item name v).check Q E = .ok () ∧
      ∃ o, (result Q E (p.put (TextElement.uri.item name v)))[p.index]? = some o ∧
        TextElement.uri.Decoded Q p name v o) ↔ E.urlParse (shown v) = E.urlParse v := by
  have hCheck : (TextElement.uri.item name v).check Q E = _ :=
    leaf_check D LeafKind.uri (some name) (escapedData v) noBlanks
  rw [hCheck]
  cases hShown : E.urlParse (shown v) with
  | none =>
      have hDecode : (LeafKind.uri.decode E (some name) (reported (escapedData v).val) :
          Except (Panic Q.Error) _) = .error .unwrapNone := by
        change (do return CliValue.cliUri (← unwrap ((E.urlParse (shown v)).map _))) = _
        rw [hShown]
        rfl
      rw [hDecode]
      constructor
      · intro h
        obtain ⟨hOk, -⟩ := h
        cases hOk
      · intro hSame
        rw [← hSame] at hUrl
        cases hUrl
  | some url =>
      have hDecode : (LeafKind.uri.decode E (some name) (reported (escapedData v).val) :
          Except (Panic Q.Error) _) = .ok (.cliUri (Leaf.new (some name) url)) := by
        change (do return CliValue.cliUri (← unwrap ((E.urlParse (shown v)).map _))) = _
        rw [hShown]
        rfl
      have hValues : (TextElement.uri.item name v).values Q E =
          [.cliUri (Leaf.new (some name) url)] := leaf_values D _ _ _ _ hDecode
      obtain ⟨o, hIndex, hAt⟩ := p.value_at rfl hValues
      rw [exists_at_iff hIndex, hDecode, TextElement.Decoded, hAt]
      constructor
      · intro h
        obtain ⟨-, url', hParse, hSame⟩ := h
        have hUrls : url = url' := by simpa [Leaf.new] using hSame
        rw [hParse, hUrls]
      · intro hSame
        exact ⟨rfl, url, hSame.symm, rfl⟩

include D in
/-- Escaped text comes back as the text that was escaped exactly when nothing
in it is escaped and it is not blank; a URI as long as it stands for the same
URL. -/
theorem textDecoded_iff (k : TextElement) (d : Document) (p : Place) (name v : Text)
    (hAround : Valid Q E p.around) (hSuits : k.Suits E p v) :
    TextDecoded Q E k d p name v ↔ k.Keeps E v := by
  rw [textDecoded_iff_object D k d p name v hAround]
  cases k with
  | s =>
      exact decoded_string_iff D .string .cliString (fun _ _ h => CliValue.cliString.inj h)
        (fun _ _ => rfl) p name v
  | sbk =>
      exact decoded_string_iff D .scriptBlock .cliScriptBlock
        (fun _ _ h => CliValue.cliScriptBlock.inj h) (fun _ _ => rfl) p name v
  | uri => exact decoded_uri_iff D p name v hSuits
  | toString =>
      obtain ⟨o, hIndex, -, -, hRepr⟩ : ∃ o,
          (result Q E (p.put (TextElement.toString.item name v)))[p.index]? = some o ∧ _ :=
        p.result_index rfl
      have hShown : o.stringRepr = some (shown v) := by
        rw [hRepr, show stringRepr p.after = none from hSuits]
        rfl
      change _ ↔ PlainText v
      rw [exists_at_iff hIndex, TextElement.Decoded, hShown, ← shown_eq_self, Option.some.injEq]
      exact ⟨And.right, fun h => ⟨rfl, h⟩⟩
  | t =>
      obtain ⟨o, hIndex, -, hTypeNames, -⟩ : ∃ o,
          (result Q E (p.put (TextElement.t.item name v)))[p.index]? = some o ∧ _ :=
        p.result_index rfl
      have hShown : o.typeNames[(typeNames p.before).length]? = some (shown v) := by
        have hOwn : (TextElement.t.item name v).typeNames = [shown v] := rfl
        rw [hTypeNames, hOwn]
        simp
      change _ ↔ PlainText v
      rw [exists_at_iff hIndex, TextElement.Decoded, hShown, ← shown_eq_self, Option.some.injEq]
      exact ⟨And.right, fun h => ⟨rfl, h⟩⟩

/-- The only item of the only object. -/
def lonePlace : Place where
  done := []
  fresh := by simp
  before := [Structural.obj.start none]
  noEndBefore := by simp [Structural.start, Item.endsObj]
  after := []
  noEndAfter := by simp
  finish := Structural.obj.stop
  ends := rfl
  rest := []
  balanced := by decide

open SliceReader in
theorem textDecoded_iff_lone :
    TextDecoded sliceReader textCrates .s (documentOf [] rfl) lonePlace ['n'] ['v'] ↔
      TextElement.s.Keeps textCrates ['v'] :=
  textDecoded_iff documented .s (documentOf [] rfl) lonePlace ['n'] ['v'] (check_eq_ok.mp rfl)
    trivial

open SliceReader in
/-- An ampersand comes back as its reference. -/
theorem ampersand_not_decoded :
    (TextElement.s.document (documentOf [] rfl) lonePlace ['n'] ['&']).text =
      "<Objs><Obj><S N=\"n\">&amp;</S></Obj></Objs>".toList ∧
      Valid sliceReader textCrates lonePlace.around ∧
      ¬ TextDecoded sliceReader textCrates .s (documentOf [] rfl) lonePlace ['n'] ['&'] := by
  refine ⟨by decide, check_eq_ok.mp rfl, ?_⟩
  rw [textDecoded_iff_object documented _ _ _ _ _ (check_eq_ok.mp rfl)]
  have hDecode : ∀ name txt, (LeafKind.string.decode textCrates name txt :
      Except (Panic Unit) _) = .ok (.cliString (Leaf.new name txt)) := fun _ _ => rfl
  intro hDecoded
  have hPlain := (decoded_string_iff documented .string .cliString
    (fun _ _ h => CliValue.cliString.inj h) hDecode lonePlace ['n'] ['&']).mp hDecoded
  have hSpecial := hPlain.1 '&' (by simp)
  revert hSpecial
  decide

end PwshHost.CliXml
