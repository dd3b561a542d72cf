import PwshHost.Xml.Text

/-! Source-level pieces of a well-formed XML text. Each piece carries the
conditions under which its source can be told apart from what follows it, so
that a sequence of pieces is a text that can be read back. -/
namespace Xml

inductive Quote where
  | double
  | single
  deriving DecidableEq, Repr

def Quote.char : Quote → Char
  | .double => Char.ofNat 0x22
  | .single => Char.ofNat 0x27

def isQuote (c : Char) : Bool := c == Quote.double.char || c == Quote.single.char

/-- Characters of element names and attribute keys. -/
def isNameChar (c : Char) : Bool :=
  !(isSpace c || isQuote c || c ∈ ['<', '>', '/', '=', '!', '?', '&'])

/-- A name can be scanned over without looking for quotes or the end of the tag. -/
theorem isNameChar_plain {c : Char} (h : isNameChar c = true) : isQuote c = false ∧ c ≠ '>' := by
  unfold isNameChar at h
  constructor
  · cases hq : isQuote c with
    | false => rfl
    | true => simp [hq] at h
  · rintro rfl
    revert h
    decide

/-- White space ends a name. -/
theorem isNameChar_notSpace {c : Char} (h : isNameChar c = true) : isSpace c = false := by
  unfold isNameChar at h
  cases hs : isSpace c with
  | false => rfl
  | true => simp [hs] at h

/-- Nor does the white space between attributes quote or end anything. -/
theorem isSpace_plain {c : Char} (h : isSpace c = true) : isQuote c = false ∧ c ≠ '>' := by
  simp only [isSpace, Bool.or_eq_true, beq_iff_eq] at h
  rcases h with ((rfl | rfl) | rfl) | rfl <;> decide

theorem Quote.isQuote_char (q : Quote) : isQuote q.char = true := by cases q <;> decide

structure Name where
  val : String
  valid : val.toList ≠ [] ∧ ∀ c ∈ val.toList, isNameChar c = true
  deriving DecidableEq

def Name.text (n : Name) : Text := n.val.toList

structure Blanks where
  val : Text
  blank : Blank val
  deriving DecidableEq

/-- Character data as written, entity references included. -/
structure CharData where
  val : Text
  noMarkup : '<' ∉ val
  deriving DecidableEq

/-- An attribute after the white space that sets it off, possibly with white
space on either side of the equals sign. -/
structure Attr where
  gap : Blanks
  gap_ne : gap.val ≠ []
  key : Name
  beforeEq : Blanks
  afterEq : Blanks
  quote : Quote
  raw : Text
  quoted : quote.char ∉ raw ∧ '<' ∉ raw
  deriving DecidableEq

def Attr.source (a : Attr) : Text :=
  a.gap.val ++ (a.key.text ++ (a.beforeEq.val ++ '=' ::
    (a.afterEq.val ++ a.quote.char :: (a.raw ++ [a.quote.char]))))

/-- What stands between the angle brackets of a start tag. -/
structure Tag where
  name : Name
  attrs : List Attr
  trail : Blanks
  keys : (attrs.map Attr.key).Nodup
  deriving DecidableEq

def Tag.attributes (t : Tag) : Text := t.attrs.flatMap Attr.source ++ t.trail.val

def Tag.source (t : Tag) : Text := t.name.text ++ t.attributes

def Tag.find (t : Tag) (key : String) : Option Attr := t.attrs.find? (·.key.val == key)

inductive MiscKind where
  | comment
  | cdata
  | instruction
  | doctype
  deriving DecidableEq, Repr

def MiscKind.opener : MiscKind → Text
  | .comment => ['<', '!', '-', '-']
  | .cdata => ['<', '!', '[', 'C', 'D', 'A', 'T', 'A', '[']
  | .instruction => ['<', '?']
  | .doctype => ['<', '!', 'D', 'O', 'C', 'T', 'Y', 'P', 'E']

def MiscKind.closer : MiscKind → Text
  | .comment => ['-', '-', '>']
  | .cdata => [']', ']', '>']
  | .instruction => ['?', '>']
  | .doctype => ['>']

/-- How many angle brackets are open after another character. -/
def angleStep (depth : Nat) (c : Char) : Nat :=
  if c = '<' then depth + 1 else if c = '>' then depth - 1 else depth

/-- How many are open after a text, unless it closes one more than it opens. -/
def angles : Nat → Text → Option Nat
  | depth, [] => some depth
  | depth, c :: s => if c = '>' ∧ depth = 0 then none else angles (angleStep depth c) s

/-- Comments, CDATA sections, processing instructions and document type
declarations; the XML declaration is of the third kind. An instruction is cut
at its first `>` and has something in it, and a document type declaration is not
empty and may have other declarations in it. -/
structure Misc where
  kind : MiscKind
  body : Text
  ends : match kind with
    | .instruction => '>' ∉ body ∧ body ≠ []
    | .doctype => angles 0 body = some 0 ∧ ¬ Blank body
    | kind => Ends body kind.closer

def Misc.source (m : Misc) : Text := m.kind.opener ++ m.body ++ m.kind.closer

inductive Markup where
  | opening (tag : Tag)
  | closing (name : Name) (trail : Blanks)
  | empty (tag : Tag)
  | misc (m : Misc)

/-- An end tag without its last character. -/
def closingCut (name : Name) (trail : Text) : Text := '<' :: '/' :: (name.text ++ trail)

def closingSource (name : Name) (trail : Blanks) : Text := closingCut name trail.val ++ ['>']

def Markup.source : Markup → Text
  | .opening tag => '<' :: (tag.source ++ ['>'])
  | .closing name trail => closingSource name trail
  | .empty tag => '<' :: (tag.source ++ ['/', '>'])
  | .misc m => m.source

/-- The open elements after a piece of markup, unless it is an end tag that does
not match. -/
def Markup.nest (opened : List Name) : Markup → Option (List Name)
  | .opening tag => some (tag.name :: opened)
  | .closing name _ => match opened with
    | top :: rest => if top = name then some rest else none
    | [] => none
  | _ => some opened

/-- Content of an element: character data with properly nested markup in it. -/
structure Mixed where
  parts : List (CharData × Markup)
  last : CharData
  closed : (parts.map Prod.snd).foldlM Markup.nest [] = some []

def partsSource (parts : List (CharData × Markup)) : Text :=
  parts.flatMap fun part => part.1.val ++ part.2.source

def Mixed.source (content : Mixed) : Text := partsSource content.parts ++ content.last.val

/-- An instruction without its last character. -/
def instructionCut (body : Text) : Text := '<' :: '?' :: (body ++ ['?'])

/-- A part of an end tag in which the name is not complete. -/
inductive EndTagPart (name : Name) : Text → Prop where
  | nothing : EndTagPart name []
  | bracket : EndTagPart name ['<']
  | named (part : Text) (isPrefix : part <+: name.text) (more : part ≠ name.text) :
      EndTagPart name ('<' :: '/' :: part)

/-- The part of an end tag before its last character either has the whole name or
does not. -/
theorem closing_cut_cases {name : Name} {trail : Blanks} {cut missing : Text}
    (hCut : cut ++ missing = closingSource name trail) (hMissing : missing ≠ []) :
    EndTagPart name cut ∨ ∃ blanks : Blanks, cut = closingCut name blanks.val := by
  have hWhole : cut <+: closingCut name trail.val := by
    refine ⟨missing.dropLast, ?_⟩
    have hInit := congrArg List.dropLast hCut
    rwa [List.dropLast_append_of_ne_nil hMissing, closingSource, List.dropLast_concat] at hInit
  obtain ⟨rest, hRest⟩ := hWhole
  match cut, hRest with
  | [], _ => exact .inl .nothing
  | [c], hRest =>
      obtain ⟨rfl, -⟩ := List.cons.inj hRest
      exact .inl .bracket
  | c :: d :: part, hRest =>
      simp only [closingCut, List.cons_append, List.cons.injEq] at hRest
      obtain ⟨rfl, rfl, hName⟩ := hRest
      rcases List.append_eq_append_iff.mp hName with ⟨more, hText, -⟩ | ⟨blanks, hPart, hTrail⟩
      · by_cases hMore : part = name.text
        · exact .inr ⟨⟨[], Blank.nil⟩, by simp [closingCut, hMore]⟩
        · exact .inl (.named part ⟨more, hText.symm⟩ hMore)
      · have hBlank : Blank blanks := fun c hc => trail.blank c (by simp [hTrail, hc])
        exact .inr ⟨⟨blanks, hBlank⟩, by simp [closingCut, hPart]⟩

/-- Markup that is only read with its last character. -/
def Markup.needsEnd : Markup → Prop
  | .opening _ | .empty _ => True
  | .closing _ _ => False
  | .misc m => m.kind ≠ .instruction

/-- Comments, CDATA sections, instructions and doctypes are markup. -/
theorem MiscKind.opener_head (kind : MiscKind) : ∃ rest, kind.opener = '<' :: rest := by
  cases kind <;> exact ⟨_, rfl⟩

/-- Every markup starts with the character that ends character data. -/
theorem Markup.source_head (m : Markup) : ∃ rest, m.source = '<' :: rest := by
  cases m with
  | opening tag => exact ⟨_, rfl⟩
  | closing name trail => exact ⟨_, rfl⟩
  | empty tag => exact ⟨_, rfl⟩
  | misc m =>
      obtain ⟨rest, hOpener⟩ := m.kind.opener_head
      exact ⟨rest ++ m.body ++ m.kind.closer, by simp [Markup.source, Misc.source, hOpener]⟩

/-- So no character data is left unread where markup comes next. -/
theorem Markup.atMarkup (m : Markup) (s : Text) : AtMarkup (m.source ++ s) := by
  obtain ⟨rest, hSource⟩ := m.source_head
  rw [hSource]
  exact AtMarkup.cons _

end Xml
