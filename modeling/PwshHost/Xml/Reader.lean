import PwshHost.Xml.Markup

/-! The interface of a pull reader that expands empty elements and trims
text, and what its documentation promises about well-formed and about
truncated input. The reader itself is a parameter of everything below. -/
namespace Xml

/-- A start tag as reported: its name and the unparsed rest. -/
structure BytesStart where
  name : String
  attributes : Text
  deriving DecidableEq

structure Attribute where
  key : String
  value : Text
  deriving DecidableEq

inductive Event where
  | start (tag : BytesStart)
  | stop (name : String)
  | empty (tag : BytesStart)
  | text (raw : Text)
  | comment (raw : Text)
  | cdata (raw : Text)
  | instruction (raw : Text)
  | doctype (raw : Text)
  | eof
  deriving DecidableEq

structure PullReader where
  Reader : Type
  Error : Type
  fromStr : Text → Reader
  expandEmptyElements : Reader → Bool → Reader
  trimText : Reader → Bool → Reader
  readEvent : Reader → Except Error Event × Reader
  readText : Reader → String → Except Error Text × Reader
  bufferPosition : Reader → Nat
  tryGetAttribute : BytesStart → String → Except Error (Option Attribute)
  decodeAndUnescapeValue : Reader → Attribute → Except Error Text

def Tag.bytesStart (t : Tag) : BytesStart := ⟨t.name.val, t.attributes⟩

def Attr.attribute (a : Attr) : Attribute := ⟨a.key.val, a.raw⟩

def Misc.event (m : Misc) : Event :=
  match m.kind with
  | .comment => .comment m.body
  | .cdata => .cdata m.body
  | .instruction => .instruction m.body
  | .doctype => .doctype m.body

/-- What a trimming reader reports for the content of an element that holds
only character data: the source as it stands, or nothing when it is blank. -/
def reported (content : Text) : Text := if Blank content then [] else content

/-- The same for content with markup in it, where only the blanks after the last
markup are dropped. -/
def Mixed.reported (content : Mixed) : Text :=
  partsSource content.parts ++ Xml.reported content.last.val

/-- Entity references for the five characters that have one. -/
def escapeChar (c : Char) : Text :=
  if c = '&' then ['&', 'a', 'm', 'p', ';']
  else if c = '<' then ['&', 'l', 't', ';']
  else if c = '>' then ['&', 'g', 't', ';']
  else if c = Quote.double.char then ['&', 'q', 'u', 'o', 't', ';']
  else if c = Quote.single.char then ['&', 'a', 'p', 'o', 's', ';']
  else [c]

/-- The escaped form of an attribute value. -/
def escape (v : Text) : Text := v.flatMap escapeChar

/-- Documented behaviour. `At r s opened` says that `r` has read everything up
to the text `s` and that the elements `opened` are open, innermost first;
`Expanding` is the same right after the start of an empty element was
reported, when its end is still due. -/
structure PullReader.Documented (Q : PullReader) where
  At : Q.Reader → Text → List Name → Prop
  Expanding : Q.Reader → Name → Text → List Name → Prop
  fromStr (s : Text) : At (Q.trimText (Q.expandEmptyElements (Q.fromStr s) true) true) s []
  /-- A start tag is reported with its name and attributes. -/
  opening {r s opened} (tag : Tag) (h : At r ((Markup.opening tag).source ++ s) opened) :
    ∃ r', Q.readEvent r = (.ok (.start tag.bytesStart), r') ∧ At r' s (tag.name :: opened)
  /-- An empty element is reported as a start and an end. -/
  empty {r s opened} (tag : Tag) (h : At r ((Markup.empty tag).source ++ s) opened) :
    ∃ r', Q.readEvent r = (.ok (.start tag.bytesStart), r') ∧ Expanding r' tag.name s opened
  expanded {r name s opened} (h : Expanding r name s opened) :
    ∃ r', Q.readEvent r = (.ok (.stop name.val), r') ∧ At r' s opened
  /-- An end tag that closes the innermost open element is reported. -/
  closing {r s opened} (name : Name) (trail : Blanks)
    (h : At r ((Markup.closing name trail).source ++ s) (name :: opened)) :
    ∃ r', Q.readEvent r = (.ok (.stop name.val), r') ∧ At r' s opened
  misc {r s opened} (m : Misc) (h : At r ((Markup.misc m).source ++ s) opened) :
    ∃ r', Q.readEvent r = (.ok m.event, r') ∧ At r' s opened
  /-- Character data is reported up to the next markup. -/
  text {r t s opened} (hData : '<' ∉ t) (hBlank : ¬ Blank t) (hNext : AtMarkup s)
    (h : At r (t ++ s) opened) :
    ∃ raw r', Q.readEvent r = (.ok (.text raw), r') ∧ At r' s opened
  /-- Text that is empty after trimming is not reported. -/
  blank {r t s opened} (hBlank : Blank t) (hNext : AtMarkup s) (h : At r (t ++ s) opened) :
    ∃ r', At r' s opened ∧ Q.readEvent r = Q.readEvent r'
  /-- The end of input outside markup is no error, whatever is still open. -/
  eof {r opened} (h : At r [] opened) : ∃ r', Q.readEvent r = (.ok .eof, r')
  /-- The text of an element is its source up to the matching end tag, with no
  reference resolved. -/
  readText {r content s name trail opened} (hData : '<' ∉ content)
    (h : At r (content ++ closingSource name trail ++ s) (name :: opened)) :
    ∃ r', Q.readText r name.val = (.ok (reported content), r') ∧ At r' s opened
  readTextEmpty {r name s opened} (h : Expanding r name s opened) :
    ∃ r', Q.readText r name.val = (.ok [], r') ∧ At r' s opened
  lookup (tag : Tag) (key : String) :
    Q.tryGetAttribute tag.bytesStart key = .ok ((tag.find key).map Attr.attribute)
  /-- The reader is consulted for its encoding only, which is fixed for a text. -/
  decoder (r r' : Q.Reader) (a : Attribute) :
    Q.decodeAndUnescapeValue r a = Q.decodeAndUnescapeValue r' a
  /-- Reading an attribute value resolves the references of its escaped form. -/
  unescape (r : Q.Reader) (key : String) (v : Text) :
    Q.decodeAndUnescapeValue r ⟨key, escape v⟩ = .ok v

/-- Whatever the text, events use up what is left of it. -/
structure PullReader.Progresses (Q : PullReader) where
  left : Q.Reader → Nat
  readEvent {r r' event} (h : Q.readEvent r = (.ok event, r')) (hMore : event ≠ .eof) :
    left r' < left r
  readText {r r' name txt} (h : Q.readText r name = (.ok txt, r')) : left r' ≤ left r

/-- Documented behaviour where the text ends inside markup. An end tag and an
instruction are also read without their last character, and a single angle bracket
counts as the end of input. Any other markup that the text ends inside of is an
error. -/
structure PullReader.Documented.AtEnd {Q : PullReader} (D : Q.Documented) : Prop where
  bracket {r opened} (h : D.At r ['<'] opened) : ∃ r', Q.readEvent r = (.ok .eof, r')
  closing {r opened} (name : Name) (trail : Blanks)
    (h : D.At r (closingCut name trail.val) (name :: opened)) :
    ∃ r', Q.readEvent r = (.ok (.stop name.val), r') ∧ D.At r' [] opened
  /-- With a part of its name the end tag does not match. -/
  mismatch {r name part opened} (hPart : part <+: name.text) (hMore : part ≠ name.text)
    (h : D.At r ('<' :: '/' :: part) (name :: opened)) :
    ∃ e r', Q.readEvent r = (.error e, r')
  instruction {r body opened} (hBody : '>' ∉ body ∧ body ≠ [])
    (h : D.At r (instructionCut body) opened) :
    ∃ r', Q.readEvent r = (.ok (.instruction body), r') ∧ D.At r' [] opened
  /-- An instruction has something in it and ends in a question mark. -/
  noInstruction {r part opened} (hPart : '>' ∉ part)
    (hCut : ∀ body, body ≠ [] → part ≠ body ++ ['?']) (h : D.At r ('<' :: '?' :: part) opened) :
    ∃ e r', Q.readEvent r = (.error e, r')
  unclosed {r cut missing opened} (m : Markup) (hEnd : m.needsEnd)
    (hCut : cut ++ missing = m.source) (hStarted : 2 ≤ cut.length) (hMissing : missing ≠ [])
    (h : D.At r cut opened) : ∃ e r', Q.readEvent r = (.error e, r')
  readText {r content name opened} (trail : Blanks) (hData : '<' ∉ content)
    (h : D.At r (content ++ closingCut name trail.val) (name :: opened)) :
    ∃ r', Q.readText r name.val = (.ok (reported content), r') ∧ D.At r' [] opened
  /-- There is no text without the name of the end tag. -/
  readTextUnclosed {r content name part opened} (hData : '<' ∉ content)
    (hPart : EndTagPart name part) (h : D.At r (content ++ part) (name :: opened)) :
    ∃ e r', Q.readText r name.val = (.error e, r')

/-- The text of an element includes any markup in it. -/
structure PullReader.Documented.ReadsMixed {Q : PullReader} (D : Q.Documented) : Prop where
  readMixed {r s name trail opened} (content : Mixed)
    (h : D.At r (content.source ++ closingSource name trail ++ s) (name :: opened)) :
    ∃ r', Q.readText r name.val = (.ok content.reported, r') ∧ D.At r' s opened

end Xml
