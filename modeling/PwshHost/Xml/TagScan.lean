import PwshHost.Xml.Reader
import Mathlib.Data.List.TakeWhile

/-! Scanning inside a tag: its end, its attributes, and the references in an
attribute value. -/
namespace Xml.SliceReader

/-- Where a tag scan stands: outside quotes, or inside the given quote. -/
abbrev Quoting := Option Char

def Quoting.step (q : Quoting) (c : Char) : Quoting :=
  match q with
  | none => if isQuote c then some c else none
  | some open_ => if c = open_ then none else some open_

/-- Split at the first `>` outside quotes. -/
def scanTag : Quoting → Text → Option (Text × Text)
  | _, [] => none
  | q, c :: s =>
    if q = none ∧ c = '>' then some ([], s)
    else (scanTag (q.step c) s).map fun p => (c :: p.1, p.2)

/-- `w` leads a scan from `q` to `q'` without meeting the end of the tag. -/
def passes : Quoting → Text → Option Quoting
  | q, [] => some q
  | q, c :: s => if q = none ∧ c = '>' then none else passes (q.step c) s

/-- Scanning a text in two parts is scanning the whole, with the quoting of the
first part kept for the second. -/
theorem passes_append {q q' : Quoting} {w : Text} (h : passes q w = some q') (v : Text) :
    passes q (w ++ v) = passes q' v := by
  induction w generalizing q with
  | nil => simpa [passes] using congrArg (passes · v) (Option.some.inj h)
  | cons c w ih =>
      simp only [List.cons_append, passes] at h ⊢
      split at h
      · simp at h
      · rename_i hInside
        rw [if_neg hInside]
        exact ih h

/-- A tag ends at the first `>` outside of quotes. Scanning over the text before it
decides where that is. -/
theorem scanTag_of_passes {q : Quoting} {w : Text} (h : passes q w = some none) (s : Text) :
    scanTag q (w ++ '>' :: s) = some (w, s) := by
  induction w generalizing q with
  | nil =>
      have hq : q = none := Option.some.inj h
      simp [scanTag, hq]
  | cons c w ih =>
      simp only [passes] at h
      split at h
      · simp at h
      · rename_i hInside
        simp only [List.cons_append, scanTag, if_neg hInside, ih h, Option.map_some]

/-- What a scan has found stays found when more input follows. -/
theorem scanTag_extend {q : Quoting} {s body rest : Text} (h : scanTag q s = some (body, rest))
    (more : Text) : scanTag q (s ++ more) = some (body, rest ++ more) := by
  induction s generalizing q body rest with
  | nil => simp [scanTag] at h
  | cons c s ih =>
      simp only [List.cons_append, scanTag] at h ⊢
      split at h
      · rename_i hEnd
        simp only [Option.some.injEq, Prod.mk.injEq] at h
        obtain ⟨rfl, rfl⟩ := h
        simp [hEnd]
      · rename_i hInside
        simp only [Option.map_eq_some_iff, Prod.mk.injEq, Prod.exists] at h
        obtain ⟨body', rest', hScan, rfl, rfl⟩ := h
        simp [if_neg hInside, ih hScan]

/-- A tag whose text is cut off before its `>` has no end: every `>` that is left
stands in quotes. -/
theorem scanTag_cut {q : Quoting} {w cut missing : Text} (h : passes q w = some none)
    (hCut : cut ++ missing = w ++ ['>']) (hMissing : missing ≠ []) : scanTag q cut = none := by
  cases hScan : scanTag q cut with
  | none => rfl
  | some p =>
      have hWhole := scanTag_extend hScan missing
      rw [hCut, scanTag_of_passes h] at hWhole
      simp only [Option.some.injEq, Prod.mk.injEq] at hWhole
      have hRest : p.2 ++ missing = [] := hWhole.2.symm
      exact absurd (List.append_eq_nil_iff.mp hRest).2 hMissing

/-- Outside quotes, characters that are neither a quote nor `>` change nothing. -/
theorem passes_plain {w : Text} (h : ∀ c ∈ w, isQuote c = false ∧ c ≠ '>') :
    passes none w = some none := by
  induction w with
  | nil => rfl
  | cons c w ih =>
      obtain ⟨hQuote, hEnd⟩ := h c (by simp)
      have hRest := ih fun d hd => h d (List.mem_cons_of_mem c hd)
      simpa [passes, hEnd, Quoting.step, hQuote] using hRest

/-- Within quotes everything is passed over but the quote itself. -/
theorem passes_quoted {q : Char} {w : Text} (h : q ∉ w) : passes (some q) w = some (some q) := by
  induction w with
  | nil => rfl
  | cons c w ih =>
      simp only [List.mem_cons, not_or] at h
      have hStep : Quoting.step (some q) c = some q := by
        simp [Quoting.step, Ne.symm h.1]
      simpa [passes, hStep] using ih h.2

theorem passes_name (n : Name) : passes none n.text = some none :=
  passes_plain fun c hc => isNameChar_plain (n.valid.2 c hc)

theorem passes_blanks (b : Blanks) : passes none b.val = some none :=
  passes_plain fun c hc => isSpace_plain (b.blank c hc)

/-- An attribute opens and closes its quotes. -/
theorem passes_attr (a : Attr) : passes none a.source = some none := by
  have hOpen : Quoting.step none a.quote.char = some a.quote.char := by
    simp [Quoting.step, Quote.isQuote_char]
  have hNotEnd : a.quote.char ≠ '>' := by cases a.quote <;> decide
  have hPlain : passes none ['='] = some none := by decide
  have hEquals : ∀ s, passes none ('=' :: s) = passes none s := passes_append hPlain
  have hQuote : passes none (a.quote.char :: (a.raw ++ [a.quote.char])) =
      passes (some a.quote.char) (a.raw ++ [a.quote.char]) := by
    simp [passes, hOpen, hNotEnd]
  rw [Attr.source, passes_append (passes_blanks a.gap), passes_append (passes_name a.key),
    passes_append (passes_blanks a.beforeEq), hEquals, passes_append (passes_blanks a.afterEq),
    hQuote, passes_append (passes_quoted a.quoted.1)]
  simp [passes, Quoting.step]

/-- The text of a tag leaves the scanner outside of quotes, whatever its attribute
values hold. -/
theorem passes_tag (t : Tag) : passes none t.source = some none := by
  have hAttrs : ∀ attrs : List Attr, passes none (attrs.flatMap Attr.source) = some none := by
    intro attrs
    induction attrs with
    | nil => rfl
    | cons a attrs ih => rw [List.flatMap_cons, passes_append (passes_attr a), ih]
  rw [Tag.source, Tag.attributes, passes_append (passes_name t.name), passes_append (hAttrs _),
    passes_blanks]

/-- Split at the `>` that closes one angle bracket more than is opened. -/
def scanAngles : Nat → Text → Option (Text × Text)
  | _, [] => none
  | depth, c :: s =>
    if c = '>' ∧ depth = 0 then some ([], s)
    else (scanAngles (angleStep depth c) s).map fun p => (c :: p.1, p.2)

/-- Angle brackets are balanced part by part, so a text that returns to a depth can
be skipped. -/
theorem scanAngles_append {depth depth' : Nat} {w : Text} (h : angles depth w = some depth')
    (s : Text) :
    scanAngles depth (w ++ s) = (scanAngles depth' s).map fun p => (w ++ p.1, p.2) := by
  induction w generalizing depth with
  | nil =>
      obtain rfl := Option.some.inj h
      simp
  | cons c w ih =>
      rw [angles] at h
      rw [List.cons_append, scanAngles]
      split_ifs at h ⊢ with hEnd
      rw [ih h, Option.map_map]
      rfl

/-- Before a text closes all its angle brackets it has not closed too many. -/
theorem angles_prefix {depth depth' : Nat} {w v : Text} (h : angles depth (w ++ v) = some depth') :
    ∃ middle, angles depth w = some middle := by
  induction w generalizing depth with
  | nil => exact ⟨depth, rfl⟩
  | cons c w ih =>
      rw [List.cons_append, angles] at h
      rw [angles]
      split_ifs at h ⊢ with hEnd
      exact ih h

/-- A doctype that is cut off before its last bracket has no end. -/
theorem scanAngles_cut {w cut missing : Text} (h : angles 0 w = some 0)
    (hCut : cut ++ missing = w ++ ['>']) (hMissing : missing ≠ []) : scanAngles 0 cut = none := by
  have hPrefix : ∃ rest, w = cut ++ rest := by
    refine ⟨missing.dropLast, ?_⟩
    have hInit := congrArg List.dropLast hCut
    rwa [List.dropLast_append_of_ne_nil hMissing, List.dropLast_concat, eq_comm] at hInit
  obtain ⟨rest, rfl⟩ := hPrefix
  obtain ⟨depth, hDepth⟩ := angles_prefix h
  have hScan := scanAngles_append hDepth []
  rw [List.append_nil] at hScan
  rw [hScan]
  rfl

inductive AttrScan where
  | gap
  | key (k : Text)
  | keyEnd (k : Text)
  | equals (k : Text)
  | value (k : Text) (q : Char) (v : Text)

def scanAttrs : AttrScan → Text → Option (List Attribute)
  | .gap, [] => some []
  | .gap, c :: s => if isSpace c then scanAttrs .gap s else scanAttrs (.key [c]) s
  | .key k, c :: s =>
    if c = '=' then scanAttrs (.equals k) s
    else if isSpace c then scanAttrs (.keyEnd k) s
    else scanAttrs (.key (k ++ [c])) s
  | .keyEnd k, c :: s =>
    if c = '=' then scanAttrs (.equals k) s
    else if isSpace c then scanAttrs (.keyEnd k) s else none
  | .equals k, c :: s =>
    if isQuote c then scanAttrs (.value k c []) s
    else if isSpace c then scanAttrs (.equals k) s else none
  | .value k q v, c :: s =>
    if c = q then (scanAttrs .gap s).map (⟨String.ofList k, v⟩ :: ·)
    else scanAttrs (.value k q (v ++ [c])) s
  | _, [] => none

/-- White space in a gap between attributes is skipped. -/
theorem scanAttrs_blanks {w : Text} (h : Blank w) (s : Text) :
    scanAttrs .gap (w ++ s) = scanAttrs .gap s := by
  induction w with
  | nil => rfl
  | cons c w ih =>
      have hRest := ih fun d hd => h d (List.mem_cons_of_mem c hd)
      simpa [scanAttrs, h c (by simp)] using hRest

/-- White space after a key is no end of it. -/
theorem isSpace_ne_equals {c : Char} (h : isSpace c = true) : c ≠ '=' := by
  rintro rfl
  revert h
  decide

/-- White space may stand between a key and its equals sign. -/
theorem scanAttrs_keyEnd {w : Text} (h : Blank w) (k s : Text) :
    scanAttrs (.keyEnd k) (w ++ '=' :: s) = scanAttrs (.equals k) s := by
  induction w with
  | nil => simp [scanAttrs]
  | cons c w ih =>
      have hSpace : isSpace c = true := h c (by simp)
      rw [List.cons_append, scanAttrs, if_neg (isSpace_ne_equals hSpace), if_pos hSpace]
      exact ih fun d hd => h d (List.mem_cons_of_mem c hd)

/-- A key is read up to the equals sign, and white space before the sign is no
part of it. -/
theorem scanAttrs_key {w b : Text} (h : ∀ c ∈ w, isNameChar c = true) (hBlank : Blank b)
    (k s : Text) : scanAttrs (.key k) (w ++ (b ++ '=' :: s)) = scanAttrs (.equals (k ++ w)) s := by
  induction w generalizing k with
  | nil =>
      cases b with
      | nil => simp [scanAttrs]
      | cons c b =>
          have hSpace : isSpace c = true := hBlank c (by simp)
          have hRest := scanAttrs_keyEnd (fun d hd => hBlank d (List.mem_cons_of_mem c hd)) k s
          simp [scanAttrs, isSpace_ne_equals hSpace, hSpace, hRest]
  | cons c w ih =>
      have hName : isNameChar c = true := h c (by simp)
      have hc : c ≠ '=' := by
        rintro rfl
        exact absurd hName (by decide)
      rw [List.cons_append, scanAttrs, if_neg hc, isNameChar_notSpace hName, if_neg (by simp),
        ih fun d hd => h d (List.mem_cons_of_mem c hd)]
      simp

/-- The value starts at its quote, with white space before it passed over. -/
theorem scanAttrs_equals {w : Text} (h : Blank w) (quote : Quote) (k s : Text) :
    scanAttrs (.equals k) (w ++ quote.char :: s) = scanAttrs (.value k quote.char []) s := by
  induction w with
  | nil => rw [List.nil_append, scanAttrs, if_pos quote.isQuote_char]
  | cons c w ih =>
      have hSpace : isSpace c = true := h c (by simp)
      rw [List.cons_append, scanAttrs, (isSpace_plain hSpace).1, if_neg (by simp), if_pos hSpace]
      exact ih fun d hd => h d (List.mem_cons_of_mem c hd)

/-- A value goes up to the quote that it was opened with. -/
theorem scanAttrs_value {q : Char} {w : Text} (h : q ∉ w) (k v s : Text) :
    scanAttrs (.value k q v) (w ++ q :: s) =
      (scanAttrs .gap s).map (⟨String.ofList k, v ++ w⟩ :: ·) := by
  induction w generalizing v with
  | nil => simp [scanAttrs]
  | cons c w ih =>
      simp only [List.mem_cons, not_or] at h
      rw [List.cons_append, scanAttrs, if_neg (Ne.symm h.1), ih h.2]
      simp

/-- The next attribute is read as it is written, also with white space around its
equals sign. -/
theorem scanAttrs_attr (a : Attr) (s : Text) :
    scanAttrs .gap (a.source ++ s) = (scanAttrs .gap s).map (a.attribute :: ·) := by
  obtain ⟨hNe, hChars⟩ := a.key.valid
  have hSource : a.source ++ s = a.gap.val ++ (a.key.text ++ (a.beforeEq.val ++ '=' ::
      (a.afterEq.val ++ a.quote.char :: (a.raw ++ a.quote.char :: s)))) := by
    simp [Attr.source]
  have hKey : String.ofList a.key.text = a.key.val := by simp [Name.text]
  rw [hSource, scanAttrs_blanks a.gap.blank]
  cases hText : a.key.text with
  | nil => exact absurd hText hNe
  | cons c w =>
      have hc : isNameChar c = true := hChars c (by rw [← Name.text, hText]; simp)
      have hw : ∀ d ∈ w, isNameChar d = true := fun d hd =>
        hChars d (by rw [← Name.text, hText]; simp [hd])
      rw [List.cons_append, scanAttrs, isNameChar_notSpace hc, if_neg (by simp),
        scanAttrs_key hw a.beforeEq.blank, scanAttrs_equals a.afterEq.blank,
        scanAttrs_value a.quoted.1]
      simp [Attr.attribute, ← hKey, hText]

/-- All attributes of a tag are read, in order, and nothing between them. -/
theorem scanAttrs_tag (t : Tag) :
    scanAttrs .gap t.attributes = some (t.attrs.map Attr.attribute) := by
  have hTrail : scanAttrs .gap t.trail.val = some [] := by
    simpa [scanAttrs] using scanAttrs_blanks t.trail.blank []
  rw [Tag.attributes]
  induction t.attrs with
  | nil => simpa using hTrail
  | cons a attrs ih => simp [scanAttrs_attr, ih]

def tryGetAttribute (tag : BytesStart) (key : String) : Except Unit (Option Attribute) :=
  match scanAttrs .gap tag.attributes with
  | some attrs => .ok (attrs.find? (·.key == key))
  | none => .error ()

/-- Looking up a key finds the first attribute of that key, or none. -/
theorem tryGetAttribute_tag (t : Tag) (key : String) :
    tryGetAttribute t.bytesStart key = .ok ((t.find key).map Attr.attribute) := by
  simp only [tryGetAttribute, Tag.bytesStart, scanAttrs_tag, Tag.find, List.find?_map]
  rfl

def entity (name : Text) : Option Char :=
  if name = ['a', 'm', 'p'] then some '&'
  else if name = ['l', 't'] then some '<'
  else if name = ['g', 't'] then some '>'
  else if name = ['q', 'u', 'o', 't'] then some Quote.double.char
  else if name = ['a', 'p', 'o', 's'] then some Quote.single.char
  else none

/-- The first argument is the part of an entity reference read so far. -/
def unescape : Option Text → Text → Option Text
  | none, [] => some []
  | some _, [] => none
  | none, c :: s => if c = '&' then unescape (some []) s else (unescape none s).map (c :: ·)
  | some name, c :: s =>
    if c = ';' then (entity name).bind fun d => (unescape none s).map (d :: ·)
    else unescape (some (name ++ [c])) s

/-- The reference that stands for a character is resolved to it. -/
theorem unescape_escapeChar (c : Char) (s : Text) :
    unescape none (escapeChar c ++ s) = (unescape none s).map (c :: ·) := by
  unfold escapeChar
  split_ifs with hAmp hLt hGt hQuot hApos
  · subst hAmp; simp [unescape, entity]
  · subst hLt; simp [unescape, entity]
  · subst hGt; simp [unescape, entity]
  · subst hQuot; simp [unescape, entity]
  · subst hApos; simp [unescape, entity]
  · simp [unescape, hAmp]

/-- Attribute values are unescaped to what was escaped. -/
theorem unescape_escape (v : Text) : unescape none (escape v) = some v := by
  induction v with
  | nil => rfl
  | cons c v ih => rw [escape, List.flatMap_cons, unescape_escapeChar, ← escape, ih]; rfl

def decodeAndUnescapeValue (a : Attribute) : Except Unit Text :=
  match unescape none a.value with
  | some v => .ok v
  | none => .error ()

end Xml.SliceReader
