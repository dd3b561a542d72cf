import PwshHost.Xml.TagScan

/-! A pull reader over a text held in memory. It shows that the documented
behaviour can be met, and it is the reader that concrete documents are run on. -/
namespace Xml.SliceReader

structure Slice where
  length : Nat
  rest : Text
  opened : List String
  /-- The start of an empty element was reported and its end is due. -/
  expanding : Bool
  expandEmpty : Bool
  trim : Bool

def fromStr (s : Text) : Slice :=
  { length := s.length, rest := s, opened := [], expanding := false,
    expandEmpty := false, trim := false }

def trimEnd (t : Text) : Text := (t.reverse.dropWhile isSpace).reverse

def fail (r : Slice) : Except Unit Event × Slice := (.error (), { r with rest := [] })

def Slice.close (r : Slice) (name : String) (rest : Text) : Except Unit Event × Slice :=
  if r.opened.head? = some name then
    (.ok (.stop name), { r with rest := rest, opened := r.opened.tail, expanding := false })
  else fail r

/-- Up to the next `>`, or else everything. -/
def untilAngle (s : Text) : Text × Text := (breakOn ['>'] s).getD (s, [])

def readEnd (r : Slice) (s : Text) : Except Unit Event × Slice :=
  r.close (String.ofList (trimEnd (untilAngle s).1)) (untilAngle s).2

def readMisc (r : Slice) (kind : MiscKind) (event : Text → Event) (s : Text) :
    Except Unit Event × Slice :=
  match breakOn kind.closer s with
  | some (body, rest) => (.ok (event body), { r with rest := rest })
  | none => fail r

def readDoctype (r : Slice) (s : Text) : Except Unit Event × Slice :=
  match scanAngles 0 s with
  | some (body, rest) =>
    if Blank body then fail r else (.ok (.doctype body), { r with rest := rest })
  | none => fail r

def readBang (r : Slice) (s : Text) : Except Unit Event × Slice :=
  if ['-', '-'] <+: s then readMisc r .comment .comment (s.drop 2)
  else if ['[', 'C', 'D', 'A', 'T', 'A', '['] <+: s then readMisc r .cdata .cdata (s.drop 7)
  else if ['D', 'O', 'C', 'T', 'Y', 'P', 'E'] <+: s then readDoctype r (s.drop 7)
  else fail r

def readInstruction (r : Slice) (s : Text) : Except Unit Event × Slice :=
  let body := (untilAngle s).1
  if body.getLast? = some '?' ∧ 1 < body.length then
    (.ok (.instruction body.dropLast), { r with rest := (untilAngle s).2 })
  else fail r

def bytesStart (body : Text) : BytesStart :=
  ⟨String.ofList (body.takeWhile fun c => !isSpace c), body.dropWhile fun c => !isSpace c⟩

def readStart (r : Slice) (s : Text) : Except Unit Event × Slice :=
  match scanTag none s with
  | some (body, rest) =>
    if body.getLast? = some '/' then
      let tag := bytesStart body.dropLast
      if r.expandEmpty then
        (.ok (.start tag),
          { r with rest := rest, opened := tag.name :: r.opened, expanding := true })
      else (.ok (.empty tag), { r with rest := rest })
    else
      let tag := bytesStart body
      (.ok (.start tag), { r with rest := rest, opened := tag.name :: r.opened })
  | none => fail r

/-- Called after the opening angle bracket. -/
def readMarkup (r : Slice) : Text → Except Unit Event × Slice
  | [] => (.ok .eof, { r with rest := [] })
  | c :: s =>
    if c = '/' then readEnd r s
    else if c = '!' then readBang r s
    else if c = '?' then readInstruction r s
    else readStart r (c :: s)

def readContent (r : Slice) : Text → Except Unit Event × Slice
  | [] => (.ok .eof, { r with rest := [] })
  | c :: s =>
    if c = '<' then readMarkup r s
    else (.ok (.text (trimEnd ((c :: s).takeWhile (· != '<')))),
      { r with rest := (c :: s).dropWhile (· != '<') })

def readEvent (r : Slice) : Except Unit Event × Slice :=
  if r.expanding then
    match r.opened with
    | name :: _ => r.close name r.rest
    | [] => fail r
  else readContent r (if r.trim then r.rest.dropWhile isSpace else r.rest)

/-- The reader before and after the matching end, while `depth` elements of the
same name are open inside. -/
def readToEnd (name : String) : Nat → Nat → Slice → Option (Slice × Slice)
  | 0, _, _ => none
  | fuel + 1, depth, r =>
    match readEvent r with
    | (.ok (.start tag), r') =>
      readToEnd name fuel (if tag.name = name then depth + 1 else depth) r'
    | (.ok (.stop n), r') =>
      if n = name then
        if depth = 0 then some (r, r') else readToEnd name fuel (depth - 1) r'
      else readToEnd name fuel depth r'
    | (.ok .eof, _) => none
    | (.error _, _) => none
    | (.ok _, r') => readToEnd name fuel depth r'

/-- What was read before the matching end. -/
def readText (r : Slice) (name : String) : Except Unit Text × Slice :=
  match readToEnd name (r.rest.length + 1) 0 r with
  | some (last, r') => (.ok (r.rest.take (r.rest.length - last.rest.length)), r')
  | none => (.error (), { r with rest := [] })

/-- The reader over a text in memory. -/
def sliceReader : PullReader where
  Reader := Slice
  Error := Unit
  fromStr := fromStr
  expandEmptyElements r val := { r with expandEmpty := val }
  trimText r val := { r with trim := val }
  readEvent := readEvent
  readText := readText
  bufferPosition r := r.length - r.rest.length
  tryGetAttribute := tryGetAttribute
  decodeAndUnescapeValue _ := decodeAndUnescapeValue

structure At (r : Slice) (s : Text) (opened : List Name) : Prop where
  rest : r.rest = s
  names : r.opened = opened.map Name.val
  settled : r.expanding = false
  expandEmpty : r.expandEmpty = true
  trim : r.trim = true

structure Expanding (r : Slice) (name : Name) (s : Text) (opened : List Name) : Prop where
  rest : r.rest = s
  names : r.opened = name.val :: opened.map Name.val
  due : r.expanding = true
  expandEmpty : r.expandEmpty = true
  trim : r.trim = true

variable {r : Slice} {s : Text} {opened : List Name}

/-- Before the next event the reader drops white space, as `trim_text` says. -/
theorem At.readEvent_eq (h : At r s opened) :
    readEvent r = readContent r (s.dropWhile isSpace) := by
  simp [readEvent, h.settled, h.trim, h.rest]

/-- At an angle bracket there is no white space to drop. -/
theorem At.readMarkup (h : At r ('<' :: s) opened) : readEvent r = readMarkup r s := by
  have hDrop : ('<' :: s).dropWhile isSpace = '<' :: s := by
    rw [List.dropWhile_cons_of_neg (by decide)]
  rw [h.readEvent_eq, hDrop]
  simp [readContent]

/-- Reading on to `rest` with other elements open keeps the configuration. -/
theorem At.advance (h : At r s opened) (rest : Text) (names : List Name) (r' : Slice)
    (hr : r' = { r with rest := rest, opened := names.map Name.val }) : At r' rest names := by
  subst hr
  exact ⟨rfl, rfl, h.settled, h.expandEmpty, h.trim⟩

/-- The name of a tag is what stands before its first white space, and the rest of
it is kept as it is written. -/
theorem bytesStart_tag (t : Tag) : bytesStart t.source = t.bytesStart := by
  have hName : ∀ c ∈ t.name.text, (!isSpace c) = true := fun c hc => by
    simp [isNameChar_notSpace (t.name.valid.2 c hc)]
  have hNext : ∀ c rest, t.attributes = c :: rest → (!isSpace c) = false := by
    intro c rest hAttributes
    have hMem : isSpace c = true := by
      unfold Tag.attributes at hAttributes
      cases hAttrs : t.attrs with
      | nil =>
          rw [hAttrs] at hAttributes
          simp only [List.flatMap_nil, List.nil_append] at hAttributes
          exact t.trail.blank c (by simp [hAttributes])
      | cons a attrs =>
          cases hGap : a.gap.val with
          | nil => exact absurd hGap a.gap_ne
          | cons d ds =>
              rw [hAttrs, List.flatMap_cons, Attr.source, hGap] at hAttributes
              have hEq : d = c := (List.cons.inj hAttributes).1
              exact hEq ▸ a.gap.blank d (by simp [hGap])
    simp [hMem]
  have hTake : t.source.takeWhile (fun c => !isSpace c) = t.name.text := by
    rw [Tag.source, List.takeWhile_append_of_pos hName]
    cases hAttributes : t.attributes with
    | nil => simp
    | cons c rest => simp [hNext c rest hAttributes]
  have hDrop : t.source.dropWhile (fun c => !isSpace c) = t.attributes := by
    rw [Tag.source, List.dropWhile_append_of_pos hName]
    cases hAttributes : t.attributes with
    | nil => rfl
    | cons c rest => rw [List.dropWhile_cons_of_neg (by simp [hNext c rest hAttributes])]
  simp [bytesStart, Tag.bytesStart, hTake, hDrop, Name.text]

/-- The last character, if any, is not the slash of an empty element. -/
def EndsPlain (w : Text) : Prop := ∀ c, w.getLast? = some c → c ≠ '/'

/-- Whether a text ends with a slash is seen from its last part that is not empty. -/
theorem EndsPlain.append {a b : Text} (ha : EndsPlain a) (hb : EndsPlain b) :
    EndsPlain (a ++ b) := by
  intro c h
  rw [List.getLast?_append] at h
  cases hLast : b.getLast? with
  | none => exact ha c (by simpa [hLast] using h)
  | some d =>
      have hEq : d = c := by simpa [hLast] using h
      exact hEq ▸ hb d hLast

theorem EndsPlain.of_mem {w : Text} (h : ∀ c ∈ w, c ≠ '/') : EndsPlain w :=
  fun c hLast => h c (List.mem_of_getLast? hLast)

theorem EndsPlain.blanks (b : Blanks) : EndsPlain b.val :=
  EndsPlain.of_mem fun c hc => by
    rintro rfl
    exact absurd (b.blank _ hc) (by decide)

/-- A tag ends with a name, a quote or white space, and so never looks like that of
an empty element. -/
theorem EndsPlain.tag (t : Tag) : EndsPlain t.source := by
  have hName : EndsPlain t.name.text := EndsPlain.of_mem fun c hc => by
    rintro rfl
    exact absurd (t.name.valid.2 _ hc) (by decide)
  have hAttr : ∀ a : Attr, EndsPlain a.source := by
    intro a c hLast
    have hQuote : a.source.getLast? = some a.quote.char := by
      have hEnd : a.source = (a.gap.val ++ (a.key.text ++ (a.beforeEq.val ++ '=' ::
          (a.afterEq.val ++ a.quote.char :: a.raw)))) ++ [a.quote.char] := by
        simp [Attr.source]
      rw [hEnd, List.getLast?_concat]
    rw [hQuote] at hLast
    obtain rfl := Option.some.inj hLast
    cases a.quote <;> decide
  have hAttrs : ∀ attrs : List Attr, EndsPlain (attrs.flatMap Attr.source) := by
    intro attrs
    induction attrs with
    | nil => simp [EndsPlain]
    | cons a attrs ih =>
        rw [List.flatMap_cons]
        exact (hAttr a).append ih
  exact hName.append ((hAttrs _).append (EndsPlain.blanks t.trail))

/-- A nonempty part of a tag sends the reader to the start of an element. -/
theorem readMarkup_tag (r : Slice) (t : Tag) {w cut missing : Text}
    (hCut : cut ++ missing = t.source ++ w) (hStarted : cut ≠ []) :
    readMarkup r cut = readStart r cut := by
  obtain ⟨hNe, hChars⟩ := t.name.valid
  cases cut with
  | nil => exact absurd rfl hStarted
  | cons c cut =>
      have hMem : c ∈ t.name.text := by
        cases hText : t.name.text with
        | nil => exact absurd hText hNe
        | cons d rest =>
            rw [Tag.source, hText] at hCut
            have hEq : c = d := (List.cons.inj hCut).1
            simp [hEq]
      have hc : isNameChar c = true := hChars c hMem
      have hSlash : c ≠ '/' := by rintro rfl; exact absurd hc (by decide)
      have hBang : c ≠ '!' := by rintro rfl; exact absurd hc (by decide)
      have hQuestion : c ≠ '?' := by rintro rfl; exact absurd hc (by decide)
      simp [readMarkup, hSlash, hBang, hQuestion]

/-- A whole tag starts with the first character of its name. -/
theorem readMarkup_whole (r : Slice) (t : Tag) (w : Text) :
    readMarkup r (t.source ++ w) = readStart r (t.source ++ w) := by
  have hSource : (t.source ++ w) ++ [] = t.source ++ w := List.append_nil _
  apply readMarkup_tag r t hSource
  have hNe : t.name.text ≠ [] := t.name.valid.1
  simp [Tag.source, hNe]

/-- A start tag is reported and its element is open. -/
theorem readStart_opening (r : Slice) (t : Tag) (s : Text) :
    readStart r (t.source ++ '>' :: s) =
      (.ok (.start t.bytesStart), { r with rest := s, opened := t.name.val :: r.opened }) := by
  have hLast : t.source.getLast? ≠ some '/' := fun h => EndsPlain.tag t _ h rfl
  rw [readStart, scanTag_of_passes (passes_tag t)]
  simp only [if_neg hLast, bytesStart_tag]
  rfl

/-- The slash of an empty element stands outside of quotes. -/
theorem passes_empty (t : Tag) : passes none (t.source ++ ['/']) = some none := by
  rw [passes_append (passes_tag t)]
  decide

/-- An empty element is reported as the start of one, whose end is due. -/
theorem readStart_empty (r : Slice) (t : Tag) (s : Text) (h : r.expandEmpty = true) :
    readStart r (t.source ++ '/' :: '>' :: s) =
      (.ok (.start t.bytesStart),
        { r with rest := s, opened := t.name.val :: r.opened, expanding := true }) := by
  have hScan := scanTag_of_passes (passes_empty t) s
  rw [List.append_assoc] at hScan
  simp only [readStart, List.cons_append, List.nil_append] at hScan ⊢
  simp [hScan, bytesStart_tag, h, Tag.bytesStart]

/-- A single character ends a body that does not have it. -/
theorem ends_singleton {body : Text} {c : Char} (h : c ∉ body) : Ends body [c] := by
  refine ⟨by simp, ?_⟩
  intro hInfix
  obtain ⟨before, after, hSplit⟩ := hInfix
  apply h
  have hBody : body = before ++ [c] ++ after := by simpa using hSplit.symm
  simp [hBody]

/-- Up to the first `>` a text is its body. -/
theorem breakOn_angle {body : Text} (h : '>' ∉ body) (s : Text) :
    breakOn ['>'] (body ++ '>' :: s) = some (body, s) := by
  have hBreak := breakOn_append (ends_singleton h) s
  rwa [List.append_assoc] at hBreak

/-- Where there is no `>` there is nothing to break at. -/
theorem breakOn_none {body : Text} (h : '>' ∉ body) : breakOn ['>'] body = none :=
  breakOn_cut (ends_singleton h) rfl (by simp)

/-- With or without the `>` and more after it, the same is read. -/
theorem untilAngle_append {body : Text} (h : '>' ∉ body) (s : Text) :
    untilAngle (body ++ '>' :: s) = (body, s) := by
  rw [untilAngle, breakOn_angle h, Option.getD_some]

/-- At the end of input everything that is left counts as read. -/
theorem untilAngle_all {body : Text} (h : '>' ∉ body) : untilAngle body = (body, []) := by
  rw [untilAngle, breakOn_none h, Option.getD_none]

theorem Name.noAngle (name : Name) : '>' ∉ name.text :=
  fun h => (isNameChar_plain (name.valid.2 _ h)).2 rfl

/-- Neither a name nor the white space after it has an angle bracket. -/
theorem noAngle_closing (name : Name) (trail : Blanks) : '>' ∉ name.text ++ trail.val := by
  simp only [List.mem_append, not_or]
  exact ⟨Name.noAngle name, fun h => (isSpace_plain (trail.blank _ h)).2 rfl⟩

/-- White space after a name is dropped, and nothing of the name. -/
theorem trimEnd_append {w b : Text} (hName : ∀ c ∈ w, isNameChar c = true) (hBlank : Blank b) :
    trimEnd (w ++ b) = w := by
  have hTrail : ∀ c ∈ b.reverse, isSpace c = true := fun c hc => hBlank c (by simpa using hc)
  have hStays : w.reverse.dropWhile isSpace = w.reverse := by
    cases hRev : w.reverse with
    | nil => rfl
    | cons c rest =>
        have hMem : c ∈ w := by
          have : c ∈ w.reverse := by simp [hRev]
          simpa using this
        rw [List.dropWhile_cons_of_neg (by simp [isNameChar_notSpace (hName c hMem)])]
  rw [trimEnd, List.reverse_append, List.dropWhile_append_of_pos hTrail, hStays,
    List.reverse_reverse]

/-- The name in an end tag does without the white space after it. -/
theorem trimEnd_closing (name : Name) (trail : Blanks) :
    String.ofList (trimEnd (name.text ++ trail.val)) = name.val := by
  have hName : ∀ c ∈ name.text, isNameChar c = true := name.valid.2
  rw [trimEnd_append hName trail.blank]
  simp [Name.text]

/-- An end tag closes the element that it names. -/
theorem readEnd_closing (r : Slice) (name : Name) (trail : Blanks) (s : Text) :
    readEnd r (name.text ++ trail.val ++ '>' :: s) = r.close name.val s := by
  rw [readEnd, untilAngle_append (noAngle_closing name trail), trimEnd_closing]

/-- A start tag opens its element. -/
theorem opening_law (tag : Tag) (h : At r ((Markup.opening tag).source ++ s) opened) :
    ∃ r', readEvent r = (.ok (.start tag.bytesStart), r') ∧ At r' s (tag.name :: opened) := by
  have hSource : (Markup.opening tag).source ++ s = '<' :: (tag.source ++ '>' :: s) := by
    simp [Markup.source]
  rw [hSource] at h
  refine ⟨{ r with rest := s, opened := tag.name.val :: r.opened }, ?_, ?_⟩
  · rw [h.readMarkup, readMarkup_whole, readStart_opening]
  · exact h.advance _ _ _ (by simp [h.names])

/-- An empty element is expanded: its start comes first. -/
theorem empty_law (tag : Tag) (h : At r ((Markup.empty tag).source ++ s) opened) :
    ∃ r', readEvent r = (.ok (.start tag.bytesStart), r') ∧ Expanding r' tag.name s opened := by
  have hSource : (Markup.empty tag).source ++ s = '<' :: (tag.source ++ '/' :: '>' :: s) := by
    simp [Markup.source]
  rw [hSource] at h
  refine ⟨{ r with rest := s, opened := tag.name.val :: r.opened, expanding := true }, ?_, ?_⟩
  · rw [h.readMarkup, readMarkup_whole, readStart_empty r tag s h.expandEmpty]
  · exact ⟨rfl, by simp [h.names], rfl, h.expandEmpty, h.trim⟩

/-- An end tag that names the innermost open element closes it. -/
theorem closing_law (name : Name) (trail : Blanks)
    (h : At r (closingSource name trail ++ s) (name :: opened)) :
    ∃ r', readEvent r = (.ok (.stop name.val), r') ∧ At r' s opened := by
  have hSource : closingSource name trail ++ s =
      '<' :: '/' :: (name.text ++ trail.val ++ '>' :: s) := by simp [closingSource, closingCut]
  rw [hSource] at h
  have hHead : r.opened.head? = some name.val := by simp [h.names]
  refine ⟨{ r with rest := s, opened := r.opened.tail, expanding := false }, ?_, ?_⟩
  · rw [h.readMarkup, readMarkup, if_pos rfl, readEnd_closing, Slice.close, if_pos hHead]
  · exact h.advance _ _ _ (by simp [h.names, h.settled])

/-- Then the end of the empty element comes, without anything being read for it. -/
theorem expanded_law {name : Name} (h : Expanding r name s opened) :
    ∃ r', readEvent r = (.ok (.stop name.val), r') ∧ At r' s opened := by
  have hHead : r.opened.head? = some name.val := by simp [h.names]
  refine ⟨{ r with opened := r.opened.tail, expanding := false }, ?_, ?_⟩
  · simp [readEvent, h.due, h.names, Slice.close]
  · exact ⟨h.rest, by simp [h.names], rfl, h.expandEmpty, h.trim⟩

/-- An instruction goes up to its first `>`, and before that stands a question mark. -/
theorem readInstruction_append (r : Slice) {body : Text} (h : '>' ∉ body ∧ body ≠ [])
    (s : Text) : readInstruction r (body ++ '?' :: '>' :: s) =
      (.ok (.instruction body), { r with rest := s }) := by
  have hAngle : untilAngle (body ++ ['?'] ++ '>' :: s) = (body ++ ['?'], s) :=
    untilAngle_append (by simp [h.1]) s
  rw [List.append_assoc] at hAngle
  have hLength := List.length_pos_iff.mpr h.2
  simp only [List.cons_append, List.nil_append] at hAngle
  simp [readInstruction, hAngle, h.2]

/-- A document type declaration goes up to the `>` that closes its first bracket. -/
theorem readDoctype_append (r : Slice) {body : Text} (hAngles : angles 0 body = some 0)
    (hBlank : ¬ Blank body) (s : Text) :
    readDoctype r (body ++ '>' :: s) = (.ok (.doctype body), { r with rest := s }) := by
  simp [readDoctype, scanAngles_append hAngles, scanAngles, hBlank]

/-- Comments, CDATA sections, instructions and document types are read as a whole
and open nothing. -/
theorem misc_law (m : Misc) (h : At r (m.source ++ s) opened) :
    ∃ r', readEvent r = (.ok m.event, r') ∧ At r' s opened := by
  refine ⟨{ r with rest := s }, ?_, h.advance _ _ _ (by simp [h.names])⟩
  obtain ⟨kind, body, hEnds⟩ := m
  cases kind with
  | comment | cdata =>
      have hBreak := breakOn_append hEnds s
      simp only [MiscKind.closer, List.append_assoc, List.cons_append, List.nil_append] at hBreak
      simp only [Misc.source, MiscKind.opener, MiscKind.closer, List.append_assoc,
        List.cons_append, List.nil_append] at h
      simp [h.readMarkup, readMarkup, readBang, readMisc, MiscKind.closer, hBreak, Misc.event]
  | instruction =>
      simp only [Misc.source, MiscKind.opener, MiscKind.closer, List.append_assoc,
        List.cons_append, List.nil_append] at h
      simp [h.readMarkup, readMarkup, readInstruction_append r hEnds, Misc.event]
  | doctype =>
      simp only [Misc.source, MiscKind.opener, MiscKind.closer, List.append_assoc,
        List.cons_append, List.nil_append] at h
      simp [h.readMarkup, readMarkup, readBang, readDoctype_append r hEnds.1 hEnds.2, Misc.event]

/-- Character data goes up to the next piece of markup. -/
theorem takeWhile_data {t : Text} (hData : '<' ∉ t) (hNext : AtMarkup s) :
    (t ++ s).takeWhile (· != '<') = t := by
  have hAll : ∀ c ∈ t, (c != '<') = true := by
    intro c hc
    have hNe : c ≠ '<' := fun hEq => hData (hEq ▸ hc)
    simp [hNe]
  rw [List.takeWhile_append_of_pos hAll]
  cases s with
  | nil => simp
  | cons c rest => simp [hNext c rest rfl]

/-- What is left after character data is that piece of markup. -/
theorem dropWhile_data {t : Text} (hData : '<' ∉ t) (hNext : AtMarkup s) :
    (t ++ s).dropWhile (· != '<') = s := by
  have hSplit : (t ++ s).takeWhile (· != '<') ++ (t ++ s).dropWhile (· != '<') = t ++ s :=
    List.takeWhile_append_dropWhile
  rw [takeWhile_data hData hNext] at hSplit
  exact List.append_cancel_left hSplit

/-- Character data that is not blank is an event of its own. -/
theorem text_law {t : Text} (hData : '<' ∉ t) (hBlank : ¬ Blank t) (hNext : AtMarkup s)
    (h : At r (t ++ s) opened) :
    ∃ raw r', readEvent r = (.ok (.text raw), r') ∧ At r' s opened := by
  have hDrop : (t ++ s).dropWhile isSpace = t.dropWhile isSpace ++ s := by
    rw [List.dropWhile_append]
    split
    · rename_i hEmpty
      have hAll : Blank t := by
        intro c hc
        exact List.dropWhile_eq_nil_iff.mp (List.isEmpty_iff.mp hEmpty) c hc
      exact absurd hAll hBlank
    · rfl
  have hRest : '<' ∉ t.dropWhile isSpace := fun hMem =>
    hData (List.dropWhile_subset _ hMem)
  have hRead := h.readEvent_eq
  rw [hDrop] at hRead
  cases hText : t.dropWhile isSpace with
  | nil => exact absurd (fun c hc => List.dropWhile_eq_nil_iff.mp hText c hc) hBlank
  | cons c w =>
      rw [hText] at hRead hRest
      have hc : c ≠ '<' := fun hEq => hRest (by simp [hEq])
      refine ⟨trimEnd (c :: w), { r with rest := s }, ?_, h.advance _ _ _ (by simp [h.names])⟩
      rw [hRead, List.cons_append, readContent, if_neg hc, ← List.cons_append,
        takeWhile_data hRest hNext, dropWhile_data hRest hNext]

/-- Blank character data is not reported. The event after it is the next one. -/
theorem blank_law {t : Text} (hBlank : Blank t) (hNext : AtMarkup s) (h : At r (t ++ s) opened) :
    ∃ r', At r' s opened ∧ readEvent r = readEvent r' := by
  have hDrop : ∀ w : Text, Blank w → (w ++ s).dropWhile isSpace = s := by
    intro w hw
    rw [List.dropWhile_append_of_pos hw]
    cases s with
    | nil => rfl
    | cons c rest =>
        rw [hNext c rest rfl, List.dropWhile_cons_of_neg (by decide)]
  have hSame : s.dropWhile isSpace = s := hDrop [] Blank.nil
  have hNow : At { r with rest := s } s opened := h.advance _ _ _ (by simp [h.names])
  refine ⟨{ r with rest := s }, hNow, ?_⟩
  rw [h.readEvent_eq, hNow.readEvent_eq, hDrop t hBlank, hSame]
  cases s with
  | nil => rfl
  | cons c rest => rw [hNext c rest rfl]; rfl

/-- Without any text left the reader is at the end of the input. -/
theorem readEvent_nil (h : At r [] opened) : readEvent r = (.ok .eof, { r with rest := [] }) := by
  rw [h.readEvent_eq]
  rfl

/-- What is cut off before its closer is complete is not accepted. -/
theorem readMisc_cut (r : Slice) (event : Text → Event) {kind : MiscKind} {body cut missing : Text}
    (h : Ends body kind.closer) (hCut : cut ++ missing = body ++ kind.closer)
    (hMissing : missing ≠ []) : readMisc r kind event cut = fail r := by
  simp [readMisc, breakOn_cut h hCut hMissing]

/-- A cut does not start like anything that the whole does not start like. -/
theorem not_prefix_cut {w whole cut missing : Text} (hCut : cut ++ missing = whole)
    (hWhole : ¬ w <+: whole) : ¬ w <+: cut :=
  fun h => hWhole (h.trans ⟨missing, hCut⟩)

/-- A prefix that ends inside a comment, a CDATA section or a document type
declaration is not accepted, be it inside the opener or after it. -/
theorem readBang_cut (r : Slice) (m : Misc) {cut missing : Text} (hKind : m.kind ≠ .instruction)
    (hCut : '<' :: '!' :: (cut ++ missing) = m.source) (hMissing : missing ≠ []) :
    readBang r cut = fail r := by
  obtain ⟨kind, body, hEnds⟩ := m
  cases kind with
  | comment =>
      simp only [Misc.source, MiscKind.opener, List.cons_append, List.nil_append, List.cons.injEq,
        true_and] at hCut
      have hSquare : ¬ ['[', 'C', 'D', 'A', 'T', 'A', '['] <+: cut :=
        not_prefix_cut hCut (by simp)
      by_cases hDash : ['-', '-'] <+: cut
      · obtain ⟨more, rfl⟩ := hDash
        simp only [List.cons_append, List.nil_append, List.cons.injEq, true_and] at hCut
        simp [readBang, readMisc_cut r .comment hEnds hCut hMissing]
      · have hDoctype : ¬ ['D', 'O', 'C', 'T', 'Y', 'P', 'E'] <+: cut :=
   not_prefix_cut hCut (by simp)
        simp [readBang, hDash, hSquare, hDoctype]
  | cdata =>
      simp only [Misc.source, MiscKind.opener, List.cons_append, List.nil_append, List.cons.injEq,
        true_and] at hCut
      have hDash : ¬ ['-', '-'] <+: cut :=
        not_prefix_cut hCut (by simp)
      by_cases hSquare : ['[', 'C', 'D', 'A', 'T', 'A', '['] <+: cut
      · obtain ⟨more, rfl⟩ := hSquare
        simp only [List.cons_append, List.nil_append, List.cons.injEq, true_and] at hCut
        simp [readBang, readMisc_cut r .cdata hEnds hCut hMissing]
      · have hDoctype : ¬ ['D', 'O', 'C', 'T', 'Y', 'P', 'E'] <+: cut :=
   not_prefix_cut hCut (by simp)
        simp [readBang, hDash, hSquare, hDoctype]
  | doctype =>
      simp only [Misc.source, MiscKind.opener, List.cons_append, List.nil_append, List.cons.injEq,
        true_and] at hCut
      have hDash : ¬ ['-', '-'] <+: cut :=
        not_prefix_cut hCut (by simp)
      have hSquare : ¬ ['[', 'C', 'D', 'A', 'T', 'A', '['] <+: cut :=
        not_prefix_cut hCut (by simp)
      by_cases hDoctype : ['D', 'O', 'C', 'T', 'Y', 'P', 'E'] <+: cut
      · obtain ⟨more, rfl⟩ := hDoctype
        simp only [List.cons_append, List.nil_append, List.cons.injEq, true_and] at hCut
        simp [readBang, readDoctype, scanAngles_cut hEnds.1 hCut hMissing]
      · simp [readBang, hDash, hSquare, hDoctype]
  | instruction => exact absurd rfl hKind

/-- Nor is a tag without its end. -/
theorem readStart_cut (r : Slice) {w cut missing : Text} (h : passes none w = some none)
    (hCut : cut ++ missing = w ++ ['>']) (hMissing : missing ≠ []) : readStart r cut = fail r := by
  simp [readStart, scanTag_cut h hCut hMissing]

/-- A cut after the bracket of a tag, a comment, a CDATA section or a document type
leaves a reader that looks for an end in vain. -/
theorem readMarkup_cut (r : Slice) (m : Markup) {cut missing : Text} (hEnd : m.needsEnd)
    (hCut : '<' :: (cut ++ missing) = m.source) (hStarted : cut ≠ []) (hMissing : missing ≠ []) :
    readMarkup r cut = fail r := by
  cases m with
  | opening tag =>
      simp only [Markup.source, List.cons.injEq, true_and] at hCut
      rw [readMarkup_tag r tag hCut hStarted]
      exact readStart_cut r (passes_tag tag) hCut hMissing
  | empty tag =>
      simp only [Markup.source, List.cons.injEq, true_and] at hCut
      rw [readMarkup_tag r tag hCut hStarted]
      exact readStart_cut r (passes_empty tag) (by simpa using hCut) hMissing
  | closing name trail => exact absurd hEnd id
  | misc m =>
      cases cut with
      | nil => exact absurd rfl hStarted
      | cons c rest =>
          obtain rfl : c = '!' := by
            obtain ⟨kind, body, hEnds⟩ := m
            cases kind with
            | comment | cdata | doctype =>
                simp only [Markup.source, Misc.source, MiscKind.opener, List.cons_append,
                  List.cons.injEq] at hCut
                exact hCut.2.1
            | instruction => exact absurd rfl hEnd
          simp [readMarkup, readBang_cut r m hEnd hCut hMissing]

/-- Such a cut is an error from its second character on. -/
theorem unclosed_law {cut missing : Text} (m : Markup) (hEnd : m.needsEnd)
    (hCut : cut ++ missing = m.source) (hStarted : 2 ≤ cut.length) (hMissing : missing ≠ [])
    (h : At r cut opened) : readEvent r = fail r := by
  obtain ⟨rest, hSource⟩ := m.source_head
  cases cut with
  | nil => simp at hStarted
  | cons c cut =>
      have hc : c = '<' := by
        rw [hSource, List.cons_append] at hCut
        exact (List.cons.inj hCut).1
      subst hc
      have hMore : cut ≠ [] := by
        rintro rfl
        simp at hStarted
      rw [h.readMarkup]
      exact readMarkup_cut r m hEnd hCut hMore hMissing

/-- A bracket alone is taken for the end of the input. -/
theorem bracket_law (h : At r ['<'] opened) :
    readEvent r = (.ok .eof, { r with rest := [] }) := by
  rw [h.readMarkup]
  rfl

/-- At the end of input an end tag does without its last character. -/
theorem closingCut_law (name : Name) (trail : Blanks)
    (h : At r (closingCut name trail.val) (name :: opened)) :
    ∃ r', readEvent r = (.ok (.stop name.val), r') ∧ At r' [] opened := by
  have hHead : r.opened.head? = some name.val := by simp [h.names]
  refine ⟨{ r with rest := [], opened := r.opened.tail, expanding := false }, ?_, ?_⟩
  · rw [h.readMarkup, readMarkup, if_pos rfl, readEnd,
      untilAngle_all (noAngle_closing name trail), trimEnd_closing, Slice.close, if_pos hHead]
  · exact h.advance _ _ _ (by simp [h.names, h.settled])

/-- A part of a name is another name. -/
theorem mismatch_law {name : Name} {part : Text} (hPart : part <+: name.text)
    (hMore : part ≠ name.text) (h : At r ('<' :: '/' :: part) (name :: opened)) :
    readEvent r = fail r := by
  have hChars : ∀ c ∈ part, isNameChar c = true := fun c hc =>
    name.valid.2 c (hPart.subset hc)
  have hAngle : '>' ∉ part := fun hMem => (isNameChar_plain (hChars _ hMem)).2 rfl
  have hTrim : trimEnd part = part := by
    have hAppend := trimEnd_append hChars Blank.nil
    rwa [List.append_nil] at hAppend
  have hOther : ¬ r.opened.head? = some (String.ofList part) := by
    rw [h.names]
    intro hSame
    have hName : name.val = String.ofList part := by simpa using hSame
    exact hMore (by rw [Name.text, hName, String.toList_ofList])
  rw [h.readMarkup, readMarkup, if_pos rfl, readEnd, untilAngle_all hAngle, hTrim, Slice.close,
    if_neg hOther]

/-- At the end of input an instruction does without its last character, too. -/
theorem instructionCut_law {body : Text} (hBody : '>' ∉ body ∧ body ≠ [])
    (h : At r (instructionCut body) opened) :
    ∃ r', readEvent r = (.ok (.instruction body), r') ∧ At r' [] opened := by
  refine ⟨{ r with rest := [] }, ?_, h.advance _ _ _ (by simp [h.names])⟩
  have hAngle : untilAngle (body ++ ['?']) = (body ++ ['?'], []) :=
    untilAngle_all (by simp [hBody.1])
  have hLength := List.length_pos_iff.mpr hBody.2
  simp [h.readMarkup, readMarkup, readInstruction, hAngle, hBody.2]

/-- Without a question mark at the end, or with nothing before it, there is no
instruction. -/
theorem noInstruction_law {part : Text} (hPart : '>' ∉ part)
    (hCut : ∀ body, body ≠ [] → part ≠ body ++ ['?'])
    (h : At r ('<' :: '?' :: part) opened) : readEvent r = fail r := by
  have hNot : ¬ (part.getLast? = some '?' ∧ 1 < part.length) := by
    rintro ⟨hLast, hLength⟩
    have hSplit : part.dropLast ++ ['?'] = part := List.dropLast_append_getLast? '?' hLast
    refine hCut part.dropLast ?_ hSplit.symm
    rw [← List.length_pos_iff, List.length_dropLast]
    omega
  simp [h.readMarkup, readMarkup, readInstruction, untilAngle_all hPart, hNot]

end Xml.SliceReader
