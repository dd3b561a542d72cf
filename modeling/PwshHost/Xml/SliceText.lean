import PwshHost.Xml.SliceReader

/-! The text of an element as the reader over a text in memory finds it: event
by event up to the matching end tag. -/
namespace Xml.SliceReader

variable {r : Slice} {s : Text} {opened : List Name}

/-- How many of the open elements have the name. -/
def depthOf (name : Name) (inside : List Name) : Nat := inside.countP (·.val = name.val)

/-- Only elements of the same name count, as in `read_to_end`. -/
theorem depthOf_cons (name top : Name) (inside : List Name) :
    depthOf name (top :: inside) =
      if top.val = name.val then depthOf name inside + 1 else depthOf name inside := by
  rw [depthOf, List.countP_cons, depthOf]
  by_cases hSame : top.val = name.val <;> simp [hSame]

/-- Reading on from `r` is reading on from `r'`, which stands before `s` with
fuel to spare. -/
def Continues (name : Name) (r : Slice) (depth fuel : Nat) (s : Text) (inside opened : List Name) :
    Prop :=
  ∃ r' fuel', At r' s (inside ++ name :: opened) ∧ s.length < fuel' ∧
    readToEnd name.val fuel depth r = readToEnd name.val fuel' (depthOf name inside) r'

/-- Every piece of markup takes at least three characters, so there is fuel for the
two events of an empty element. -/
theorem length_source (m : Markup) : 3 ≤ m.source.length := by
  cases m with
  | opening tag =>
      have hNe := List.length_pos_iff.mpr tag.name.valid.1
      simp [Markup.source, Tag.source, Name.text] at hNe ⊢
      omega
  | closing name trail =>
      simp [Markup.source, closingSource, closingCut]
      omega
  | empty tag => simp [Markup.source]
  | misc m =>
      obtain ⟨kind, body, hEnds⟩ := m
      cases kind <;> simp [Markup.source, Misc.source, MiscKind.opener, MiscKind.closer]

/-- An end tag closes the innermost element. -/
theorem Markup.nest_closing {name : Name} {trail : Blanks} {inside inside' : List Name}
    (h : (Markup.closing name trail).nest inside = some inside') : inside = name :: inside' := by
  cases inside with
  | nil => simp [Markup.nest] at h
  | cons top rest =>
      simp only [Markup.nest] at h
      split at h
      · rename_i hTop
        rw [hTop, Option.some.inj h]
      · simp at h

/-- Markup other than the matching end tag is read over. -/
theorem continues_markup (name : Name) {m : Markup} {inside inside' : List Name} {r r₀ : Slice}
    {fuel : Nat} (hNest : m.nest inside = some inside') (hSame : readEvent r = readEvent r₀)
    (h : At r₀ (m.source ++ s) (inside ++ name :: opened))
    (hFuel : (m.source ++ s).length < fuel) :
    Continues name r (depthOf name inside) fuel s inside' opened := by
  have hLength := length_source m
  rw [List.length_append] at hFuel
  obtain ⟨fuel, rfl⟩ : ∃ less, fuel = less + 2 := ⟨fuel - 2, by omega⟩
  cases m with
  | opening tag =>
      obtain rfl := Option.some.inj hNest
      obtain ⟨r', hRead, hAt⟩ := opening_law tag h
      refine ⟨r', fuel + 1, hAt, by omega, ?_⟩
      rw [depthOf_cons, readToEnd, hSame, hRead]
      rfl
  | closing n trail =>
      obtain rfl := Markup.nest_closing hNest
      obtain ⟨r', hRead, hAt⟩ := closing_law n trail h
      refine ⟨r', fuel + 1, hAt, by omega, ?_⟩
      rw [depthOf_cons, readToEnd, hSame, hRead]
      by_cases hName : n.val = name.val <;> simp [hName]
  | empty tag =>
      obtain rfl := Option.some.inj hNest
      obtain ⟨r₁, hStart, hExpanding⟩ := empty_law tag h
      obtain ⟨r', hStop, hAt⟩ := expanded_law hExpanding
      refine ⟨r', fuel, hAt, by omega, ?_⟩
      rw [readToEnd, hSame, hStart]
      simp only [readToEnd, hStop]
      by_cases hName : tag.name.val = name.val <;> simp [hName, Tag.bytesStart]
  | misc m =>
      obtain rfl := Option.some.inj hNest
      obtain ⟨r', hRead, hAt⟩ := misc_law m h
      refine ⟨r', fuel + 1, hAt, by omega, ?_⟩
      rw [readToEnd, hSame, hRead]
      obtain ⟨kind, body, hEnds⟩ := m
      cases kind <;> rfl

/-- Character data before the markup is read over as well, be it reported or not. -/
theorem continues_part (name : Name) (data : CharData) {m : Markup} {inside inside' : List Name}
    {fuel : Nat} (hNest : m.nest inside = some inside')
    (h : At r (data.val ++ (m.source ++ s)) (inside ++ name :: opened))
    (hFuel : (data.val ++ (m.source ++ s)).length < fuel) :
    Continues name r (depthOf name inside) fuel s inside' opened := by
  rw [List.length_append] at hFuel
  by_cases hBlank : Blank data.val
  · obtain ⟨r₀, hAt, hSame⟩ := blank_law hBlank (m.atMarkup s) h
    exact continues_markup name hNest hSame hAt (by omega)
  · obtain ⟨raw, r₁, hRead, hAt⟩ := text_law data.noMarkup hBlank (m.atMarkup s) h
    have hPos : 0 < data.val.length := by
      apply List.length_pos_iff.mpr
      intro hNil
      exact hBlank (hNil ▸ Blank.nil)
    obtain ⟨fuel, rfl⟩ : ∃ less, fuel = less + 1 := ⟨fuel - 1, by omega⟩
    obtain ⟨r', fuel', hAt', hFuel', hEq⟩ : Continues name r₁ _ fuel s inside' opened :=
      continues_markup name hNest rfl hAt (by omega)
    refine ⟨r', fuel', hAt', hFuel', ?_⟩
    rw [readToEnd, hRead, ← hEq]

/-- By induction on the parts: what is properly nested is read over. -/
theorem continues_parts (name : Name) {parts : List (CharData × Markup)}
    {inside inside' : List Name} {fuel : Nat}
    (hNest : (parts.map Prod.snd).foldlM Markup.nest inside = some inside')
    (h : At r (partsSource parts ++ s) (inside ++ name :: opened))
    (hFuel : (partsSource parts ++ s).length < fuel) :
    Continues name r (depthOf name inside) fuel s inside' opened := by
  induction parts generalizing inside r fuel with
  | nil =>
      obtain rfl := Option.some.inj hNest
      exact ⟨r, fuel, h, hFuel, rfl⟩
  | cons part parts ih =>
      rw [List.map_cons, List.foldlM_cons] at hNest
      obtain ⟨middle, hPart, hParts⟩ := Option.bind_eq_some_iff.mp hNest
      have hSource : partsSource (part :: parts) ++ s =
          part.1.val ++ (part.2.source ++ (partsSource parts ++ s)) := by
        simp [partsSource]
      rw [hSource] at h hFuel
      obtain ⟨r₁, fuel₁, hAt₁, hFuel₁, hEq₁⟩ := continues_part name part.1 hPart h hFuel
      obtain ⟨r', fuel', hAt', hFuel', hEq'⟩ := ih hParts hAt₁ hFuel₁
      exact ⟨r', fuel', hAt', hFuel', hEq₁.trans hEq'⟩

/-- At `tail` the reader reports the end of the element and gets to `s`. -/
def EndsElement (name : Name) (opened : List Name) (tail s : Text) : Prop :=
  ∀ r, At r tail (name :: opened) →
    ∃ r', readEvent r = (.ok (.stop name.val), r') ∧ At r' s opened

/-- The end tag is found after the character data before it, with the reader
before the data when that is blank. -/
theorem readToEnd_last {last tail : Text} {name : Name} {fuel : Nat}
    (hEnd : EndsElement name opened ('<' :: tail) s) (hData : '<' ∉ last)
    (h : At r (last ++ '<' :: tail) (name :: opened))
    (hFuel : (last ++ '<' :: tail).length < fuel) :
    ∃ before r', readToEnd name.val fuel 0 r = some (before, r') ∧ At r' s opened ∧
      reported last ++ before.rest = last ++ '<' :: tail := by
  rw [List.length_append, List.length_cons] at hFuel
  obtain ⟨fuel, rfl⟩ : ∃ less, fuel = less + 2 := ⟨fuel - 2, by omega⟩
  by_cases hBlank : Blank last
  · obtain ⟨r₀, hAt, hSame⟩ := blank_law hBlank (AtMarkup.cons tail) h
    obtain ⟨r', hRead, hAt'⟩ := hEnd r₀ hAt
    refine ⟨r, r', ?_, hAt', ?_⟩
    · rw [readToEnd, hSame, hRead]
      simp
    · rw [reported, if_pos hBlank, h.rest, List.nil_append]
  · obtain ⟨raw, r₁, hText, hAt⟩ := text_law hData hBlank (AtMarkup.cons tail) h
    obtain ⟨r', hRead, hAt'⟩ := hEnd r₁ hAt
    refine ⟨r₁, r', ?_, hAt', ?_⟩
    · rw [readToEnd, hText]
      simp only [readToEnd, hRead, if_true]
    · rw [reported, if_neg hBlank, hAt.rest]

/-- What is reported for the content is its source up to the end tag, whichever
way that is written. -/
theorem readText_ends {tail : Text} {name : Name} (content : Mixed)
    (hEnd : EndsElement name opened ('<' :: tail) s)
    (h : At r (content.source ++ '<' :: tail) (name :: opened)) :
    ∃ r', readText r name.val = (.ok content.reported, r') ∧ At r' s opened := by
  rw [Mixed.source, List.append_assoc] at h
  obtain ⟨r₁, fuel, hAt, hFuel, hParts⟩ :=
    continues_parts name content.closed h (Nat.lt_succ_self _)
  obtain ⟨before, r', hLast, hAt', hReported⟩ :=
    readToEnd_last hEnd content.last.noMarkup hAt hFuel
  refine ⟨r', ?_, hAt'⟩
  have hFound : readToEnd name.val (r.rest.length + 1) 0 r = some (before, r') := by
    rw [h.rest]
    exact hParts.trans hLast
  have hSplit : r.rest = content.reported ++ before.rest := by
    rw [h.rest, ← hReported, Mixed.reported, List.append_assoc]
  have hTake : r.rest.take (r.rest.length - before.rest.length) = content.reported := by
    rw [hSplit, List.length_append, Nat.add_sub_cancel, List.take_left]
  rw [readText, hFound]
  simp only [hTake]

/-- Of properly nested content `read_text` returns the source, without the end tag. -/
theorem readMixed_law (content : Mixed) (name : Name) (trail : Blanks)
    (h : At r (content.source ++ closingSource name trail ++ s) (name :: opened)) :
    ∃ r', readText r name.val = (.ok content.reported, r') ∧ At r' s opened := by
  rw [List.append_assoc] at h
  exact readText_ends content (fun _ hAt => closing_law name trail hAt) h

/-- In particular the text of a leaf, but for blank text, which is dropped before
the end tag is found. -/
theorem readText_law {content : Text} (name : Name) (trail : Blanks) (hData : '<' ∉ content)
    (h : At r (content ++ closingSource name trail ++ s) (name :: opened)) :
    ∃ r', readText r name.val = (.ok (reported content), r') ∧ At r' s opened :=
  readMixed_law ⟨[], ⟨content, hData⟩, rfl⟩ name trail h

/-- The end tag of the leaf may lack its last character at the end of input. -/
theorem readTextCut_law {content : Text} (name : Name) (trail : Blanks) (hData : '<' ∉ content)
    (h : At r (content ++ closingCut name trail.val) (name :: opened)) :
    ∃ r', readText r name.val = (.ok (reported content), r') ∧ At r' [] opened :=
  readText_ends ⟨[], ⟨content, hData⟩, rfl⟩ (fun _ hAt => closingCut_law name trail hAt) h

/-- An expanded element has no text, and its end is found at once. -/
theorem readTextEmpty_law {name : Name} (h : Expanding r name s opened) :
    ∃ r', readText r name.val = (.ok [], r') ∧ At r' s opened := by
  obtain ⟨r', hRead, hAt⟩ := expanded_law h
  refine ⟨r', ?_, hAt⟩
  simp [readText, readToEnd, hRead]

/-- No end tag is found where the reader can only fail or stop. -/
theorem readToEnd_none {tail : Text} (name : Name) {data : Text} (hData : '<' ∉ data)
    (hTail : AtMarkup tail) (h : At r (data ++ tail) (name :: opened))
    (hStuck : ∀ r₁, At r₁ tail (name :: opened) →
      ∃ r₂, readEvent r₁ = (.ok .eof, r₂) ∨ readEvent r₁ = (.error (), r₂)) (fuel : Nat) :
    readToEnd name.val fuel 0 r = none := by
  have hHere : ∀ {r₀ r₁ : Slice} (fuel : Nat), readEvent r₀ = readEvent r₁ →
      At r₁ tail (name :: opened) → readToEnd name.val fuel 0 r₀ = none := by
    intro r₀ r₁ fuel hSame hAt
    obtain ⟨r₂, hEof | hError⟩ := hStuck r₁ hAt
    · cases fuel <;> simp [readToEnd, hSame, hEof]
    · cases fuel <;> simp [readToEnd, hSame, hError]
  by_cases hBlank : Blank data
  · obtain ⟨r₁, hAt, hSame⟩ := blank_law hBlank hTail h
    exact hHere fuel hSame hAt
  · obtain ⟨raw, r₁, hRead, hAt⟩ := text_law hData hBlank hTail h
    cases fuel with
    | zero => rfl
    | succ fuel =>
        rw [readToEnd, hRead]
        exact hHere fuel rfl hAt

/-- Up to the name of the end tag there is nothing but the end of input or an error. -/
theorem readTextUnclosed_law {name : Name} {content part : Text} (hData : '<' ∉ content)
    (hPart : EndTagPart name part) (h : At r (content ++ part) (name :: opened)) :
    ∃ e r', readText r name.val = (.error e, r') := by
  have hMarkup : AtMarkup part := by
    cases hPart with
    | nothing => exact AtMarkup.nil
    | bracket => exact AtMarkup.cons []
    | named part isPrefix more => exact AtMarkup.cons ('/' :: part)
  have hStuck : ∀ r₁, At r₁ part (name :: opened) →
      ∃ r₂, readEvent r₁ = (.ok .eof, r₂) ∨ readEvent r₁ = (.error (), r₂) := by
    intro r₁ hAt
    cases hPart with
    | nothing => exact ⟨_, .inl (readEvent_nil hAt)⟩
    | bracket => exact ⟨_, .inl (bracket_law hAt)⟩
    | named part isPrefix more => exact ⟨_, .inr (mismatch_law isPrefix more hAt)⟩
  rw [readText, readToEnd_none name hData hMarkup h hStuck]
  exact ⟨_, _, rfl⟩

/-- The reader over a text in memory meets the documentation. -/
def documented : sliceReader.Documented where
  At := At
  Expanding := Expanding
  fromStr s := ⟨rfl, rfl, rfl, rfl, rfl⟩
  opening tag h := opening_law tag h
  empty tag h := empty_law tag h
  expanded h := expanded_law h
  closing name trail h := closing_law name trail h
  misc m h := misc_law m h
  text hData hBlank hNext h := text_law hData hBlank hNext h
  blank hBlank hNext h := blank_law hBlank hNext h
  eof h := ⟨_, readEvent_nil h⟩
  readText {r content s name trail opened} hData h := readText_law name trail hData h
  readTextEmpty h := readTextEmpty_law h
  lookup tag key := tryGetAttribute_tag tag key
  decoder _ _ _ := rfl
  unescape _ key v := by
    change decodeAndUnescapeValue ⟨key, escape v⟩ = .ok v
    simp [decodeAndUnescapeValue, unescape_escape]

/-- The reader over a text in memory behaves as documented where the input ends
early. -/
theorem atEnd : documented.AtEnd where
  bracket h := ⟨_, bracket_law h⟩
  closing name trail h := closingCut_law name trail h
  mismatch hPart hMore h := ⟨_, _, mismatch_law hPart hMore h⟩
  instruction hBody h := instructionCut_law hBody h
  noInstruction hPart hCut h := ⟨_, _, noInstruction_law hPart hCut h⟩
  unclosed m hEnd hCut hStarted hMissing h :=
    ⟨_, _, unclosed_law m hEnd hCut hStarted hMissing h⟩
  readText {_ _ name _} trail hData h := readTextCut_law name trail hData h
  readTextUnclosed hData hPart h := readTextUnclosed_law hData hPart h

/-- It returns the source of mixed content. -/
theorem readsMixed : documented.ReadsMixed where
  readMixed {_ _ name trail _} content h := readMixed_law content name trail h

end Xml.SliceReader
