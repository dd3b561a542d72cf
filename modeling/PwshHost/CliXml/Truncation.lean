import PwshHost.CliXml.Objects

/-! Truncated documents. The parser takes a text that ends in character data, after
a single angle bracket, or in an end tag or an instruction that lacks nothing but
its end for complete. It panics where a text ends elsewhere inside of markup or of a
leaf. -/
namespace PwshHost.CliXml

open Xml
open Rust

/-- A part of a document that ends somewhere in its root element. -/
structure Document.Truncation (d : Document) where
  cut : Text
  isPrefix : cut <+: d.text
  afterRoot : source (d.prolog ++ [.opening d.root]) <+: cut
  unfinished : ¬ source d.opened ++ closingSource d.root.tag.name d.trail <+: cut

/-- The part of an item that is read for the whole of it: an end tag with the whole
name, a leaf up to there, and an instruction with something before a question mark. -/
inductive Item.TakenWhole : Item → Text → Prop where
  | closing (name : Name) (trail blanks : Blanks) :
      TakenWhole (.closing name trail) (closingCut name blanks.val)
  | leaf (tag : TextTag) (content : CharData) (trail blanks : Blanks) :
      TakenWhole (.leaf tag content trail)
        ((Markup.opening tag.tag).source ++ (content.val ++ closingCut tag.tag.name blanks.val))
  | instruction (m : Misc) (isInstruction : m.kind = .instruction) (body : Text)
      (inside : '>' ∉ body ∧ body ≠ []) : TakenWhole (.misc m) (instructionCut body)

/-- The text ends after some of the items: in character data, after the angle
bracket that starts the next item, or where the last of them is taken for whole. -/
inductive EndsAfter : List Item → Text → List Item → Prop where
  | data (complete rest : List Item) (u : Text) (noMarkup : '<' ∉ u) :
      EndsAfter (complete ++ rest) (source complete ++ u) complete
  | bracket (complete rest : List Item) :
      EndsAfter (complete ++ rest) (source complete ++ ['<']) complete
  | taken (before : List Item) (item : Item) (rest : List Item) (part : Text)
      (takenWhole : item.TakenWhole part) :
      EndsAfter (before ++ item :: rest) (source before ++ part) (before ++ [item])

/-- The text ends inside an item other than character data, with more than the first
character of the item in it, and the item is not taken for whole. -/
def EndsInside (items : List Item) (cut : Text) : Prop :=
  ∃ complete item rest part missing, items = complete ++ item :: rest ∧
    cut = source complete ++ part ∧ part ++ missing = item.source ∧ 2 ≤ part.length ∧
    missing ≠ [] ∧ (∀ data, item ≠ .text data) ∧ ¬ item.TakenWhole part

/-- An item that is whole in the cut comes before those the cut ends after. -/
theorem EndsAfter.cons {items complete : List Item} {cut : Text} (item : Item)
    (h : EndsAfter items cut complete) :
    EndsAfter (item :: items) (item.source ++ cut) (item :: complete) := by
  cases h with
  | data complete rest u noMarkup =>
      rw [← List.append_assoc]
      exact .data (item :: complete) rest u noMarkup
  | bracket complete rest =>
      rw [← List.append_assoc]
      exact .bracket (item :: complete) rest
  | taken before last rest part takenWhole =>
      rw [← List.append_assoc]
      exact .taken (item :: before) last rest part takenWhole

/-- A cut inside a later item is one with a whole item before it. -/
theorem EndsInside.cons {items : List Item} {cut : Text} (item : Item)
    (h : EndsInside items cut) : EndsInside (item :: items) (item.source ++ cut) := by
  obtain ⟨complete, last, rest, part, missing, rfl, rfl, hPart⟩ := h
  exact ⟨item :: complete, last, rest, part, missing, rfl, by simp, hPart⟩

/-- The cases of a text that ends in its first item. -/
theorem ends_first {item : Item} (items : List Item) {cut missing : Text}
    (hItem : cut ++ missing = item.source) :
    (∃ complete, EndsAfter (item :: items) cut complete) ∨ EndsInside (item :: items) cut := by
  by_cases hText : ∃ data, item = .text data
  · obtain ⟨data, rfl⟩ := hText
    have hData : '<' ∉ cut := fun hMem => data.noMarkup (by
      change _ ∈ (Item.text data).source
      rw [← hItem]
      simp [hMem])
    exact .inl ⟨[], .data [] _ cut hData⟩
  · simp only [not_exists] at hText
    by_cases hAll : missing = []
    · subst hAll
      rw [List.append_nil] at hItem
      refine .inl ⟨[item], ?_⟩
      have hEnds := EndsAfter.data [item] items [] (by simp)
      simpa [hItem] using hEnds
    by_cases hTaken : item.TakenWhole cut
    · exact .inl ⟨[item], .taken [] item items cut hTaken⟩
    obtain ⟨rest, hSource⟩ := item.source_head hText
    match cut, hItem, hTaken with
    | [], _, _ => exact .inl ⟨[], .data [] _ [] (by simp)⟩
    | [c], hItem, _ =>
        rw [hSource] at hItem
        obtain ⟨rfl, -⟩ := List.cons.inj hItem
        exact .inl ⟨[], .bracket [] _⟩
    | c :: d :: part, hItem, hTaken =>
        exact .inr ⟨[], item, items, _, missing, rfl, rfl, hItem, by simp, hAll, hText, hTaken⟩

/-- There is no third way to end, by induction on the items. -/
theorem ends_cases {items : List Item} {cut : Text} (h : cut <+: source items) :
    (∃ complete, EndsAfter items cut complete) ∨ EndsInside items cut := by
  induction items generalizing cut with
  | nil =>
      obtain rfl : cut = [] := List.prefix_nil.mp h
      exact .inl ⟨[], .data [] [] [] (by simp)⟩
  | cons item items ih =>
      obtain ⟨more, hMore⟩ := h
      rw [source_cons] at hMore
      rcases List.append_eq_append_iff.mp hMore with ⟨missing, hItem, -⟩ | ⟨tail, hCut, hTail⟩
      · exact ends_first items hItem.symm
      · -- the text goes on after this item
        subst hCut
        rcases ih ⟨more, hTail.symm⟩ with ⟨complete, hAfter⟩ | hInside
        · exact .inl ⟨item :: complete, hAfter.cons item⟩
        · exact .inr (hInside.cons item)
variable {Q : PullReader} {E : Crates} (D : Q.Documented) (A : D.AtEnd)

/-- An error of the reader is a panic of the loop. -/
theorem stops_error (b : Build E) {r r' : Q.Reader} {e : Q.Error}
    (hRead : Q.readEvent r = (.error e, r')) :
    Stops (b.at r) (.error (.errorAt (Q.bufferPosition r') e)) := by
  apply UnboundedLoop.Yields.of_done
  simp only [ParseState.pass, Build.at, hRead]

/-- An element whose text cannot be read is a panic as well. -/
theorem stops_readText (b : Build E) {r r₁ r' : Q.Reader} {e : Q.Error} (t : Tag)
    (hText : (kindOf t).readsText = true)
    (hStart : Q.readEvent r = (.ok (.start t.bytesStart), r₁))
    (hRead : Q.readText r₁ t.name.val = (.error e, r')) :
    Stops (b.at r) (.error (.unwrapErr e)) := by
  have hArm : (b.at r₁).onStart t.bytesStart = .error (.unwrapErr e) :=
    onStart_unread b hText hRead
  exact UnboundedLoop.Yields.of_done (pass_start_panic hStart hArm)

include A in
/-- The end tag of the innermost element has no part that is read, short of the
one that is taken for the whole tag. -/
theorem stops_closing (b : Build E) {r : Q.Reader} {name : Name} {trail : Blanks}
    {opened : List Name} {part missing : Text} (hPart : part ++ missing = closingSource name trail)
    (hStarted : 2 ≤ part.length) (hMissing : missing ≠ [])
    (hTaken : ¬ (Item.closing name trail).TakenWhole part) (h : D.At r part (name :: opened)) :
    ∃ panic, Stops (b.at r) (.error panic) := by
  rcases closing_cut_cases hPart hMissing with hEnd | ⟨blanks, rfl⟩
  · cases hEnd with
    | nothing => simp at hStarted
    | bracket => simp at hStarted
    | named w isPrefix more =>
        obtain ⟨e, r', hRead⟩ := A.mismatch isPrefix more h
        exact ⟨_, stops_error b hRead⟩
  · exact absurd (.closing name trail blanks) hTaken

include A in
/-- A comment, a CDATA section or a document type without its end is a panic, and so
is an instruction, unless only its last character is missing. -/
theorem stops_misc (b : Build E) {r : Q.Reader} {m : Misc} {opened : List Name}
    {part missing : Text} (hPart : part ++ missing = (Markup.misc m).source)
    (hStarted : 2 ≤ part.length) (hMissing : missing ≠ [])
    (hTaken : ¬ (Item.misc m).TakenWhole part) (h : D.At r part opened) :
    ∃ panic, Stops (b.at r) (.error panic) := by
  by_cases hKind : m.kind = .instruction
  · match part, hPart, hStarted, hTaken, h with
    | [], _, hStarted, _, _ => simp at hStarted
    | [c], _, hStarted, _, _ => simp at hStarted
    | c :: d :: w, hPart, _, hTaken, h =>
        obtain ⟨kind, body, hEnds⟩ := m
        obtain rfl : kind = .instruction := hKind
        simp only [Markup.source, Misc.source, MiscKind.opener, MiscKind.closer, List.cons_append,
          List.nil_append, List.cons.injEq] at hPart
        obtain ⟨rfl, rfl, hRest⟩ := hPart
        have hInit : w <+: body ++ ['?'] := by
          refine ⟨missing.dropLast, ?_⟩
          have hDrop := congrArg List.dropLast hRest
          have hBody : body ++ ['?', '>'] = body ++ ['?'] ++ ['>'] := by simp
          rwa [List.dropLast_append_of_ne_nil hMissing, hBody, List.dropLast_concat] at hDrop
        have hAngle : '>' ∉ w := fun hMem => by
          have hBody := hInit.subset hMem
          simp [hEnds.1] at hBody
        have hNone : ∀ inner, inner ≠ [] → w ≠ inner ++ ['?'] := by
          rintro inner hInner rfl
          have hInside : '>' ∉ inner := fun hMem => hAngle (by simp [hMem])
          exact hTaken (.instruction _ rfl inner ⟨hInside, hInner⟩)
        obtain ⟨e, r', hRead⟩ := A.noInstruction hAngle hNone h
        exact ⟨_, stops_error b hRead⟩
  · obtain ⟨e, r', hRead⟩ := A.unclosed (.misc m) hKind hPart hStarted hMissing h
    exact ⟨_, stops_error b hRead⟩

include A in
/-- After the start tag of a leaf its text is read, which takes the name of the end
tag. -/
theorem stops_leaf (b : Build E) {r : Q.Reader} {tag : TextTag} {content : CharData}
    {trail : Blanks} {opened : List Name} {tail missing : Text}
    (hTail : tail ++ missing = content.val ++ closingSource tag.tag.name trail)
    (hMissing : missing ≠ [])
    (hTaken : ¬ (Item.leaf tag content trail).TakenWhole ((Markup.opening tag.tag).source ++ tail))
    (h : D.At r ((Markup.opening tag.tag).source ++ tail) opened) :
    ∃ panic, Stops (b.at r) (.error panic) := by
  obtain ⟨r₁, hStart, hAt⟩ := D.opening tag.tag h
  have hUnread : ∀ data part, tail = data ++ part → '<' ∉ data → EndTagPart tag.tag.name part →
      ∃ panic, Stops (b.at r) (.error panic) := by
    rintro data part rfl hData hPart
    obtain ⟨e, r', hRead⟩ := A.readTextUnclosed hData hPart hAt
    exact ⟨_, stops_readText b tag.tag tag.text hStart hRead⟩
  rcases List.append_eq_append_iff.mp hTail with ⟨more, hContent, -⟩ | ⟨part, rfl, hClosing⟩
  · have hData : '<' ∉ tail := fun hMem => content.noMarkup (by rw [hContent]; simp [hMem])
    exact hUnread tail [] (by simp) hData .nothing
  · rcases closing_cut_cases hClosing.symm hMissing with hPart | ⟨blanks, rfl⟩
    · exact hUnread content.val part rfl content.noMarkup hPart
    · exact absurd (.leaf tag content trail blanks) hTaken

include A in
/-- Inside an item there is no way on. -/
theorem stops_inside (b : Build E) {r : Q.Reader} {opened opened' : List Name} (item : Item)
    (hNest : item.nest opened = some opened') {part missing : Text}
    (hPart : part ++ missing = item.source) (hStarted : 2 ≤ part.length) (hMissing : missing ≠ [])
    (hText : ∀ data, item ≠ .text data) (hTaken : ¬ item.TakenWhole part)
    (h : D.At r part opened) : ∃ panic, Stops (b.at r) (.error panic) := by
  have hTag : ∀ m : Markup, m.needsEnd → ∀ missing, part ++ missing = m.source → missing ≠ [] →
      ∃ panic, Stops (b.at r) (.error panic) := by
    intro m hEnd missing hCut hMore
    obtain ⟨e, r', hRead⟩ := A.unclosed m hEnd hCut hStarted hMore h
    exact ⟨_, stops_error b hRead⟩
  cases item with
  | text data => exact absurd rfl (hText data)
  | opening tag => exact hTag (.opening tag.tag) trivial missing hPart hMissing
  | empty tag => exact hTag (.empty tag) trivial missing hPart hMissing
  | closing name trail =>
      obtain rfl := nest_closing hNest
      exact stops_closing D A b hPart hStarted hMissing hTaken h
  | misc m => exact stops_misc D A b hPart hStarted hMissing hTaken h
  | leaf tag content trail =>
      rcases List.append_eq_append_iff.mp hPart with
        ⟨more, hOpening, hRest⟩ | ⟨tail, rfl, hContent⟩
      · by_cases hMore : more = []
        · -- the text ends right after the start tag of the leaf
          subst hMore
          have hPart : part = (Markup.opening tag.tag).source ++ [] := by simp [hOpening]
          rw [hPart] at h hTaken
          have hTail : [] ++ missing = content.val ++ closingSource tag.tag.name trail := by
            simpa using hRest
          exact stops_leaf D A b hTail hMissing hTaken h
        · exact hTag (.opening tag.tag) trivial more hOpening.symm hMore
      · exact stops_leaf D A b hContent.symm hMissing hTaken h

include A in
/-- By induction on the items before the cut: a cut inside an item is a panic, of
this item or of one before it. -/
theorem parsesTo_inside {items : List Item} {opened : List Name}
    (hNest : nest [] items = some opened) {cut : Text} (h : EndsInside items cut) :
    ∃ panic, ParsesTo Q E cut (.error panic) := by
  obtain ⟨complete, item, rest, part, missing, rfl, rfl, hPart, hStarted, hMissing, hText,
    hTaken⟩ := h
  rw [nest_append, Option.bind_eq_some_iff] at hNest
  obtain ⟨middle, hComplete, hRest⟩ := hNest
  rw [nest_cons, Option.bind_eq_some_iff] at hRest
  obtain ⟨after, hItem, -⟩ := hRest
  have hMarkup : AtMarkup part := by
    intro c more hHead
    have hSource : item.source ++ [] = c :: (more ++ missing) := by
      rw [List.append_nil, ← hPart, hHead]
      rfl
    exact item.atMarkup [] hText c _ hSource
  have hRun : Reads D (Build.initial E) _ part middle (build Q E complete) :=
    reads_initial D hComplete part
  cases hBuild : build Q E complete with
  | error panic =>
      rw [hBuild] at hRun
      exact ⟨panic, hRun⟩
  | ok b =>
      rw [hBuild] at hRun
      obtain ⟨r', u, hData, hPending, hLeads⟩ := hRun
      obtain ⟨r₁, hFront, hOn⟩ := leads_data D b hData hMarkup hPending
      obtain ⟨panic, hStops⟩ :=
        stops_inside D A b item hItem hPart hStarted hMissing hText hTaken hFront
      exact ⟨panic, hLeads _ (hOn _ hStops)⟩

/-- An item that is taken for whole starts with an angle bracket, so character data
before it ends there. -/
theorem Item.TakenWhole.atMarkup {item : Item} {part : Text} (h : item.TakenWhole part) :
    AtMarkup part := by
  cases h with
  | closing name trail blanks => exact AtMarkup.cons _
  | leaf tag content trail blanks => exact (Markup.opening tag.tag).atMarkup _
  | instruction m isInstruction body inside => exact AtMarkup.cons _

include A in
/-- What is taken for the whole of an item does what the item does. -/
theorem reads_taken (b : Build E) {r : Q.Reader} {opened opened' : List Name} {item : Item}
    {part : Text} (hNest : item.nest opened = some opened') (hTaken : item.TakenWhole part)
    (h : D.At r part opened) : Reads D b r [] opened' (item.apply Q b) := by
  cases hTaken with
  | closing name trail blanks =>
      obtain rfl := nest_closing hNest
      obtain ⟨r', hStop, hAt⟩ := A.closing name blanks h
      exact Reads.of_at D hAt (leads_stop b hStop)
  | leaf tag content trail blanks =>
      obtain rfl := Option.some.inj hNest
      obtain ⟨r₁, hStart, hContent⟩ := D.opening tag.tag h
      obtain ⟨r', hRead, hAt⟩ := A.readText blanks content.noMarkup hContent
      exact reads_start_text D b tag.tag tag.text hStart hRead hAt
  | instruction m isInstruction body inside =>
      obtain rfl := Option.some.inj hNest
      obtain ⟨r', hRead, hAt⟩ := A.instruction inside h
      apply Reads.of_at D hAt
      apply UnboundedLoop.LeadsTo.of_next
      simp [ParseState.pass, Build.at, hRead]

include A in
/-- A bracket with nothing after it is taken for the end of the input. -/
theorem stops_bracket (b : Build E) {r : Q.Reader} {u : Text} {opened : List Name}
    (hData : '<' ∉ u) (h : D.At r (u ++ ['<']) opened) : Stops (b.at r) (.ok b.objs) := by
  obtain ⟨r₁, hAt, hLeads⟩ := leads_data D b hData (AtMarkup.cons []) h
  obtain ⟨r₂, hRead⟩ := A.bracket hAt
  apply hLeads
  apply UnboundedLoop.Yields.of_done
  simp only [ParseState.pass, Build.at, hRead]

include A in
/-- Of an item that is taken for whole the effect is that of the whole item. -/
theorem stops_taken (b : Build E) {r : Q.Reader} {opened opened' : List Name} {item : Item}
    {part u : Text} (hNest : item.nest opened = some opened') (hTaken : item.TakenWhole part)
    (hData : '<' ∉ u) (h : D.At r (u ++ part) opened) :
    Stops (b.at r) ((item.apply Q b).map Build.objs) := by
  obtain ⟨r₁, hAt, hLeads⟩ := leads_data D b hData hTaken.atMarkup h
  have hRead := reads_taken D A b hNest hTaken hAt
  have hStops : Stops (b.at r₁) ((item.apply Q b).bind fun b' => .ok b'.objs) :=
    hRead.stops D fun b' r' v hPending hEnd => stops_eof D b' hPending (by simpa using hEnd)
  exact hLeads _ hStops

include A in
/-- Up to where the text ends, it is parsed as the items are that it ends after. -/
theorem parsesTo_build {items complete : List Item} {opened : List Name}
    (hNest : nest [] items = some opened) {cut : Text} (h : EndsAfter items cut complete) :
    ParsesTo Q E cut ((build Q E complete).map Build.objs) := by
  cases h with
  | data complete rest u noMarkup =>
      rw [nest_append, Option.bind_eq_some_iff] at hNest
      obtain ⟨middle, hComplete, -⟩ := hNest
      exact parsesTo_cut D hComplete noMarkup
  | bracket complete rest =>
      rw [nest_append, Option.bind_eq_some_iff] at hNest
      obtain ⟨middle, hComplete, -⟩ := hNest
      have hStops : ParsesTo Q E (source complete ++ ['<'])
          ((build Q E complete).bind fun b => .ok b.objs) :=
        (reads_initial D hComplete ['<']).stops D fun b r u hData hAt =>
          stops_bracket D A b hData hAt
      exact hStops
  | taken before item rest part takenWhole =>
      rw [nest_append, Option.bind_eq_some_iff] at hNest
      obtain ⟨middle, hBefore, hRest⟩ := hNest
      rw [nest_cons, Option.bind_eq_some_iff] at hRest
      obtain ⟨after, hItem, -⟩ := hRest
      have hStops : ParsesTo Q E (source before ++ part)
          ((build Q E before).bind fun b => (item.apply Q b).map Build.objs) :=
        (reads_initial D hBefore part).stops D fun b r u hData hAt =>
          stops_taken D A b hItem takenWhole hData hAt
      have hBuild : (build Q E (before ++ [item])).map Build.objs =
          (build Q E before).bind fun b => (item.apply Q b).map Build.objs := by
        simp only [build, List.foldlM_append, List.foldlM_cons, List.foldlM_nil, bind_pure]
        cases before.foldlM (Item.apply Q) (Build.initial E) <;> rfl
      rw [hBuild]
      exact hStops

include A in
/-- By induction on the items before the cut: a cut after an item, or in one that is
taken for whole, has the outcome of the items up to there. -/
theorem parsesTo_after {items complete : List Item} {opened : List Name}
    (hNest : nest [] items = some opened) {cut : Text} (h : EndsAfter items cut complete) :
    ParsesTo Q E cut ((check Q E complete).map fun _ => result Q E complete) := by
  have hStops : ParsesTo Q E cut _ := parsesTo_build D A hNest h
  rw [build, foldlM_apply] at hStops
  cases hCheck : check Q E complete with
  | error panic =>
      rw [hCheck] at hStops
      exact hStops
  | ok done =>
      rw [hCheck] at hStops
      exact hStops

variable (Q E) in
/-- The parser panics, and so returns no list. -/
def Rejected (cliXml : Text) : Prop := ∃ panic, ParsesTo Q E cliXml (.error panic)

include A in
/-- If none of these is a panic the parser returns. -/
theorem not_rejected_after {items complete : List Item} {opened : List Name}
    (hNest : nest [] items = some opened) {cut : Text} (h : EndsAfter items cut complete)
    (hValid : Valid Q E complete) : ¬ Rejected Q E cut := by
  have hParses : ParsesTo Q E cut _ := parsesTo_after D A hNest h
  rw [check_eq_ok.mpr hValid] at hParses
  intro hRejected
  obtain ⟨panic, hPanic⟩ := hRejected
  cases hPanic.unique hParses

include A in
/-- A truncated document is rejected exactly when it ends inside of markup or of a
leaf that is not taken for whole, or a leaf before its end cannot be decoded. -/
theorem truncation_rejected_iff (d : Document) (t : d.Truncation) :
    Rejected Q E t.cut ↔
      ¬ ∃ complete, EndsAfter d.items t.cut complete ∧ Valid Q E complete := by
  constructor
  · intro hRejected hEnds
    obtain ⟨complete, hAfter, hValid⟩ := hEnds
    exact not_rejected_after D A d.nest_items hAfter hValid hRejected
  · intro hNot
    rcases ends_cases t.isPrefix with ⟨complete, hAfter⟩ | hInside
    · have hParses : ParsesTo Q E t.cut _ := parsesTo_after D A d.nest_items hAfter
      cases hCheck : (check Q E complete : Except (Panic Q.Error) Unit) with
      | error panic =>
          rw [hCheck] at hParses
          exact ⟨panic, hParses⟩
      | ok done => exact absurd ⟨complete, hAfter, check_eq_ok.mp hCheck⟩ hNot
    · exact parsesTo_inside D A d.nest_items hInside

/-- The document of an object in an object, up to the end of the inner one. -/
def nestedCut : nested.Truncation where
  cut := source (nested.opened.take 7)
  isPrefix := ⟨source (nested.items.drop 7), by decide⟩
  afterRoot := ⟨source ((nested.opened.take 7).drop 1), by decide⟩
  unfinished := by decide

/-- The cut lies after the first inner object. -/
theorem nestedCut_ends : EndsAfter nested.items nestedCut.cut (nested.items.take 7) := by
  have hEnds := EndsAfter.data (nested.items.take 7) (nested.items.drop 7) [] (by simp)
  rwa [List.append_nil] at hEnds

/-- The same without the last character. -/
def endTagCut : nested.Truncation where
  cut := nestedCut.cut.dropLast
  isPrefix := (List.dropLast_prefix nestedCut.cut).trans nestedCut.isPrefix
  afterRoot := ⟨(source ((nested.opened.take 7).drop 1)).dropLast, by decide⟩
  unfinished := by decide

open SliceReader in
theorem truncation_rejected_endTag : Rejected sliceReader textCrates endTagCut.cut ↔
    ¬ ∃ complete, EndsAfter nested.items endTagCut.cut complete ∧
      Valid sliceReader textCrates complete :=
  truncation_rejected_iff documented atEnd nested endTagCut

open SliceReader in
/-- One object is returned, although the other one is not finished. -/
theorem truncation_accepted :
    nestedCut.cut = ("<Objs><Obj RefId=\"0\"><T>t</T><S N=\"a\">1</S>" ++
      "<Obj RefId=\"1\"><S N=\"b\">2</S></Obj>").toList ∧
      ¬ Rejected sliceReader textCrates nestedCut.cut := by
  have hValid : Valid sliceReader textCrates (nested.items.take 7) := check_eq_ok.mp rfl
  exact ⟨by decide, not_rejected_after documented atEnd nested.nest_items nestedCut_ends hValid⟩

open SliceReader in
-- The end tag is read without its last character.
example : ¬ Rejected sliceReader textCrates endTagCut.cut :=
  not_rejected_after documented atEnd nested.nest_items
    (.taken (nested.items.take 6) _ (nested.items.drop 7) _
      (.closing Structural.obj.element noBlanks noBlanks))
    (check_eq_ok.mp rfl)

include A in
/-- What is returned for a text that ends after some of the items. -/
theorem returns_after {items complete : List Item} {opened : List Name}
    (hNest : nest [] items = some opened) {cut : Text} (h : EndsAfter items cut complete)
    (objs : List (CliObject E)) :
    Returns Q E cut objs ↔ Valid Q E complete ∧ objs = result Q E complete := by
  have hParses : ParsesTo Q E cut _ := parsesTo_after D A hNest h
  constructor
  · intro hReturns
    have hOutcome := hReturns.unique hParses
    cases hCheck : (check Q E complete : Except (Panic Q.Error) Unit) with
    | error panic =>
        rw [hCheck] at hOutcome
        cases hOutcome
    | ok done =>
        rw [hCheck] at hOutcome
        exact ⟨check_eq_ok.mp hCheck, Except.ok.inj hOutcome⟩
  · rintro ⟨hValid, rfl⟩
    rwa [check_eq_ok.mpr hValid] at hParses

/-- The first items finish the first objects. -/
theorem result_take (complete rest : List Item) :
    result Q E complete = (result Q E (complete ++ rest)).take (complete.countP Item.endsObj) := by
  have hFront : (rest.foldl (Build.effect Q) (complete.foldl (Build.effect Q)
      (Build.initial E))).objs = result Q E complete ++ _ :=
    congrArg Build.objs (foldl_front (result Q E complete) _ rest)
  have hLength : (result Q E complete).length = _ := length_result complete
  rw [result, result, List.foldl_append, hFront, ← hLength, List.take_left]
  rfl

/-- The items that a text ends after are the first ones. -/
theorem EndsAfter.front {items complete : List Item} {cut : Text}
    (h : EndsAfter items cut complete) : ∃ rest, items = complete ++ rest := by
  cases h with
  | data complete rest u noMarkup => exact ⟨rest, rfl⟩
  | bracket complete rest => exact ⟨rest, rfl⟩
  | taken before item rest part takenWhole => exact ⟨rest, by simp⟩

include A in
/-- Where a truncated document is taken for complete, the objects whose end is read
in it are returned, and they are the first ones of those that are returned for the
whole document. What was read after the last of these ends is lost. -/
theorem truncation_returns (d : Document) (t : d.Truncation) {whole objs : List (CliObject E)}
    (hWhole : Returns Q E d.text whole) (hCut : Returns Q E t.cut objs) :
    ∃ complete, EndsAfter d.items t.cut complete ∧
      objs = whole.take (complete.countP Item.endsObj) := by
  have hAll : EndsAfter d.items d.text d.items := by
    have hEnds := EndsAfter.data d.items [] [] (by simp)
    rwa [List.append_nil, List.append_nil] at hEnds
  obtain ⟨-, rfl⟩ := (returns_after D A d.nest_items hAll whole).mp hWhole
  rcases ends_cases t.isPrefix with ⟨complete, hAfter⟩ | hInside
  · refine ⟨complete, hAfter, ?_⟩
    obtain ⟨-, rfl⟩ := (returns_after D A d.nest_items hAfter objs).mp hCut
    obtain ⟨rest, hItems⟩ := hAfter.front
    rw [hItems]
    exact result_take complete rest
  · obtain ⟨panic, hPanic⟩ := parsesTo_inside D A d.nest_items hInside
    cases hCut.unique hPanic

open SliceReader in
theorem truncation_returns_nested :
    ∃ complete, EndsAfter nested.items nestedCut.cut complete ∧
      result sliceReader textCrates (nested.items.take 7) =
        (result sliceReader textCrates nested.content).take (complete.countP Item.endsObj) :=
  truncation_returns documented atEnd nested nestedCut
    (nested.returns documented (check_eq_ok.mp rfl))
    ((returns_after documented atEnd nested.nest_items nestedCut_ends _).mpr
      ⟨check_eq_ok.mp rfl, rfl⟩)

end PwshHost.CliXml
