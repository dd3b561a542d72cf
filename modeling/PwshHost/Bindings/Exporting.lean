import PwshHost.Bindings.Isolation
import PwshHost.CliXml.RoundTrip

/-! From the serializer to the parser: what an export to CLIXML does to a document
on its way through the managed and the native string. -/
namespace PwshHost.Bindings

open Xml (Text PullReader Blanks Markup)
open CliXml (Crates Document Item ObjLayout Returns writeObjs balanced_writeObjs)
open Rust
open Unicode

/-- White space is trimmed on both sides, up to what is none. -/
theorem trim_around {before after w : Text} {first last : Char}
    (hBefore : ∀ c ∈ before, isWhiteSpace c = true) (hAfter : ∀ c ∈ after, isWhiteSpace c = true)
    (hFirst : w.head? = some first) (hLast : w.getLast? = some last)
    (hOpens : isWhiteSpace first = false) (hCloses : isWhiteSpace last = false) :
    trim (before ++ w ++ after) = w := by
  have hFront : (before ++ (w ++ after)).dropWhile isWhiteSpace = w ++ after := by
    rw [List.dropWhile_append_of_pos hBefore]
    cases w with
    | nil => cases hFirst
    | cons c w =>
        obtain rfl := Option.some.inj hFirst
        rw [List.cons_append, List.dropWhile_cons_of_neg (by simp [hOpens])]
  have hBack : (after.reverse ++ w.reverse).dropWhile isWhiteSpace = w.reverse := by
    rw [List.dropWhile_append_of_pos fun c hc => hAfter c (List.mem_reverse.mp hc)]
    cases hReverse : w.reverse with
    | nil => rfl
    | cons c rest =>
        rw [← List.head?_reverse, hReverse] at hLast
        obtain rfl := Option.some.inj hLast
        rw [List.dropWhile_cons_of_neg (by simp [hCloses])]
  rw [List.append_assoc, trim, hFront, List.reverse_append, hBack, List.reverse_reverse]

/-- Markup ends with its angle bracket. -/
theorem getLast?_closed (w : Text) : ('<' :: (w ++ ['>'])).getLast? = some '>' := by
  rw [← List.cons_append, List.getLast?_concat]

/-- A piece of markup starts and ends with an angle bracket, so trimming leaves it
as it is. -/
theorem markup_ends (m : Markup) : m.source.head? = some '<' ∧ m.source.getLast? = some '>' := by
  constructor
  · obtain ⟨rest, hRest⟩ := m.source_head
    rw [hRest]
    rfl
  · cases m with
    | opening tag => exact getLast?_closed tag.source
    | closing name trail => exact getLast?_closed ('/' :: (name.text ++ trail.val))
    | empty tag =>
        have hSlash : (Markup.empty tag).source = '<' :: (tag.source ++ ['/'] ++ ['>']) := by
          simp [Markup.source]
        rw [hSlash]
        exact getLast?_closed (tag.source ++ ['/'])
    | misc m =>
        rw [Markup.source, Xml.Misc.source, List.getLast?_append]
        cases m.kind <;> rfl

/-- Markup stands at both ends of an item that is no character data. -/
theorem item_ends (item : Item) (hText : ∀ data, item ≠ .text data) :
    item.source.head? = some '<' ∧ item.source.getLast? = some '>' := by
  cases item with
  | text data => exact absurd rfl (hText data)
  | opening tag => exact markup_ends (.opening tag.tag)
  | closing name trail => exact markup_ends (.closing name trail)
  | empty tag => exact markup_ends (.empty tag)
  | misc m => exact markup_ends (.misc m)
  | leaf tag content trail =>
      have hOpening := (markup_ends (.opening tag.tag)).1
      have hClosing := (markup_ends (.closing tag.tag.name trail)).2
      constructor
      · rw [Item.source, List.head?_append, hOpening]
        rfl
      · change (_ ++ (_ ++ (Markup.closing tag.tag.name trail).source)).getLast? = _
        rw [List.getLast?_append, List.getLast?_append, hClosing]
        rfl

/-- Neither the first nor the last thing in a document is character data. -/
structure Tight (d : Document) : Prop where
  front : ∀ data, d.prolog.head? ≠ some (.text data)
  back : ∀ data, d.epilog.getLast? ≠ some (.text data)

/-- A document without anything around its root starts and ends with angle brackets. -/
theorem Tight.text_ends {d : Document} (h : Tight d) :
    d.text.head? = some '<' ∧ d.text.getLast? = some '>' := by
  constructor
  · obtain ⟨item, rest, hItem, hItems⟩ :
        ∃ item rest, (∀ data, item ≠ .text data) ∧ d.items = item :: rest := by
      cases hProlog : d.prolog with
      | nil =>
          refine ⟨.opening d.root, d.content ++ .closing d.root.tag.name d.trail :: d.epilog,
            by simp, ?_⟩
          simp [Document.items, Document.opened, hProlog]
      | cons item rest =>
          refine ⟨item, rest ++ [.opening d.root] ++ d.content ++
            .closing d.root.tag.name d.trail :: d.epilog, ?_, ?_⟩
          · rintro data rfl
            exact h.front data (by rw [hProlog]; rfl)
          · simp [Document.items, Document.opened, hProlog]
    rw [Document.text, hItems, CliXml.source_cons, List.head?_append, (item_ends item hItem).1]
    rfl
  · obtain ⟨item, rest, hItem, hItems⟩ :
        ∃ item rest, (∀ data, item ≠ .text data) ∧ d.items = rest ++ [item] := by
      rcases List.eq_nil_or_concat d.epilog with hEpilog | ⟨rest, item, hEpilog⟩
      · refine ⟨.closing d.root.tag.name d.trail, d.opened, by simp, ?_⟩
        simp [Document.items, hEpilog]
      · refine ⟨item, d.opened ++ .closing d.root.tag.name d.trail :: rest, ?_, ?_⟩
        · rintro data rfl
          exact h.back data (by rw [hEpilog]; simp)
        · simp [Document.items, hEpilog]
    rw [Document.text, hItems, CliXml.source_append, List.getLast?_append, CliXml.source_cons,
      CliXml.source_nil, List.append_nil, (item_ends item hItem).2]
    rfl

/-- White space around a document is trimmed, and nothing else is. -/
theorem trim_document {d : Document} (h : Tight d) {before after : Text}
    (hBefore : ∀ c ∈ before, isWhiteSpace c = true)
    (hAfter : ∀ c ∈ after, isWhiteSpace c = true) : trim (before ++ d.text ++ after) = d.text :=
  trim_around hBefore hAfter h.text_ends.1 h.text_ends.2 (by decide) (by decide)

variable {M : ManagedPowerShell} (S : M.Documented) {Q : PullReader} (R : Q.Documented)
  {E : Crates}

/-- The document with the objects in its root element. -/
def rendered (d : Document) (layouts : List (Blanks × ObjLayout E)) (trail : Blanks) : Document :=
  d.holding (writeObjs layouts trail) (balanced_writeObjs layouts trail)

include R in
/-- The rendered document is parsed to the objects that were rendered. -/
theorem returns_rendered (d : Document) (layouts : List (Blanks × ObjLayout E)) (trail : Blanks) :
    Returns Q E (rendered d layouts trail).text (layouts.map fun l => l.2.object) := by
  have hReads := CliXml.readsBack_objs R layouts trail
  have hObjs : CliXml.result Q E (writeObjs layouts trail) = layouts.map fun l => l.2.object := by
    have hRun := hReads.objs []
    rw [CliXml.result, CliXml.Build.initial, hRun, List.nil_append]
  rw [← hObjs]
  exact (d.holding (writeObjs layouts trail) hReads.balanced).returns R hReads.valid

include R in
/-- A session with nothing pending exports what the serializer wrote, and the
parser gives back the objects that were written. -/
theorem exported_objects_return {calls : List Call} {ps : M.PowerShell}
    (hCalls : runCalls M calls = .ok ps) (hPending : pending calls = false) {name : Text}
    (hName : nul ∉ name) {d : Document} (hTight : Tight d)
    (layouts : List (Blanks × ObjLayout E)) (trail : Blanks) {first : M.PSObject}
    {rest : List M.PSObject} {before after : Text}
    (hScript : (S.execute (S.view ps).session [[ExportKind.xml.command name]]).1 =
      .ok (first :: rest))
    (hOut : M.toString first = .ok (before ++ (rendered d layouts trail).text ++ after))
    (hBefore : ∀ c ∈ before, isWhiteSpace c = true)
    (hAfter : ∀ c ∈ after, isWhiteSpace c = true)
    (hPlain : nul ∉ (rendered d layouts trail).text) :
    ∃ cliXml, (PowerShell.exportTo .xml ps name).1 = .ok cliXml ∧
      Returns Q E cliXml (layouts.map fun l => l.2.object) := by
  have hRendered : Tight (rendered d layouts trail) := ⟨hTight.front, hTight.back⟩
  have hIdle : Idle S ps := (runCalls_idle S hCalls).mpr hPending
  have hResult := result_exportTo S ps .xml name hName hIdle hScript hOut
  rw [trim_document hRendered hBefore hAfter, (Bytes.takeBack_eq_self _).mpr hPlain] at hResult
  exact ⟨_, hResult, returns_rendered R d layouts trail⟩

end PwshHost.Bindings
