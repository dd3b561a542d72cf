import PwshHost.CliXml.Objects
import PwshHost.Time.Accuracy
import PwshHost.Time.Formatting

/-! Which documents the parser accepts: of the texts in the lexical spaces of
their types, those that none of the decoders rejects. -/
namespace PwshHost.CliXml

open Xml
open Rust

/-- The kind and the text of an element that is decoded. -/
def Item.leafText : Item → Option (LeafKind × Text)
  | .empty tag => match kindOf tag with
    | .leaf kind => some (kind, [])
    | _ => none
  | .leaf tag content _ => match kindOf tag.tag with
    | .leaf kind => some (kind, reported content.val)
    | _ => none
  | _ => none

variable (E : Crates)

/-- The decoder of the kind returns a value. -/
def LeafKind.Accepts (kind : LeafKind) (txt : Text) : Prop :=
  match kind with
  | .bool => (parseBool txt).isSome
  | .char => ∃ unit, parseInt 0 65535 txt = some unit ∧ isSurrogate unit = false
  | .uint8 => (parseInt 0 255 txt).isSome
  | .int8 => (parseInt (-128) 127 txt).isSome
  | .uint16 => (parseInt 0 65535 txt).isSome
  | .int16 => (parseInt (-32768) 32767 txt).isSome
  | .uint32 => (parseInt 0 4294967295 txt).isSome
  | .int32 => (parseInt (-2147483648) 2147483647 txt).isSome
  | .uint64 => (parseInt 0 18446744073709551615 txt).isSome
  | .int64 => (parseInt (-9223372036854775808) 9223372036854775807 txt).isSome
  | .dateTime => (DateTime.parse E.time txt).isSome
  | .duration => ∃ x, E.duration.parse txt = some x ∧ (E.duration.toStd x).isSome
  | .float => (E.parseF32 txt).isSome
  | .double => (E.parseF64 txt).isSome
  | .decimal => (E.parseD128 txt).isSome
  | .buffer => (E.base64Decode txt).isSome
  | .guid => (E.uuidParseStr txt).isSome
  | .uri => (E.urlParse txt).isSome
  | .string | .version | .xmlDocument | .scriptBlock => True

variable {E} {ε : Type}

theorem not_exists_ok {α : Type} (panic : Panic ε) :
    ¬ ∃ a, (.error panic : Except (Panic ε) α) = .ok a := by
  intro h
  obtain ⟨a, hOk⟩ := h
  cases hOk

/-- Most arms unwrap what the parser of their type returns. -/
theorem unwrap_newFromStr_iff {α : Type} (parse : Text → Option α) (wrap : Leaf α → CliValue E)
    (name : Option Text) (txt : Text) :
    (∃ val, (do return wrap (← unwrap (Leaf.newFromStr parse name txt)) :
      Except (Panic ε) (CliValue E)) = .ok val) ↔ (parse txt).isSome := by
  cases hParse : parse txt with
  | none =>
      have hNone : Leaf.newFromStr parse name txt = none := by rw [Leaf.newFromStr, hParse]; rfl
      rw [hNone]
      exact iff_of_false (not_exists_ok .unwrapNone) (by simp)
  | some value =>
      have hSome : Leaf.newFromStr parse name txt = some (Leaf.new name value) := by
        rw [Leaf.newFromStr, hParse]
        rfl
      rw [hSome]
      exact iff_of_true ⟨_, rfl⟩ rfl

/-- A character is a number of 16 bits that is no half of a pair. -/
theorem decode_char_iff (name : Option Text) (txt : Text) :
    (∃ val, (LeafKind.char.decode E name txt : Except (Panic ε) _) = .ok val) ↔
      LeafKind.char.Accepts E txt := by
  simp only [LeafKind.Accepts, LeafKind.decode, CliChar.newFromStr]
  cases hParse : (parseInt 0 65535 txt : Option U16) with
  | none => exact iff_of_false (not_exists_ok .unwrapNone) (by simp)
  | some unit =>
      cases hSurrogate : isSurrogate unit with
      | false =>
          have hUnit : decodeUtf16 [unit] = [.ok (Char.ofNat unit.val.toNat)] := by
            simp [decodeUtf16, hSurrogate]
          simp only [hUnit]
          exact iff_of_true ⟨_, rfl⟩ ⟨unit, rfl, hSurrogate⟩
      | true =>
          have hUnit : decodeUtf16 [unit] = [.error unit] := by simp [decodeUtf16, hSurrogate]
          simp only [hUnit]
          exact iff_of_false (not_exists_ok .unwrapNone) (by simp [hSurrogate])

/-- A duration has to be parsed and then converted. Two different panics are
possible. -/
theorem decode_duration_iff (name : Option Text) (txt : Text) :
    (∃ val, (LeafKind.duration.decode E name txt : Except (Panic ε) _) = .ok val) ↔
      LeafKind.duration.Accepts E txt := by
  simp only [LeafKind.Accepts, LeafKind.decode, CliDuration.newFromStr, parseIso8601Duration]
  cases hParse : E.duration.parse txt with
  | none => exact iff_of_false (not_exists_ok .unwrapNone) (by simp)
  | some x =>
      cases hStd : E.duration.toStd x with
      | none =>
          simp only [hStd]
          exact iff_of_false (not_exists_ok .overflow) (by simp [hStd])
      | some duration =>
          simp only [hStd]
          exact iff_of_true ⟨_, rfl⟩ ⟨x, rfl, by simp [hStd]⟩

/-- Decoding panics exactly on the texts that the decoder rejects. -/
theorem decode_iff (kind : LeafKind) (name : Option Text) (txt : Text) :
    (∃ val, (kind.decode E name txt : Except (Panic ε) _) = .ok val) ↔ kind.Accepts E txt := by
  cases kind with
  | char => exact decode_char_iff name txt
  | duration => exact decode_duration_iff name txt
  | string | version | xmlDocument | scriptBlock => exact ⟨fun _ => trivial, fun _ => ⟨_, rfl⟩⟩
  | _ => exact unwrap_newFromStr_iff _ _ name txt

variable {Q : PullReader}

/-- An item is checked by the decoder of its kind, if it has one. -/
theorem check_leaf_iff (item : Item) :
    item.check Q E = .ok () ↔
      ∀ kind txt, item.leafText = some (kind, txt) → kind.Accepts E txt := by
  have hText : ∀ (t : Tag) (txt : Text), textCheck Q E t txt = .ok () ↔
      ∀ kind, kindOf t = .leaf kind → kind.Accepts E txt := by
    intro t txt
    cases hKind : kindOf t with
    | leaf kind =>
        have hDecode := decode_iff (E := E) (ε := Q.Error) kind (attrValue Q t "N") txt
        simp only [textCheck, hKind, ElementKind.leaf.injEq, forall_eq', leafValue, ← hDecode]
        cases hVal : (kind.decode E (attrValue Q t "N") txt : Except (Panic Q.Error) _) with
        | error panic => simp [Except.map]
        | ok val => simp [Except.map]
    | _ => simp [textCheck, hKind]
  cases item with
  | empty tag =>
      simp only [Item.check, Item.leafText]
      rw [hText]
      cases hKind : kindOf tag <;> simp
  | leaf tag content trail =>
      simp only [Item.check, Item.leafText]
      rw [hText]
      cases hKind : kindOf tag.tag <;> simp
  | _ => simp [Item.check, Item.leafText]

/-- The texts of a run are all accepted or some item panics. -/
theorem valid_iff_accepts (items : List Item) :
    Valid Q E items ↔ ∀ item ∈ items, ∀ kind txt, item.leafText = some (kind, txt) →
      kind.Accepts E txt := by
  simp only [Valid, check_leaf_iff]

/-- Decimal digits, possibly after a sign. -/
inductive IntegerText : Text → Int → Prop where
  | plain {txt : Text} {n : Nat} (h : parseNat txt = some n) : IntegerText txt n
  | plus {txt : Text} {n : Nat} (h : parseNat txt = some n) : IntegerText ('+' :: txt) n
  | minus {txt : Text} {n : Nat} (h : parseNat txt = some n) : IntegerText ('-' :: txt) (-n)

def InRangeText (lo hi : Int) (txt : Text) : Prop := ∃ i, IntegerText txt i ∧ lo ≤ i ∧ i ≤ hi

/-- A sign is no digit, so a number after a sign is a case of its own. -/
theorem parseNat_sign {c : Char} (h : digit c = none) (s : Text) : parseNat (c :: s) = none := by
  simp [parseNat, parseDigits, h]

theorem Bounded.ofInt_isSome {lo hi i : Int} (h : lo ≤ i ∧ i ≤ hi) :
    (Bounded.ofInt lo hi i).isSome := by
  rw [Bounded.ofInt, dif_pos h]
  rfl

/-- Without a sign the digits are the number. -/
theorem parseInt_digits {lo hi : Int} {txt : Text} {n : Nat} (h : parseNat txt = some n) :
    parseInt lo hi txt = Bounded.ofInt lo hi n := by
  unfold parseInt
  split
  · rw [parseNat_sign (by decide)] at h
    cases h
  · rw [parseNat_sign (by decide)] at h
    cases h
  · rw [h]
    rfl

/-- Integers in the range of their type are accepted, except that the unsigned
types have no negative zero. -/
theorem parseInt_isSome_iff {lo hi : Int} {txt : Text} (h : InRangeText lo hi txt) :
    (parseInt lo hi txt).isSome ↔ lo < 0 ∨ txt.head? ≠ some '-' := by
  obtain ⟨i, hText, hRange⟩ := h
  cases hText with
  | plain hDigits =>
      have hHead : txt.head? ≠ some '-' := by
        intro hMinus
        obtain ⟨rest, rfl⟩ := List.head?_eq_some_iff.mp hMinus
        rw [parseNat_sign (by decide)] at hDigits
        cases hDigits
      rw [parseInt_digits hDigits]
      exact iff_of_true (Bounded.ofInt_isSome hRange) (.inr hHead)
  | plus hDigits =>
      simp only [parseInt, hDigits, Option.bind_some]
      exact iff_of_true (Bounded.ofInt_isSome hRange) (.inr (by simp))
  | minus hDigits =>
      by_cases hSigned : lo < 0
      · simp only [parseInt, if_pos hSigned, hDigits, Option.bind_some]
        exact iff_of_true (Bounded.ofInt_isSome hRange) (.inl hSigned)
      · simp [parseInt, hSigned]

variable (E)

/-- The texts that the schema types cited for the elements allow. -/
def LeafKind.Lexical (kind : LeafKind) (txt : Text) : Prop :=
  match kind with
  | .bool => txt ∈ ["true".toList, "false".toList, "1".toList, "0".toList]
  | .char => ∃ n, parseNat txt = some n ∧ n ≤ 65535
  | .uint8 => InRangeText 0 255 txt
  | .int8 => InRangeText (-128) 127 txt
  | .uint16 => InRangeText 0 65535 txt
  | .int16 => InRangeText (-32768) 32767 txt
  | .uint32 => InRangeText 0 4294967295 txt
  | .int32 => InRangeText (-2147483648) 2147483647 txt
  | .uint64 => InRangeText 0 18446744073709551615 txt
  | .int64 => InRangeText (-9223372036854775808) 9223372036854775807 txt
  | .dateTime => ∃ s : DateTimeShape, s.Lexical ∧ s.text = txt
  | .duration => ∃ t : DurationText, t.text = txt
  | .float => (E.parseF32 txt).isSome
  | .double => (E.parseF64 txt).isSome
  | .decimal => (E.parseD128 txt).isSome
  | .buffer => (E.base64Decode txt).isSome
  | .guid => (E.uuidParseStr txt).isSome
  | .uri => (E.urlParse txt).isSome
  | .string | .version | .xmlDocument | .scriptBlock => True

/-- No digit for a boolean, no surrogate for a character, no minus sign for an
unsigned integer, a zone or a fraction and no hour 24 for a date-time, no sign
for a duration, and a duration that does not overflow. -/
def LeafKind.Supported (kind : LeafKind) (txt : Text) : Prop :=
  match kind with
  | .bool => txt ∉ ["1".toList, "0".toList]
  | .char => ∀ n, parseNat txt = some n → n < 0xD800 ∨ 0xDFFF < n
  | .uint8 | .uint16 | .uint32 | .uint64 => txt.head? ≠ some '-'
  | .dateTime => ∀ s : DateTimeShape, s.Lexical → s.text = txt →
      (s.zone.isSome ∨ s.fraction.isSome) ∧ s.hour.val < 24
  | .duration => ∀ t : DurationText, t.text = txt →
      t.negative = false ∧ ∀ x, E.duration.parse txt = some x → (E.duration.toStd x).isSome
  | _ => True

variable {E}

/-- Of the four spellings of a boolean two are accepted. -/
theorem accepts_bool_iff {txt : Text} (h : LeafKind.bool.Lexical E txt) :
    LeafKind.bool.Accepts E txt ↔ LeafKind.bool.Supported E txt := by
  simp only [LeafKind.Lexical, List.mem_cons, List.not_mem_nil, or_false] at h
  simp only [LeafKind.Accepts, LeafKind.Supported]
  rcases h with rfl | rfl | rfl | rfl <;> decide

/-- Of the units of 16 bits those outside of the surrogates are accepted. -/
theorem accepts_char_iff {txt : Text} (h : LeafKind.char.Lexical E txt) :
    LeafKind.char.Accepts E txt ↔ LeafKind.char.Supported E txt := by
  obtain ⟨n, hParse, hRange⟩ := h
  have hBounds : (0 : Int) ≤ n ∧ (n : Int) ≤ 65535 := by omega
  let unit : U16 := ⟨n, hBounds⟩
  have hUnit : parseInt 0 65535 txt = some unit := by
    rw [parseInt_digits hParse, Bounded.ofInt, dif_pos hBounds]
  have hSurrogate : isSurrogate unit = false ↔ n < 0xD800 ∨ 0xDFFF < n := by
    change (decide ((0xD800 : Int) ≤ n) && decide ((n : Int) ≤ 0xDBFF) ||
      (decide ((0xDC00 : Int) ≤ n) && decide ((n : Int) ≤ 0xDFFF))) = false ↔ _
    simp only [Bool.or_eq_false_iff, Bool.and_eq_false_iff, decide_eq_false_iff_not]
    omega
  simp only [LeafKind.Accepts, LeafKind.Supported, hParse, Option.some.injEq, forall_eq']
  rw [← hSurrogate, hUnit]
  constructor
  · intro hAccepts
    obtain ⟨other, hOther, hPlain⟩ := hAccepts
    obtain rfl := Option.some.inj hOther
    exact hPlain
  · intro hPlain
    exact ⟨unit, rfl, hPlain⟩

/-- Of the date-times of the schema those are accepted that either of the two
parsers reads. -/
theorem accepts_dateTime_iff (T : E.time.Documented) {txt : Text}
    (h : LeafKind.dateTime.Lexical E txt) :
    LeafKind.dateTime.Accepts E txt ↔ LeafKind.dateTime.Supported E txt := by
  have hShape : ∀ s : DateTimeShape, s.Lexical →
      ((DateTime.parse E.time s.text).isSome ↔
        (s.zone.isSome ∨ s.fraction.isSome) ∧ s.hour.val < 24) := by
    intro s hs
    have hSecond : s.second.val ≠ 60 := by
      have hLe := hs.second
      omega
    rw [← hs.inRange_iff]
    cases hZone : s.zone with
    | some z =>
        have hOffset := T.offset_isSome z (hs.zone z (by simp [hZone]))
        rw [parse_zoned T s hSecond hZone, dateTime_isSome T s.fields hOffset]
        simp
    | none =>
        rw [parse_naive T s hSecond hZone]
        cases hFraction : s.fraction with
        | none => simp
        | some f =>
            rw [if_pos (by simp), dateTime_utc_isSome]
            simp
  obtain ⟨s, hs, rfl⟩ := h
  simp only [LeafKind.Accepts, LeafKind.Supported]
  constructor
  · intro hAccepts other hOther hSame
    rw [← hSame] at hAccepts
    exact (hShape other hOther).mp hAccepts
  · intro hSupported
    exact (hShape s hs).mpr (hSupported s hs rfl)

/-- Of the durations those without a sign are parsed, and converted if they do not
overflow. -/
theorem accepts_duration_iff (U : E.duration.Documented) {txt : Text}
    (h : LeafKind.duration.Lexical E txt) :
    LeafKind.duration.Accepts E txt ↔ LeafKind.duration.Supported E txt := by
  obtain ⟨t, rfl⟩ := h
  simp only [LeafKind.Accepts, LeafKind.Supported]
  constructor
  · intro hAccepts other hSame
    obtain ⟨x, hParse, hStd⟩ := hAccepts
    refine ⟨?_, ?_⟩
    · cases hSign : other.negative with
      | false => rfl
      | true =>
          rw [← hSame, DurationText.text, hSign, if_pos rfl, U.signed other] at hParse
          cases hParse
    · intro y hy
      rw [hParse] at hy
      obtain rfl := Option.some.inj hy
      exact hStd
  · intro hSupported
    obtain ⟨hSign, hStd⟩ := hSupported t rfl
    have hText : t.text = t.unsigned := by simp [DurationText.text, hSign]
    obtain ⟨x, hParse⟩ := Option.isSome_iff_exists.mp (U.unsigned t)
    rw [← hText] at hParse
    exact ⟨x, hParse, hStd x hParse⟩

/-- The sign of a duration is seen from its text. -/
theorem negative_of_text_eq {t other : DurationText} (h : other.text = t.text) :
    other.negative = t.negative := by
  cases hSign : t.negative <;> cases hOther : other.negative <;>
    simp_all [DurationText.text, DurationText.unsigned]

/-- Where durations are held in binary32, the supported ones are those without a
sign whose sum of seconds stays below `2 ^ 64`. -/
theorem supported_duration_iff (B : E.duration.Binary32) (t : DurationText) :
    LeafKind.duration.Supported E t.text ↔ t.negative = false ∧ t.binary.seconds < 2 ^ 64 := by
  obtain ⟨x, hParse, hStd⟩ := B.held t
  have hOverflow : (E.duration.toStd x).isSome ↔ t.binary.seconds < 2 ^ 64 := by
    rw [hStd]
    exact isSome_toStd t
  have hText : t.negative = false → t.text = t.unsigned := fun hSign => by
    simp [DurationText.text, hSign]
  simp only [LeafKind.Supported]
  constructor
  · intro hSupported
    obtain ⟨hSign, hSome⟩ := hSupported t rfl
    rw [hText hSign] at hSome
    exact ⟨hSign, hOverflow.mp (hSome x hParse)⟩
  · intro h other hSame
    obtain ⟨hSign, hSmall⟩ := h
    refine ⟨(negative_of_text_eq hSame).trans hSign, ?_⟩
    intro y hy
    rw [hText hSign, hParse] at hy
    obtain rfl := Option.some.inj hy
    exact hOverflow.mpr hSmall

/-- In the lexical space of its type a text is accepted exactly if it is one of
those supported. -/
theorem accepts_iff_supported (T : E.time.Documented) (U : E.duration.Documented)
    {kind : LeafKind} {txt : Text} (h : kind.Lexical E txt) :
    kind.Accepts E txt ↔ kind.Supported E txt := by
  cases kind with
  | bool => exact accepts_bool_iff h
  | char => exact accepts_char_iff h
  | dateTime => exact accepts_dateTime_iff T h
  | duration => exact accepts_duration_iff U h
  | uint8 | uint16 | uint32 | uint64 =>
      exact (parseInt_isSome_iff h).trans (or_iff_right (Int.lt_irrefl 0))
  | int8 | int16 | int32 | int64 =>
      exact iff_of_true ((parseInt_isSome_iff h).mpr (.inl (by decide))) trivial
  | _ => exact iff_of_true h trivial

variable (D : Q.Documented)

variable (E) in
/-- Every element text is in the lexical space of its type. -/
def Document.Lexical (d : Document) : Prop :=
  ∀ item ∈ d.content, ∀ kind txt, item.leafText = some (kind, txt) → kind.Lexical E txt

include D in
/-- The parser returns exactly when each text is one of the supported ones. -/
theorem returns_iff_supported (T : E.time.Documented) (U : E.duration.Documented) (d : Document)
    (hLexical : d.Lexical E) :
    (∃ objs, Returns Q E d.text objs) ↔ ∀ item ∈ d.content, ∀ kind txt,
      item.leafText = some (kind, txt) → kind.Supported E txt := by
  have hReturns : (∃ objs, Returns Q E d.text objs) ↔ Valid Q E d.content := by
    constructor
    · intro h
      obtain ⟨objs, hObjs⟩ := h
      exact ((d.returns_iff D objs).mp hObjs).1
    · intro hValid
      exact ⟨_, d.returns D hValid⟩
  rw [hReturns, valid_iff_accepts]
  have hEach : ∀ item ∈ d.content, ∀ kind txt, item.leafText = some (kind, txt) →
      (kind.Accepts E txt ↔ kind.Supported E txt) := fun item hItem kind txt hText =>
    accepts_iff_supported T U (hLexical item hItem kind txt hText)
  constructor
  · intro h item hItem kind txt hText
    exact (hEach item hItem kind txt hText).mp (h item hItem kind txt hText)
  · intro h item hItem kind txt hText
    exact (hEach item hItem kind txt hText).mpr (h item hItem kind txt hText)

/-- Crates whose date-times and durations behave as documented. -/
def referenceCrates : Crates :=
  { textCrates with time := fieldTime, duration := textDuration }

/-- One leaf in one object. -/
def leafItems (kind : LeafKind) (content : CharData) : List Item :=
  [Structural.obj.start none, .leaf (kind.tag none) content noBlanks, Structural.obj.stop]

theorem leafItems_balanced (kind : LeafKind) (content : CharData) :
    Balanced (leafItems kind content) := by
  have hStop : Structural.obj.stop.nest [Structural.obj.element] = some [] := by decide
  change (Structural.obj.stop.nest [Structural.obj.element]).bind _ = _
  rw [hStop]
  rfl

def leafDocument (kind : LeafKind) (content : CharData) : Document :=
  documentOf (leafItems kind content) (leafItems_balanced kind content)

/-- A document with one leaf is as lexical as the text of that leaf. -/
theorem leafDocument_lexical {E : Crates} {kind : LeafKind} {content : CharData}
    (h : kind.Lexical E (reported content.val)) : (leafDocument kind content).Lexical E := by
  intro item hItem kind' txt hText
  simp only [leafDocument, documentOf, leafItems, List.mem_cons, List.not_mem_nil,
    or_false] at hItem
  rcases hItem with rfl | rfl | rfl
  · cases hText
  · simp only [Item.leafText, LeafKind.kindOf_tag, Option.some.injEq, Prod.mk.injEq] at hText
    obtain ⟨rfl, rfl⟩ := hText
    exact h
  · cases hText

open SliceReader in
theorem returns_iff_supported_zeroSeconds :
    (∃ objs, Returns sliceReader referenceCrates
      (leafDocument .duration ⟨zeroSeconds.text, by decide⟩).text objs) ↔
      ∀ item ∈ (leafDocument .duration ⟨zeroSeconds.text, by decide⟩).content, ∀ kind txt,
        item.leafText = some (kind, txt) → kind.Supported referenceCrates txt :=
  returns_iff_supported documented fieldTime_documented textDuration_documented
    (leafDocument .duration ⟨zeroSeconds.text, by decide⟩)
    (leafDocument_lexical ⟨zeroSeconds, rfl⟩)

open SliceReader in
/-- The boolean `1` makes the parser panic. -/
theorem boolean_digit_panics :
    (leafDocument .bool (oneChar '1' rfl)).text = "<Objs><Obj><B>1</B></Obj></Objs>".toList ∧
      (leafDocument .bool (oneChar '1' rfl)).Lexical referenceCrates ∧
      ¬ ∃ objs, Returns sliceReader referenceCrates
        (leafDocument .bool (oneChar '1' rfl)).text objs := by
  have hDigit : LeafKind.bool.Lexical referenceCrates (reported ['1']) := by
    change ['1'] ∈ ["true".toList, "false".toList, "1".toList, "0".toList]
    decide
  refine ⟨by decide, leafDocument_lexical hDigit, ?_⟩
  intro h
  obtain ⟨objs, hReturns⟩ := h
  obtain ⟨hValid, -⟩ := (Document.returns_iff documented _ objs).mp hReturns
  have hLeaf : (parseBool ['1']).isSome = true :=
    (valid_iff_accepts _).mp hValid (.leaf (LeafKind.bool.tag none) (oneChar '1' rfl) noBlanks)
      (by simp [leafDocument, documentOf, leafItems]) .bool ['1'] rfl
  revert hLeaf
  decide

end PwshHost.CliXml
