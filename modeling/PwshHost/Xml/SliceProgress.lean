import PwshHost.Xml.SliceReader

/-! Whatever the text, each event of the reader over a text in memory uses up
part of what is left of it. -/
namespace Xml.SliceReader

/-- The scanner splits a text at a `>` and loses nothing else. -/
theorem scanTag_eq_some {q : Quoting} {s body rest : Text} (h : scanTag q s = some (body, rest)) :
    s = body ++ '>' :: rest := by
  induction s generalizing q body with
  | nil => simp [scanTag] at h
  | cons c s ih =>
      rw [scanTag] at h
      split at h
      · rename_i hEnd
        simp only [Option.some.injEq, Prod.mk.injEq] at h
        obtain ⟨rfl, rfl⟩ := h
        simp [hEnd.2]
      · simp only [Option.map_eq_some_iff, Prod.mk.injEq, Prod.exists] at h
        obtain ⟨inner, outer, hInner, rfl, rfl⟩ := h
        simpa using ih hInner

/-- So does the scanner that counts brackets. -/
theorem scanAngles_eq_some {depth : Nat} {s body rest : Text}
    (h : scanAngles depth s = some (body, rest)) : s = body ++ '>' :: rest := by
  induction s generalizing depth body with
  | nil => simp [scanAngles] at h
  | cons c s ih =>
      rw [scanAngles] at h
      split at h
      · rename_i hEnd
        simp only [Option.some.injEq, Prod.mk.injEq] at h
        obtain ⟨rfl, rfl⟩ := h
        simp [hEnd.1]
      · simp only [Option.map_eq_some_iff, Prod.mk.injEq, Prod.exists] at h
        obtain ⟨inner, outer, hInner, rfl, rfl⟩ := h
        simpa using ih hInner

/-- What is left to read. The due end of an empty element counts half a character. -/
def Slice.weight (r : Slice) : Nat := 2 * r.rest.length + r.expanding.toNat

/-- If something was reported, at most `s` and one due end are left. -/
def Leaves (result : Except Unit Event × Slice) (s : Text) : Prop :=
  ∀ event, result.1 = .ok event → result.2.weight ≤ 2 * s.length + 1

variable {r : Slice}

/-- A failure reports no event. -/
theorem leaves_fail (r : Slice) (s : Text) : Leaves (fail r) s := by
  intro event h
  cases h

/-- An event after which part of the text is left. An end that was due may still be. -/
theorem leaves_rest {rest s : Text} (event : Event) (r : Slice) (h : rest.length ≤ s.length) :
    Leaves (.ok event, { r with rest := rest }) s := by
  intro _ _
  have hDue := Bool.toNat_le r.expanding
  simp only [Slice.weight]
  omega

/-- Closing an element reports its end, or fails where another one is open. -/
theorem leaves_close {rest s : Text} (name : String) (r : Slice) (h : rest.length ≤ s.length) :
    Leaves (r.close name rest) s := by
  unfold Slice.close
  split
  · intro _ _
    simp only [Slice.weight, Bool.toNat_false]
    omega
  · exact leaves_fail r s

/-- What comes after the pattern is no longer than the whole. -/
theorem length_breakOn {pat s body rest : Text} (h : breakOn pat s = some (body, rest)) :
    rest.length ≤ s.length := by
  rw [breakOn_eq_some h]
  simp only [List.length_append]
  omega

/-- Nothing is left when there is no `>`. -/
theorem length_untilAngle (s : Text) : (untilAngle s).2.length ≤ s.length := by
  unfold untilAngle
  cases hBreak : breakOn ['>'] s with
  | none => simp
  | some p => exact length_breakOn hBreak

/-- An end tag leaves what comes after its `>`, or nothing. -/
theorem leaves_readEnd (r : Slice) (s : Text) : Leaves (readEnd r s) s :=
  leaves_close _ r (length_untilAngle s)

/-- A comment or a CDATA section leaves what comes after its closer. -/
theorem leaves_readMisc (r : Slice) (kind : MiscKind) (event : Text → Event) {s whole : Text}
    (h : s.length ≤ whole.length) : Leaves (readMisc r kind event s) whole := by
  unfold readMisc
  split
  · rename_i body rest hBreak
    exact leaves_rest _ r (Nat.le_trans (length_breakOn hBreak) h)
  · exact leaves_fail r whole

/-- A document type declaration leaves what comes after its last bracket. -/
theorem leaves_readDoctype (r : Slice) {s whole : Text} (h : s.length ≤ whole.length) :
    Leaves (readDoctype r s) whole := by
  unfold readDoctype
  split
  · rename_i body rest hScan
    have hRest : rest.length ≤ s.length := by
      rw [scanAngles_eq_some hScan]
      simp
      omega
    split
    · exact leaves_fail r whole
    · exact leaves_rest _ r (Nat.le_trans hRest h)
  · exact leaves_fail r whole

/-- Whatever follows `<!` is one of these or an error. -/
theorem leaves_readBang (r : Slice) (s : Text) : Leaves (readBang r s) s := by
  have hDrop : ∀ n, (s.drop n).length ≤ s.length := fun n => by simp
  unfold readBang
  split_ifs
  · exact leaves_readMisc r .comment _ (hDrop 2)
  · exact leaves_readMisc r .cdata _ (hDrop 7)
  · exact leaves_readDoctype r (hDrop 7)
  · exact leaves_fail r s

/-- An instruction leaves what comes after its `>`, or nothing. -/
theorem leaves_readInstruction (r : Slice) (s : Text) : Leaves (readInstruction r s) s := by
  simp only [readInstruction]
  split
  · exact leaves_rest _ r (length_untilAngle s)
  · exact leaves_fail r s

/-- A tag leaves what comes after its `>`. For an empty element an end is due then,
which is the half character of the weight. -/
theorem leaves_readStart (r : Slice) (s : Text) : Leaves (readStart r s) s := by
  unfold readStart
  split
  · rename_i body rest hScan
    have hRest : rest.length ≤ s.length := by
      rw [scanTag_eq_some hScan]
      simp
      omega
    split_ifs
    · intro _ _
      simp only [Slice.weight, Bool.toNat_true]
      omega
    · exact leaves_rest _ r hRest
    · exact leaves_rest _ { r with opened := _ } hRest
  · exact leaves_fail r s

/-- Every kind of markup leaves at most the text that it was read from. -/
theorem leaves_readMarkup (r : Slice) (s : Text) : Leaves (readMarkup r s) s := by
  have hTail : ∀ (c : Char) (s : Text) result, Leaves result s → Leaves result (c :: s) := by
    intro c s result h event hOk
    have hBound := h event hOk
    simp only [List.length_cons]
    omega
  cases s with
  | nil => exact leaves_rest .eof r (Nat.le_refl _)
  | cons c s =>
      simp only [readMarkup]
      split_ifs
      · exact hTail c s _ (leaves_readEnd r s)
      · exact hTail c s _ (leaves_readBang r s)
      · exact hTail c s _ (leaves_readInstruction r s)
      · exact leaves_readStart r (c :: s)

/-- Character data takes a character, and markup its bracket. -/
theorem weight_readContent {s : Text} {r' : Slice} {event : Event}
    (h : readContent r s = (.ok event, r')) (hMore : event ≠ .eof) (hDue : r.expanding = false) :
    r'.weight < 2 * s.length := by
  cases s with
  | nil =>
      simp only [readContent, Prod.mk.injEq, Except.ok.injEq] at h
      exact absurd h.1.symm hMore
  | cons c s =>
      simp only [readContent] at h
      split_ifs at h with hMarkup
      · have hLeaves := leaves_readMarkup r s event (by rw [h])
        rw [h] at hLeaves
        simp only [List.length_cons]
        exact Nat.lt_of_le_of_lt hLeaves (by omega)
      · have hText : (c :: s).dropWhile (· != '<') = s.dropWhile (· != '<') :=
          List.dropWhile_cons_of_pos (by simpa using hMarkup)
        rw [hText] at h
        obtain ⟨-, rfl⟩ := Prod.mk.inj h
        have hDrop := (List.dropWhile_suffix (l := s) (· != '<')).length_le
        simp only [Slice.weight, hDue, Bool.toNat_false, List.length_cons]
        omega

/-- An event other than the end of input uses something up. The end of an expanded
element uses up what was due. -/
theorem weight_readEvent {r' : Slice} {event : Event} (h : readEvent r = (.ok event, r'))
    (hMore : event ≠ .eof) : r'.weight < r.weight := by
  unfold readEvent at h
  cases hDue : r.expanding with
  | true =>
      simp only [hDue, if_true] at h
      split at h
      · rename_i name others hOpened
        unfold Slice.close at h
        split_ifs at h
        · obtain ⟨-, rfl⟩ := Prod.mk.inj h
          simp [Slice.weight, hDue]
        · cases h
      · cases h
  | false =>
      simp only [hDue, Bool.false_eq_true, if_false] at h
      have hLess := weight_readContent h hMore hDue
      have hDrop := (List.dropWhile_suffix (l := r.rest) isSpace).length_le
      simp only [Slice.weight, hDue, Bool.toNat_false]
      simp only [Slice.weight] at hLess
      split_ifs at hLess <;> omega

/-- By induction on the events up to the matching end. -/
theorem weight_readToEnd {name : String} {fuel depth : Nat} {r last r' : Slice}
    (h : readToEnd name fuel depth r = some (last, r')) : r'.weight ≤ r.weight := by
  induction fuel generalizing depth r with
  | zero => cases h
  | succ fuel ih =>
      have hNext : ∀ {event depth' r₁}, readEvent r = (.ok event, r₁) → event ≠ .eof →
          readToEnd name fuel depth' r₁ = some (last, r') → r'.weight ≤ r.weight := by
        intro event depth' r₁ hEvent hMore hRest
        exact Nat.le_trans (ih hRest) (Nat.le_of_lt (weight_readEvent hEvent hMore))
      unfold readToEnd at h
      split at h
      · rename_i hEvent
        exact hNext hEvent (by simp) h
      · rename_i hEvent
        split_ifs at h
        · obtain ⟨-, rfl⟩ := Prod.mk.inj (Option.some.inj h)
          exact Nat.le_of_lt (weight_readEvent hEvent (by simp))
        · exact hNext hEvent (by simp) h
        · exact hNext hEvent (by simp) h
      · cases h
      · cases h
      · rename_i hNotEof hEvent
        exact hNext hEvent hNotEof h

/-- Reading the text of an element never gives anything back. -/
theorem weight_readText {r' : Slice} {name : String} {txt : Text}
    (h : readText r name = (.ok txt, r')) : r'.weight ≤ r.weight := by
  unfold readText at h
  split at h
  · rename_i last next hEnd
    obtain ⟨-, rfl⟩ := Prod.mk.inj h
    exact weight_readToEnd hEnd
  · cases h

/-- Events use up the text in memory. -/
def progresses : sliceReader.Progresses where
  left := Slice.weight
  readEvent := weight_readEvent
  readText := weight_readText

end Xml.SliceReader
