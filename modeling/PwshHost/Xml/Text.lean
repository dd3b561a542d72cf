import Mathlib.Data.List.Basic
import Mathlib.Data.List.Infix
import Mathlib.Tactic.SplitIfs

/-! Character data and the two ways a pull reader cuts it: at the first
occurrence of a terminator, and at the first `>` outside quotes. -/
namespace Xml

abbrev Text := List Char

/-- The four white space characters of the XML grammar. -/
def isSpace (c : Char) : Bool := c == ' ' || c == '\t' || c == '\r' || c == '\n'

def Blank (t : Text) : Prop := ∀ c ∈ t, isSpace c = true

-- Found before the instance that searches all characters.
instance decidableAllMem (p : Char → Prop) [DecidablePred p] (t : Text) :
    Decidable (∀ c ∈ t, p c) :=
  List.decidableBAll p t

instance (t : Text) : Decidable (Blank t) := decidableAllMem (isSpace · = true) t

theorem Blank.nil : Blank [] := by simp [Blank]

/-- Nothing but markup or the end of input comes next. -/
def AtMarkup (s : Text) : Prop := ∀ c rest, s = c :: rest → c = '<'

theorem AtMarkup.nil : AtMarkup [] := by simp [AtMarkup]

theorem AtMarkup.cons (s : Text) : AtMarkup ('<' :: s) := by
  intro c rest h
  exact (List.cons.inj h).1.symm

/-- Split before the first occurrence of `pat` and drop that occurrence. -/
def breakOn (pat : Text) : Text → Option (Text × Text)
  | [] => none
  | c :: s =>
    if pat <+: c :: s then some ([], (c :: s).drop pat.length)
    else (breakOn pat s).map fun p => (c :: p.1, p.2)

/-- Breaking a text loses nothing of it but the pattern. -/
theorem breakOn_eq_some {pat s before after : Text} (h : breakOn pat s = some (before, after)) :
    s = before ++ pat ++ after := by
  induction s generalizing before after with
  | nil => simp [breakOn] at h
  | cons c s ih =>
      rw [breakOn] at h
      split at h
      · rename_i hPrefix
        obtain ⟨tail, hTail⟩ := hPrefix
        simp only [Option.some.injEq, Prod.mk.injEq] at h
        obtain ⟨rfl, rfl⟩ := h
        simp [← hTail]
      · simp only [Option.map_eq_some_iff, Prod.mk.injEq, Prod.exists] at h
        obtain ⟨inner, outer, hInner, rfl, rfl⟩ := h
        simpa using ih hInner

/-- `body` can be followed by `pat` without `pat` occurring any earlier. -/
def Ends (body pat : Text) : Prop := pat ≠ [] ∧ ¬ pat <:+: body ++ pat.dropLast

instance (body pat : Text) : Decidable (Ends body pat) :=
  inferInstanceAs (Decidable (_ ∧ _))

/-- Whether a pattern first ends a body does not depend on how the body starts. -/
theorem Ends.tail {c : Char} {body pat : Text} (h : Ends (c :: body) pat) : Ends body pat :=
  ⟨h.1, fun hInfix => h.2 (hInfix.trans (List.suffix_cons c _).isInfix)⟩

/-- A text is broken at the first pattern, which is the one that ends the body. -/
theorem breakOn_append {body pat : Text} (h : Ends body pat) (s : Text) :
    breakOn pat (body ++ pat ++ s) = some (body, s) := by
  induction body with
  | nil =>
      obtain ⟨hNe, -⟩ := h
      cases pat with
      | nil => exact absurd rfl hNe
      | cons p ps => simp [breakOn]
  | cons c body ih =>
      have hNot : ¬ pat <+: c :: (body ++ pat ++ s) := by
        intro hPrefix
        have hInit : c :: body ++ pat.dropLast <+: c :: (body ++ pat ++ s) := by
          have hDrop := List.dropLast_append_getLast h.1
          refine ⟨[pat.getLast h.1] ++ s, ?_⟩
          conv_rhs => rw [← hDrop]
          simp
        have hLength : pat.length ≤ (c :: body ++ pat.dropLast).length := by
          simp only [List.length_append, List.length_cons, List.length_dropLast]
          omega
        exact h.2 (List.prefix_of_prefix_length_le hPrefix hInit hLength).isInfix
      simp only [List.cons_append, breakOn, if_neg hNot, ih h.tail, Option.map_some]

/-- A text that stops short of its terminator is not split. -/
theorem breakOn_cut {body pat cut missing : Text} (h : Ends body pat)
    (hCut : cut ++ missing = body ++ pat) (hMissing : missing ≠ []) :
    breakOn pat cut = none := by
  cases hBreak : breakOn pat cut with
  | none => rfl
  | some p =>
      have hSplit := breakOn_eq_some hBreak
      have hWhole : cut <+: body ++ pat := ⟨missing, hCut⟩
      have hInit : body ++ pat.dropLast <+: body ++ pat :=
        (List.prefix_append_right_inj body).mpr (List.dropLast_prefix pat)
      have hPrefix : cut <+: body ++ pat.dropLast := by
        apply List.prefix_of_prefix_length_le hWhole hInit
        have hLength := congrArg List.length hCut
        have hPos := List.length_pos_iff.mpr hMissing
        have hPat := List.length_pos_iff.mpr h.1
        simp only [List.length_append, List.length_dropLast] at hLength ⊢
        omega
      have hInfix : pat <:+: cut := ⟨p.1, p.2, hSplit.symm⟩
      exact absurd (hInfix.trans hPrefix.isInfix) h.2

end Xml
