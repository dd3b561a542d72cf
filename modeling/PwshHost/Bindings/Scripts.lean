import PwshHost.Bindings.PowerShell

/-! The scripts of the exports as the lexer of the shell reads them. A name is
put into its script as it is, so it is read as a variable only if it has nothing
in it that ends one. -/
namespace PwshHost.Bindings

open Xml (Text)

/-- The lexer, by the characters that it takes for letters and digits. -/
structure Lexer where
  isLetterOrDigit : Char → Bool

/-- Documented behaviour. Beyond ASCII the Unicode tables decide. -/
structure Lexer.Documented (L : Lexer) : Prop where
  ascii (c : Char) (h : c.toNat < 128) : L.isLetterOrDigit c = c.isAlphanum

structure VariableReference where
  scope : Option Text
  name : Text
  deriving DecidableEq

/-- A variable, or a character of ordinary script text. -/
inductive Piece where
  | plain (c : Char)
  | variable (reference : VariableReference)
  deriving DecidableEq

/-- A colon separates a scope. -/
def VariableReference.ofRun (run : Text) : VariableReference :=
  if ':' ∈ run then ⟨some (run.takeWhile (· ≠ ':')), (run.dropWhile (· ≠ ':')).tail⟩
  else ⟨none, run⟩

namespace Lexer

variable (L : Lexer)

def isVariableChar (c : Char) : Bool :=
  L.isLetterOrDigit c || c = '_' || c = '?' || c = ':'

/-- The end of a variable. A dollar sign with no run after it is ordinary text. -/
def close (run : Text) : List Piece :=
  if run = [] then [.plain '$'] else [.variable (VariableReference.ofRun run)]

/-- Read on outside of variables, or after a dollar sign and a run. The braced
form is ordinary text here: what is written in it is never its name as a whole. -/
def lexFrom : Option Text → Text → List Piece
  | none, [] => []
  | none, c :: s => if c = '$' then lexFrom (some []) s else .plain c :: lexFrom none s
  | some run, [] => close run
  | some run, c :: s =>
    if L.isVariableChar c then lexFrom (some (run ++ [c])) s
    else close run ++ if c = '$' then lexFrom (some []) s else .plain c :: lexFrom none s

/-- A script, cut into variables and the text between them. -/
def lex (script : Text) : List Piece := L.lexFrom none script

/-- Without a dollar sign every character stands for itself. -/
theorem lexFrom_plain {s : Text} (h : '$' ∉ s) (rest : Text) :
    L.lexFrom none (s ++ rest) = s.map .plain ++ L.lexFrom none rest := by
  induction s with
  | nil => rfl
  | cons c s ih =>
      obtain ⟨hChar, hRest⟩ := List.ne_and_not_mem_of_not_mem_cons h
      rw [List.cons_append, lexFrom, if_neg hChar.symm, ih hRest]
      rfl

/-- A variable goes on as long as there are characters for it. -/
theorem lexFrom_run {s : Text} (h : ∀ c ∈ s, L.isVariableChar c = true) (run rest : Text) :
    L.lexFrom (some run) (s ++ rest) = L.lexFrom (some (run ++ s)) rest := by
  induction s generalizing run with
  | nil => simp
  | cons c s ih =>
      have hChar : L.isVariableChar c = true := h c (by simp)
      rw [List.cons_append, lexFrom, if_pos hChar, ih fun d hd => h d (List.mem_cons_of_mem c hd)]
      simp

/-- No character of a variable comes next. -/
def Ends (s : Text) : Prop := ∀ c rest, s = c :: rest → L.isVariableChar c = false

/-- A variable ends before a character that cannot be in its name. -/
theorem lexFrom_ends {s : Text} (h : L.Ends s) (run : Text) :
    L.lexFrom (some run) s = close run ++ L.lexFrom none s := by
  cases s with
  | nil => simp [lexFrom]
  | cons c s =>
      have hChar : ¬ L.isVariableChar c = true := by simp [h c s rfl]
      simp only [lexFrom]
      rw [if_neg hChar]

/-- What is read first after a dollar sign is the longest run. -/
theorem lexFrom_start (s : Text) : L.lexFrom (some []) s =
    close (s.takeWhile L.isVariableChar) ++ L.lexFrom none (s.dropWhile L.isVariableChar) := by
  have hRun : ∀ c ∈ s.takeWhile L.isVariableChar, L.isVariableChar c = true :=
    fun c hc => List.mem_takeWhile_imp hc
  have hEnds : L.Ends (s.dropWhile L.isVariableChar) := by
    intro c rest hRest
    have hHead := List.head?_dropWhile_not L.isVariableChar s
    rw [hRest] at hHead
    simpa using hHead
  conv_lhs => rw [← List.takeWhile_append_dropWhile (p := L.isVariableChar) (l := s)]
  rw [lexFrom_run L hRun, List.nil_append, lexFrom_ends L hEnds]

end Lexer

section Exports

variable (k : ExportKind)

/-- The command of an export, up to the variable. -/
def ExportKind.before : ExportKind → String
  | .xml => "[System.Management.Automation.PSSerializer]::Serialize("
  | .json | .string => ""

/-- The command of an export, after the variable. -/
def ExportKind.after : ExportKind → String
  | .xml => ")"
  | .json => " | ConvertTo-Json"
  | .string => " | Out-String"

/-- The three scripts differ in what stands before and after the variable. -/
theorem ExportKind.script_eq (name : Text) :
    k.script name = k.before.toList ++ '$' :: (name ++ k.after.toList) := by
  cases k with
  | xml =>
      unfold script
      simp [before, after]
  | json =>
      unfold script
      simp [before, after]
  | string =>
      unfold script
      simp [before, after]

/-- No other variable stands before it. -/
theorem ExportKind.not_mem_before : '$' ∉ k.before.toList := by
  cases k with
  | xml => simp [before]
  | json => simp [before]
  | string => simp [before]

/-- Nor does one stand after it. -/
theorem ExportKind.not_mem_after : '$' ∉ k.after.toList := by
  cases k with
  | xml => simp [after]
  | json => simp [after]
  | string => simp [after]

variable {L : Lexer}

/-- What comes after the name in an export ends a variable. -/
theorem ExportKind.ends_after (hL : L.Documented) : L.Ends k.after.toList := by
  have hOther : ∀ c : Char, c.toNat < 128 → c.isAlphanum = false →
      c ≠ '_' ∧ c ≠ '?' ∧ c ≠ ':' → L.isVariableChar c = false := by
    intro c hAscii hAlphanum hMark
    simp [Lexer.isVariableChar, hL.ascii c hAscii, hAlphanum, hMark]
  intro c rest hAfter
  cases k with
  | xml =>
      simp [ExportKind.after] at hAfter
      exact hAfter.1 ▸ hOther ')' (by decide) (by decide) (by decide)
  | json =>
      simp [ExportKind.after] at hAfter
      exact hAfter.1 ▸ hOther ' ' (by decide) (by decide) (by decide)
  | string =>
      simp [ExportKind.after] at hAfter
      exact hAfter.1 ▸ hOther ' ' (by decide) (by decide) (by decide)

/-- The script of an export is its command around one reference, to the variable
of the name and without a scope. -/
def ReadsVariable (L : Lexer) (k : ExportKind) (name : Text) : Prop :=
  L.lex (k.script name) =
    k.before.toList.map .plain ++ .variable ⟨none, name⟩ :: k.after.toList.map .plain

/-- What the export says is what comes right after the dollar sign. -/
theorem readsVariable_iff_start (name : Text) : ReadsVariable L k name ↔
    L.lexFrom (some []) (name ++ k.after.toList) =
      .variable ⟨none, name⟩ :: k.after.toList.map .plain := by
  have hScript : L.lex (k.script name) =
      k.before.toList.map .plain ++ L.lexFrom (some []) (name ++ k.after.toList) := by
    rw [Lexer.lex, k.script_eq, L.lexFrom_plain k.not_mem_before]
    rfl
  rw [ReadsVariable, hScript]
  exact List.append_right_inj _

/-- A letter or a digit, or one of the marks that a plain name may have. -/
def Lexer.InName (L : Lexer) (c : Char) : Prop := L.isLetterOrDigit c = true ∨ c = '_' ∨ c = '?'

/-- The characters of a name are the documented ones, but for the colon of a scope. -/
theorem Lexer.inName_iff (hL : L.Documented) (c : Char) :
    L.InName c ↔ L.isVariableChar c = true ∧ c ≠ ':' := by
  have hColon : L.isLetterOrDigit ':' = false := hL.ascii ':' (by decide)
  rw [InName, isVariableChar]
  by_cases hChar : c = ':'
  · subst hChar
    simp [hColon]
  · simp [hChar, or_assoc]

/-- An export reads the variable that it is asked for exactly when the name has
nothing in it that ends a variable or separates a scope. -/
theorem readsVariable_iff (hL : L.Documented) {name : Text} (hName : name ≠ []) :
    ReadsVariable L k name ↔ ∀ c ∈ name, L.InName c := by
  simp only [Lexer.inName_iff hL]
  rw [readsVariable_iff_start, Lexer.lexFrom_start]
  constructor
  · intro hReads
    -- the first piece is the run, so the run is the name and has no colon
    have hRun : (name ++ k.after.toList).takeWhile L.isVariableChar = name ∧ ':' ∉ name := by
      unfold Lexer.close at hReads
      split at hReads
      · cases (List.cons.inj hReads).1
      · have hPiece := Piece.variable.inj (List.cons.inj hReads).1
        unfold VariableReference.ofRun at hPiece
        split at hPiece
        · cases congrArg VariableReference.scope hPiece
        · rename_i hColon
          have hSame : (name ++ k.after.toList).takeWhile L.isVariableChar = name :=
            congrArg VariableReference.name hPiece
          exact ⟨hSame, by rwa [hSame] at hColon⟩
    intro c hc
    refine ⟨?_, fun hColon => hRun.2 (hColon ▸ hc)⟩
    rw [← hRun.1] at hc
    exact List.mem_takeWhile_imp hc
  · intro hChars
    have hTake : (name ++ k.after.toList).takeWhile L.isVariableChar = name := by
      rw [List.takeWhile_append_of_pos fun c hc => (hChars c hc).1]
      cases hAfter : k.after.toList with
      | nil => simp
      | cons c rest => simp [k.ends_after hL c rest hAfter]
    have hDrop : (name ++ k.after.toList).dropWhile L.isVariableChar = k.after.toList := by
      have hSplit := List.takeWhile_append_dropWhile (p := L.isVariableChar)
        (l := name ++ k.after.toList)
      rw [hTake] at hSplit
      exact List.append_cancel_left hSplit
    have hColon : ':' ∉ name := fun hMem => (hChars ':' hMem).2 rfl
    have hPlain : L.lexFrom none k.after.toList = k.after.toList.map .plain := by
      have hAll := L.lexFrom_plain k.not_mem_after []
      simpa [Lexer.lexFrom] using hAll
    rw [hTake, hDrop, hPlain, Lexer.close, if_neg hName, VariableReference.ofRun, if_neg hColon]
    rfl

end Exports

/-- The lexer of scripts that are all ASCII. -/
def asciiLexer : Lexer where
  isLetterOrDigit := Char.isAlphanum

/-- A lexer for ASCII alone has the documented classes of characters. -/
theorem asciiLexer_documented : asciiLexer.Documented where
  ascii _ _ := rfl

theorem readsVariable_iff_commands :
    ReadsVariable asciiLexer .xml "UtilityCommands".toList ↔
      ∀ c ∈ "UtilityCommands".toList, asciiLexer.InName c :=
  readsVariable_iff .xml asciiLexer_documented (by decide)

/-- A hyphen ends the variable, and another one is read. -/
theorem hyphen_not_read :
    asciiLexer.Documented ∧ ¬ ReadsVariable asciiLexer .string "a-b".toList := by
  refine ⟨asciiLexer_documented, ?_⟩
  unfold ReadsVariable
  decide

end PwshHost.Bindings
