import PwshHost.Rust.Std
import Mathlib.Data.List.ModifyLast
import Mathlib.Data.List.TakeWhile

/-! The `PowerShell` class of the managed side. The class is a parameter, and
so is the engine that executes pipelines; its command queue behaves as
documented. -/
namespace PwshHost.Bindings

open Xml (Text)
open Rust

inductive ParameterValue where
  | string (s : Text)
  | int (i : I32)
  | long (i : I64)
  deriving DecidableEq

/-- An argument is a parameter without a name. -/
structure Parameter where
  name : Option Text
  value : ParameterValue
  deriving DecidableEq

structure Command where
  isScript : Bool
  text : Text
  parameters : List Parameter
  isEndOfStatement : Bool
  deriving DecidableEq

def Command.script (text : Text) : Command := ⟨true, text, [], false⟩

def Command.cmdlet (text : Text) : Command := ⟨false, text, [], false⟩

def Command.bind (c : Command) (p : Parameter) : Command :=
  { c with parameters := c.parameters ++ [p] }

def Command.close (c : Command) : Command := { c with isEndOfStatement := true }

/-- A method is a function of the object it is called on. What the engine keeps for the
whole process (environment variables, files, what else scripts reach) is not part of
it, so nothing follows for the results of commands that depend on such state. -/
structure ManagedPowerShell where
  PowerShell : Type
  PSObject : Type
  Exception : Type
  argumentOutOfRange : Exception
  create : PowerShell
  addCommand : PowerShell → Text → PowerShell
  addScript : PowerShell → Text → PowerShell
  addArgument : PowerShell → ParameterValue → Except Exception PowerShell
  addParameter : PowerShell → Text → ParameterValue → Except Exception PowerShell
  addStatement : PowerShell → PowerShell
  invoke : PowerShell → Except Exception (List PSObject) × PowerShell
  /-- `Commands.Clear`. -/
  clear : PowerShell → PowerShell
  toString : PSObject → Except Exception Text

/-- A statement is a pipeline of commands and ends with the first one that is
marked so. -/
def statements : List Command → List (List Command)
  | [] => []
  | c :: cs =>
    if c.isEndOfStatement then [c] :: statements cs
    else match statements cs with
      | [] => [[c]]
      | s :: ss => (c :: s) :: ss

/-- Splitting a queue into statements loses no command and keeps their order. -/
theorem statements_flatten (cs : List Command) : (statements cs).flatten = cs := by
  induction cs with
  | nil => rfl
  | cons c cs ih =>
      unfold statements
      split
      · rw [List.flatten_cons, ih]
        rfl
      · split
        · rename_i hNone
          rw [hNone] at ih
          rw [← ih]
          rfl
        · rename_i s ss hSome
          rw [hSome] at ih
          rw [← ih]
          rfl

variable {Session PSObject Exception : Type}

/-- The queued commands, the statements of every invocation so far, and the
session in which they are executed. -/
structure View (Session : Type) where
  commands : List Command
  runs : List (List (List Command))
  session : Session

def View.queue (v : View Session) (c : Command) : View Session :=
  { v with commands := v.commands ++ [c] }

def View.modify (v : View Session) (f : Command → Command) : View Session :=
  { v with commands := v.commands.modifyLast f }

/-- Documented behaviour. Commands go to the end of the queue, a parameter
needs one to go to, and an invocation executes the statements of the queue and
leaves the queue as it is. What the statements of one invocation come to, also
where one of them throws, is left to the engine. -/
structure ManagedPowerShell.Documented (M : ManagedPowerShell) where
  Session : Type
  execute : Session → List (List Command) → Except M.Exception (List M.PSObject) × Session
  view : M.PowerShell → View Session
  create : (view M.create).commands = []
  addCommand (ps : M.PowerShell) (text : Text) :
    view (M.addCommand ps text) = (view ps).queue (.cmdlet text)
  addScript (ps : M.PowerShell) (text : Text) :
    view (M.addScript ps text) = (view ps).queue (.script text)
  addArgument {ps ps' : M.PowerShell} {value : ParameterValue}
    (h : M.addArgument ps value = .ok ps') :
    (view ps).commands ≠ [] ∧ view ps' = (view ps).modify (Command.bind · ⟨none, value⟩)
  addParameter {ps ps' : M.PowerShell} {name : Text} {value : ParameterValue}
    (h : M.addParameter ps name value = .ok ps') :
    (view ps).commands ≠ [] ∧ view ps' = (view ps).modify (Command.bind · ⟨some name, value⟩)
  addStatement (ps : M.PowerShell) : view (M.addStatement ps) = (view ps).modify Command.close
  invoke (ps : M.PowerShell) (h : (view ps).commands ≠ []) :
    (M.invoke ps).1 = (execute (view ps).session (statements (view ps).commands)).1 ∧
      view (M.invoke ps).2 =
        { commands := (view ps).commands
          runs := (view ps).runs ++ [statements (view ps).commands]
          session := (execute (view ps).session (statements (view ps).commands)).2 }
  invokeEmpty (ps : M.PowerShell) (h : (view ps).commands = []) :
    ∃ e ps', M.invoke ps = (.error e, ps')
  clear (ps : M.PowerShell) : view (M.clear ps) = { view ps with commands := [] }

/-- `Char.IsWhiteSpace`. -/
def isWhiteSpace (c : Char) : Bool :=
  let n := c.toNat
  (9 ≤ n && n ≤ 13) || (0x2000 ≤ n && n ≤ 0x200A) ||
    n ∈ [0x20, 0x85, 0xA0, 0x1680, 0x2028, 0x2029, 0x202F, 0x205F, 0x3000]

/-- `String.Trim`. -/
def trim (s : Text) : Text :=
  ((s.dropWhile isWhiteSpace).reverse.dropWhile isWhiteSpace).reverse

/-- The character whose UTF-8 form is the zero byte, and the only one with such
a byte in it. -/
def nul : Char := Char.ofNat 0

/-- `CString::new`: the memory of a text that ends with a zero byte. -/
def cString (s : Text) : Option Text := if nul ∈ s then none else some (s ++ [nul])

/-- `Marshal.StringToCoTaskMemUTF8`. -/
def stringToCoTaskMemUTF8 (s : Text) : Text := s ++ [nul]

/-- `Marshal.PtrToStringUTF8` and `CStr::from_ptr`, up to the first zero byte. -/
def readString (memory : Text) : Text := memory.takeWhile (· ≠ nul)

/-- A text without a zero byte is read back up to the zero that was put after it. -/
theorem readString_append {s : Text} (h : nul ∉ s) : readString (s ++ [nul]) = s := by
  have hAll : ∀ c ∈ s, (decide (c ≠ nul)) = true := fun c hc => by
    rw [decide_eq_true_eq]
    rintro rfl
    exact h hc
  rw [readString, List.takeWhile_append_of_pos hAll]
  simp

/-- What crosses the boundary unchanged. -/
theorem readString_eq_self {s : Text} : readString (s ++ [nul]) = s ↔ nul ∉ s := by
  constructor
  · intro h hMem
    have hAll : nul ∈ readString (s ++ [nul]) := by rwa [h]
    have hNot := List.mem_takeWhile_imp hAll
    simp at hNot
  · exact readString_append

end PwshHost.Bindings
