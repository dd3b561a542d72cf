import PwshHost.Bindings.Managed

/-! A shell that behaves as documented. It is its own view, and echoes numerals. -/
namespace PwshHost.Bindings

open Xml (Text)
open Rust

/-- A numeral is its own result. Anything else has empty text for its result,
as a variable that is not set. -/
def echo : List Command → List Text
  | [c] => [if c.isScript && (parseNat c.text).isSome then c.text else []]
  | _ => [[]]

def echoAll (session : Unit) (statements : List (List Command)) :
    Except Unit (List Text) × Unit := (.ok (statements.flatMap echo), session)

def needsCommand (v : View Unit) (f : Command → Command) : Except Unit (View Unit) :=
  if v.commands = [] then .error () else .ok (v.modify f)

/-- The shell that is its own view. -/
def echoShell : ManagedPowerShell where
  PowerShell := View Unit
  PSObject := Text
  Exception := Unit
  argumentOutOfRange := ()
  create := ⟨[], [], ()⟩
  addCommand v text := v.queue (.cmdlet text)
  addScript v text := v.queue (.script text)
  addArgument v value := needsCommand v (Command.bind · ⟨none, value⟩)
  addParameter v name value :=
    if trim name = [] then .error () else needsCommand v (Command.bind · ⟨some name, value⟩)
  addStatement v := v.modify Command.close
  invoke v :=
    if v.commands = [] then (.error (), v)
    else
      let (results, session) := echoAll v.session (statements v.commands)
      (results, { v with runs := v.runs ++ [statements v.commands], session := session })
  clear v := { v with commands := [] }
  toString := .ok

/-- In this engine a parameter that is accepted goes to the last command. -/
theorem addParameter_eq_ok {v v' : View Unit} {name : Text} {value : ParameterValue}
    (h : echoShell.addParameter v name value = .ok v') :
    needsCommand v (Command.bind · ⟨some name, value⟩) = .ok v' := by
  by_cases hBlank : trim name = []
  · simp [echoShell, hBlank] at h
  · simpa [echoShell, hBlank] using h

/-- What needs a command changes the last one, and fails without any. -/
theorem needsCommand_eq_ok {v v' : View Unit} {f : Command → Command}
    (h : needsCommand v f = .ok v') : v.commands ≠ [] ∧ v' = v.modify f := by
  unfold needsCommand at h
  split at h
  · cases h
  · rename_i hCommands
    exact ⟨hCommands, (Except.ok.inj h).symm⟩

def echoShell_documented : echoShell.Documented where
  Session := Unit
  execute := echoAll
  view v := v
  create := rfl
  addCommand _ _ := rfl
  addScript _ _ := rfl
  addArgument h := needsCommand_eq_ok h
  addParameter h := needsCommand_eq_ok (addParameter_eq_ok h)
  addStatement _ := rfl
  invoke v h := by
    have hInvoke : echoShell.invoke v =
        ((echoAll v.session (statements v.commands)).1,
          { v with runs := v.runs ++ [statements v.commands]
                   session := (echoAll v.session (statements v.commands)).2 }) := if_neg h
    rw [hInvoke]
    exact ⟨rfl, rfl⟩
  invokeEmpty v h := ⟨(), v, if_pos h⟩
  clear _ := rfl

end PwshHost.Bindings
