import JsxOrigin.Cli.Terminal
import JsxOrigin.Project.Workspace

/-!
# Consoles

What a command prints: lines of text and tables on the console, and plain output beside it. A
command ends by itself, by leaving with a status, or by a failure.
-/

namespace JsxOrigin

/-- Something that is printed on the console. -/
inductive Printed where
  | line (t : Text)
  | table (title : Text) (columns : List Text) (rows : List (List Text))
deriving DecidableEq

/-- The state of a running command. -/
structure Console where
  workspace : Workspace
  /-- Whether icons are replaced in lines of text. -/
  sanitizes : Bool := false
  printed : List Printed := []
  output : Text := []

/-- Why a command ends before its end. -/
inductive Stop where
  /-- It has nothing more to do and leaves with a status. -/
  | leave (status : Nat)
  | failure (e : Failure)

/-- A running command. -/
abbrev Running := ExceptT Stop (StateM Console)

namespace Running

/-- Prints something. -/
def emit (p : Printed) : Running Unit :=
  modify fun c => { c with printed := c.printed ++ [p] }

/-- Prints a line of text. -/
def say (t : Text) : Running Unit := do
  emit (.line (Terminal.printed (← get).sanitizes t))

/-- Prints a table. -/
def table (title : Text) (columns : List Text) (rows : List (List Text)) : Running Unit :=
  emit (.table title columns rows)

/-- Writes to the plain output, with a line feed at the end. -/
def echo (t : Text) : Running Unit :=
  modify fun c => { c with output := c.output ++ t ++ "\n" }

/-- Leaves with status one after a message. -/
def refuse {α : Type} (message : Text) : Running α := do
  say message
  throw (.leave 1)

/-- Works on the workspace, and gives the failure if there is one. -/
def attempt {α : Type} (work : Session α) : Running (Except Failure α) := do
  let c ← get
  let (result, workspace) := work.run c.workspace
  set { c with workspace }
  return result

/-- Works on the workspace. -/
def work {α : Type} (work : Session α) : Running α := do
  match ← attempt work with
  | .ok a => return a
  | .error e => throw (.failure e)

end Running

end JsxOrigin
