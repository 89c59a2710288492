import JsxOrigin.Cli.Run
import JsxOrigin.Json.Reader
import JsxOrigin.Json.Writer
import JsxOrigin.Project.Snapshot

/-!
# The program

Runs a command line in a workspace that is read from standard input, and prints what the command
prints: its plain output, then lines and tables.
-/

namespace JsxOrigin

/-- A table as lines of text, with bars between its cells. -/
def Printed.lines : Printed → List Text
  | line t => [t]
  | table title columns rows => title :: (columns :: rows).map fun cells => Text.join " | " cells

/-- A text as a string; halves of surrogate pairs are shown as U+FFFD. -/
def Text.shown (t : Text) : String := String.ofList (t.map fun c => c.char?.getD '�')

/-- Runs a command line in the workspace on standard input and gives the status to end with. -/
def runProgram (arguments : List String) : IO UInt32 := do
  let input ← (← IO.getStdin).readToEnd
  match Json.parse input with
  | .error _ =>
    IO.eprintln "The workspace on standard input is no JSON."
    return 2
  | .ok j =>
    let (result, _) := (Snapshot.workspace j).runCommand (arguments.map Text.ofString) false
    IO.print (Text.shown result.output)
    for p in result.printed do
      for line in p.lines do
        IO.println (Text.shown line)
    return UInt32.ofNat result.status

end JsxOrigin

/-- The program. -/
def main (arguments : List String) : IO UInt32 := JsxOrigin.runProgram arguments
