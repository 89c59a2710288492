import JsxOrigin.Cli.Arguments
import JsxOrigin.Cli.Console
import JsxOrigin.Rendering.Report

/-!
# Running commands

What each command does and prints.
-/

namespace JsxOrigin

/-- The version of the program. -/
def programVersion : Text := "provtrace 0.3.0"

namespace Running

/-- Goes on with the value of a result on files, or fails. -/
def reached {α : Type} : Except FileError α → Running α
  | .ok a => return a
  | .error e => throw (.failure (.file e))

/-- The directory of a project; leaves if there is none. -/
def project (t : Text) : Running Path := do
  let w := (← get).workspace
  if let some e := (Path.ofText t).firstError? then throw (.failure (.file (.path e)))
  let path ← reached (w.path t)
  let path := path.resolve w.cwd
  if ← reached (w.files.isDirectory path) then return path
  refuse ("Error: Project path does not exist: " ++ path.text)

/-- Loads the settings and tells whether kept graphs are used; leaves if that is not clear. -/
def settings : Running Bool := do
  let loaded ← attempt do
    Session.loadSettings
    Session.usesCache none
  match loaded with
  | .ok useCache => return useCache
  | .error (.setting e) => refuse ("Configuration error: " ++ e.message)
  | .error (.environment e) => refuse ("Configuration error: " ++ e.message)
  | .error e => throw (.failure e)

/-- Scans a project. -/
def scanProject (root : Path) (noCache : Bool) : Running Scan := do
  let useCache ← settings
  match ← work (Session.scan root (useCache && !noCache)) with
  | (result, none) => return result
  | (_, some e) => throw (.failure e)

/-- A text to print; anything else cannot be printed. -/
def printable : Json → Running Text
  | .str t => return t
  | _ => throw (.failure .notPrintable)

/-! ## Scanning -/

/-- The number of rows of each table in a registry, by the heading of the table. -/
def totals (r : Registry) : List (Text × Nat) :=
  let sum := fun (rows : ModuleGraph Json → Nat) => r.foldl (fun n e => n + rows e.2) 0
  [("Imports", sum (·.imports.length)), ("Exports", sum (·.exports.length)),
    ("Re-exports", sum (·.reexports.length)), ("Definitions", sum (·.defs.length)),
    ("Mutations", sum (·.mutations.length)), ("Literals", sum (·.literals.length))]

/-- What a scan writes to a file. -/
def scanJson (root : Path) (s : Scan) : Json :=
  .object [("project", .str root.text), ("files", .texts s.found), ("skipped", .texts s.skipped),
    ("modules", s.registry.toJson)]

/-- Writes a text to a file. -/
def writeFile (path : Path) (t : Text) : Running Unit := do
  let w := (← get).workspace
  let data : FileData := { bytes := (Utf8.encode? t).getD [] }
  let path ← reached (w.path path.text)
  let files ← reached (w.files.write path data w.files.now)
  modify fun c => { c with workspace := { w with files } }

/-- Scans a project and prints a summary. -/
def scan (projectPath : Text) (json : Option Text) (noCache : Bool) : Running Unit := do
  let root ← project projectPath
  say ("Scanning project: " ++ root.text ++ "\n")
  let result ← scanProject root noCache
  let rows : List (Text × Nat) := ("Files", result.found.length) :: totals result.registry
  table "Module Graph Summary" ["Metric", "Count"]
    (rows.map fun (metric, count) => [metric, Text.ofNat count])
  say (Text.ofNat result.analyzed ++ " analyzed, " ++ Text.ofNat result.cached ++
    " from cache, " ++ Text.ofNat result.skipped.length ++ " skipped in 0.00s")
  match json with
  | none => return
  | some t =>
    let path := Path.ofText t
    writeFile path (scanJson root result).pretty
    say ("✓ Wrote " ++ path.text)

/-! ## Single files -/

/-- Analyses a file; leaves if that is not possible. -/
def analysis (file : Text) : Running Analysis := do
  let w := (← get).workspace
  let .ok path := w.path file | refuse ("Error: File does not exist: " ++ file)
  if !(← reached (w.files.isFile path)) then refuse ("Error: File does not exist: " ++ file)
  match ← reached (w.files.module? path file) with
  | some m => return m.analyse none true
  | none => refuse ("Error: Unsupported file type: " ++ file)

/-- A text, or a dash for none. -/
def orDash (t : Text) : Text := if t.isEmpty then "-" else t

/-- The row of an element. -/
def elementRow (e : Element) : List Text :=
  let candidates : List Text := e.candidates.map fun c => c.reason.name ++ " → " ++ c.target
  let tags := orDash (Text.join ", " e.tags)
  ["<" ++ e.tag ++ ">", e.lines, if e.chain.truncated then tags ++ " …" else tags,
    orDash (Text.join "\n" candidates)]

/-- Prints where the values of the elements of a file come from. -/
def trace (file : Text) (line : Option Int) (json : Bool) : Running Unit := do
  let a ← analysis file
  let elements := line.elim a.elements a.elementsAt
  if json then echo (Json.pretty (.arr (elements.map (·.toJson))))
  else if elements.isEmpty then say "No JSX elements found."
  else
    table ("Provenance: " ++ file) ["Element", "Lines", "Kinds", "Edit candidates"]
      (elements.map elementRow)

/-- A graph as tables: the name, the columns and the rows of each. -/
def graphTables (g : ModuleGraph Text) : List (Text × List String × List (List Text)) :=
  [("imports", ModuleGraph.importFields,
      g.imports.map fun r => [r.localName, r.imported, r.source, r.span]),
    ("exports", ModuleGraph.exportFields, g.exports.map fun r => [r.exported, r.localName, r.span]),
    ("reexports", ModuleGraph.reexportFields,
      g.reexports.map fun r => [r.exported, r.imported, r.source, r.span]),
    ("defs", ModuleGraph.defFields, g.defs.map fun r => [r.localName, r.kind, r.span]),
    ("mutations", ModuleGraph.mutationFields,
      g.mutations.map fun r => [r.root, r.path, r.kind, r.span]),
    ("literal_index", ModuleGraph.literalFields,
      g.literals.map fun r => [r.exportName, r.path, r.text, r.span])]

/-- Prints the graph of a file. -/
def graph (file : Text) (json : Bool) : Running Unit := do
  let a ← analysis file
  if json then echo a.graph.toJson.pretty
  else
    let shown := a.graph.map fun j => j.text?.getD []
    for (title, columns, rows) in graphTables shown do
      if !rows.isEmpty then table title (columns.map Text.ofString) rows
    say (Text.join ", " (a.graph.counts.map fun (name, count) => name ++ ": " ++ Text.ofNat count))

/-! ## Queries -/

/-- Prints the exported literals with a text. -/
def literals (projectPath text : Text) (contains : Bool) : Running Unit := do
  let root ← project projectPath
  let result ← scanProject root false
  match result.registry.literals (.str text) (!contains) with
  | .error e => throw (.failure (.query e))
  | .ok [] => say ("No exported literal matches " ++ Text.quoted text ++ ".")
  | .ok found =>
    let rows ← found.mapM fun (file, row) => do
      let cells ← [row.exportName, row.path, row.text, row.span].mapM printable
      return file :: cells
    table "Literal Matches" ["File", "Export", "Path", "Text", "Span"] rows

/-- Prints the dependencies between the modules of a project. -/
def deps (projectPath : Text) : Running Unit := do
  let root ← project projectPath
  let result ← scanProject root false
  let graph ← work do
    let resolver ← Session.resolver root
    Session.dependencies result.registry resolver
  if graph.edges.isEmpty then say "No resolved module dependencies."
  else
    let rows ← graph.edges.mapM fun d => do
      let names ← d.names.mapM printable
      return [d.source, d.target, d.kind.name, Text.join ", " names]
    table "Module Dependencies" ["From", "To", "Kind", "Names"] rows
  say (Text.ofNat graph.nodes.length ++ " modules, " ++ Text.ofNat graph.edges.length ++ " edges")

/-! ## Kept graphs -/

/-- Goes on with the value of a result on a store, or fails. -/
def onStore {α : Type} : Except StoreError α → Running α
  | .ok a => return a
  | .error e => throw (.failure (.store e))

/-- Opens the store of a project. -/
def openStore (root : Path) : Running OpenStore := do
  let _ ← settings
  let w := (← get).workspace
  let (files, opened) := w.files.openStore root (Settings.cacheDirectory w.environment)
  modify fun c => { c with workspace := { w with files } }
  onStore opened

/-- Drops all kept graphs of a project. -/
def clearCache (projectPath : Text) : Running Unit := do
  let root ← project projectPath
  let store ← openStore root
  let files ← onStore ((← get).workspace.files.clearStore store)
  modify fun c => { c with workspace := { c.workspace with files } }
  say ("✓ Cache cleared for " ++ root.text)

/-- Prints how many graphs of a project are kept. -/
def cacheStats (projectPath : Text) : Running Unit := do
  let root ← project projectPath
  let store ← openStore root
  let held ← onStore ((← get).workspace.files.readStore store)
  table "Cache Statistics" ["Metric", "Count"]
    [["Total Files Cached", Text.ofNat held.marks.length],
      ["Module Graphs", Text.ofNat held.graphs.length]]

end Running

/-- Runs a command. -/
def Command.run : Command → Running Unit
  | version => Running.echo programVersion
  | scan project json noCache => Running.scan project json noCache
  | trace file line json => Running.trace file line json
  | graph file json => Running.graph file json
  | literals project text contains => Running.literals project text contains
  | deps project => Running.deps project
  | clearCache project => Running.clearCache project
  | cacheStats project => Running.cacheStats project

/-- What a command line leads to. -/
structure CommandResult where
  status : Nat
  printed : List Printed
  output : Text
  failure : Option Failure

/-- Runs a command line in a workspace, in which the settings count as not loaded before and after.
Arguments that spell no command lead to status two and nothing else. -/
def Workspace.runCommand (w : Workspace) (arguments : List Text) (sanitizes : Bool) :
    CommandResult × Workspace :=
  match Command.ofArguments? arguments with
  | none => (⟨2, [], [], none⟩, { w with loaded := false })
  | some command =>
    let (ended, console) := command.run.run { workspace := { w with loaded := false }, sanitizes }
    let (status, failure) : Nat × Option Failure :=
      match ended with
      | .ok () => (0, none)
      | .error (.leave status) => (status, none)
      | .error (.failure e) => (1, some e)
    (⟨status, console.printed, console.output, failure⟩,
      { console.workspace with loaded := false })

end JsxOrigin
