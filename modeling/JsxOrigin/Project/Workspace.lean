import JsxOrigin.Project.Scan
import JsxOrigin.Text.Lines

/-!
# Workspaces

What the commands of the program work on: a file system, a current directory and an environment. The
settings are loaded from the environment file of the current directory when they are first needed,
and again after they were reset.
-/

namespace JsxOrigin

/-- What commands work on. -/
structure Workspace where
  files : FileSystem
  cwd : Path
  /-- The number of the current directory. When its name is gone, another one with that name is
  something else. -/
  cwdNumber : Option Nat
  environment : Environment := []
  /-- Whether the settings are loaded. -/
  loaded : Bool := false
  /-- How often the settings were loaded. -/
  loads : Nat := 0

/-- Work on a workspace. A failure leaves the changes made before it. -/
abbrev Session := ExceptT Failure (StateM Workspace)

namespace Workspace

/-- The name of environment files. -/
def environmentFile : Text := ".env"

/-- The path of a text at the current directory. From one that is gone, nothing can be reached. -/
def path (w : Workspace) (t : Text) : Except FileError Path :=
  let path := Path.ofText t
  if path.isAbsolute || w.files.directoryNumber? w.cwd.names = w.cwdNumber then
    .ok (w.cwd.join path)
  else .error .notFound

/-- An environment with the variables of a file. If a variable cannot be set, those before it
are. -/
def readEnvironment (content : Content) (env : Environment) :
    Environment × Option EnvironmentError :=
  match content with
  | .store _ => (env, some .notText)
  | .data d =>
    match Text.ofFile d.bytes with
    | .ok t => env.load (EnvironmentFile.parse t)
    | .error m => (env, some (.undecodable m))

end Workspace

namespace Session

/-- Fails with the failure of a result, or goes on with its value. -/
def ofExcept {ε α : Type} (wrap : ε → Failure) : Except ε α → Session α
  | .ok a => pure a
  | .error e => throw (wrap e)

/-- Loads an environment file, if there is one. -/
def loadEnvironment (path : Path) : Session Unit := do
  if let some e := path.error? then throw (.file (.path e))
  let w ← get
  if ((w.files.at? path).bind Entry.node?).isNone then return
  let content ← ofExcept .file (w.files.content path)
  let (environment, error) := Workspace.readEnvironment content w.environment
  set { w with environment }
  if let some e := error then throw (.environment e)

/-- Loads the settings unless they are loaded. -/
def loadSettings : Session Unit := do
  let w ← get
  if w.loaded then return
  let path ← ofExcept .file (w.path Workspace.environmentFile)
  loadEnvironment path
  modify fun w => { w with loaded := true, loads := w.loads + 1 }

/-- Forgets that the settings are loaded. -/
def resetSettings : Session Unit := modify fun w => { w with loaded := false }

/-- Whether scans use kept graphs: as told, or else as the settings say. -/
def usesCache (told : Option Bool) : Session Bool := do
  match told with
  | some b => return b
  | none => ofExcept .setting (Settings.useCache (← get).environment)

/-- Scans a project and gives the state in which the scan ended, and why if it failed. -/
def scan (root : Path) (useCache : Bool) (registry : Registry := []) :
    Session (Scan × Option Failure) := do
  let w ← get
  let (result, failure) := Scan.fill registry w.files w.environment root useCache
  set { w with files := result.files }
  return (result, failure)

/-- The resolver of a project, with the path mappings that the settings name. -/
def resolver (root : Path) : Session Resolver := do
  let w ← get
  let name := Settings.tsconfigPath w.environment
  let aliases ← ofExcept .configuration (Tsconfig.aliases w.files root name)
  return .ofAliases root aliases

/-- The dependencies between the modules of a registry, by the files of a project. -/
def dependencies (registry : Registry) (r : Resolver) : Session DependencyGraph := do
  let w ← get
  ofExcept .resolve (registry.dependencies (r.target w.files registry))

end Session

end JsxOrigin
