import JsxOrigin.Number.Padded
import JsxOrigin.Storage.Path
import JsxOrigin.Table

/-!
# Command lines

The commands of the program and how arguments spell them. Options stand anywhere among the arguments
of a command, but options of the program only before the command. A value follows its option as the
next argument, after `=`, or attached to a short option; short options can be written as one word.
Two dashes end the options. Arguments that spell no command are a usage error, of which nothing more
is reported.
-/

namespace JsxOrigin

/-- A command of the program. -/
inductive Command where
  | version
  | scan (project : Text) (json : Option Text) (noCache : Bool)
  | trace (file : Text) (line : Option Int) (json : Bool)
  | graph (file : Text) (json : Bool)
  | literals (project text : Text) (contains : Bool)
  | deps (project : Text)
  | clearCache (project : Text)
  | cacheStats (project : Text)
deriving DecidableEq

namespace Arguments

/-- An option: its long and its short form, and whether a value follows. -/
structure OptionForm where
  long : Text
  short : Option CodePoint := none
  takesValue : Bool := false

/-- What arguments give: values of options by their long form, the last one first, and the
positional arguments. -/
structure Given where
  options : List (Text × Text) := []
  positional : List Text := []

/-- What an argument says about options: all of it, or that the next argument is a value. -/
inductive Taken where
  | whole (options : List (Text × Text))
  | wantsNext (options : List (Text × Text)) (long : Text)

/-- Reads short options that are written as one word. -/
def shortOptions? (forms : List OptionForm) (options : List (Text × Text)) : Text → Option Taken
  | [] => some (.whole options)
  | c :: rest => do
    let form ← forms.find? (·.short == some c)
    if form.takesValue then
      if rest.isEmpty then some (.wantsNext options form.long)
      else some (.whole ((form.long, rest) :: options))
    else shortOptions? forms ((form.long, []) :: options) rest

/-- Reads an argument that starts with a dash. -/
def option? (forms : List OptionForm) (argument : Text) : Option Taken :=
  let (name, value) := argument.span (· ≠ .scalar '=')
  match forms.find? (·.long == name), value with
  | some form, [] =>
    some (if form.takesValue then .wantsNext [] form.long else .whole [(form.long, [])])
  | some form, _ :: value =>
    if form.takesValue then some (.whole [(form.long, value)]) else none
  | none, _ =>
    if Text.startsWith argument "--" then none else shortOptions? forms [] (argument.drop 1)

/-- Reads arguments. Unless options may stand among positional arguments, the first positional one
ends them. -/
def read? (forms : List OptionForm) (mixed : Bool) (given : Given) : List Text → Option Given
  | [] => some given
  | argument :: rest =>
    if argument = Text.ofString "--" then
      some { given with positional := given.positional ++ rest }
    else if Text.startsWith argument "-" && 1 < argument.length then
      match option? forms argument, rest with
      | none, _ => none
      | some (.whole options), rest =>
        read? forms mixed { given with options := options ++ given.options } rest
      | some (.wantsNext ..), [] => none
      | some (.wantsNext options long), value :: rest =>
        read? forms mixed { given with options := (long, value) :: options ++ given.options } rest
    else if mixed then
      read? forms mixed { given with positional := given.positional ++ [argument] } rest
    else some { given with positional := given.positional ++ argument :: rest }

/-- The value of an option. -/
def Given.value? (given : Given) (long : String) : Option Text :=
  Table.get? (Text.ofString long) given.options

/-- Whether an option is given. -/
def Given.has (given : Given) (long : String) : Bool := (given.value? long).isSome

/-! ## Commands -/

/-- The only positional argument, or a default if there is none. -/
def only? (given : Given) (default : Text) : Option Text :=
  match given.positional with
  | [] => some default
  | [a] => some a
  | _ => none

/-- The options of the program. -/
def programForms : List OptionForm :=
  [{ long := "--verbose", short := some 'v' }, { long := "--version" }]

/-- The current directory. -/
def here : Text := "."

/-- Reads the arguments of `scan`. What is to be written has to have a path that a file can
have. -/
def scan? (arguments : List Text) : Option Command := do
  let given ← read? [{ long := "--json", takesValue := true }, { long := "--no-cache" }] true {}
    arguments
  let project ← only? given here
  let json := given.value? "--json"
  guard (json.all fun t => (Path.ofText t).error?.isNone)
  return .scan project json (given.has "--no-cache")

/-- Reads the arguments of `trace`. -/
def trace? (arguments : List Text) : Option Command := do
  let given ← read?
    [{ long := "--line", short := some 'n', takesValue := true }, { long := "--json" }] true {}
    arguments
  let [file] := given.positional | none
  match given.value? "--line" with
  | none => return .trace file none (given.has "--json")
  | some t =>
    let line ← PaddedInteger.read? t
    return .trace file (some line) (given.has "--json")

/-- Reads the arguments of `graph`. -/
def graph? (arguments : List Text) : Option Command := do
  let given ← read? [{ long := "--json" }] true {} arguments
  let [file] := given.positional | none
  return .graph file (given.has "--json")

/-- Reads the arguments of `literals`. -/
def literals? (arguments : List Text) : Option Command := do
  let given ← read? [{ long := "--contains" }] true {} arguments
  let [project, text] := given.positional | none
  return .literals project text (given.has "--contains")

/-- Reads the arguments of a command that takes a project. -/
def onProject? (command : Text → Command) (arguments : List Text) : Option Command := do
  let given ← read? [] true {} arguments
  let project ← only? given here
  return command project

/-- The command that a name and arguments spell among some commands. -/
def dispatch? (commands : List (String × (List Text → Option Command))) (words : List Text) :
    Option Command :=
  match words with
  | [] => none
  | name :: arguments =>
    match commands.find? fun c => Text.ofString c.1 == name with
    | some (_, command?) => command? arguments
    | none => none

/-- Reads the arguments of `cache`. -/
def cache? (arguments : List Text) : Option Command := do
  let given ← read? [] false {} arguments
  dispatch? [("clear", onProject? .clearCache), ("stats", onProject? .cacheStats)] given.positional

/-- The commands that take arguments. -/
def commands : List (String × (List Text → Option Command)) :=
  [("scan", scan?), ("trace", trace?), ("graph", graph?), ("literals", literals?),
    ("deps", onProject? .deps), ("cache", cache?)]

/-- Whether words start with the name of a command. -/
def isKnown (words : List Text) : Bool :=
  words.head?.any fun name => commands.any fun c => Text.ofString c.1 == name

end Arguments

/-- The command that arguments spell. Arguments that start with no known command are read once more
as options of the program, so the version can also be asked for after two dashes. -/
def Command.ofArguments? (arguments : List Text) : Option Command := do
  let given ← Arguments.read? Arguments.programForms false {} arguments
  if given.has "--version" then return .version
  let words := given.positional
  if Arguments.isKnown words then Arguments.dispatch? Arguments.commands words
  else
    let again ← Arguments.read? Arguments.programForms false {} words
    if again.has "--version" then return .version else none

end JsxOrigin
