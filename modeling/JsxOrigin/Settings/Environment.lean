import JsxOrigin.Table
import JsxOrigin.Text.Blank
import JsxOrigin.Text.Utf8

/-!
# Environments and the files that set them

An environment is a table of variables. An environment file sets variables, one a line, as
`NAME=value` with an optional `export` in front. A value may stand in single or double quotes, which
can span lines and hold escapes; an unquoted value ends at a blank before `#`. A line that fits no
form is passed by. A value can refer to other variables.
-/

namespace JsxOrigin

/-- Variables with their values. -/
abbrev Environment := Table Text Text

/-- A line of an environment file: a name, and a value if one is assigned. -/
structure Assignment where
  name : Text
  value : Option Text
deriving DecidableEq

namespace EnvironmentFile

/-- Whether a code point ends a line. -/
def isLineEnd (c : CodePoint) : Bool := c == .scalar '\n' || c == .scalar '\r'

/-- A blank inside a line. -/
def isInnerBlank (c : CodePoint) : Bool := c.isBlank && !isLineEnd c

/-- A text without the blanks in front that do not leave the line. -/
def skipBlanks (t : Text) : Text := t.dropWhile isInnerBlank

/-- What follows the rest of a line. -/
def skipLine (t : Text) : Text := (t.dropWhile (!isLineEnd ·)).drop 1

/-- What follows the word `export` and blanks, if they stand in front. -/
def skipExport (t : Text) : Text :=
  let rest := t.drop 6
  if Text.startsWith t "export" && rest.head?.any isInnerBlank then skipBlanks rest else t

/-! ## Quoted values -/

/-- The body of a quoted value and what follows its closing quote. A backslash keeps the next code
point in the body, which may be a quote. -/
def quotedBody? (quote : Char) : Text → Option (Text × Text)
  | [] => none
  | [c] => if c = .scalar quote then some ([], []) else none
  | c :: next :: rest =>
    if c = .scalar quote then some ([], next :: rest)
    else if c = .scalar '\\' then
      (quotedBody? quote rest).map fun (body, r) => (c :: next :: body, r)
    else (quotedBody? quote (next :: rest)).map fun (body, r) => (c :: body, r)

/-- What a letter after a backslash stands for in double quotes. -/
def doubleEscape? : CodePoint → Option CodePoint
  | .scalar '\\' => some '\\'
  | .scalar '\x27' => some '\x27'
  | .scalar '"' => some '"'
  | .scalar 'a' => some '\x07'
  | .scalar 'b' => some '\x08'
  | .scalar 'f' => some '\x0c'
  | .scalar 'n' => some '\n'
  | .scalar 'r' => some '\r'
  | .scalar 't' => some '\t'
  | .scalar 'v' => some '\x0b'
  | _ => none

/-- What a letter after a backslash stands for in single quotes. -/
def singleEscape? : CodePoint → Option CodePoint
  | .scalar '\\' => some '\\'
  | .scalar '\x27' => some '\x27'
  | _ => none

/-- A text with its escapes replaced; a backslash before anything else stays. -/
def unescape (escape? : CodePoint → Option CodePoint) : Text → Text
  | .scalar '\\' :: c :: rest =>
    match escape? c with
    | some meaning => meaning :: unescape escape? rest
    | none => .scalar '\\' :: unescape escape? (c :: rest)
  | c :: rest => c :: unescape escape? rest
  | [] => []

/-! ## Lines -/

/-- A line without the comment that blanks separate from it. -/
def withoutComment : Text → Text
  | [] => []
  | c :: rest =>
    if c.isBlank && (rest.dropWhile CodePoint.isBlank).head? == some (.scalar '#') then []
    else c :: withoutComment rest

/-- The value after an equals sign, and what follows it. -/
def value? (t : Text) : Option (Text × Text) :=
  match skipBlanks t with
  | .scalar '\x27' :: rest =>
    (quotedBody? '\x27' rest).map fun (body, r) => (unescape singleEscape? body, r)
  | .scalar '"' :: rest =>
    (quotedBody? '"' rest).map fun (body, r) => (unescape doubleEscape? body, r)
  | _ =>
    let line := t.takeWhile (!isLineEnd ·)
    some (Text.trim (withoutComment line), t.drop line.length)

/-- What follows the end of a line, after blanks and a comment. -/
def lineEnd? (t : Text) : Option Text :=
  let t := skipBlanks t
  let t := if t.head? == some (.scalar '#') then t.dropWhile (!isLineEnd ·) else t
  match t with
  | [] => some []
  | c :: rest => if isLineEnd c then some rest else none

/-- The name in front of a text, and what follows it. A line that starts with `#` has none. -/
def name? (t : Text) : Option (Option Text × Text) :=
  match t with
  | .scalar '#' :: _ => some (none, t)
  | .scalar '\x27' :: rest =>
    let body := rest.takeWhile (· ≠ .scalar '\x27')
    if body.isEmpty || body.length = rest.length then none
    else some (some body, rest.drop (body.length + 1))
  | _ =>
    let body := t.takeWhile fun c => !(c.isBlank || c == .scalar '=' || c == .scalar '#')
    if body.isEmpty then none else some (some body, t.drop body.length)

/-- Reads one line: its assignment, if it has one, and what follows. If the line fits no form, what
was read of it does not count and the rest of it is passed by. -/
def line (t : Text) : Option Assignment × Text :=
  let t := skipExport t
  match name? t with
  | none => (none, skipLine t)
  | some (name, rest) =>
    match skipBlanks rest with
    | .scalar '=' :: afterSign =>
      match value? afterSign with
      | none => (none, skipLine (skipBlanks afterSign))
      | some (value, rest) =>
        match lineEnd? rest with
        | some next => (name.map fun n => ⟨n, some value⟩, next)
        | none => (none, skipLine rest)
    | rest =>
      match lineEnd? rest with
      | some next => (name.map fun n => ⟨n, none⟩, next)
      | none => (none, skipLine rest)

/-- Reads up to a number of lines. -/
def lines : Nat → Text → List Assignment
  | 0, _ => []
  | count + 1, t =>
    match t.dropWhile CodePoint.isBlank with
    | [] => []
    | t =>
      let (assignment, rest) := line t
      assignment.toList ++ lines count rest

/-- A text without the mark that says how its bytes are ordered. -/
def withoutMark : Text → Text
  | .scalar '\uFEFF' :: rest => rest
  | t => t

/-- The assignments of an environment file. Every line takes at least one code point. -/
def parse (t : Text) : List Assignment := lines (t.length + 1) (withoutMark t)

end EnvironmentFile

/-! ## References to variables -/

namespace EnvironmentFile

/-- Reads what follows a dollar sign and an opening brace: the name of a variable, a default if one
is given after a colon and a dash, and the number of code points up to the closing brace, which is
one of them. -/
def reference? (t : Text) : Option (Text × Option Text × Nat) :=
  let name := t.takeWhile fun c => c ≠ .scalar '\x7d' && c ≠ .scalar ':'
  match t.drop name.length with
  | .scalar '\x7d' :: _ => some (name, none, name.length + 1)
  | .scalar ':' :: .scalar '-' :: more =>
    let default := more.takeWhile (· ≠ .scalar '\x7d')
    if default.length = more.length then none
    else some (name, some default, name.length + default.length + 3)
  | _ => none

/-- A value with the references in it replaced by what they refer to. -/
def expand (refer : Text → Option Text → Text) : Text → Text
  | [] => []
  | c :: rest =>
    if c = .scalar '$' ∧ rest.head? = some (.scalar '\x7b') then
      match reference? (rest.drop 1) with
      | some (name, default, length) =>
        refer name default ++ expand refer (rest.drop (length + 1))
      | none => c :: expand refer rest
    else c :: expand refer rest
termination_by t => t.length
decreasing_by all_goals simp only [List.length_drop, List.length_cons]; omega

/-- What a reference stands for: a variable that is set, else one that the file has set before, else
the default. -/
def referent (env : Environment) (before : Table Text (Option Text)) (name : Text)
    (default : Option Text) : Text :=
  match Table.get? name env, Table.get? name before with
  | some v, _ => v
  | none, some v => v.getD []
  | none, none => default.getD []

/-- The variables of a file with their values, references replaced. The last assignment to a name
counts. -/
def variablesOf (assignments : List Assignment) (env : Environment) : Table Text (Option Text) :=
  assignments.foldl
    (fun before a => Table.set a.name (a.value.map (expand (referent env before))) before)
    []

end EnvironmentFile

/-! ## Setting variables -/

/-- Why a variable cannot be set. -/
inductive EnvironmentError where
  /-- The file that sets it is no text. -/
  | undecodable (m : Utf8.Malformed)
  /-- The file that sets it is something other than a text. -/
  | notText
  /-- The name or the value holds a surrogate. -/
  | unencodable
  /-- The name or the value holds a NUL. -/
  | embeddedNul
  /-- The name holds an equals sign. -/
  | illegalName
  /-- The name is empty. -/
  | emptyName
deriving DecidableEq

/-- What is wrong with setting a variable. -/
def EnvironmentError.message : EnvironmentError → Text
  | undecodable m => m.message
  | notText => "not a text"
  | unencodable => "surrogates not allowed"
  | embeddedNul => "embedded null byte"
  | illegalName => "illegal environment variable name"
  | emptyName => "Invalid argument"

namespace Environment

/-- Sets a variable. -/
def assign (name value : Text) (env : Environment) : Except EnvironmentError Environment :=
  if (name ++ value).any CodePoint.isUnencodable then .error .unencodable
  else if (name ++ value).contains (.scalar '\x00') then .error .embeddedNul
  else if name.contains (.scalar '=') then .error .illegalName
  else if name.isEmpty then .error .emptyName
  else .ok (Table.set name value env)

/-- Sets variables in turn until one cannot be set. A name without a value is left alone, and so is
a variable that is set already. -/
def assignAll : Table Text (Option Text) → Environment → Environment × Option EnvironmentError
  | [], env => (env, none)
  | (_, none) :: rest, env => assignAll rest env
  | (name, some value) :: rest, env =>
    if Table.has name env then assignAll rest env
    else
      match env.assign name value with
      | .ok env => assignAll rest env
      | .error e => (env, some e)

/-- An environment with the variables of a file. -/
def load (assignments : List Assignment) (env : Environment) :
    Environment × Option EnvironmentError :=
  assignAll (EnvironmentFile.variablesOf assignments env) env

end Environment

end JsxOrigin
