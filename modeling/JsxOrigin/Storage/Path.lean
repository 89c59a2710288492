import JsxOrigin.Text.Basic

/-!
# Paths

A path is an anchor with a list of names. Names that are empty or a single dot vanish when a path is
read; two dots stay, because what they mean depends on the file system.
-/

namespace JsxOrigin

/-- Where a path starts: nowhere in particular, or at the root. Two slashes in front, and not three,
are an anchor of their own. -/
inductive Anchor where
  | relative
  | root
  | doubleRoot
deriving DecidableEq, Inhabited

/-- The text of an anchor. -/
def Anchor.text : Anchor → Text
  | relative => []
  | root => "/"
  | doubleRoot => "//"

/-- A path. -/
structure Path where
  anchor : Anchor
  names : List Text
deriving DecidableEq, Inhabited

/-- The name that leads to the parent directory. -/
def Path.up : Text := ".."

/-- The anchor of a text. -/
def Anchor.ofText : Text → Anchor
  | .scalar '/' :: .scalar '/' :: .scalar '/' :: _ => .root
  | .scalar '/' :: .scalar '/' :: _ => .doubleRoot
  | .scalar '/' :: _ => .root
  | _ => .relative

/-- Why no file can have a path. -/
inductive PathError where
  /-- A name holds a NUL. -/
  | embeddedNul
  /-- A name holds a surrogate that does not stand for a byte. -/
  | unencodable
deriving DecidableEq

namespace Path

/-- The names between the slashes of a text. -/
def namesOf (t : Text) : List Text :=
  (Text.splitOn (.scalar '/') t).filter fun n => n ≠ [] ∧ n ≠ [.scalar '.']

/-- The path of a text. -/
def ofText (t : Text) : Path := ⟨.ofText t, namesOf t⟩

/-- The text of a path. -/
def text (p : Path) : Text :=
  if p.anchor = .relative ∧ p.names = [] then "." else p.anchor.text ++ Text.join "/" p.names

/-- Whether a path starts at the root. -/
def isAbsolute (p : Path) : Bool := p.anchor ≠ .relative

/-- The last name, or nothing. -/
def name (p : Path) : Text := p.names.getLast?.getD []

/-- A path without its last name. -/
def parent (p : Path) : Path := { p with names := p.names.dropLast }

/-- A path below another one; an absolute path stays as it is. -/
def join (p q : Path) : Path := if q.isAbsolute then q else { p with names := p.names ++ q.names }

/-- A path with one more name. -/
def child (p : Path) (name : Text) : Path := { p with names := p.names ++ [name] }

/-- A path with something added to its last name, if it has one. -/
def withExtension? (p : Path) (extension : Text) : Option Path :=
  if p.name.isEmpty then none else some (p.parent.child (p.name ++ extension))

/-- The ending of the last name from its last dot on. A dot at the start or at the end of the name
counts for nothing. -/
def suffix (p : Path) : Text :=
  let (ending, stem) := p.name.reverse.span (· ≠ .scalar '.')
  if ending.isEmpty || stem.length ≤ 1 then [] else .scalar '.' :: ending.reverse

/-- Takes one more name on a folded path: two dots lead back. -/
def foldStep (names : List Text) (name : Text) : List Text :=
  if name = up then names.dropLast else names ++ [name]

/-- Names with each pair of dots folded; above the root is the root. -/
def fold (names : List Text) : List Text := names.foldl foldStep []

/-- A path at a directory with two dots folded, whatever stands there. -/
def resolve (p directory : Path) : Path := ⟨.root, fold (directory.join p).names⟩

/-- What is left of a path below a directory. -/
def below? (p directory : Path) : Option (List Text) :=
  if p.anchor = directory.anchor ∧ directory.names.isPrefixOf p.names then
    some (p.names.drop directory.names.length)
  else none

/-- The order of names, each compared as a text. -/
def namesLe : List Text → List Text → Bool
  | [], _ => true
  | _ :: _, [] => false
  | a :: s, b :: t => if a = b then namesLe s t else Text.le a b

/-! ## Names that no file can have -/

/-- What is wrong with a name. -/
def nameError? (name : Text) : Option PathError :=
  if name.any CodePoint.isUnencodable then some .unencodable
  else if name.contains (.scalar '\x00') then some .embeddedNul
  else none

/-- What is wrong with a path that is used as a whole: that it cannot be encoded comes first. -/
def error? (p : Path) : Option PathError := nameError? p.names.flatten

/-- What is wrong with a path that is followed name by name: the first bad name decides. -/
def firstError? (p : Path) : Option PathError := p.names.findSome? nameError?

/-! ## Sizes -/

/-- The number of bytes of a name. -/
def nameSize (name : Text) : Nat := name.foldr (fun c n => c.size + n) 0

/-- The number of bytes of names that are written one after another, each after a slash. -/
def size (names : List Text) : Nat := names.foldr (fun name n => nameSize name + 1 + n) 0

/-- The number of bytes that a name can have. -/
def longestName : Nat := 255

/-- The number of bytes that a path can have. -/
def longestPath : Nat := 4095

end Path

end JsxOrigin
