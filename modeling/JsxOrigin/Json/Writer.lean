import JsxOrigin.Json.Basic
import JsxOrigin.Number.Shortest
import JsxOrigin.Text.Quoted
import JsxOrigin.Text.Utf16

/-!
# Writing JSON

Two layouts: on one line, with a blank after each comma and colon, and on several lines with an
indent of two. The text is in ASCII: every other code point is written by its 16-bit units, so a
pair of surrogates and the scalar value that it stands for have the same written form.
-/

namespace JsxOrigin

namespace Json

namespace Writer

/-- How a code point is written inside a string. -/
def codePoint (c : CodePoint) : Text :=
  match c with
  | .scalar '"' => "\\\""
  | .scalar '\\' => "\\\\"
  | .scalar '\n' => "\\n"
  | .scalar '\r' => "\\r"
  | .scalar '\t' => "\\t"
  | .scalar '\x08' => "\\b"
  | .scalar '\x0c' => "\\f"
  | c =>
    if 0x20 ≤ c.val ∧ c.val < 0x7F then [c]
    else c.units.flatMap fun u => "\\u" ++ Text.hexadecimal 4 u

/-- A string with its quotes. -/
def string (t : Text) : Text := "\"" ++ t.flatMap codePoint ++ "\""

/-- A double precision number. -/
def float : Binary64 → Text
  | .nan => "NaN"
  | .infinite negative => if negative then "-Infinity" else "Infinity"
  | x => x.toText

/-- A value that is neither an array nor an object. -/
def plain : Json → Text
  | .null => "null"
  | .bool b => if b then "true" else "false"
  | .int n => Text.ofInt n
  | .float x => float x
  | .str t => string t
  | _ => []

end Writer

mutual

/-- A value on one line. -/
def render : Json → Text
  | arr items => "[" ++ renderItems items ++ "]"
  | obj members => "\x7b" ++ renderMembers members ++ "\x7d"
  | j => Writer.plain j

/-- The items of an array on one line. -/
def renderItems : List Json → Text
  | [] => []
  | [j] => render j
  | j :: rest => render j ++ ", " ++ renderItems rest

/-- The members of an object on one line. -/
def renderMembers : List (Text × Json) → Text
  | [] => []
  | [(k, j)] => Writer.string k ++ ": " ++ render j
  | (k, j) :: rest => Writer.string k ++ ": " ++ render j ++ ", " ++ renderMembers rest

end

/-- A new line with an indent. -/
def Writer.newLine (indent : Nat) : Text := .scalar '\n' :: List.replicate indent (.scalar ' ')

mutual

/-- A value on several lines, the first of which is already indented. -/
def renderIndented (indent : Nat) : Json → Text
  | arr [] => "[]"
  | obj [] => "\x7b\x7d"
  | arr items =>
    "[" ++ indentedItems (indent + 2) items ++ Writer.newLine indent ++ "]"
  | obj members =>
    "\x7b" ++ indentedMembers (indent + 2) members ++ Writer.newLine indent ++ "\x7d"
  | j => Writer.plain j

/-- The items of an array, one a line. -/
def indentedItems (indent : Nat) : List Json → Text
  | [] => []
  | [j] => Writer.newLine indent ++ renderIndented indent j
  | j :: rest =>
    Writer.newLine indent ++ renderIndented indent j ++ "," ++ indentedItems indent rest

/-- The members of an object, one a line. -/
def indentedMembers (indent : Nat) : List (Text × Json) → Text
  | [] => []
  | [(k, j)] => Writer.newLine indent ++ Writer.string k ++ ": " ++ renderIndented indent j
  | (k, j) :: rest =>
    Writer.newLine indent ++ Writer.string k ++ ": " ++ renderIndented indent j ++ "," ++
      indentedMembers indent rest

end

/-- A value on several lines. -/
def pretty (j : Json) : Text := renderIndented 0 j

end Json

end JsxOrigin
