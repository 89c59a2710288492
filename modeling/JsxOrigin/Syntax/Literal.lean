import JsxOrigin.Number.Literal
import JsxOrigin.Syntax.Source
import JsxOrigin.Text.Digit
import JsxOrigin.Text.Utf16

/-!
# Literals

What string literals and property keys denote. An escape is a backslash followed by one of the
forms below, tried in this order: a code point in braces, four hexadecimal digits after `u`, two
after `x`, a carriage return with a line feed, and any single code point. Escaped line ends vanish,
and an escape without a meaning of its own stands for the escaped code point.

The pairs of surrogates in a decoded literal are joined only when no surrogate is left alone.
-/

namespace JsxOrigin

/-! ## Escapes -/

namespace Escape

/-- What a single code point after a backslash stands for. -/
def single : CodePoint → Text
  | .scalar 'n' => [.scalar '\n']
  | .scalar 't' => [.scalar '\t']
  | .scalar 'r' => [.scalar '\r']
  | .scalar 'b' => [.scalar '\x08']
  | .scalar 'f' => [.scalar '\x0c']
  | .scalar 'v' => [.scalar '\x0b']
  | .scalar '0' => [.scalar '\x00']
  | c => if [0xA, 0xD, 0x2028, 0x2029].contains c.val then [] else [c]

/-- The hexadecimal digits after an opening brace, if there are some and a brace closes them. -/
def braced? : Text → Option Text
  | .scalar '{' :: rest =>
    let digits := rest.takeWhile (CodePoint.isDigit 16)
    match rest.drop digits.length with
    | .scalar '}' :: _ => if digits.isEmpty then none else some digits
    | _ => none
  | _ => none

/-- The first `count` code points, if they are hexadecimal digits. -/
def hexadecimal? (count : Nat) (t : Text) : Option Text :=
  let digits := t.take count
  if digits.length = count ∧ digits.all (CodePoint.isDigit 16) then some digits else none

/-- The code point of a numeral, or the escape as it is written if there is none. -/
def numbered (written digits : Text) : Text :=
  match CodePoint.ofNat? (Text.numeral 16 digits) with
  | some c => [c]
  | none => written

/-- Reads the escape after a backslash: what it stands for, and how many code points it takes. -/
def read : Text → Text × Nat
  | .scalar 'u' :: rest =>
    match braced? rest, hexadecimal? 4 rest with
    | some digits, _ => (numbered ("\\u\x7b" ++ digits ++ "\x7d") digits, digits.length + 3)
    | none, some digits => (numbered ("\\u" ++ digits) digits, 5)
    | none, none => (single 'u', 1)
  | .scalar 'x' :: rest =>
    match hexadecimal? 2 rest with
    | some digits => (numbered ("\\x" ++ digits) digits, 3)
    | none => (single 'x', 1)
  | .scalar '\r' :: .scalar '\n' :: _ => ([], 2)
  | c :: _ => (single c, 1)
  | [] => ("\\", 0)

/-- A text with its escapes replaced by what they stand for. A backslash at the end stays. -/
def expand : Text → Text
  | [] => []
  | c :: rest =>
    if c = .scalar '\\' then
      let (meaning, length) := read rest
      meaning ++ expand (rest.drop length)
    else c :: expand rest
termination_by t => t.length
decreasing_by all_goals simp only [List.length_drop, List.length_cons]; omega

/-- A text with its escapes decoded and its surrogates joined where that leaves none. -/
def decode (t : Text) : Text :=
  if t.contains (.scalar '\\') then
    let expanded := expand t
    (Text.joined? expanded).getD expanded
  else t

end Escape

/-! ## Strings and keys -/

/-- A text without the quotes around it, which have to be alike. -/
def Text.withoutQuotes (t : Text) : Text :=
  match t with
  | first :: rest =>
    let isQuote := first == .scalar '"' || first == .scalar '\x27'
    if isQuote && !rest.isEmpty && rest.getLast? == some first then rest.dropLast else t
  | [] => t

/-- The value of a string literal. -/
def Text.stringValue (literal : Text) : Text := Escape.decode (Text.withoutQuotes literal)

namespace Source

/-- The value of a string literal. -/
def stringValue (s : Source) (t : Tree) : Text := Text.stringValue (s.text t)

/-- The key that a number literal stands for. -/
def numberKey (s : Source) (t : Tree) : Text := NumberLiteral.key (s.text t)

/-- The key of a node that stands where an object literal has its keys; computed keys have none. -/
def propertyKey? (s : Source) (t : Tree) : Option Text :=
  match t.kind with
  | .propertyIdentifier | .identifier | .shorthandProperty => some (s.text t)
  | .string => some (s.stringValue t)
  | .number => some (s.numberKey t)
  | _ => none

/-- The name under which something is exported: an identifier or a string literal. -/
def exportName (s : Source) (t : Tree) : Text :=
  if t.kind = .string then s.stringValue t else s.text t

end Source

end JsxOrigin
