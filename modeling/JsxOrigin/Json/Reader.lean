import JsxOrigin.Json.Basic
import JsxOrigin.Number.Literal
import JsxOrigin.Text.Digit
import JsxOrigin.Text.Utf16

/-!
# Reading JSON

A reader takes a text and gives a value with the rest of the text. Besides the JSON grammar it
takes the words `NaN`, `Infinity` and `-Infinity`. An object keeps the first place and the last
value of a member that occurs twice. An integer with too many digits and a value with too many
others around it are refused apart from everything malformed, because callers forgive only the
latter.
-/

namespace JsxOrigin

namespace Json

/-- Why a text was not read. -/
inductive ReadError where
  /-- The text is no JSON. -/
  | malformed
  /-- An integer has too many digits. -/
  | integerTooLong
  /-- A value stands in too many arrays and objects. -/
  | tooDeep
deriving DecidableEq

namespace Reader

/-- What a reader gives: a value and the rest of the text. -/
abbrev Result (α : Type) := Except ReadError (α × Text)

/-- White space between tokens. -/
def isSpace (c : CodePoint) : Bool := [0x20, 0x9, 0xA, 0xD].contains c.val

/-- A text without the white space in front. -/
def skipSpace (t : Text) : Text := t.dropWhile isSpace

/-- The code point that four hexadecimal digits name. -/
def hex4? (a b c d : CodePoint) : Option CodePoint :=
  if [a, b, c, d].all (CodePoint.isDigit 16) then CodePoint.ofNat? (Text.numeral 16 [a, b, c, d])
  else none

/-- The code point that a letter after a backslash stands for. -/
def simpleEscape? : CodePoint → Option CodePoint
  | .scalar '"' => some '"'
  | .scalar '\\' => some '\\'
  | .scalar '/' => some '/'
  | .scalar 'b' => some '\x08'
  | .scalar 'f' => some '\x0c'
  | .scalar 'n' => some '\n'
  | .scalar 'r' => some '\r'
  | .scalar 't' => some '\t'
  | _ => none

/-- The code points of a string up to its closing quote, surrogates not yet joined. -/
def stringBody : Text → Result Text
  | [] => .error .malformed
  | .scalar '"' :: rest => .ok ([], rest)
  | .scalar '\\' :: .scalar 'u' :: a :: b :: c :: d :: rest =>
    match hex4? a b c d with
    | none => .error .malformed
    | some p => (stringBody rest).map fun (t, r) => (p :: t, r)
  | .scalar '\\' :: e :: rest =>
    match simpleEscape? e with
    | none => .error .malformed
    | some p => (stringBody rest).map fun (t, r) => (p :: t, r)
  | c :: rest =>
    if c.val < 0x20 ∨ c = .scalar '\\' then .error .malformed
    else (stringBody rest).map fun (t, r) => (c :: t, r)

/-- A string after its opening quote. -/
def string (t : Text) : Result Text :=
  (stringBody t).map fun (body, rest) => (Text.joinPairs body, rest)

/-- The digits in front of a text, and the rest. -/
def digits (t : Text) : Text × Text := t.span (CodePoint.isDigit 10)

/-- The digits of an integer: a single zero, or digits that do not start with zero. -/
def wholePart : Text → Option (Text × Text)
  | .scalar '0' :: rest => some ([.scalar '0'], rest)
  | t =>
    let (ds, rest) := digits t
    if ds.isEmpty then none else some (ds, rest)

/-- The digits after a point; none if no digit follows it. -/
def places : Text → Text × Text
  | .scalar '.' :: rest =>
    let (ds, r) := digits rest
    if ds.isEmpty then ([], .scalar '.' :: rest) else (ds, r)
  | t => ([], t)

/-- An exponent part; nothing if no digit follows its mark. -/
def exponent : Text → Option Int × Text
  | .scalar c :: rest =>
    if c = 'e' ∨ c = 'E' then
      let (negative, body) : Bool × Text :=
        match rest with
        | .scalar '-' :: r => (true, r)
        | .scalar '+' :: r => (false, r)
        | r => (false, r)
      let (ds, r) := digits body
      if ds.isEmpty then (none, .scalar c :: rest)
      else
        let n : Int := Text.numeral 10 ds
        (some (if negative then -n else n), r)
    else (none, .scalar c :: rest)
  | t => (none, t)

/-- A number after its sign. -/
def number (negative : Bool) (t : Text) : Result Json :=
  match wholePart t with
  | none => .error .malformed
  | some (whole, rest) =>
    let (fraction, rest) := places rest
    let (power, rest) := exponent rest
    if fraction.isEmpty && power.isNone then
      if NumberLiteral.digitLimit < whole.length then .error .integerTooLong
      else
        let n : Int := Text.numeral 10 whole
        .ok (.int (if negative then -n else n), rest)
    else
      let scale := power.getD 0 - fraction.length
      .ok (.float (.ofDecimal negative (Text.numeral 10 (whole ++ fraction)) scale), rest)

/-- The words that stand for a value. -/
def words : List (String × Json) :=
  [("null", .null), ("true", .bool true), ("false", .bool false), ("NaN", .float .nan),
    ("Infinity", .float (.infinite false)), ("-Infinity", .float (.infinite true))]

/-- A value that is neither a string, nor an array, nor an object. -/
def plain (t : Text) : Result Json :=
  match words.find? fun w => Text.startsWith t w.1 with
  | some (w, v) => .ok (v, t.drop w.length)
  | none =>
    match t with
    | .scalar '-' :: rest => number true rest
    | _ => number false t

/-- How many arrays and objects may stand inside each other. -/
def depthLimit : Nat := 9995

mutual

/-- A value at the front of a text, with at most `room` arrays and objects inside each other. -/
def value : Nat → Nat → Text → Result Json
  | 0, _, _ => .error .malformed
  | fuel + 1, room, t =>
    match t, room with
    | .scalar '"' :: rest, _ => (string rest).map fun (s, r) => (.str s, r)
    | .scalar '[' :: _, 0 => .error .tooDeep
    | .scalar '{' :: _, 0 => .error .tooDeep
    | .scalar '[' :: rest, room + 1 =>
      match skipSpace rest with
      | .scalar ']' :: r => .ok (.arr [], r)
      | r => (items fuel room r).map fun (xs, r) => (.arr xs, r)
    | .scalar '{' :: rest, room + 1 =>
      match skipSpace rest with
      | .scalar '}' :: r => .ok (.obj [], r)
      | r => (members fuel room r).map fun (ms, r) => (.obj (Table.ofList ms), r)
    | t, _ => plain t

/-- The items of an array from its first item on. -/
def items : Nat → Nat → Text → Except ReadError (List Json × Text)
  | 0, _, _ => .error .malformed
  | fuel + 1, room, t => do
    let (x, rest) ← value fuel room t
    match skipSpace rest with
    | .scalar ']' :: r => .ok ([x], r)
    | .scalar ',' :: r =>
      let (xs, r) ← items fuel room (skipSpace r)
      .ok (x :: xs, r)
    | _ => .error .malformed

/-- The members of an object from its first member on. -/
def members : Nat → Nat → Text → Except ReadError (List (Text × Json) × Text)
  | 0, _, _ => .error .malformed
  | fuel + 1, room, t =>
    match t with
    | .scalar '"' :: rest => do
      let (key, rest) ← string rest
      match skipSpace rest with
      | .scalar ':' :: r =>
        let (v, rest) ← value fuel room (skipSpace r)
        match skipSpace rest with
        | .scalar '}' :: r => .ok ([(key, v)], r)
        | .scalar ',' :: r =>
          let (ms, r) ← members fuel room (skipSpace r)
          .ok ((key, v) :: ms, r)
        | _ => .error .malformed
      | _ => .error .malformed
    | _ => .error .malformed

end

end Reader

/-- The JSON value that a text spells. -/
def parse (t : Text) : Except ReadError Json :=
  match Reader.value (2 * t.length + 2) Reader.depthLimit (Reader.skipSpace t) with
  | .error e => .error e
  | .ok (j, rest) => if (Reader.skipSpace rest).isEmpty then .ok j else .error .malformed

end Json

end JsxOrigin
