import JsxOrigin.Number.Shortest
import JsxOrigin.Text.Blank
import JsxOrigin.Text.Digit
import JsxOrigin.Text.LowerCase

/-!
# Number literals

A number literal is known by the key that it spells: `0x10`, `1_6`, `16.0` and `16` are all the key
`16`. Integers with a base prefix are exact; every other literal is read as a double precision
number, and an integral one below 10^21 is written as an integer. What cannot be read stands for
itself, without its underscores.
-/

namespace JsxOrigin

namespace NumberLiteral

/-- Blanks that may surround a number in an ASCII text. -/
def isOuterBlank (c : CodePoint) : Bool :=
  [0x9, 0xA, 0xB, 0xC, 0xD, 0x20].contains c.val

/-- Writes the digits and blanks of other scripts in ASCII. There is no result if any other
code point is left that is not in ASCII. -/
def toAscii? (t : Text) : Option Text :=
  t.mapM fun c =>
    if c.val < 0x80 then some c
    else if c.isBlank then some (.scalar ' ')
    else c.decimal?.bind fun d => CodePoint.ofNat? (0x30 + d)

/-- The base that a literal's prefix names. -/
def base? : Text → Option Nat
  | .scalar '0' :: .scalar c :: _ =>
    if c = 'x' ∨ c = 'X' then some 16
    else if c = 'o' ∨ c = 'O' then some 8
    else if c = 'b' ∨ c = 'B' then some 2
    else none
  | _ => none

/-- The greatest number of digits that an integer may be written with. -/
def digitLimit : Nat := 4300

/-- The integer that digits of a base spell; blanks may follow them. -/
def integer? (base : Nat) (t : Text) : Option Nat :=
  let digits := t.takeWhile (CodePoint.isDigit base)
  let rest := t.drop digits.length
  if digits.isEmpty || !rest.all isOuterBlank then none else some (Text.numeral base digits)

/-- The exponent part of a decimal number: nothing at all, or `e`, a sign and digits. -/
def exponent? : Text → Option Int
  | [] => some 0
  | .scalar c :: rest =>
    if c ≠ 'e' ∧ c ≠ 'E' then none
    else
      let (negative, digits) : Bool × Text :=
        match rest with
        | .scalar '-' :: r => (true, r)
        | .scalar '+' :: r => (false, r)
        | r => (false, r)
      if digits.isEmpty || !digits.all (CodePoint.isDigit 10) then none
      else
        let n := Text.numeral 10 digits
        some (if negative then -n else n)
  | _ => none

/-- The digits of a decimal number without sign, as an integer and the number of its places after
the point, and what follows them. There has to be a digit on some side of the point. -/
def significand? (t : Text) : Option (Nat × Nat × Text) :=
  let whole := t.takeWhile (CodePoint.isDigit 10)
  let rest := t.drop whole.length
  let (places, rest) : Text × Text :=
    match rest with
    | .scalar '.' :: r =>
      let places := r.takeWhile (CodePoint.isDigit 10)
      (places, r.drop places.length)
    | r => ([], r)
  if whole.isEmpty && places.isEmpty then none
  else some (Text.numeral 10 (whole ++ places), places.length, rest)

/-- A number without sign: a word for infinity or for no number, or a decimal number. -/
def unsigned? (negative : Bool) (t : Text) : Option Binary64 :=
  let word := t.lower
  if word = "inf" ∨ word = "infinity" then some (.infinite negative)
  else if word = "nan" then some .nan
  else do
    let (digits, places, rest) ← significand? t
    let exponent ← exponent? rest
    pure (.ofDecimal negative digits (exponent - places))

/-- The double precision number that a text spells, blanks around it aside. -/
def float? (t : Text) : Option Binary64 := do
  let ascii ← toAscii? t
  let inner := ((ascii.dropWhile isOuterBlank).reverse.dropWhile isOuterBlank).reverse
  match inner with
  | .scalar '-' :: r => unsigned? true r
  | .scalar '+' :: r => unsigned? false r
  | r => unsigned? false r

/-- The text of a number as a key: an integer below 10^21 has no point and no exponent. -/
def floatKey (x : Binary64) : Text :=
  match x.toInt? with
  | some n => if n.natAbs < Nat.pow 10 21 then Text.ofInt n else x.toText
  | none => x.toText

/-- The key that a number literal spells. -/
def key (literal : Text) : Text :=
  let t := literal.filter (· ≠ .scalar '_')
  match base? t with
  | some base =>
    match (toAscii? (t.drop 2)).bind (integer? base) with
    | some n =>
      let digits := Text.ofNat n
      if digits.length ≤ digitLimit then digits else t
    | none => t
  | none => ((float? t).map floatKey).getD t

end NumberLiteral

end JsxOrigin
