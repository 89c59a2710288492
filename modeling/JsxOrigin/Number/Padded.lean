import JsxOrigin.Text.Blank
import JsxOrigin.Text.Digit

/-!
# Padded integers

An integer on a command line may be padded: with spaces around it, a plus sign and zeros in front of
it, single underscores between its digits, and zeros after a point. `PaddedInteger.read?` takes the
padding off layer by layer, and what is left has to be the canonical form of an integer.

A sign comes before the zeros. Underscores among the zeros belong to the padding, however many there
are. A minus sign may also end the zeros, but then zeros after it are no padding.
-/

namespace JsxOrigin

namespace PaddedInteger

/-! ## Canonical integers -/

/-- The greatest number of digits. -/
def digitLimit : Nat := 4300

/-- Whether a text is the canonical form of a natural number: digits, and no zero in front of
others. -/
def isNatural : Text → Bool
  | [] => false
  | [c] => c.isDigit 10
  | c :: rest => c ≠ .scalar '0' && (c :: rest).all (CodePoint.isDigit 10)

/-- The natural number whose canonical form a text is. -/
def natural? (t : Text) : Option Nat :=
  if isNatural t && t.length ≤ digitLimit then some (Text.numeral 10 t) else none

/-- The integer whose canonical form a text is, a minus sign in front of zero allowed. -/
def canonical? : Text → Option Int
  | .scalar '-' :: digits => (natural? digits).map fun n => -(n : Int)
  | digits => (natural? digits).map Int.ofNat

/-! ## Padding -/

/-- Whether a code point is a space around a number: a blank other than the separators of
records. -/
def isSpace (c : CodePoint) : Bool := c.isBlank && !(0x1C ≤ c.val && c.val ≤ 0x1F)

/-- A text without the spaces around it. -/
def withoutSpaces (t : Text) : Text :=
  ((t.dropWhile isSpace).reverse.dropWhile isSpace).reverse

/-- Whether a number can go on with a code point after the zeros in front of it. -/
def endsZeros (c : CodePoint) : Bool :=
  (c.isDigit 10 && c ≠ .scalar '0') || c == .scalar '-'

/-- What is left after zeros and underscores, the last of which is given: the rest of the number
from its first digit or sign on. If a point follows or nothing does, the last one stays. -/
def afterZeros? (last : CodePoint) : Text → Option Text
  | [] => some [last]
  | c :: rest =>
    if c = .scalar '0' ∨ c = .scalar '_' then afterZeros? c rest
    else if endsZeros c then some (c :: rest)
    else if c = .scalar '.' then some (last :: c :: rest)
    else none

/-- A number without the zeros in front. -/
def withoutZeros? : Text → Option Text
  | [] => none
  | c :: rest =>
    if c = .scalar '0' then afterZeros? c rest
    else if endsZeros c then some (c :: rest)
    else none

/-- A number without a point and the zeros after it, of which there has to be one. -/
def withoutPlaces (t : Text) : Text :=
  let whole := t.takeWhile (· ≠ .scalar '.')
  let places := t.drop (whole.length + 1)
  if !places.isEmpty && places.all (· = .scalar '0') then whole else t

/-- A number without the underscores between its digits, if each stands alone between others. -/
def withoutUnderscores (t : Text) : Text :=
  let groups := Text.splitOn (.scalar '_') t
  if groups.all (!·.isEmpty) then groups.flatten else t

/-- A number without the padding between its sign and its end. -/
def bare? (t : Text) : Option Text := do
  let number ← withoutZeros? t
  return withoutUnderscores (withoutPlaces number)

/-- The integer that a padded text spells. -/
def read? (t : Text) : Option Int :=
  match withoutSpaces t with
  | .scalar '-' :: rest => ((bare? rest).bind natural?).map fun n => -(n : Int)
  | .scalar '+' :: .scalar '-' :: _ => none
  | .scalar '+' :: rest => (bare? rest).bind canonical?
  | rest => (bare? rest).bind canonical?

end PaddedInteger

end JsxOrigin
