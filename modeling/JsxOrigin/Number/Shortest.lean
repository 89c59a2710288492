import JsxOrigin.Number.Binary64
import JsxOrigin.Text.Basic

/-!
# The shortest decimal form

A double precision number is written with the fewest decimal digits that read back as the same
number. For each count of digits the two decimal numbers around the value are tried; the first
count that has a hit wins, and of two hits the nearer one, or the even one if they are equally near.
-/

namespace JsxOrigin

/-- A decimal number: `digits * 10 ^ exponent`. -/
structure Decimal where
  digits : Nat
  exponent : Int
deriving DecidableEq, Inhabited

namespace Decimal

/-- The same number without zeros at the end of its digits. -/
def trim (d : Decimal) : Decimal :=
  if d.digits ≠ 0 ∧ d.digits % 10 = 0 then trim ⟨d.digits / 10, d.exponent + 1⟩ else d
termination_by d.digits
decreasing_by omega

/-- The `k` with `10 ^ (k - 1) ≤ n / d < 10 ^ k`, for positive `n` and `d`. -/
def magnitude (n d : Nat) : Int :=
  if d ≤ n then (Nat.toDigits 10 (n / d)).length
  else
    let zeros := (Nat.toDigits 10 (d / n)).length - 1
    if d ≤ n * Nat.pow 10 zeros then 1 - zeros else -zeros

/-- The decimal number with `count` digits nearest to a positive number that reads back as it. -/
def withDigits? (mantissa : Nat) (exponent : Int) (count : Nat) : Option Decimal :=
  let (n, d) := Binary64.ratio mantissa exponent
  let unit := magnitude n d - count
  let (n, d) := (n * Nat.pow 10 (-unit).toNat, d * Nat.pow 10 unit.toNat)
  let below := n / d
  let readsBack (digits : Nat) : Bool :=
    Binary64.ofDecimal false digits unit = .finite false mantissa exponent
  let downFirst : Bool := 2 * (n % d) < d || (2 * (n % d) == d && below % 2 == 0)
  let candidates := if downFirst then [below, below + 1] else [below + 1, below]
  (candidates.find? readsBack).map (⟨·, unit⟩)

/-- The shortest decimal form of a positive number; seventeen digits always suffice. -/
def shortest (mantissa : Nat) (exponent : Int) : Decimal :=
  (((List.range 17).findSome? fun i => withDigits? mantissa exponent (i + 1)).getD ⟨0, 0⟩).trim

end Decimal

/-- How a number is laid out as text: the decimal exponents that are written without exponent part,
and the least number of digits of an exponent part. -/
structure NumberLayout where
  leastPositional : Int
  greatestPositional : Int
  exponentWidth : Nat

namespace NumberLayout

/-- The layout of all numbers in answers: from 10^-4 up to below 10^16 without exponent, an exponent
with a sign and at least two digits. -/
def standard : NumberLayout := ⟨-4, 15, 2⟩

/-- An exponent with its sign, filled up with zeros. -/
def exponentPart (layout : NumberLayout) (e : Int) : Text :=
  let digits := Text.ofNat e.natAbs
  let sign : Text := if e < 0 then "e-" else "e+"
  sign ++ List.replicate (layout.exponentWidth - digits.length) (.scalar '0') ++ digits

/-- The text of a positive decimal number. A number without exponent part has at least one digit on
either side of the point. -/
def positive (layout : NumberLayout) (d : Decimal) : Text :=
  let ds := Text.ofNat d.digits
  let zeros (n : Nat) : Text := List.replicate n (.scalar '0')
  let point : Int := ds.length + d.exponent
  let exponent := point - 1
  if layout.leastPositional ≤ exponent ∧ exponent ≤ layout.greatestPositional then
    if point ≤ 0 then "0." ++ zeros (-point).toNat ++ ds
    else if (ds.length : Int) ≤ point then ds ++ zeros (point - ds.length).toNat ++ ".0"
    else ds.take point.toNat ++ "." ++ ds.drop point.toNat
  else
    let fraction : Text := if ds.length = 1 then [] else "." ++ ds.drop 1
    ds.take 1 ++ fraction ++ layout.exponentPart exponent

end NumberLayout

/-- The text of a double precision number. -/
def Binary64.toText : Binary64 → Text
  | .nan => "nan"
  | .infinite negative => if negative then "-inf" else "inf"
  | .finite negative m e =>
    let sign : Text := if negative then "-" else ""
    let digits : Text :=
      if m = 0 then "0.0" else NumberLayout.standard.positive (Decimal.shortest m e)
    sign ++ digits

end JsxOrigin
