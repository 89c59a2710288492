/-!
# Binary64 numbers

Double precision numbers as exact values: a sign, a mantissa below 2^53 and an exponent of two. A
quotient is rounded to the nearest such number, and to the one with an even mantissa when two are
equally near. Everything is integer arithmetic, so what a literal denotes can be computed and
reasoned about.
-/

namespace JsxOrigin

/-- A double precision number. -/
inductive Binary64 where
  | nan
  | infinite (negative : Bool)
  /-- The number `mantissa * 2 ^ exponent`, with its sign. -/
  | finite (negative : Bool) (mantissa : Nat) (exponent : Int)
deriving DecidableEq, Inhabited

namespace Binary64

/-- The least exponent of a double precision number. -/
def leastExponent : Int := -1074

/-- The greatest exponent of a double precision number. -/
def greatestExponent : Int := 971

/-- A quotient of natural numbers, rounded to the nearest one; a half goes to the even one. -/
def divNearest (n d : Nat) : Nat :=
  let q := n / d
  let r := n % d
  if 2 * r < d ∨ (2 * r = d ∧ q % 2 = 0) then q else q + 1

/-- The greatest `k` with `2 ^ k ≤ n / d`, for positive `n` and `d`. -/
def quotientLog2 (n d : Nat) : Int :=
  let k : Int := (n.log2 : Int) - (d.log2 : Int)
  if d * Nat.pow 2 k.toNat ≤ n * Nat.pow 2 (-k).toNat then k else k - 1

/-- The double precision number nearest to `n / d`, for positive `d`. -/
def ofRatio (negative : Bool) (n d : Nat) : Binary64 :=
  if n = 0 then .finite negative 0 leastExponent
  else
    let e := max leastExponent (quotientLog2 n d - 52)
    let m := divNearest (n * Nat.pow 2 (-e).toNat) (d * Nat.pow 2 e.toNat)
    let (m, e) := if m = Nat.pow 2 53 then (Nat.pow 2 52, e + 1) else (m, e)
    if greatestExponent < e then .infinite negative else .finite negative m e

/-- The double precision number nearest to `digits * 10 ^ exponent`. Numbers that are far out of
range are told by their size, before any power of ten is computed. -/
def ofDecimal (negative : Bool) (digits : Nat) (exponent : Int) : Binary64 :=
  let size : Int := (Nat.toDigits 10 digits).length + exponent
  if digits = 0 ∨ size < -400 then .finite negative 0 leastExponent
  else if 400 < size then .infinite negative
  else ofRatio negative (digits * Nat.pow 10 exponent.toNat) (Nat.pow 10 (-exponent).toNat)

/-- The absolute value as a quotient, of a finite number. -/
def ratio (mantissa : Nat) (exponent : Int) : Nat × Nat :=
  (mantissa * Nat.pow 2 exponent.toNat, Nat.pow 2 (-exponent).toNat)

/-- The integer that a number is equal to, if it is one. -/
def toInt? : Binary64 → Option Int
  | finite negative m e =>
    let (n, d) := ratio m e
    if n % d = 0 then some (if negative then -(n / d : Nat) else (n / d : Nat)) else none
  | _ => none

/-- Whether a number is equal to zero, with either sign. -/
def isZero : Binary64 → Bool
  | finite _ 0 _ => true
  | _ => false

/-- One more than a number, rounded. -/
def succ : Binary64 → Binary64
  | finite negative m e =>
    let (n, d) := ratio m e
    if !negative then ofRatio false (n + d) d
    else if d ≤ n then ofRatio (d != n) (n - d) d
    else ofRatio false (d - n) d
  | x => x

end Binary64

end JsxOrigin
