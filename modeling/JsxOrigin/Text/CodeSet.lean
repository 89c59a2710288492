import JsxOrigin.Text.CodePoint

/-!
# Sets of code points

A property of code points is given by the places where it changes, in increasing order: the first
number starts the first run of members, the second one ends it, and so on. A number is a member
when an odd count of these places lies at or below it.
-/

namespace JsxOrigin

/-- A set of code points, by the numbers at which membership changes. -/
structure CodeSet where
  changes : List Nat

namespace CodeSet

/-- Whether a number belongs to the set. -/
def mem (s : CodeSet) (n : Nat) : Bool := (s.changes.takeWhile (· ≤ n)).length % 2 == 1

/-- Whether a code point belongs to the set. -/
def holds (s : CodeSet) (c : CodePoint) : Bool := s.mem c.val

end CodeSet

end JsxOrigin
