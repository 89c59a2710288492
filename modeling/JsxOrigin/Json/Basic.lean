import JsxOrigin.Number.Binary64
import JsxOrigin.Table
import JsxOrigin.Text.Basic

/-!
# JSON values

JSON with exact integers apart from double precision numbers, and with objects that keep the order
of their members. Strings are texts, so a lone surrogate can occur in them.
-/

namespace JsxOrigin

/-- A JSON value. -/
inductive Json where
  | null
  | bool (b : Bool)
  | int (n : Int)
  | float (x : Binary64)
  | str (t : Text)
  | arr (items : List Json)
  | obj (members : List (Text × Json))
deriving Inhabited

namespace Json

instance : Coe Text Json := ⟨str⟩

/-- The value of a member of an object. -/
def member? (key : Text) : Json → Option Json
  | obj members => Table.get? key members
  | _ => none

/-- The text of a string. -/
def text? : Json → Option Text
  | str t => some t
  | _ => none

/-- The items of an array. -/
def items? : Json → Option (List Json)
  | arr items => some items
  | _ => none

/-- The number of an integer. -/
def int? : Json → Option Int
  | int n => some n
  | _ => none

/-- Whether a value is null. -/
def isNull : Json → Bool
  | null => true
  | _ => false

/-- Whether a value says something: null, false, zero and whatever is empty do not. -/
def isPresent : Json → Bool
  | null => false
  | bool b => b
  | int n => n != 0
  | float x => !x.isZero
  | str t => !t.isEmpty
  | arr items => !items.isEmpty
  | obj members => !members.isEmpty

/-- Whether a value can name something: arrays and objects cannot. -/
def isScalar : Json → Bool
  | arr _ => false
  | obj _ => false
  | _ => true

/-- The number of a boolean or an integer; a boolean counts as zero or one. -/
def whole? : Json → Option Int
  | bool b => some (if b then 1 else 0)
  | int n => some n
  | _ => none

/-- Whether two double precision numbers are the same value; both zeros are. -/
def sameFloat (x y : Binary64) : Bool := x == y || (x.isZero && y.isZero)

/-- Whether two numbers are the same value, whatever their form. -/
def sameNumber (a b : Json) : Bool :=
  match a.whole?, b.whole?, a, b with
  | some m, some n, _, _ => m == n
  | some m, none, _, float y => y.toInt? == some m
  | none, some n, float x, _ => x.toInt? == some n
  | none, none, float x, float y => sameFloat x y
  | _, _, _, _ => false

mutual

/-- Whether two values are the same: numbers by value, arrays item by item, and objects member by
member in any order. -/
def same : Json → Json → Bool
  | null, null => true
  | str s, str t => s == t
  | arr xs, arr ys => sameItems xs ys
  | obj xs, obj ys => xs.length == ys.length && sameMembers xs ys
  | a, b => sameNumber a b

/-- Whether two arrays hold the same items. -/
def sameItems : List Json → List Json → Bool
  | [], [] => true
  | x :: xs, y :: ys => same x y && sameItems xs ys
  | _, _ => false

/-- Whether each of some members is found in an object. -/
def sameMembers : List (Text × Json) → List (Text × Json) → Bool
  | [], _ => true
  | (k, x) :: xs, ys =>
    (match Table.get? k ys with
      | some y => same x y
      | none => false) && sameMembers xs ys

end

end Json

end JsxOrigin
