/-!
# Marks

A mark tells whether something has changed: it is the time of the last change with the size. A time
is either set to a number of seconds, or it is the moment at which something was done. Moments are
numbered, so that no two of them are the same and none is a set time.
-/

namespace JsxOrigin

/-- A time of last change. -/
inductive Time where
  | seconds (n : Int)
  | moment (n : Nat)
deriving DecidableEq

/-- Whether a time can be set: the seconds have to fit into 64 bits. -/
def Time.isSettable : Time → Bool
  | seconds n => -(Nat.pow 2 63 : Int) ≤ n && n < (Nat.pow 2 63 : Int)
  | moment _ => true

/-- What a change of a file is told by. -/
structure Mark where
  changed : Time
  size : Nat
deriving DecidableEq

end JsxOrigin
