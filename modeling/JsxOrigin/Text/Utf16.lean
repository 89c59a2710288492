import JsxOrigin.Text.Basic

/-!
# UTF-16

Scripts count their strings in 16-bit units. A text is well formed when each surrogate in it stands
in a pair, the leading half directly before the trailing one; only then does joining the pairs give
a text of scalar values.
-/

namespace JsxOrigin

/-- The 16-bit units of a code point. -/
def CodePoint.units (c : CodePoint) : List Nat :=
  if c.val < 0x10000 then [c.val]
  else [0xD800 + (c.val - 0x10000) / 0x400, 0xDC00 + (c.val - 0x10000) % 0x400]

namespace Text

/-- The 16-bit units of a text. -/
def units (t : Text) : List Nat := t.flatMap CodePoint.units

/-- A text with each pair of surrogates joined into one scalar value. Surrogates that stand in no
pair are kept. -/
def joinPairs : Text → Text
  | .high h :: .low l :: rest => .ofPair h l :: joinPairs rest
  | c :: rest => c :: joinPairs rest
  | [] => []

/-- A text with its pairs of surrogates joined, if no surrogate stands alone. -/
def joined? (t : Text) : Option Text :=
  let joined := joinPairs t
  if joined.hasSurrogate then none else some joined

end Text

end JsxOrigin
