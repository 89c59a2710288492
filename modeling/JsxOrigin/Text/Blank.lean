import JsxOrigin.Text.Basic

/-!
# Blanks

White space in the wide sense: the separators of Unicode together with the controls that separate
lines, columns and records. Zero-width characters are no blanks.
-/

namespace JsxOrigin

/-- The blank code points. -/
def CodePoint.blanks : List Nat := [
  0x9, 0xA, 0xB, 0xC, 0xD, 0x1C, 0x1D, 0x1E, 0x1F, 0x20, 0x85, 0xA0, 0x1680, 0x2000, 0x2001,
  0x2002, 0x2003, 0x2004, 0x2005, 0x2006, 0x2007, 0x2008, 0x2009, 0x200A, 0x2028, 0x2029, 0x202F,
  0x205F, 0x3000]

/-- Whether a code point is blank. -/
def CodePoint.isBlank (c : CodePoint) : Bool := CodePoint.blanks.contains c.val

namespace Text

/-- A text without the blanks at its end. -/
def trimEnd (t : Text) : Text := (t.reverse.dropWhile CodePoint.isBlank).reverse

/-- A text without the blanks at either end. -/
def trim (t : Text) : Text := trimEnd (t.dropWhile CodePoint.isBlank)

/-- A text without any blank. -/
def withoutBlanks (t : Text) : Text := t.filter fun c => !c.isBlank

end Text

end JsxOrigin
