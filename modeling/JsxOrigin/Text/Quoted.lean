import JsxOrigin.Text.Basic
import JsxOrigin.Text.Printable

/-!
# Quoted texts

How a text is quoted inside a message. Apostrophes are the usual quotes; a text that holds an
apostrophe and no double quote is put in double quotes. The quote in use and the backslash are
escaped, and so is every code point that is not printable.
-/

namespace JsxOrigin

/-- Hexadecimal digits in lower case, padded with zeros to a width. -/
def Text.hexadecimal (width n : Nat) : Text :=
  let digits := Nat.toDigits 16 n
  (List.replicate (width - digits.length) '0' ++ digits).map .scalar

/-- How a code point is written between quotes. -/
def CodePoint.quoted (quote : Char) (c : CodePoint) : Text :=
  if c = .scalar quote ∨ c = .scalar '\\' then [.scalar '\\', c]
  else if c = .scalar '\t' then "\\t"
  else if c = .scalar '\n' then "\\n"
  else if c = .scalar '\r' then "\\r"
  else if c.isPrintable then [c]
  else if c.val < 0x100 then "\\x" ++ Text.hexadecimal 2 c.val
  else if c.val < 0x10000 then "\\u" ++ Text.hexadecimal 4 c.val
  else "\\U" ++ Text.hexadecimal 8 c.val

/-- The quote that a text is put in. -/
def Text.quoteFor (t : Text) : Char :=
  if t.contains (.scalar '\'') && !t.contains (.scalar '"') then '"' else '\''

/-- A text in quotes. -/
def Text.quoted (t : Text) : Text :=
  let quote := t.quoteFor
  .scalar quote :: t.flatMap (CodePoint.quoted quote) ++ [.scalar quote]

/-- A list of texts in quotes, in brackets. -/
def Text.quotedList (ts : List Text) : Text :=
  "[" ++ Text.join ", " (ts.map Text.quoted) ++ "]"

end JsxOrigin
