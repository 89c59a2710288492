import JsxOrigin.Text.Basic
import JsxOrigin.Text.Utf8

/-!
# Lines

A text file may end its lines with a line feed, a carriage return, or both. It is read with a line
feed in place of each.
-/

namespace JsxOrigin

namespace Text

/-- A text with a line feed at the end of each line. -/
def unifyLines : Text → Text
  | .scalar '\r' :: .scalar '\n' :: rest => .scalar '\n' :: unifyLines rest
  | .scalar '\r' :: rest => .scalar '\n' :: unifyLines rest
  | c :: rest => c :: unifyLines rest
  | [] => []

/-- The text of a file, or what is malformed in its bytes. -/
def ofFile (bytes : Bytes) : Except Utf8.Malformed Text := (Utf8.text bytes).map unifyLines

/-- The text of a file, if its bytes are UTF-8. -/
def ofFile? (bytes : Bytes) : Option Text := (ofFile bytes).toOption

end Text

end JsxOrigin
