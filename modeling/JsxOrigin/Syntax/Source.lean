import JsxOrigin.Syntax.Tree
import JsxOrigin.Text.Utf8

/-!
# Sources and spans

A source is the bytes of a module with the path under which it is shown. It gives the text of a
node and its span: the shown path, a colon, and the line on which the node starts. Lines count from
one and only a line feed ends a line; line zero stands for a place that is not known.
-/

namespace JsxOrigin

/-- The bytes of a module and the path under which it is shown. -/
structure Source where
  file : Text
  bytes : Bytes
deriving Inhabited

namespace Source

/-- The span of a line of a file. -/
def spanAt (file : Text) (line : Nat) : Text := file ++ ":" ++ Text.ofNat line

/-- The line of an offset. -/
def line (s : Source) (offset : Nat) : Nat := (s.bytes.take offset).count 0x0A + 1

/-- The text of a node. -/
def text (s : Source) (t : Tree) : Text :=
  Utf8.decode ((s.bytes.drop t.start).take (t.stop - t.start))

/-- The span of a node; that of a missing one has line zero. -/
def span (s : Source) : Option Tree → Text
  | some t => spanAt s.file (s.line t.start)
  | none => spanAt s.file 0

end Source

end JsxOrigin
