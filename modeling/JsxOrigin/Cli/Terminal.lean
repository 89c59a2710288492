import JsxOrigin.Text.LowerCase

/-!
# Terminals

Which encoding a terminal has, and plain replacements for the icons that a terminal without UTF-8
cannot show.
-/

namespace JsxOrigin

/-- What is known about a terminal. -/
structure Terminal where
  /-- The encoding of the output, if it has one. -/
  encoding : Option Text := none
  /-- The preferred encoding of the locale. -/
  localeEncoding : Text := []

namespace Terminal

/-- The encoding in small letters: that of the output, else that of the locale, else ASCII. -/
def detected (t : Terminal) : Text :=
  let output := t.encoding.getD []
  if !output.isEmpty then Text.lower output
  else if !t.localeEncoding.isEmpty then Text.lower t.localeEncoding
  else "ascii"

/-- Whether a terminal can show every character. -/
def isUtf8 (t : Terminal) : Bool :=
  let encoding := Text.replace "_" "-" t.detected
  encoding == Text.ofString "utf-8" || encoding == Text.ofString "utf8"

/-- The icons with their replacements. -/
def icons : List (String × String) :=
  [("✓", "[OK]"), ("✔", "[OK]"), ("✗", "[FAIL]"), ("⚠", "[WARN]"), ("⚡", "[!]"), ("→", "->"),
    ("←", "<-"), ("⇒", "=>"), ("…", "..."), ("•", "*"), ("│", "|"), ("─", "-")]

/-- A text with its icons replaced. -/
def plain (t : Text) : Text :=
  icons.foldl (fun t (icon, replacement) => Text.replace icon replacement t) t

/-- A text as a terminal can show it; `force` replaces icons on every terminal. -/
def display (terminal : Terminal) (force : Bool) (t : Text) : Text :=
  if !force && terminal.isUtf8 then t else plain t

/-- Whether a console on a terminal replaces icons: as it is told, else if the terminal needs it. -/
def sanitizes (terminal : Terminal) (told : Option Bool) : Bool :=
  told.getD (!terminal.isUtf8)

/-- A text as a console hands it on. -/
def printed (sanitizes : Bool) (t : Text) : Text := if sanitizes then plain t else t

end Terminal

end JsxOrigin
