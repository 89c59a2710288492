import JsxOrigin.Storage.Path
import JsxOrigin.Text.LowerCase

/-!
# Languages

The languages whose modules can be analysed, and the file name endings by which they are told
apart, in any letter case.
-/

namespace JsxOrigin

/-- A language that modules are written in. -/
inductive Language where
  | javascript
  | typescript
  | tsx
deriving DecidableEq

namespace Language

/-- The name of a language. -/
def name : Language → Text
  | javascript => "javascript"
  | typescript => "typescript"
  | tsx => "tsx"

/-- The language of a name. -/
def ofName? (t : Text) : Option Language :=
  [javascript, typescript, tsx].find? fun l => l.name == t

/-- The languages of file name endings. -/
def endings : List (String × Language) :=
  [(".js", javascript), (".jsx", javascript), (".mjs", javascript), (".cjs", javascript),
    (".ts", typescript), (".mts", typescript), (".cts", typescript), (".tsx", tsx)]

/-- The language of a file. -/
def ofPath? (p : Path) : Option Language :=
  let ending := Text.lower p.suffix
  (endings.find? fun e => Text.ofString e.1 == ending).map Prod.snd

end Language

end JsxOrigin
