import JsxOrigin.Text.Blank

/-!
# From tolerant JSON to JSON

Configuration files may hold comments and a comma after the last item. Two passes over the text take
these out and leave every string literal alone: first the comments, then the commas. A quote that no
other quote closes is no string literal and is passed by.
-/

namespace JsxOrigin

namespace Tsconfig

/-- The length of the rest of a string literal after its opening quote, the closing quote included.
A backslash takes the next code point with it, which may be a line feed only if `lineFeeds` is
set. -/
def literalRest? (lineFeeds : Bool) : Text → Option Nat
  | [] => none
  | .scalar '"' :: _ => some 1
  | .scalar '\\' :: c :: rest =>
    if c = .scalar '\n' ∧ !lineFeeds then none else (literalRest? lineFeeds rest).map (· + 2)
  | .scalar '\\' :: [] => none
  | _ :: rest => (literalRest? lineFeeds rest).map (· + 1)

/-- The length of the rest of a comment between stars, after its opening. -/
def blockRest? : Text → Option Nat
  | [] => none
  | .scalar '*' :: .scalar '/' :: _ => some 2
  | _ :: rest => (blockRest? rest).map (· + 1)

/-- The length of the rest of a comment after its first slash. -/
def commentRest? : Text → Option Nat
  | .scalar '/' :: rest => some (1 + (rest.takeWhile (· ≠ .scalar '\n')).length)
  | .scalar '*' :: rest => (blockRest? rest).map (· + 1)
  | _ => none

/-- A text without its comments. -/
def withoutComments : Text → Text
  | [] => []
  | c :: rest =>
    if c = .scalar '"' then
      let length := (literalRest? true rest).getD 0
      c :: (rest.take length ++ withoutComments (rest.drop length))
    else if c = .scalar '/' then
      match commentRest? rest with
      | some length => withoutComments (rest.drop length)
      | none => c :: withoutComments rest
    else c :: withoutComments rest
termination_by t => t.length
decreasing_by all_goals simp only [List.length_drop, List.length_cons]; omega

/-- The length of blanks with a closing bracket after them. -/
def closing? (t : Text) : Option Nat :=
  let blanks := (t.takeWhile CodePoint.isBlank).length
  match t.drop blanks with
  | .scalar '}' :: _ => some (blanks + 1)
  | .scalar ']' :: _ => some (blanks + 1)
  | _ => none

/-- A text without the commas that only blanks separate from a closing bracket. -/
def withoutTrailingCommas : Text → Text
  | [] => []
  | c :: rest =>
    if c = .scalar '"' then
      let length := (literalRest? false rest).getD 0
      c :: (rest.take length ++ withoutTrailingCommas (rest.drop length))
    else if c = .scalar ',' then
      match closing? rest with
      | some length => rest.take length ++ withoutTrailingCommas (rest.drop length)
      | none => c :: withoutTrailingCommas rest
    else c :: withoutTrailingCommas rest
termination_by t => t.length
decreasing_by all_goals simp only [List.length_drop, List.length_cons]; omega

/-- The JSON text of a configuration file. -/
def clean (t : Text) : Text := withoutTrailingCommas (withoutComments t)

end Tsconfig

end JsxOrigin
