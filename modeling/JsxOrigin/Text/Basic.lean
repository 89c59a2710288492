import JsxOrigin.Text.CodePoint

/-!
# Texts

A text is a list of code points. This module holds the operations that the rest of the library
needs on texts: reading and writing decimal numbers, prefixes, cutting and joining, replacing, and
the order by code point in which every sorted answer is given.
-/

namespace JsxOrigin

/-- A text: a sequence of code points. -/
abbrev Text := List CodePoint

namespace Text

/-- The text of a string. -/
def ofString (s : String) : Text := s.toList.map .scalar

instance : Coe String Text := ⟨ofString⟩

/-- The decimal digits of a natural number. -/
def ofNat (n : Nat) : Text := (Nat.toDigits 10 n).map .scalar

/-- The decimal form of an integer, with a sign if it is negative. -/
def ofInt : Int → Text
  | .ofNat n => ofNat n
  | .negSucc n => .scalar '-' :: ofNat (n + 1)

/-- The string of a text, if the text holds no surrogate. -/
def toString? (t : Text) : Option String := (t.mapM CodePoint.char?).map String.ofList

/-- Whether a text holds half of a surrogate pair. -/
def hasSurrogate (t : Text) : Bool := t.any CodePoint.isSurrogate

/-- Whether a text starts with another one. -/
def startsWith (t p : Text) : Bool := p.isPrefixOf t

/-- Whether a text ends with another one. -/
def endsWith (t p : Text) : Bool := p.isSuffixOf t

/-- Whether a text occurs inside another one. -/
def occursIn (needle : Text) : Text → Bool
  | [] => needle.isEmpty
  | c :: r => needle.isPrefixOf (c :: r) || occursIn needle r

/-- The parts of a text between the occurrences of a separator, which are at least one. -/
def splitOn (sep : CodePoint) : Text → List Text
  | [] => [[]]
  | c :: r =>
    if c = sep then [] :: splitOn sep r
    else match splitOn sep r with
      | [] => [[c]]
      | part :: parts => (c :: part) :: parts

/-- Parts written one after another with a separator between them. -/
def join (sep : Text) (parts : List Text) : Text := List.intercalate sep parts

/-- Replaces every occurrence of a text by another one, from left to right. An empty needle is
never found. -/
def replace (needle replacement : Text) : Text → Text
  | [] => []
  | c :: r =>
    if !needle.isEmpty && needle.isPrefixOf (c :: r) then
      replacement ++ replace needle replacement (r.drop (needle.length - 1))
    else c :: replace needle replacement r
termination_by t => t.length
decreasing_by all_goals simp only [List.length_drop, List.length_cons]; omega

/-- The order by code point: the first difference decides, and a prefix comes first. -/
def le : Text → Text → Bool
  | [], _ => true
  | _ :: _, [] => false
  | a :: s, b :: t => a.val < b.val || (a.val == b.val && le s t)

/-- Texts in order. -/
def sort (ts : List Text) : List Text := ts.mergeSort le

/-- Texts in order, each of them once. -/
def sortedSet (ts : List Text) : List Text := sort ts.eraseDups

end Text

end JsxOrigin
