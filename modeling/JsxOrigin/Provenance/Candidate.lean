import JsxOrigin.Provenance.Origin

/-!
# Candidates

A candidate is a place that is worth editing to change a traced value, with the reason. Candidates
keep the order of the findings that they come from, and a reason with its place is given once.
-/

namespace JsxOrigin

/-- Why a place is worth editing. -/
inductive Reason where
  | literal
  | initializer
  | member
  | structural
  | callsite
  | constructor
  | imported
  | env
  | definition
deriving DecidableEq

/-- The name of a reason in reports. -/
def Reason.name : Reason → Text
  | literal => "literal"
  | initializer => "const-init"
  | member => "member"
  | structural => "structural"
  | callsite => "callsite"
  | constructor => "constructor"
  | imported => "import"
  | env => "env"
  | definition => "fn-def"

/-- A place that is worth editing. -/
structure Candidate (τ : Type) where
  target : τ
  reason : Reason
deriving DecidableEq

/-- The candidates of one finding, where `isPresent` tells whether a definition is named at all.
Names, operators and unknown findings point at nothing. -/
def Finding.candidates {τ ι : Type} (isPresent : τ → Bool) : Finding τ ι → List (Candidate τ)
  | literal span _ => [⟨span, .literal⟩]
  | init span => [⟨span, .initializer⟩]
  | member span => [⟨span, .member⟩]
  | objectProp _ span => [⟨span, .structural⟩]
  | arrayElem _ span => [⟨span, .structural⟩]
  | call _ callsite _ definition =>
    ⟨callsite, .callsite⟩ ::
      (definition.toList.filter isPresent).map fun target => ⟨target, .definition⟩
  | ctor _ span => [⟨span, .constructor⟩]
  | imported _ _ span => [⟨span, .imported⟩]
  | env _ span => [⟨span, .env⟩]
  | ident .. => []
  | op .. => []
  | unknown .. => []
  | foreign .. => []

/-- The candidates of an origin. A definition without a text is none. -/
def Candidate.ofOrigin (o : Origin) : List (Candidate Text) := o.candidates (!·.isEmpty)

/-- The candidates of a list of origins, in order and each once. -/
def Candidate.rank (origins : List Origin) : List (Candidate Text) :=
  (origins.flatMap ofOrigin).eraseDups

/-- Candidates on one line. -/
def Candidate.format (candidates : List (Candidate Text)) : Text :=
  Text.join ";" (candidates.map fun c => c.reason.name ++ "@" ++ c.target)

end JsxOrigin
