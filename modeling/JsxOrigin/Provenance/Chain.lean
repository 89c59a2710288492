import JsxOrigin.Provenance.Origin
import JsxOrigin.Text.Quoted

/-!
# Chains

A chain is a list of findings with a limit. It only grows at its end; once it is full, it refuses
every further finding and remembers that it did.
-/

namespace JsxOrigin

/-- A list of findings with a limit on its length. -/
structure Chain (α : Type) where
  limit : Int
  findings : List α := []
  /-- Whether a finding was refused. -/
  truncated : Bool := false

namespace Chain

variable {α τ ι : Type}

/-- The limit of a chain for which none is given. -/
def defaultLimit : Int := 128

/-- A chain without findings and with the default limit. -/
def empty : Chain α := { limit := defaultLimit }

/-- Whether a chain takes no more findings. -/
def isFull (c : Chain α) : Bool := c.limit ≤ c.findings.length

/-- Appends a finding, or refuses it if the chain is full. -/
def append (c : Chain α) (a : α) : Chain α :=
  if c.isFull then { c with truncated := true } else { c with findings := c.findings ++ [a] }

/-- How many findings a chain still takes. -/
def room (c : Chain α) : Nat := (c.limit - c.findings.length).toNat

/-- Appends a finding a number of times, as far as there is room. -/
def fill (c : Chain α) (a : α) (count : Nat) : Chain α :=
  { c with
    findings := c.findings ++ List.replicate (min count c.room) a
    truncated := c.truncated || c.room < count }

/-- The names of the kinds of the findings. -/
def kinds (c : Chain (Finding τ ι)) : List Text := c.findings.map Finding.kind

/-- A chain on one line: the quoted names of the kinds. -/
def summary (c : Chain (Finding τ ι)) : Text :=
  "ProvenanceChain(" ++ Text.quotedList c.kinds ++ ")"

/-- The finding at a position; negative positions count from the end. -/
def at? (c : Chain α) (position : Int) : Option α :=
  let index := if position < 0 then position + c.findings.length else position
  if index < 0 then none else c.findings[index.toNat]?

/-- Appending to a full chain changes nothing but the mark. -/
theorem append_of_isFull {c : Chain α} (h : c.isFull = true) (a : α) :
    c.append a = { c with truncated := true } := by
  simp [append, h]

/-- A chain that is not full takes the finding. -/
theorem append_of_not_isFull {c : Chain α} (h : c.isFull = false) (a : α) :
    c.append a = { c with findings := c.findings ++ [a] } := by
  simp [append, h]

end Chain

end JsxOrigin
