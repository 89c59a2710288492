/-!
# Tables

A table is a list of keys with values, in the order in which the keys were first recorded.
Recording a key again replaces its value and keeps its place.
-/

namespace JsxOrigin

/-- An ordered table. -/
abbrev Table (κ : Type) (α : Type) := List (κ × α)

namespace Table

variable {κ α : Type} [DecidableEq κ]

/-- The value of a key. -/
def get? (key : κ) : Table κ α → Option α
  | [] => none
  | (k, v) :: rest => if k = key then some v else get? key rest

/-- Whether a key is recorded. -/
def has (key : κ) (t : Table κ α) : Bool := (get? key t).isSome

/-- Records a key: in its old place if it has one, else at the end. -/
def set (key : κ) (value : α) : Table κ α → Table κ α
  | [] => [(key, value)]
  | (k, v) :: rest => if k = key then (key, value) :: rest else (k, v) :: set key value rest

/-- Drops a key. -/
def erase (key : κ) (t : Table κ α) : Table κ α := t.filter fun e => e.1 ≠ key

/-- The keys in order. -/
def keys (t : Table κ α) : List κ := t.map Prod.fst

/-- The table of a list of records, later ones replacing earlier ones. -/
def ofList (records : List (κ × α)) : Table κ α :=
  records.foldl (fun t r => set r.1 r.2 t) []

/-- A recorded key has the value recorded last. -/
@[simp] theorem get?_set_self (key : κ) (value : α) (t : Table κ α) :
    get? key (set key value t) = some value := by
  induction t with
  | nil => simp [set, get?]
  | cons e rest ih =>
    by_cases h : e.1 = key <;> simp [set, get?, h, ih]

/-- Recording a key leaves the values of all other keys alone. -/
theorem get?_set_of_ne {key other : κ} (h : other ≠ key) (value : α) (t : Table κ α) :
    get? other (set key value t) = get? other t := by
  induction t with
  | nil => simp [set, get?, Ne.symm h]
  | cons e rest ih =>
    by_cases hk : e.1 = key
    · simp [set, get?, hk, Ne.symm h]
    · by_cases ho : e.1 = other
      · simp [set, get?, ho, h]
      · simp [set, get?, hk, ho, ih]

end Table

end JsxOrigin
