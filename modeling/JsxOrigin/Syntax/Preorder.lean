import JsxOrigin.Syntax.Tree

/-!
# Trees as records in document order

A tree can be written as the list of its nodes in document order, each with the number of its
children. Read from the end, each record takes that many of the trees that follow it.
-/

namespace JsxOrigin

/-- A node as a record: its own data and the number of its children. -/
structure NodeRecord where
  kind : Kind
  named : Bool
  start : Nat
  stop : Nat
  count : Nat
  fields : List Field

/-- The trees of records in document order. -/
def Tree.ofRecords (records : List NodeRecord) : List Tree :=
  records.foldr
    (fun r later =>
      let t : Tree :=
        { kind := r.kind, named := r.named, start := r.start, stop := r.stop, fields := r.fields,
          children := later.take r.count }
      t :: later.drop r.count)
    []

mutual

/-- The records of a tree in document order. -/
def Tree.records : Tree → List NodeRecord
  | ⟨kind, named, start, stop, fields, children⟩ =>
    ⟨kind, named, start, stop, children.length, fields⟩ :: Tree.recordsOf children

/-- The records of a list of trees. -/
def Tree.recordsOf : List Tree → List NodeRecord
  | [] => []
  | t :: rest => Tree.records t ++ Tree.recordsOf rest

end

mutual

/-- The records of a tree read back as that tree, before whatever follows. -/
theorem Tree.ofRecords_records_append (t : Tree) (rest : List NodeRecord) :
    Tree.ofRecords (t.records ++ rest) = t :: Tree.ofRecords rest := by
  match t with
  | ⟨kind, named, start, stop, fields, children⟩ =>
    have ih := Tree.ofRecords_recordsOf_append children rest
    simp only [Tree.records, List.cons_append]
    rw [Tree.ofRecords, List.foldr_cons, ← Tree.ofRecords, ih]
    simp

/-- The records of a list of trees read back as those trees, before whatever follows. -/
theorem Tree.ofRecords_recordsOf_append (ts : List Tree) (rest : List NodeRecord) :
    Tree.ofRecords (Tree.recordsOf ts ++ rest) = ts ++ Tree.ofRecords rest := by
  match ts with
  | [] => simp [Tree.recordsOf]
  | t :: ts =>
    rw [Tree.recordsOf, List.append_assoc, Tree.ofRecords_records_append,
      Tree.ofRecords_recordsOf_append ts rest, List.cons_append]

end

end JsxOrigin
