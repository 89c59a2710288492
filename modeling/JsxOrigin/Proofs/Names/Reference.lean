import JsxOrigin.Names.Reference
import Mathlib.Logic.Function.Iterate

/-!
# References by recursion

The references of an expression are collected in a loop over the expressions that wait. What it
collects can be said by recursion on the depth (`Source.readFrom`): an expression is read, and then
what it leads to is read in turn, one level deeper. The names that have come up are handed along,
from one expression to the next in the order in which they are read.

**The law** (`Source.references_eq_readFrom`): for every expression and all bindings, also those
whose initializers lead back to themselves, the loop ends, and it has added to the references that
were given what the recursion reads.

Neither the size of the expression nor the number of those that wait falls in the loop, because an
initializer can be any expression of the module. What bounds it is the depth: an expression takes as
many looks as itself and what it leads to take together, one level deeper (`Source.readingCost`).
The loop works off what an expression leads to before it turns to what waited before
(`looks_readFrom`), and that is why the names come up in the order of the recursion.
-/

namespace JsxOrigin

namespace Source

/-! ## By recursion -/

/-- Reads expressions in turn, and hands the names that have come up from one to the next. -/
def inTurn (read : Tree → List Text → List Reference × List Text) :
    List Tree → List Text → List Reference × List Text
  | [], seen => ([], seen)
  | t :: rest, seen =>
    let first := read t seen
    let later := inTurn read rest first.2
    (first.1 ++ later.1, later.2)

/-- **What is read from an expression at a depth**, with the names that came up before; also, the
names that have come up afterwards. A name is followed to its initializer only if it comes up
first. -/
def readFrom (s : Source) (bs : Bindings Tree) (depth : Nat) (t : Tree) (seen : List Text) :
    List Reference × List Text :=
  if Trace.maxDepth < depth then ([], seen)
  else
    let below := inTurn fun u known => s.readFrom bs (depth + 1) u known
    let e := t.unwrap
    if e.kind = .identifier then
      let name := s.text e
      let own : Reference := { file := s.file, name, path := [], span := s.span e }
      if seen.contains name then ([own], seen)
      else
        let value := below ((bs.lookup name).bind (·.init)).toList (name :: seen)
        (own :: value.1, value.2)
    else if e.kind.isAccess then
      let own : List Reference := (s.accessPath? e).toList.map fun p =>
        { file := s.file, name := p.root, path := p.path, span := s.span e }
      let index := if e.kind = .subscript then e.field? .index else none
      let parts := below ((e.field? .object).toList ++ index.toList) seen
      (own ++ parts.1, parts.2)
    else if e.kind = .call then
      let callee := (e.unwrapped? .function).filter fun c =>
        c.kind ≠ .superKeyword ∧ c.kind ≠ .importKeyword
      let arguments :=
        ((e.field? .arguments).filter (·.kind = .arguments)).toList.flatMap fun list =>
          list.expressions.filter (·.kind ≠ .spread)
      below (callee.toList ++ arguments) seen
    else ([], seen)
termination_by Trace.levels depth
decreasing_by
  simp only [Trace.levels]
  omega

/-! ## The loop -/

/-- The loop under way: the references that are listed, the names that have come up, and the
expressions that wait, the next one first, each with the levels that are left below it. -/
structure Collecting where
  refs : List Reference
  seen : List Text
  waiting : List (Tree × Nat)

/-- One look at the next expression. -/
def look (s : Source) (bs : Bindings Tree) (c : Collecting) : Collecting :=
  match c.waiting with
  | [] => c
  | (_, 0) :: waiting => { c with waiting }
  | (t, levels + 1) :: waiting =>
    let r := s.reading bs t.unwrap
    if r.once.all (!c.seen.contains ·) then
      { refs := c.refs ++ r.refs
        seen := r.once.toList ++ c.seen
        waiting := r.next.map (·, levels) ++ waiting }
    else { c with refs := c.refs ++ r.refs, waiting }

variable (s : Source) (bs : Bindings Tree)

/-- What the loop has listed in the end. -/
def outcome (c : Collecting) : List Reference := c.refs ++ s.referencesOf bs c.seen c.waiting

/-- **One look** changes nothing about the outcome. -/
theorem outcome_look (c : Collecting) : s.outcome bs (s.look bs c) = s.outcome bs c := by
  obtain ⟨refs, seen, waiting⟩ := c
  rcases waiting with - | ⟨⟨t, levels⟩, waiting⟩
  · rfl
  cases levels with
  | zero =>
    show refs ++ s.referencesOf bs seen waiting = refs ++ s.referencesOf bs seen ((t, 0) :: waiting)
    rw [referencesOf]
  | succ levels =>
    rw [outcome, outcome, look, referencesOf]
    dsimp only
    split <;> exact List.append_assoc _ _ _

theorem outcome_looks (looks : Nat) (c : Collecting) :
    s.outcome bs ((s.look bs)^[looks] c) = s.outcome bs c := by
  induction looks generalizing c with
  | zero => rfl
  | succ looks ih => rw [Function.iterate_succ_apply, ih, outcome_look]

/-! ## The loop does what the recursion does -/

theorem readFrom_of_deep {depth : Nat} (deep : Trace.maxDepth < depth) (t : Tree)
    (seen : List Text) : s.readFrom bs depth t seen = ([], seen) := by
  rw [readFrom, if_pos deep]

/-- The recursion at an expression: what it reads by itself, and then what it leads to, unless that
is left out because its name came up before. -/
theorem readFrom_eq_reading {depth : Nat} (inReach : depth ≤ Trace.maxDepth) (t : Tree)
    (seen : List Text) :
    s.readFrom bs depth t seen =
      let r := s.reading bs t.unwrap
      if r.once.all (!seen.contains ·) then
        let next := inTurn (s.readFrom bs (depth + 1)) r.next (r.once.toList ++ seen)
        (r.refs ++ next.1, next.2)
      else (r.refs, seen) := by
  rw [readFrom, if_neg (by omega)]
  unfold reading
  split
  case h_1 kind =>
    dsimp only
    rw [if_pos kind]
    by_cases known : s.text t.unwrap ∈ seen <;> simp [known]
  case h_2 kind | h_3 kind =>
    dsimp only
    rw [if_neg (by rw [kind]; decide), if_pos (by rw [kind]; rfl)]
    simp [kind]
  case h_4 kind =>
    dsimp only
    rw [if_neg (by rw [kind]; decide), if_neg (by rw [kind]; decide), if_pos kind]
    cases t.unwrap.field? .arguments with
    | none => simp
    | some list => by_cases isList : list.kind = .arguments <;> simp [Option.filter_some, isList]
  case h_5 noName noMember noSubscript noCall =>
    have noAccess : ¬ t.unwrap.kind.isAccess = true := by
      rw [Kind.isAccess, Bool.or_eq_true, beq_iff_eq, beq_iff_eq]
      rintro (isMember | isSubscript)
      · exact noMember isMember
      · exact noSubscript isSubscript
    dsimp only
    rw [if_neg noName, if_neg noAccess, if_neg noCall]
    simp [inTurn]

/-- **Expressions in turn**: if the loop works off single expressions like the recursion, it works
off several of them, one after another. -/
theorem looks_inTurn {levels : Nat} {read : Tree → List Text → List Reference × List Text}
    (single : ∀ t refs seen waiting, ∃ looks ≤ s.readingCost bs levels t,
      (s.look bs)^[looks] ⟨refs, seen, (t, levels) :: waiting⟩ =
        ⟨refs ++ (read t seen).1, (read t seen).2, waiting⟩)
    (ts : List Tree) (refs : List Reference) (seen : List Text) (waiting : List (Tree × Nat)) :
    ∃ looks ≤ totalCost (s.readingCost bs levels) ts,
      (s.look bs)^[looks] ⟨refs, seen, ts.map (·, levels) ++ waiting⟩ =
        ⟨refs ++ (inTurn read ts seen).1, (inTurn read ts seen).2, waiting⟩ := by
  induction ts generalizing refs seen with
  | nil => exact ⟨0, Nat.le_refl _, by rw [inTurn, List.append_nil]; rfl⟩
  | cons t ts ih =>
    obtain ⟨first, firstCost, afterFirst⟩ := single t refs seen (ts.map (·, levels) ++ waiting)
    obtain ⟨later, laterCost, afterLater⟩ := ih (refs ++ (read t seen).1) (read t seen).2
    refine ⟨later + first, ?_, ?_⟩
    · rw [totalCost]
      omega
    · rw [Function.iterate_add_apply, List.map_cons, List.cons_append, afterFirst, afterLater,
        inTurn, List.append_assoc]

/-- **The loop works off an expression** like the recursion: what was listed before and what waited
before stay, and in between comes what the recursion reads, with the same names. -/
theorem looks_readFrom {levels depth : Nat} (left : levels = Trace.levels depth) (t : Tree)
    (refs : List Reference) (seen : List Text) (waiting : List (Tree × Nat)) :
    ∃ looks ≤ s.readingCost bs levels t,
      (s.look bs)^[looks] ⟨refs, seen, (t, levels) :: waiting⟩ =
        ⟨refs ++ (s.readFrom bs depth t seen).1, (s.readFrom bs depth t seen).2, waiting⟩ := by
  induction levels generalizing depth t refs seen waiting with
  | zero =>
    have deep : Trace.maxDepth < depth := by
      simp only [Trace.levels] at left
      omega
    refine ⟨1, Nat.le_refl _, ?_⟩
    rw [s.readFrom_of_deep bs deep, List.append_nil]
    rfl
  | succ levels ih =>
    have inReach : depth ≤ Trace.maxDepth := by
      simp only [Trace.levels] at left
      omega
    have below : levels = Trace.levels (depth + 1 : Nat) := by
      simp only [Trace.levels] at left ⊢
      omega
    rw [s.readFrom_eq_reading bs inReach, readingCost]
    by_cases fresh : (s.reading bs t.unwrap).once.all (!seen.contains ·) = true
    · obtain ⟨looks, cost, after⟩ := s.looks_inTurn bs (ih below) (s.reading bs t.unwrap).next
        (refs ++ (s.reading bs t.unwrap).refs) ((s.reading bs t.unwrap).once.toList ++ seen) waiting
      refine ⟨looks + 1, by omega, ?_⟩
      rw [Function.iterate_succ_apply, look]
      dsimp only
      rw [if_pos fresh, if_pos fresh, after, List.append_assoc]
    · refine ⟨1, Nat.le_add_right _ _, ?_⟩
      rw [Function.iterate_one, look]
      dsimp only
      rw [if_neg fresh, if_neg fresh]

/-! ## The law -/

/-- **References are collected in the order of the recursion, and the loop ends.** With any
bindings, the loop that starts at an expression with references that are given comes to an end, when
nothing waits any more, after no more looks than the expression costs. By then it has listed the
given ones and after them what the recursion reads, and the same names have come up. What the
recursion reads are the references of the expression. -/
theorem references_eq_readFrom (t : Tree) (given : List Reference) :
    (∃ looks ≤ s.readingCost bs (Trace.levels 0) t,
      (s.look bs)^[looks] ⟨given, [], [(t, Trace.levels 0)]⟩ =
        ⟨given ++ (s.readFrom bs 0 t []).1, (s.readFrom bs 0 t []).2, []⟩) ∧
      s.references bs t = (s.readFrom bs 0 t []).1 := by
  have atTop : Trace.levels 0 = Trace.levels (0 : Nat) := rfl
  obtain ⟨looks, cost, after⟩ := s.looks_readFrom bs atTop t given [] []
  refine ⟨⟨looks, cost, after⟩, ?_⟩
  have same := s.outcome_looks bs looks ⟨given, [], [(t, Trace.levels 0)]⟩
  rw [after, outcome, outcome, referencesOf, List.append_nil] at same
  exact (List.append_cancel_left same).symm

end Source

end JsxOrigin
