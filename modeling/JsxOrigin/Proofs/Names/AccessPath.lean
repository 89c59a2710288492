import JsxOrigin.Proofs.Names.Parentheses

/-!
# Member paths and accesses

A static expression performs accesses one after another, from a name on (`Source.Performs`): by a
property, by a string or by a number. Its member path is the name with the accesses written one
after another (`Source.accessPath?_eq_some_iff`), in three forms that share their marks.

**The law** (`Source.accessPath_determines`): the member path tells the accesses apart, as long as
no access holds a mark that ends it. Each form then ends at the first such mark, a property at the
next access and the others at their closing mark (`Access.written_cancel`), so that no two chains of
any length are written alike (`Access.written_injective`).
-/

namespace JsxOrigin

/-- One access to a part of a value. -/
inductive Access where
  /-- By the name of a property. -/
  | property (name : Text)
  /-- By a string in brackets, with its escapes decoded. -/
  | key (value : Text)
  /-- By a number in brackets, in its one spelling. -/
  | number (value : Text)
deriving DecidableEq

/-! ## Written accesses -/

/-- A text up to the first code point that cannot stand in it is determined, and so is the rest. -/
theorem Text.append_cancel {p : CodePoint → Bool} {a b x y : Text} (insideA : ∀ c ∈ a, p c = true)
    (insideB : ∀ c ∈ b, p c = true) (endsX : ∀ c ∈ x.head?, p c = false)
    (endsY : ∀ c ∈ y.head?, p c = false) (same : a ++ x = b ++ y) : a = b ∧ x = y := by
  have stops {z : Text} (ends : ∀ c ∈ z.head?, p c = false) : z.takeWhile p = [] := by
    cases z with
    | nil => rfl
    | cons c z => rw [List.takeWhile_cons, ends c rfl]; rfl
  have first := congrArg (List.takeWhile p) same
  rw [List.takeWhile_append_of_pos insideA, List.takeWhile_append_of_pos insideB, stops endsX,
    stops endsY, List.append_nil, List.append_nil] at first
  subst first
  exact ⟨rfl, List.append_cancel_left same⟩

namespace Access

/-- How an access is written in a path. -/
def written : Access → Text
  | property name => .scalar '.' :: name
  | key value => .scalar '[' :: .scalar '"' :: (value ++ [.scalar '"', .scalar ']'])
  | number value => .scalar '[' :: (value ++ [.scalar ']'])

/-- An access that holds no mark by which it would seem to end, or to be of another form. -/
def Plain : Access → Prop
  | property name => .scalar '.' ∉ name ∧ .scalar '[' ∉ name
  | key value => .scalar '"' ∉ value
  | number value => .scalar ']' ∉ value ∧ value.head? ≠ some (.scalar '"')

instance (a : Access) : Decidable a.Plain :=
  match a with
  | property name => inferInstanceAs (Decidable (.scalar '.' ∉ name ∧ .scalar '[' ∉ name))
  | key value => inferInstanceAs (Decidable (.scalar '"' ∉ value))
  | number value =>
    inferInstanceAs (Decidable (.scalar ']' ∉ value ∧ value.head? ≠ some (.scalar '"')))

/-- A code point that starts no access. -/
def continues (c : CodePoint) : Bool := c ≠ .scalar '.' && c ≠ .scalar '['

theorem continues_of_plain {name : Text} (plain : (property name).Plain) :
    ∀ c ∈ name, continues c = true := by
  intro c mem
  have noDot : c ≠ .scalar '.' := fun same => plain.1 (same ▸ mem)
  have noBracket : c ≠ .scalar '[' := fun same => plain.2 (same ▸ mem)
  simp [continues, noDot, noBracket]

theorem ne_of_not_mem {value : Text} {mark : CodePoint} (free : mark ∉ value) :
    ∀ c ∈ value, decide (c ≠ mark) = true := by
  intro c mem
  exact decide_eq_true fun same => free (same ▸ mem)

/-- After an access comes nothing, or the first mark of the next one. -/
theorem head_written (accesses : List Access) :
    ∀ c ∈ (accesses.flatMap written).head?, continues c = false := by
  intro c first
  cases accesses with
  | nil => cases first
  | cons a accesses => cases a <;> cases first <;> rfl

/-- A number is not written like a string: its second code point is no quote. -/
theorem number_ne_key {value digits x y : Text} (plain : (number digits).Plain) :
    written (key value) ++ x ≠ written (number digits) ++ y := by
  intro same
  cases digits with
  | nil => cases same
  | cons c digits =>
    have quote : CodePoint.scalar '"' = c := (List.cons.inj (List.cons.inj same).2).1
    exact plain.2 (congrArg some quote.symm)

/-- **The first access** of a chain can be told from how the chain is written, and so can the
rest. -/
theorem written_cancel {a b : Access} (plainA : a.Plain) (plainB : b.Plain) {as bs : List Access}
    (same : a.written ++ as.flatMap written = b.written ++ bs.flatMap written) :
    a = b ∧ as.flatMap written = bs.flatMap written := by
  have closing {mark : CodePoint} {rest : Text} :
      ∀ c ∈ (mark :: rest).head?, decide (c ≠ mark) = false := by
    intro c first
    cases first
    exact decide_eq_false fun other => other rfl
  cases a with
  | property name =>
    cases b with
    | property name' =>
      obtain ⟨rfl, rest⟩ := Text.append_cancel (continues_of_plain plainA)
        (continues_of_plain plainB) (head_written as) (head_written bs) (List.cons.inj same).2
      exact ⟨rfl, rest⟩
    | key | number => cases same
  | key value =>
    cases b with
    | property => cases same
    | key value' =>
      simp only [written, List.cons_append, List.append_assoc, List.nil_append, List.cons.injEq,
        true_and] at same
      obtain ⟨rfl, rest⟩ := Text.append_cancel (ne_of_not_mem plainA) (ne_of_not_mem plainB)
        closing closing same
      exact ⟨rfl, (List.cons.inj (List.cons.inj rest).2).2⟩
    | number digits => exact absurd same (number_ne_key plainB)
  | number digits =>
    cases b with
    | property => cases same
    | key value => exact absurd same.symm (number_ne_key plainA)
    | number digits' =>
      simp only [written, List.cons_append, List.append_assoc, List.nil_append, List.cons.injEq,
        true_and] at same
      obtain ⟨rfl, rest⟩ := Text.append_cancel (ne_of_not_mem plainA.1) (ne_of_not_mem plainB.1)
        closing closing same
      exact ⟨rfl, (List.cons.inj rest).2⟩

/-- **Chains of plain accesses** that are written alike are the same. -/
theorem written_injective {as bs : List Access} (plainAs : ∀ a ∈ as, a.Plain)
    (plainBs : ∀ b ∈ bs, b.Plain) (same : as.flatMap written = bs.flatMap written) : as = bs := by
  induction as generalizing bs with
  | nil =>
    cases bs with
    | nil => rfl
    | cons b bs => cases b <;> cases same
  | cons a as ih =>
    cases bs with
    | nil => cases a <;> cases same
    | cons b bs =>
      obtain ⟨plainA, plainRest⟩ := List.forall_mem_cons.mp plainAs
      obtain ⟨plainB, plainRest'⟩ := List.forall_mem_cons.mp plainBs
      rw [List.flatMap_cons, List.flatMap_cons] at same
      obtain ⟨rfl, rest⟩ := written_cancel plainA plainB same
      rw [ih plainRest plainRest' rest]

end Access

/-! ## Accesses that an expression performs -/

namespace Source

/-- **The access that an expression ends with**: the name of a property, or what the literal in
brackets denotes. Parentheses around the literal do not matter. -/
inductive EndsWith (s : Source) : Tree → Access → Prop where
  | property {t name : Tree} (kind : t.kind = .member) (named : t.field? .property = some name) :
      EndsWith s t (.property (s.text name))
  | key {t index : Tree} (kind : t.kind = .subscript) (indexed : t.unwrapped? .index = some index)
      (literal : index.kind = .string) : EndsWith s t (.key (s.stringValue index))
  | number {t index : Tree} (kind : t.kind = .subscript)
      (indexed : t.unwrapped? .index = some index) (literal : index.kind = .number) :
      EndsWith s t (.number (s.numberKey index))

/-- **An expression performs accesses** one after another, from the name at its root on. Parentheses
around it, and around the objects in it, do not matter. -/
inductive Performs (s : Source) : Tree → Text → List Access → Prop where
  | name {t : Tree} (kind : t.kind = .identifier) : Performs s t (s.text t) []
  | parenthesized {t inner : Tree} {root : Text} {accesses : List Access}
      (kind : t.kind = .parenthesized) (first : t.expressions.head? = some inner)
      (inside : Performs s inner root accesses) : Performs s t root accesses
  | access {t object : Tree} {root : Text} {accesses : List Access} {last : Access}
      (base : t.field? .object = some object) (before : Performs s object root accesses)
      (ends : s.EndsWith t last) : Performs s t root (accesses ++ [last])

/-- The accesses that an expression performs are all plain. -/
def PlainAccesses (s : Source) (t : Tree) : Prop :=
  ∀ root accesses, s.Performs t root accesses → ∀ a ∈ accesses, a.Plain

variable {s : Source} {t : Tree}

theorem EndsWith.isAccess {last : Access} (ends : s.EndsWith t last) : t.kind.isAccess = true := by
  cases ends with
  | property kind | key kind | number kind => rw [kind]; rfl

theorem EndsWith.unique {a b : Access} (ends : s.EndsWith t a) (ends' : s.EndsWith t b) :
    a = b := by
  cases ends with
  | property kind named =>
    cases ends' with
    | property _ named' => cases named.symm.trans named'; rfl
    | key kind' | number kind' => cases kind.symm.trans kind'
  | key kind indexed literal =>
    cases ends' with
    | property kind' => cases kind.symm.trans kind'
    | key _ indexed' => cases indexed.symm.trans indexed'; rfl
    | number _ indexed' literal' =>
      cases indexed.symm.trans indexed'
      cases literal.symm.trans literal'
  | number kind indexed literal =>
    cases ends' with
    | property kind' => cases kind.symm.trans kind'
    | key _ indexed' literal' =>
      cases indexed.symm.trans indexed'
      cases literal.symm.trans literal'
    | number _ indexed' => cases indexed.symm.trans indexed'; rfl

/-- An expression performs one chain of accesses, from one name on. -/
theorem Performs.unique {root root' : Text} {as as' : List Access}
    (performs : s.Performs t root as) (performs' : s.Performs t root' as') :
    root = root' ∧ as = as' := by
  induction performs generalizing root' as' with
  | name kind =>
    cases performs' with
    | name => exact ⟨rfl, rfl⟩
    | parenthesized kind' => cases kind.symm.trans kind'
    | access _ _ ends => exact absurd ends.isAccess (by rw [kind]; decide)
  | parenthesized kind first _ ih =>
    cases performs' with
    | name kind' => cases kind.symm.trans kind'
    | parenthesized _ first' inside' =>
      cases first.symm.trans first'
      exact ih inside'
    | access _ _ ends => exact absurd ends.isAccess (by rw [kind]; decide)
  | access base _ ends ih =>
    cases performs' with
    | name kind | parenthesized kind => exact absurd ends.isAccess (by rw [kind]; decide)
    | access base' before' ends' =>
      cases base.symm.trans base'
      obtain ⟨rfl, rfl⟩ := ih before'
      rw [ends.unique ends']
      exact ⟨rfl, rfl⟩

/-- What an access adds to a path is how it is written. -/
theorem accessStep?_eq_some_iff (isAccess : t.kind.isAccess = true) {step : Text} :
    s.accessStep? t = some step ↔ ∃ last, s.EndsWith t last ∧ last.written = step := by
  constructor
  · intro found
    unfold accessStep? at found
    split at found
    · rename_i isMember
      obtain ⟨name, named, rfl⟩ := Option.map_eq_some_iff.mp found
      exact ⟨_, .property isMember named, rfl⟩
    · rename_i notMember
      have isSubscript : t.kind = .subscript := by
        simpa [Kind.isAccess, notMember] using isAccess
      obtain ⟨index, indexed, literal⟩ := Option.bind_eq_some_iff.mp found
      split at literal
      · rename_i isString
        cases literal
        exact ⟨_, .key isSubscript indexed isString, rfl⟩
      · rename_i isNumber
        cases literal
        exact ⟨_, .number isSubscript indexed isNumber, rfl⟩
      · cases literal
  · rintro ⟨last, ends, rfl⟩
    cases ends with
    | property kind named => simp [accessStep?, kind, named, Access.written, Text.ofString]
    | key kind indexed literal =>
      simp [accessStep?, kind, indexed, literal, Access.written, Text.ofString]
    | number kind indexed literal =>
      simp [accessStep?, kind, indexed, literal, Access.written, Text.ofString]

/-- **The member path** of an expression is its root with the accesses that it performs, written one
after another; an expression that performs none has no path. -/
theorem accessPath?_eq_some_iff (t : Tree) {p : AccessPath} :
    s.accessPath? t = some p ↔
      ∃ accesses, s.Performs t p.root accesses ∧ p.path = accesses.flatMap Access.written := by
  constructor
  · intro resolved
    rw [accessPath?_eq] at resolved
    split at resolved
    · rename_i kind
      obtain ⟨inner, first, resolved⟩ := Option.bind_eq_some_iff.mp resolved
      have smaller := Tree.size_lt_of_mem (List.mem_of_find?_eq_some first)
      obtain ⟨accesses, performs, path⟩ := (accessPath?_eq_some_iff inner).mp resolved
      exact ⟨accesses, .parenthesized kind ((Tree.head?_expressions t).trans first) performs, path⟩
    split at resolved
    · rename_i isAccess
      obtain ⟨step, isStep, resolved⟩ := Option.bind_eq_some_iff.mp resolved
      obtain ⟨base, resolved, same⟩ := Option.bind_eq_some_iff.mp resolved
      obtain ⟨object, found, resolved⟩ := Option.bind_eq_some_iff.mp resolved
      have smaller := Tree.size_lt_of_mem (List.mem_of_find?_eq_some found)
      obtain ⟨accesses, performs, path⟩ := (accessPath?_eq_some_iff object).mp resolved
      obtain ⟨last, ends, rfl⟩ := (accessStep?_eq_some_iff isAccess).mp isStep
      cases same
      refine ⟨accesses ++ [last], .access found performs ends, ?_⟩
      rw [List.flatMap_append, List.flatMap_singleton, path]
    split at resolved
    · rename_i kind
      cases resolved
      exact ⟨[], .name kind, rfl⟩
    · cases resolved
  · rintro ⟨accesses, performs, path⟩
    obtain ⟨root, path⟩ := p
    dsimp only at performs path
    subst path
    induction performs with
    | name kind => simp [accessPath?_eq, kind, Kind.isAccess]
    | parenthesized kind first _ ih =>
      rw [accessPath?_eq, if_pos kind, ← Tree.head?_expressions, first]
      exact ih
    | @access t object root accesses last base _ ends ih =>
      have isStep := (accessStep?_eq_some_iff ends.isAccess).mpr ⟨last, ends, rfl⟩
      have notParenthesized : t.kind ≠ .parenthesized := by
        intro kind
        exact absurd ends.isAccess (by rw [kind]; decide)
      rw [accessPath?_eq, if_neg notParenthesized, if_pos ends.isAccess, isStep, base,
        Option.bind_some, Option.bind_some, ih, List.flatMap_append, List.flatMap_singleton]
      rfl
termination_by t.size

/-! ## The law -/

/-- **The member path determines the accesses.** Two expressions that have a member path perform one
chain of accesses each, from the root of the path on. If these accesses are plain, the paths are the
same only if the expressions perform the same accesses from the same root. -/
theorem accessPath_determines {s s' : Source} {t t' : Tree} {p p' : AccessPath}
    (resolved : s.accessPath? t = some p) (resolved' : s'.accessPath? t' = some p')
    (plain : s.PlainAccesses t) (plain' : s'.PlainAccesses t') :
    ∃ accesses accesses',
      (∀ root others, s.Performs t root others ↔ root = p.root ∧ others = accesses) ∧
      (∀ root others, s'.Performs t' root others ↔ root = p'.root ∧ others = accesses') ∧
      (p = p' ↔ p.root = p'.root ∧ accesses = accesses') := by
  obtain ⟨accesses, performs, path⟩ := (accessPath?_eq_some_iff t).mp resolved
  obtain ⟨accesses', performs', path'⟩ := (accessPath?_eq_some_iff t').mp resolved'
  refine ⟨accesses, accesses', fun root others => ?_, fun root others => ?_, ?_, ?_⟩
  · exact ⟨fun other => other.unique performs, fun ⟨isRoot, same⟩ => isRoot ▸ same ▸ performs⟩
  · exact ⟨fun other => other.unique performs', fun ⟨isRoot, same⟩ => isRoot ▸ same ▸ performs'⟩
  · rintro rfl
    have same : accesses.flatMap Access.written = accesses'.flatMap Access.written :=
      path.symm.trans path'
    exact ⟨rfl, Access.written_injective (plain _ _ performs) (plain' _ _ performs') same⟩
  · rintro ⟨sameRoot, rfl⟩
    obtain ⟨root, text⟩ := p
    obtain ⟨root', text'⟩ := p'
    cases sameRoot
    cases path.trans path'.symm
    rfl

/-- The law for `a.b["c"][0x10]` and `(a.b)['c'][16]` in two modules: they have one path, so they
perform the same accesses. -/
theorem accessPath_determines_otherSpelling :
    let node (kind : Kind) (start stop : Nat) (field : Field) (children : List Tree) : Tree :=
      { kind, named := true, start, stop, fields := [field], children }
    let source : Source :=
      { file := "m.js", bytes := (Utf8.encode? "a.b[\"c\"][0x10]").getD [] }
    let other : Source :=
      { file := "n.js", bytes := (Utf8.encode? "(a.b)[\x27c\x27][16]").getD [] }
    let property := node .member 0 3 .object
      [node .identifier 0 1 .object [], node .propertyIdentifier 2 3 .property []]
    let property' := node .member 1 4 .object
      [node .identifier 1 2 .object [], node .propertyIdentifier 3 4 .property []]
    let key := node .subscript 0 8 .object [property, node .string 4 7 .index []]
    let key' := node .subscript 0 10 .object
      [node .parenthesized 0 5 .object [property'], node .string 6 9 .index []]
    let t := node .subscript 0 14 .value [key, node .number 9 13 .index []]
    let t' := node .subscript 0 14 .value [key', node .number 11 13 .index []]
    let p : AccessPath := { root := "a", path := ".b[\"c\"][16]" }
    source.accessPath? t = some p ∧ other.accessPath? t' = some p ∧
      source.PlainAccesses t ∧ other.PlainAccesses t' ∧
      source.Performs t "a" [.property "b", .key "c", .number "16"] ∧
      ∀ root accesses, source.Performs t root accesses ↔ other.Performs t' root accesses := by
  intro node source other property property' key key' t t' p
  let accesses : List Access := [.property "b", .key "c", .number "16"]
  have resolved : source.accessPath? t = some p := by decide +kernel
  have resolved' : other.accessPath? t' = some p := by decide +kernel
  have performs : source.Performs t "a" accesses := by
    have spelled : accesses =
        [.property (source.text (node .propertyIdentifier 2 3 .property [])),
          .key (source.stringValue (node .string 4 7 .index [])),
          .number (source.numberKey (node .number 9 13 .index []))] := by decide +kernel
    have rooted : ("a" : Text) = source.text (node .identifier 0 1 .object []) := by decide +kernel
    rw [spelled, rooted]
    exact .access rfl (.access rfl (.access rfl (.name rfl) (.property rfl rfl)) (.key rfl rfl rfl))
      (.number rfl rfl rfl)
  have performs' : other.Performs t' "a" accesses := by
    have spelled : accesses =
        [.property (other.text (node .propertyIdentifier 3 4 .property [])),
          .key (other.stringValue (node .string 6 9 .index [])),
          .number (other.numberKey (node .number 11 13 .index []))] := by decide +kernel
    have rooted : ("a" : Text) = other.text (node .identifier 1 2 .object []) := by decide +kernel
    have inParens : other.Performs property' (other.text (node .identifier 1 2 .object []))
        [.property (other.text (node .propertyIdentifier 3 4 .property []))] :=
      .access rfl (.name rfl) (.property rfl rfl)
    rw [spelled, rooted]
    exact .access rfl (.access rfl (.parenthesized rfl rfl inParens) (.key rfl rfl rfl))
      (.number rfl rfl rfl)
  have plain : source.PlainAccesses t := fun root others performed => by
    rw [(performed.unique performs).2]
    decide
  have plain' : other.PlainAccesses t' := fun root others performed => by
    rw [(performed.unique performs').2]
    decide
  obtain ⟨as, as', only, only', law⟩ := accessPath_determines resolved resolved' plain plain'
  refine ⟨resolved, resolved', plain, plain', performs, fun root others => ?_⟩
  rw [only, only', (law.mp rfl).2]

end Source

end JsxOrigin
