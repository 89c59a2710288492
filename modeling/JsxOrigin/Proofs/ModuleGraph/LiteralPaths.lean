import JsxOrigin.Proofs.ModuleGraph.LiteralLeaves
import JsxOrigin.Proofs.Syntax.ArrayPositions
import JsxOrigin.Proofs.Text.Numeral
import Mathlib.Data.List.Nodup

/-!
# Paths in exported data

A row of the literal index names its leaf by a path: keys with a dot in front of each but the first,
and positions in brackets. Such a path can be read back (`DataStep.read`) if its keys are plain, not
empty and without dots and opening brackets: each step ends where the next one starts, or at its
closing bracket.

**The law** (`Source.paths_identify`): in data with plain keys, of which no object has one twice, no
two rows have one path, and the path of a row reads back as the steps that lead to its leaf, and to
no other one.
-/

namespace JsxOrigin

/-! ## Positions -/

theorem Text.bracket_not_mem_ofNat (n : Nat) : CodePoint.scalar ']' ∉ ofNat n := fun mem =>
  absurd (isDigit_of_mem_ofNat mem) (by decide)

/-! ## Paths read back -/

namespace DataStep

/-- Whether a code point can stand in a plain key. -/
def isPlain (c : CodePoint) : Bool := c ≠ .scalar '.' && c ≠ .scalar '['

/-- A step by a plain key, or by a position. -/
def Plain : DataStep → Prop
  | key name => name ≠ [] ∧ ∀ c ∈ name, isPlain c = true
  | position _ => True

/-- The steps that a path spells. -/
def read : Text → List DataStep
  | [] => []
  | c :: rest =>
    if c = .scalar '[' then
      position (Text.numeral 10 (rest.takeWhile (· ≠ .scalar ']'))) ::
        read ((rest.dropWhile (· ≠ .scalar ']')).drop 1)
    else
      let name := rest.takeWhile isPlain
      key (if c = .scalar '.' then name else c :: name) :: read (rest.dropWhile isPlain)
termination_by t => t.length
decreasing_by
  · have := (List.dropWhile_sublist (l := rest) (· ≠ .scalar ']')).length_le
    simp only [List.length_drop, List.length_cons]
    omega
  · have := (List.dropWhile_sublist (l := rest) isPlain).length_le
    simp only [List.length_cons]
    omega

/-- After some text, steps are written one after another. -/
theorem foldl_extend {path : Text} (filled : path ≠ []) (steps : List DataStep) :
    steps.foldl extend path = path ++ steps.flatMap written := by
  induction steps generalizing path with
  | nil => simp
  | cons step steps ih =>
    have next : extend path step = path ++ step.written := by
      cases step with
      | key name => exact if_neg filled
      | position index => rfl
    rw [List.foldl_cons, next, ih (by simp [filled]), List.flatMap_cons, List.append_assoc]

theorem takeWhile_written (steps : List DataStep) :
    (steps.flatMap written).takeWhile isPlain = [] := by
  cases steps with
  | nil => rfl
  | cons step steps => cases step <;> rfl

theorem dropWhile_written (steps : List DataStep) :
    (steps.flatMap written).dropWhile isPlain = steps.flatMap written := by
  cases steps with
  | nil => rfl
  | cons step steps => cases step <;> rfl

/-- What follows the first code point of a key: the rest of the key, up to the next step. -/
theorem read_name {c : CodePoint} {name : Text} (noBracket : c ≠ .scalar '[')
    (plain : ∀ d ∈ name, isPlain d = true) (steps : List DataStep) :
    read (c :: (name ++ steps.flatMap written)) =
      key (if c = .scalar '.' then name else c :: name) :: read (steps.flatMap written) := by
  rw [read, if_neg noBracket, List.takeWhile_append_of_pos plain, takeWhile_written,
    List.append_nil, List.dropWhile_append_of_pos plain, dropWhile_written]

/-- What follows an opening bracket: a position, up to the closing one. -/
theorem read_position (index : Nat) (rest : Text) :
    read (written (position index) ++ rest) = position index :: read rest := by
  have inBrackets : ∀ c ∈ Text.ofNat index, decide (c ≠ CodePoint.scalar ']') = true := by
    intro c mem
    exact decide_eq_true fun isBracket => Text.bracket_not_mem_ofNat index (isBracket ▸ mem)
  rw [written, List.cons_append, List.append_assoc, read, if_pos rfl,
    List.takeWhile_append_of_pos inBrackets, List.dropWhile_append_of_pos inBrackets]
  simp [Text.numeral_ofNat]

/-- Steps that are written one after another are read one after another. -/
theorem read_written {steps : List DataStep} (plain : ∀ step ∈ steps, step.Plain) :
    read (steps.flatMap written) = steps := by
  induction steps with
  | nil => rw [List.flatMap_nil, read]
  | cons step steps ih =>
    obtain ⟨stepPlain, stepsPlain⟩ := List.forall_mem_cons.mp plain
    rw [List.flatMap_cons]
    cases step with
    | key name =>
      rw [written, List.cons_append, read_name (by decide) stepPlain.2, ih stepsPlain, if_pos rfl]
    | position index => rw [read_position, ih stepsPlain]

/-- **Reading back**: the path of plain steps reads as these steps. -/
theorem read_path {steps : List DataStep} (plain : ∀ step ∈ steps, step.Plain) :
    read (path steps) = steps := by
  cases steps with
  | nil => rw [path, List.foldl_nil, read]
  | cons step steps =>
    obtain ⟨stepPlain, stepsPlain⟩ := List.forall_mem_cons.mp plain
    rw [path, List.foldl_cons]
    cases step with
    | key name =>
      -- The first key has no dot in front.
      have first : extend [] (key name) = name := rfl
      rw [first, foldl_extend stepPlain.1]
      obtain ⟨c, rest, rfl⟩ := List.exists_cons_of_ne_nil stepPlain.1
      obtain ⟨cPlain, restPlain⟩ := List.forall_mem_cons.mp stepPlain.2
      have solid : c ≠ .scalar '.' ∧ c ≠ .scalar '[' := by
        simpa [isPlain] using cPlain
      rw [List.cons_append, read_name solid.2 restPlain, if_neg solid.1, read_written stepsPlain]
    | position index =>
      have first : extend [] (position index) = written (position index) := rfl
      have filled : written (position index) ≠ [] := List.cons_ne_nil _ _
      rw [first, foldl_extend filled, read_position, read_written stepsPlain]

end DataStep

/-! ## Steps that lead apart -/

namespace Source

/-- The static keys of an object. -/
def staticKeys (s : Source) (t : Tree) : List Text := t.namedChildren.filterMap s.staticKey?

/-- Data in which the static keys are plain, and no object has one of them twice. -/
def PlainKeys (s : Source) (value : Tree) : Prop :=
  ∀ t ∈ value.nodes, t.kind = .object →
    (s.staticKeys t).Nodup ∧
      ∀ name ∈ s.staticKeys t, name ≠ [] ∧ .scalar '.' ∉ name ∧ .scalar '[' ∉ name

/-- A value holds another one: parentheses and type annotations hold what they are around, without
a step, an object holds the value of each pair with a static key, and an array each element that is
not spread. -/
inductive Holds (s : Source) : Tree → List DataStep → Tree → Prop where
  | parenthesized {t u : Tree} (kind : t.kind = .parenthesized)
      (first : t.expressions.head? = some u) : Holds s t [] u
  | annotated {t u : Tree} (kind : t.kind.isTypeWrapper = true)
      (first : t.namedChildren.head? = some u) : Holds s t [] u
  | keyed {t property u : Tree} {name : Text} (kind : t.kind = .object)
      (mem : property ∈ t.namedChildren) (static : s.staticKey? property = some name)
      (value : property.field? .value = some u) : Holds s t [.key name] u
  | element {t u : Tree} {index : Nat} (kind : t.kind = .array) (mem : (index, u) ∈ t.elements)
      (whole : u.kind ≠ .spread) : Holds s t [.position index] u

/-- Steps lead from a value to one that is held by it, or held by a value that is held by it, and so
on. -/
inductive Leads (s : Source) : Tree → List DataStep → Tree → Prop where
  | here (t : Tree) : Leads s t [] t
  | into {t u v : Tree} {first rest : List DataStep} (holds : s.Holds t first u)
      (more : Leads s u rest v) : Leads s t (first ++ rest) v

theorem mem_inside_iff {s : Source} {t : Tree} {v : List DataStep × Tree} :
    v ∈ s.inside t ↔ s.Holds t v.1 v.2 := by
  obtain ⟨steps, u⟩ := v
  constructor
  · intro mem
    unfold inside at mem
    split at mem
    · rename_i parenthesized
      obtain ⟨e, first, same⟩ := List.mem_map.mp mem
      cases same
      exact .parenthesized parenthesized (Option.mem_toList.mp first)
    split at mem
    · rename_i wrapper
      obtain ⟨e, first, same⟩ := List.mem_map.mp mem
      cases same
      exact .annotated wrapper (Option.mem_toList.mp first)
    split at mem
    · rename_i isObject
      obtain ⟨property, isChild, keyed⟩ := List.mem_filterMap.mp mem
      obtain ⟨name, static, rfl, value⟩ := keyedValue?_cases keyed
      exact .keyed isObject isChild static value
    split at mem
    · rename_i isArray
      obtain ⟨e, isElement, same⟩ := List.mem_map.mp mem
      cases same
      obtain ⟨isElement, whole⟩ := List.mem_filter.mp isElement
      exact .element isArray isElement (of_decide_eq_true whole)
    · cases mem
  · intro holds
    cases holds with
    | parenthesized kind first => simp [inside, kind, first]
    | annotated kind first =>
      have notParenthesized : t.kind ≠ .parenthesized := by
        intro parenthesized
        rw [parenthesized] at kind
        exact absurd kind (by decide)
      simp [inside, kind, first, notParenthesized]
    | keyed kind mem static value =>
      rw [inside, kind]
      refine List.mem_filterMap.mpr ⟨_, mem, ?_⟩
      rw [keyedValue?, static, value]
      rfl
    | element kind mem whole =>
      rw [inside, kind]
      exact List.mem_map.mpr ⟨_, List.mem_filter.mpr ⟨mem, decide_eq_true whole⟩, rfl⟩

/-- A string holds nothing. -/
theorem noString_of_holds {s : Source} {t u : Tree} {steps : List DataStep}
    (holds : s.Holds t steps u) : t.kind ≠ .string := by
  cases holds with
  | parenthesized kind => exact noString_of_parenthesized kind
  | annotated kind => exact noString_of_isTypeWrapper kind
  | keyed kind => exact kind ▸ by decide
  | element kind => exact kind ▸ by decide

/-- The leaves of a value are the strings that steps lead to. -/
theorem mem_leaves_iff (s : Source) (t : Tree) {steps : List DataStep} {leaf : Tree} :
    (steps, leaf) ∈ s.leaves t ↔ s.Leads t steps leaf ∧ leaf.kind = .string := by
  constructor
  · intro mem
    refine ⟨?_, s.kind_of_mem_leaves t mem⟩
    by_cases isString : t.kind = .string
    · rw [s.leaves_of_string isString] at mem
      cases List.mem_singleton.mp mem
      exact .here t
    · rw [s.leaves_of_inside isString] at mem
      obtain ⟨v, isInside, below⟩ := List.mem_flatMap.mp mem
      obtain ⟨⟨more, inner⟩, isLeaf, same⟩ := List.mem_map.mp below
      cases same
      have smaller := size_inside_lt isInside
      exact .into (mem_inside_iff.mp isInside) ((s.mem_leaves_iff v.2).mp isLeaf).1
  · rintro ⟨leads, isString⟩
    induction leads with
    | here t =>
      rw [s.leaves_of_string isString]
      exact List.mem_singleton.mpr rfl
    | @into t u v first rest holds more ih =>
      rw [s.leaves_of_inside (noString_of_holds holds)]
      exact List.mem_flatMap.mpr ⟨(first, u), mem_inside_iff.mpr holds,
        List.mem_map.mpr ⟨(rest, v), ih isString, rfl⟩⟩
termination_by t.size

theorem PlainKeys.inside {s : Source} {t : Tree} {v : List DataStep × Tree}
    (plain : s.PlainKeys t) (mem : v ∈ s.inside t) : s.PlainKeys v.2 := by
  intro n below
  apply plain n
  rw [Tree.nodes_eq]
  exact List.mem_cons_of_mem _ ((s.inside_sublist t).subset (List.mem_flatMap.mpr ⟨v, mem, below⟩))

/-- Steps to different values directly inside a value never meet, whatever follows them. -/
theorem inside_apart {s : Source} {t : Tree} (plain : s.PlainKeys t) :
    (s.inside t).Pairwise fun v w => ∀ rest other, v.1 ++ rest ≠ w.1 ++ other := by
  have single (e : Option Tree) : (e.toList.map (([] : List DataStep), ·)).Pairwise
      fun v w => ∀ rest other, v.1 ++ rest ≠ w.1 ++ other := by
    cases e <;> simp
  unfold Source.inside
  split
  · exact single _
  split
  · exact single _
  split
  -- An object repeats no key, and an array no position; nothing else holds more than one value.
  · rename_i isObject
    have unique : (s.staticKeys t).Pairwise (· ≠ ·) := (plain t t.self_mem_nodes isObject).1
    rw [staticKeys, List.pairwise_filterMap] at unique
    rw [List.pairwise_filterMap]
    refine unique.imp fun {p q} differ v keyed w keyed' rest other => ?_
    obtain ⟨name, static, steps, -⟩ := keyedValue?_cases keyed
    obtain ⟨name', static', steps', -⟩ := keyedValue?_cases keyed'
    rw [steps, steps']
    intro same
    exact differ name static name' static' (by simpa using (List.cons.inj same).1)
  split
  · rw [List.pairwise_map]
    refine ((Tree.elementsFrom_pairwise 0 false t.children).1.filter _).imp ?_
    intro e f before rest other same
    have positions : e.1 = f.1 := by simpa using (List.cons.inj same).1
    omega
  · exact .nil

/-- No two leaves of a value are reached by the same steps. -/
theorem leaves_apart {s : Source} {t : Tree} (plain : s.PlainKeys t) :
    (s.leaves t).Pairwise (·.1 ≠ ·.1) := by
  by_cases isString : t.kind = .string
  · rw [s.leaves_of_string isString]
    exact List.pairwise_singleton _ _
  · rw [s.leaves_of_inside isString, List.pairwise_flatMap]
    constructor
    · intro v mem
      have smaller := size_inside_lt mem
      rw [List.pairwise_map]
      exact (leaves_apart (plain.inside mem)).imp fun differ same =>
        differ (List.append_cancel_left same)
    · refine (inside_apart plain).imp fun {v w} apart x isLeaf y isLeaf' => ?_
      obtain ⟨leaf, -, rfl⟩ := List.mem_map.mp isLeaf
      obtain ⟨leaf', -, rfl⟩ := List.mem_map.mp isLeaf'
      exact apart leaf.1 leaf'.1
termination_by t.size

/-- Steps that lead anywhere in data with plain keys are plain. -/
theorem plain_of_leads {s : Source} {t u : Tree} {steps : List DataStep} (leads : s.Leads t steps u)
    (plain : s.PlainKeys t) : ∀ step ∈ steps, step.Plain := by
  induction leads with
  | here t => simp
  | @into t u v first rest holds more ih =>
    have isInside : (first, u) ∈ s.inside t := mem_inside_iff.mpr holds
    refine List.forall_mem_append.mpr ⟨?_, ih (plain.inside isInside)⟩
    cases holds with
    | parenthesized => simp
    | annotated => simp
    | @keyed property _ name kind mem static _ =>
      have isKey : name ∈ s.staticKeys t := List.mem_filterMap.mpr ⟨property, mem, static⟩
      obtain ⟨filled, noDot, noBracket⟩ := (plain t t.self_mem_nodes kind).2 name isKey
      refine List.forall_mem_singleton.mpr ⟨filled, fun c mem => ?_⟩
      have notDot : c ≠ .scalar '.' := fun same => noDot (same ▸ mem)
      have notBracket : c ≠ .scalar '[' := fun same => noBracket (same ▸ mem)
      simp [DataStep.isPlain, notDot, notBracket]
    | element => exact List.forall_mem_singleton.mpr trivial

/-! ## The law -/

/-- **Paths identify leaves**: in data with plain keys, of which no object has one twice, no two
rows have one path. The path of a row reads back as the steps that lead to a string, the one that
the row is about; they lead to no other string, and no other plain steps have that path. -/
theorem paths_identify (s : Source) (exportName : Text) {value : Tree} (plain : s.PlainKeys value) :
    ((s.literalRows exportName value).map (·.path)).Nodup ∧
    ∀ row ∈ s.literalRows exportName value,
      let steps := DataStep.read row.path
      DataStep.path steps = row.path ∧
      (∃ leaf, s.Leads value steps leaf ∧ leaf.kind = .string ∧ row.text = s.stringValue leaf ∧
        row.span = s.span leaf ∧
        ∀ other, s.Leads value steps other → other.kind = .string → other = leaf) ∧
      ∀ others : List DataStep, (∀ step ∈ others, step.Plain) → DataStep.path others = row.path →
        others = steps := by
  have plainSteps : ∀ leaf ∈ s.leaves value, ∀ step ∈ leaf.1, step.Plain := fun leaf mem =>
    plain_of_leads ((s.mem_leaves_iff value).mp mem).1 plain
  have apart : ((s.leaves value).map Prod.fst).Nodup := List.pairwise_map.mpr (leaves_apart plain)
  rw [s.literalRows_eq]
  constructor
  · rw [List.map_map]
    refine List.pairwise_map.mpr ((leaves_apart plain).imp_of_mem ?_)
    intro leaf other mem mem' differ same
    apply differ
    rw [← DataStep.read_path (plainSteps leaf mem), ← DataStep.read_path (plainSteps other mem')]
    exact congrArg DataStep.read same
  · intro row isRow
    obtain ⟨⟨steps, leaf⟩, mem, rfl⟩ := List.mem_map.mp isRow
    have reads : DataStep.read (s.leafRow exportName [] (steps, leaf)).path = steps :=
      DataStep.read_path (plainSteps _ mem)
    obtain ⟨leads, isString⟩ := (s.mem_leaves_iff value).mp mem
    dsimp only
    rw [reads]
    refine ⟨rfl, ⟨leaf, leads, isString, rfl, rfl, fun other leads' isString' => ?_⟩, ?_⟩
    · have mem' := (s.mem_leaves_iff value).mpr ⟨leads', isString'⟩
      exact congrArg Prod.snd (List.inj_on_of_nodup_map apart mem' mem rfl)
    · intro others plainOthers same
      rw [← DataStep.read_path plainOthers, same]
      exact reads

/-- The law for an object with a list, of which the second element is left out and the third one
stands in parentheses: that one is at `a[2]`. -/
theorem paths_identify_hole :
    let source : Source :=
      { file := "m.js", bytes := (Utf8.encode? "\x7ba:[\"x\",,(\"y\")]\x7d").getD [] }
    let name : Tree := { kind := .propertyIdentifier, named := true, start := 1, stop := 2,
                         fields := [.key], children := [] }
    let x : Tree := { name with kind := .string, start := 4, stop := 7, fields := [] }
    let y : Tree := { x with start := 10, stop := 13 }
    let comma : Tree := { x with kind := .comma, named := false }
    let group : Tree := { x with kind := .parenthesized, start := 9, stop := 14, children := [y] }
    let list : Tree := { x with kind := .array, start := 3, stop := 15, fields := [.value],
                                children := [x, comma, comma, group] }
    let pair : Tree := { x with kind := .pair, start := 1, stop := 15, children := [name, list] }
    let value : Tree := { x with kind := .object, start := 0, stop := 16, children := [pair] }
    let row : LiteralRow Text := ⟨"data", "a[2]", "y", "m.js:1"⟩
    source.PlainKeys value ∧
      source.literalRows "data" value = [⟨"data", "a[0]", "x", "m.js:1"⟩, row] ∧
      ((source.literalRows "data" value).map (·.path)).Nodup ∧
      DataStep.read row.path = [.key "a", .position 2] ∧
      source.Leads value (DataStep.read row.path) y ∧
      (∀ other, source.Leads value (DataStep.read row.path) other → other.kind = .string →
        other = y) ∧
      ∀ steps : List DataStep, (∀ step ∈ steps, step.Plain) → DataStep.path steps = row.path →
        steps = [.key "a", .position 2] := by
  intro source name x y comma group list pair value row
  have plain : source.PlainKeys value := by
    unfold PlainKeys
    decide +kernel
  have rows : source.literalRows "data" value = [⟨"data", "a[0]", "x", "m.js:1"⟩, row] := by
    decide +kernel
  have reads : DataStep.read row.path = [.key "a", .position 2] := by decide +kernel
  obtain ⟨distinct, identified⟩ := source.paths_identify "data" plain
  have isRow : row ∈ source.literalRows "data" value := by simp [rows]
  have toThird : source.Leads value [.key "a", .position 2] y := by
    have static : source.staticKey? pair = some "a" := by decide +kernel
    refine .into (.keyed rfl (List.mem_singleton.mpr rfl) static rfl) ?_
    refine .into (.element rfl (List.mem_cons_of_mem _ List.mem_cons_self) (by decide)) ?_
    exact .into (.parenthesized rfl rfl) (.here y)
  obtain ⟨-, ⟨leaf, -, -, -, -, only⟩, unique⟩ := identified row isRow
  rw [reads] at only unique
  rw [reads]
  refine ⟨plain, rows, distinct, rfl, toThird, fun other leads isString => ?_, unique⟩
  rw [only other leads isString, only y toThird rfl]

end Source

end JsxOrigin
