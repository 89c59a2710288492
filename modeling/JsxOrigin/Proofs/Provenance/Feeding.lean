import JsxOrigin.Proofs.Provenance.Growth

/-!
# What feeds an expression

The value of an expression is made from the values of other expressions: an operator from its
operands, a name from its initializer, a call from its arguments. `Source.FedBy` says from which,
and `Source.Emits` says which origins an expression contributes by itself; both say it kind by kind
and do not mention plans. `Source.Reaches` counts the steps of a way from an expression to one that
feeds it, directly or through others.

**The law** (`Source.follow_mem_plan`, `Source.record_mem_plan`): the plan of an expression follows
exactly the expressions that it is fed by, and records exactly the origins that it emits. A plan
says more than that, in which order and under which guard, and the laws of traces that need no order
need nothing else about plans.
-/

namespace JsxOrigin

/-! ## Kinds of expressions -/

namespace Kind

/-- Whether a node is a name that is looked up. -/
def isName (k : Kind) : Bool := k == .identifier || k == .shorthandProperty || k == .undefined

/-- What a finding says about the value of a literal. -/
def literalValue? : Kind → Option Text
  | .string => some "string"
  | .number => some "number"
  | .trueLiteral | .falseLiteral | .nullLiteral => some "other"
  | _ => none

/-- The fields with the operands of an operator. -/
def operands : Kind → List Field
  | .binary => [.left, .right]
  | .unary | .update => [.argument]
  | .ternary => [.condition, .consequence, .alternative]
  | _ => []

/-- Whether an expression of a kind is understood by traces. -/
def isTraced : Kind → Bool
  | .string | .number | .trueLiteral | .falseLiteral | .nullLiteral => true
  | .identifier | .shorthandProperty | .undefined => true
  | .member | .subscript | .call | .construct | .template => true
  | .binary | .unary | .update | .ternary | .object | .array => true
  | _ => false

end Kind

namespace Tree

/-- The name under which an operator is reported. -/
def operation? (t : Tree) : Option Text :=
  match t.kind with
  | .template => some "template"
  | .binary => some ("binary:" ++ t.operatorName)
  | .unary => some ("unary:" ++ t.operatorName)
  | .update => some "update"
  | .ternary => some "cond"
  | _ => none

/-- Whether a call is a template string with a tag. -/
def isTagged (t : Tree) : Bool := (t.field? .arguments).any (·.kind = .template)

end Tree

/-! ## Feeding -/

namespace Source

variable (s : Source) (bs : Bindings Tree)

/-- **An expression without parentheses around it is fed by another one.** -/
inductive FedBy (x : Tree) : Tree → Prop
  /-- A name is fed by its initializer. -/
  | initializer {b : Binding Tree} {y : Tree} (isName : x.kind.isName = true)
      (bound : bs.lookup (s.text x) = some b) (value : b.init = some y) : FedBy x y
  /-- A member access that reads no variable of the environment is fed by its object. -/
  | object {y : Tree} (isAccess : x.kind.isAccess = true) (noRead : s.environmentKey? x = none)
      (inField : x.field? .object = some y) : FedBy x y
  /-- A member access in brackets is fed by its index as well. -/
  | index {y : Tree} (isSubscript : x.kind = .subscript) (noRead : s.environmentKey? x = none)
      (inField : x.field? .index = some y) : FedBy x y
  /-- A call, of a function without a template or of a constructor, is fed by its arguments, spread
  ones left out. -/
  | argument {list y : Tree} (isCall : x.kind = .call ∧ x.isTagged = false ∨ x.kind = .construct)
      (inField : x.field? .arguments = some list) (mem : y ∈ list.expressions)
      (notSpread : y.kind ≠ .spread) : FedBy x y
  /-- A template string is fed by the expressions in its substitutions. -/
  | substitution {c y : Tree} (isTemplate : x.kind = .template) (child : c ∈ x.namedChildren)
      (isSubstitution : c.kind = .substitution) (mem : y ∈ c.expressions) : FedBy x y
  /-- An operator is fed by its operands. -/
  | operand {f : Field} {y : Tree} (isOperand : f ∈ x.kind.operands)
      (inField : x.field? f = some y) : FedBy x y
  /-- An object literal is fed by the values of its properties, computed keys left out. -/
  | property {p key y : Tree} {name : Text} (isObject : x.kind = .object)
      (child : p ∈ x.namedChildren) (isPair : p.kind = .pair) (hasKey : p.field? .key = some key)
      (isStatic : s.propertyKey? key = some name) (inField : p.field? .value = some y) : FedBy x y
  /-- An object literal is fed by the names that stand for a property and its value. -/
  | shorthand {y : Tree} (isObject : x.kind = .object) (child : y ∈ x.namedChildren)
      (isShorthand : y.kind = .shorthandProperty) : FedBy x y
  /-- An array literal is fed by its elements, spread ones left out. -/
  | element {i : Nat} {y : Tree} (isArray : x.kind = .array) (mem : (i, y) ∈ x.elements)
      (notSpread : y.kind ≠ .spread) : FedBy x y

/-- **An expression is reached from another one** by a number of feeding steps; parentheses around
an expression do not matter. -/
inductive Reaches : Nat → Tree → Tree → Prop
  | here (x : Tree) : Reaches 0 x x
  | step {k : Nat} {x y z : Tree} (fed : s.FedBy bs x.unwrap y) (rest : Reaches k y z) :
      Reaches (k + 1) x z

/-- **What an expression without parentheses around it emits**: the origins that it contributes to a
trace by itself. -/
inductive Emits (x : Tree) : Origin → Prop
  | literal {value : Text} (isLiteral : x.kind.literalValue? = some value) :
      Emits x (.literal (s.span x) value)
  | ident (isName : x.kind.isName = true) : Emits x (.ident (s.text x) (s.span x))
  | init {b : Binding Tree} {y : Tree} (isName : x.kind.isName = true)
      (bound : bs.lookup (s.text x) = some b) (value : b.init = some y) :
      Emits x (.init (s.span y))
  | imported {b : Binding Tree} {i : ImportOrigin} (isName : x.kind.isName = true)
      (bound : bs.lookup (s.text x) = some b) (origin : b.importOrigin = some i) :
      Emits x (.imported i.module i.imported b.definition)
  | env {key : Text} (read : s.environmentKey? x = some key) : Emits x (.env key (s.span x))
  | member (isAccess : x.kind.isAccess = true) (noRead : s.environmentKey? x = none) :
      Emits x (.member (s.span x))
  | callByName {c : Tree} (isCall : x.kind = .call) (plain : x.isTagged = false)
      (callee : x.unwrapped? .function = some c) (isName : c.kind = .identifier) :
      Emits x (.call (s.text c) (s.span x) (s.span c) (bs.definitionOf (s.text c)))
  | callOfMember {c : Tree} (isCall : x.kind = .call) (plain : x.isTagged = false)
      (callee : x.unwrapped? .function = some c) (isAccess : c.kind.isAccess = true) :
      Emits x (.call "<member>" (s.span x) (s.span c) none)
  | callOfOther (isCall : x.kind = .call) (plain : x.isTagged = false)
      (other : ∀ c, x.unwrapped? .function = some c →
        c.kind ≠ .identifier ∧ c.kind.isAccess = false) :
      Emits x (.call "<expr>" (s.span x) (s.span x) none)
  | tagged (isCall : x.kind = .call) (isTagged : x.isTagged = true) :
      Emits x (.unknown (s.span x))
  | ctorByName {c : Tree} (isConstruct : x.kind = .construct)
      (callee : x.unwrapped? .constructor = some c) (isName : c.kind = .identifier) :
      Emits x (.ctor (s.text c) (s.span x))
  | ctorOfOther (isConstruct : x.kind = .construct)
      (other : ∀ c, x.unwrapped? .constructor = some c → c.kind ≠ .identifier) :
      Emits x (.ctor "<expr>" (s.span x))
  | op {operation : Text} (isOperation : x.operation? = some operation) :
      Emits x (.op operation (s.span x))
  | property {p key : Tree} {name : Text} (isObject : x.kind = .object)
      (child : p ∈ x.namedChildren) (isPair : p.kind = .pair) (hasKey : p.field? .key = some key)
      (isStatic : s.propertyKey? key = some name) : Emits x (.objectProp name (s.span key))
  | shorthand {p : Tree} (isObject : x.kind = .object) (child : p ∈ x.namedChildren)
      (isShorthand : p.kind = .shorthandProperty) : Emits x (.objectProp (s.text p) (s.span p))
  | element {i : Nat} {y : Tree} (isArray : x.kind = .array) (mem : (i, y) ∈ x.elements)
      (notSpread : y.kind ≠ .spread) : Emits x (.arrayElem i (s.span y))
  | unknown (isStrange : x.kind.isTraced = false) : Emits x (.unknown (s.span x))

end Source

/-! ## Plans -/

namespace Plan

/-- All steps of a plan, those that are set apart last. -/
def all (p : Plan) : List Step := p.steps ++ (p.once.map Prod.snd).getD []

@[simp] theorem all_plain (steps : List Step) : all { steps } = steps := List.append_nil steps

end Plan

namespace Step

variable {t y : Tree} {f : Field} {o : Origin} {arguments : Option Tree}

@[simp] theorem follow_mem_followField : follow y ∈ followField t f ↔ t.field? f = some y := by
  simp [followField]

@[simp] theorem record_not_mem_followField : record o ∉ followField t f := by
  simp [followField]

@[simp] theorem follow_mem_followArguments : follow y ∈ followArguments arguments ↔
    ∃ list, arguments = some list ∧ y ∈ list.expressions ∧ y.kind ≠ .spread := by
  cases arguments <;> simp [followArguments]

@[simp] theorem record_not_mem_followArguments : record o ∉ followArguments arguments := by
  cases arguments <;> simp [followArguments]

end Step

namespace Source

variable (s : Source) (bs : Bindings Tree) {x y p : Tree} {o : Origin} {name : Text}

theorem plan_of_isName (isName : x.kind.isName = true) : s.plan bs x = s.namePlan bs x := by
  simp only [Kind.isName, Bool.or_eq_true, beq_iff_eq] at isName
  rcases isName with (kind | kind) | kind <;> simp only [plan, kind]

theorem plan_of_isAccess (isAccess : x.kind.isAccess = true) :
    s.plan bs x = { steps := s.accessSteps x } := by
  simp only [Kind.isAccess, Bool.or_eq_true, beq_iff_eq] at isAccess
  rcases isAccess with kind | kind <;> simp only [plan, kind]

@[simp] theorem all_namePlan : (s.namePlan bs x).all =
    .record (.ident (s.text x) (s.span x)) :: s.expansion bs (s.text x) := rfl

/-! ### What is followed -/

@[simp] theorem follow_mem_expansion : .follow y ∈ s.expansion bs name ↔
    ∃ b, bs.lookup name = some b ∧ b.init = some y := by
  unfold expansion
  cases bs.lookup name with
  | none => simp
  | some b =>
    cases init : b.init <;> cases origin : b.importOrigin <;> simp [init, origin, eq_comm]

@[simp] theorem follow_mem_accessSteps : .follow y ∈ s.accessSteps x ↔
    s.environmentKey? x = none ∧
      (x.field? .object = some y ∨ x.kind = .subscript ∧ x.field? .index = some y) := by
  unfold accessSteps
  cases s.environmentKey? x with
  | some key => simp
  | none => by_cases isSubscript : x.kind = .subscript <;> simp [isSubscript]

@[simp] theorem follow_mem_callSteps : .follow y ∈ s.callSteps bs x ↔ x.isTagged = false ∧
    ∃ list, x.field? .arguments = some list ∧ y ∈ list.expressions ∧ y.kind ≠ .spread := by
  show Step.follow y ∈ (if x.isTagged = true then _ else _) ↔ _
  cases x.isTagged <;> simp

@[simp] theorem follow_mem_propertySteps : .follow y ∈ s.propertySteps p ↔
    (p.kind = .pair ∧ ∃ key name, p.field? .key = some key ∧ s.propertyKey? key = some name ∧
      p.field? .value = some y) ∨ p.kind = .shorthandProperty ∧ y = p := by
  unfold propertySteps
  split
  case h_1 isPair =>
    cases p.field? .key with
    | none => simp [isPair]
    | some key => cases isStatic : s.propertyKey? key <;> simp [isPair, isStatic]
  case h_2 isShorthand => simp [isShorthand]
  case h_3 noPair noShorthand =>
    simp [show p.kind ≠ .pair from noPair, show p.kind ≠ .shorthandProperty from noShorthand]

@[simp] theorem follow_mem_arraySteps : .follow y ∈ s.arraySteps x ↔
    ∃ i, (i, y) ∈ x.elements ∧ y.kind ≠ .spread := by
  simp [arraySteps]

/-- What a plan follows feeds the expression. -/
theorem fedBy_of_mem_plan (mem : .follow y ∈ (s.plan bs x).all) : s.FedBy bs x y := by
  unfold plan at mem
  split at mem
  case h_6 kind | h_7 kind | h_8 kind =>
    obtain ⟨b, bound, value⟩ : ∃ b, bs.lookup (s.text x) = some b ∧ b.init = some y := by
      simpa using mem
    exact .initializer (by rw [kind]; rfl) bound value
  case h_9 kind | h_10 kind =>
    rw [Plan.all_plain, follow_mem_accessSteps] at mem
    obtain ⟨noRead, object | ⟨isSubscript, index⟩⟩ := mem
    · exact .object (by rw [kind]; rfl) noRead object
    · exact .index isSubscript noRead index
  case h_11 kind =>
    rw [Plan.all_plain, follow_mem_callSteps] at mem
    obtain ⟨plain, list, inField, mem, notSpread⟩ := mem
    exact .argument (.inl ⟨kind, plain⟩) inField mem notSpread
  case h_12 kind =>
    obtain ⟨list, inField, mem, notSpread⟩ : ∃ list, x.field? .arguments = some list ∧
        y ∈ list.expressions ∧ y.kind ≠ .spread := by
      simpa [constructSteps] using mem
    exact .argument (.inr kind) inField mem notSpread
  case h_13 kind =>
    obtain ⟨c, ⟨child, isSubstitution⟩, mem⟩ : ∃ c, (c ∈ x.namedChildren ∧
        c.kind = .substitution) ∧ y ∈ c.expressions := by
      simpa [templateSteps] using mem
    exact .substitution kind child isSubstitution mem
  case h_14 kind =>
    have inField : x.field? .left = some y ∨ x.field? .right = some y := by simpa using mem
    rcases inField with inField | inField <;> exact .operand (by rw [kind]; decide) inField
  case h_15 kind | h_16 kind =>
    have inField : x.field? .argument = some y := by simpa using mem
    exact .operand (by rw [kind]; decide) inField
  case h_17 kind =>
    have inField : x.field? .condition = some y ∨ x.field? .consequence = some y ∨
        x.field? .alternative = some y := by
      simpa using mem
    rcases inField with inField | inField | inField <;>
      exact .operand (by rw [kind]; decide) inField
  case h_18 kind =>
    rw [Plan.all_plain] at mem
    obtain ⟨p, child, mem⟩ := List.mem_flatMap.mp mem
    rw [follow_mem_propertySteps] at mem
    obtain ⟨isPair, key, name, hasKey, isStatic, inField⟩ | ⟨isShorthand, rfl⟩ := mem
    · exact .property kind child isPair hasKey isStatic inField
    · exact .shorthand kind child isShorthand
  case h_19 kind =>
    rw [Plan.all_plain, follow_mem_arraySteps] at mem
    obtain ⟨i, mem, notSpread⟩ := mem
    exact .element kind mem notSpread
  -- literals and expressions that are not understood follow nothing
  all_goals simp at mem

/-- What feeds an expression is followed by its plan. -/
theorem mem_plan_of_fedBy (fed : s.FedBy bs x y) : .follow y ∈ (s.plan bs x).all := by
  cases fed with
  | initializer isName bound value =>
    rw [s.plan_of_isName bs isName, all_namePlan]
    exact List.mem_cons_of_mem _ ((s.follow_mem_expansion bs).mpr ⟨_, bound, value⟩)
  | object isAccess noRead inField => simp [s.plan_of_isAccess bs isAccess, noRead, inField]
  | index isSubscript noRead inField => simp [plan, isSubscript, noRead, inField]
  | argument isCall inField mem notSpread =>
    rcases isCall with ⟨isCall, plain⟩ | isConstruct
    · simp [plan, isCall, plain, inField, mem, notSpread]
    · simp [plan, isConstruct, constructSteps, inField, mem, notSpread]
  | substitution isTemplate child isSubstitution mem =>
    simp only [plan, isTemplate, Plan.all_plain, templateSteps]
    apply List.mem_cons_of_mem
    refine List.mem_flatMap.mpr ⟨_, List.mem_filter.mpr ⟨child, ?_⟩, List.mem_map_of_mem mem⟩
    exact decide_eq_true isSubstitution
  | operand isOperand inField =>
    unfold Kind.operands at isOperand
    split at isOperand
    case h_5 => cases isOperand
    all_goals
      rename_i kind
      simp only [List.mem_cons, List.not_mem_nil, or_false] at isOperand
    · rcases isOperand with rfl | rfl <;> simp [plan, kind, inField]
    · simp [plan, kind, isOperand ▸ inField]
    · simp [plan, kind, isOperand ▸ inField]
    · rcases isOperand with rfl | rfl | rfl <;> simp [plan, kind, inField]
  | property isObject child isPair hasKey isStatic inField =>
    simp only [plan, isObject, Plan.all_plain]
    refine List.mem_flatMap.mpr ⟨_, child, ?_⟩
    exact (s.follow_mem_propertySteps).mpr (.inl ⟨isPair, _, _, hasKey, isStatic, inField⟩)
  | shorthand isObject child isShorthand =>
    simp only [plan, isObject, Plan.all_plain]
    refine List.mem_flatMap.mpr ⟨_, child, ?_⟩
    exact (s.follow_mem_propertySteps).mpr (.inr ⟨isShorthand, rfl⟩)
  | element isArray mem notSpread =>
    simp only [plan, isArray, Plan.all_plain, follow_mem_arraySteps]
    exact ⟨_, mem, notSpread⟩

/-- **A plan follows exactly what feeds the expression.** -/
theorem follow_mem_plan : .follow y ∈ (s.plan bs x).all ↔ s.FedBy bs x y :=
  ⟨s.fedBy_of_mem_plan bs, s.mem_plan_of_fedBy bs⟩

/-! ### What is recorded -/

@[simp] theorem record_mem_expansion : .record o ∈ s.expansion bs name ↔
    ∃ b, bs.lookup name = some b ∧ ((∃ y, b.init = some y ∧ o = .init (s.span y)) ∨
      ∃ i, b.importOrigin = some i ∧ o = .imported i.module i.imported b.definition) := by
  unfold expansion
  cases bs.lookup name with
  | none => simp
  | some b => cases init : b.init <;> cases origin : b.importOrigin <;> simp [init, origin]

@[simp] theorem record_mem_accessSteps : .record o ∈ s.accessSteps x ↔
    (∃ key, s.environmentKey? x = some key ∧ o = .env key (s.span x)) ∨
      s.environmentKey? x = none ∧ o = .member (s.span x) := by
  unfold accessSteps
  cases s.environmentKey? x with
  | some key => simp
  | none => by_cases isSubscript : x.kind = .subscript <;> simp [isSubscript]

@[simp] theorem record_mem_callSteps : .record o ∈ s.callSteps bs x ↔
    (x.isTagged = true ∧ o = .unknown (s.span x)) ∨
      x.isTagged = false ∧ o = s.callOrigin bs x := by
  show Step.record o ∈ (if x.isTagged = true then _ else _) ↔ _
  cases x.isTagged <;> simp

@[simp] theorem record_mem_templateSteps : .record o ∈ s.templateSteps x ↔
    o = .op "template" (s.span x) := by
  simp [templateSteps]

@[simp] theorem record_mem_propertySteps : .record o ∈ s.propertySteps p ↔
    (p.kind = .pair ∧ ∃ key name, p.field? .key = some key ∧ s.propertyKey? key = some name ∧
      o = .objectProp name (s.span key)) ∨
    p.kind = .shorthandProperty ∧ o = .objectProp (s.text p) (s.span p) := by
  unfold propertySteps
  split
  case h_1 isPair =>
    cases p.field? .key with
    | none => simp [isPair]
    | some key => cases isStatic : s.propertyKey? key <;> simp [isPair, isStatic]
  case h_2 isShorthand => simp [isShorthand]
  case h_3 noPair noShorthand =>
    simp [show p.kind ≠ .pair from noPair, show p.kind ≠ .shorthandProperty from noShorthand]

@[simp] theorem record_mem_arraySteps : .record o ∈ s.arraySteps x ↔
    ∃ i y, ((i, y) ∈ x.elements ∧ y.kind ≠ .spread) ∧ o = .arrayElem i (s.span y) := by
  simp [arraySteps]

/-- The origin of a call is what a call emits that is no template with a tag. -/
theorem emits_callOrigin (isCall : x.kind = .call) (plain : x.isTagged = false) :
    s.Emits bs x (s.callOrigin bs x) := by
  unfold callOrigin
  split
  · rename_i c callee
    split
    · rename_i isName
      exact .callByName isCall plain callee isName
    · rename_i noName
      split
      · rename_i isAccess
        exact .callOfMember isCall plain callee isAccess
      · rename_i noAccess
        refine .callOfOther isCall plain ?_
        intro c' callee'
        rw [callee] at callee'
        cases callee'
        exact ⟨noName, Bool.not_eq_true _ ▸ noAccess⟩
  · rename_i noCallee
    refine .callOfOther isCall plain ?_
    intro c callee
    rw [noCallee] at callee
    cases callee

/-- The origin of a constructor call is what it emits. -/
theorem emits_of_constructSteps (isConstruct : x.kind = .construct)
    (mem : .record o ∈ s.constructSteps x) : s.Emits bs x o := by
  unfold constructSteps at mem
  rcases List.mem_cons.mp mem with same | later
  · cases same
    split
    · rename_i c callee
      split
      · rename_i isName
        exact .ctorByName isConstruct callee isName
      · rename_i noName
        refine .ctorOfOther isConstruct ?_
        intro c' callee'
        rw [callee] at callee'
        cases callee'
        exact noName
    · rename_i noCallee
      refine .ctorOfOther isConstruct ?_
      intro c callee
      rw [noCallee] at callee
      cases callee
  · exact absurd later Step.record_not_mem_followArguments

/-- What a plan records is what the expression emits. -/
theorem emits_of_mem_plan (mem : .record o ∈ (s.plan bs x).all) : s.Emits bs x o := by
  unfold plan at mem
  split at mem
  case h_1 kind | h_2 kind | h_3 kind | h_4 kind | h_5 kind =>
    obtain rfl : o = .literal (s.span x) _ := by simpa using mem
    exact .literal (by rw [kind]; rfl)
  case h_6 kind | h_7 kind | h_8 kind =>
    have isName : x.kind.isName = true := by rw [kind]; rfl
    rw [all_namePlan] at mem
    rcases List.mem_cons.mp mem with same | mem
    · cases same
      exact .ident isName
    · obtain ⟨b, bound, ⟨y, value, rfl⟩ | ⟨i, origin, rfl⟩⟩ := (s.record_mem_expansion bs).mp mem
      · exact .init isName bound value
      · exact .imported isName bound origin
  case h_9 kind | h_10 kind =>
    rw [Plan.all_plain, record_mem_accessSteps] at mem
    obtain ⟨key, read, rfl⟩ | ⟨noRead, rfl⟩ := mem
    · exact .env read
    · exact .member (by rw [kind]; rfl) noRead
  case h_11 kind =>
    rw [Plan.all_plain, record_mem_callSteps] at mem
    obtain ⟨isTagged, rfl⟩ | ⟨plain, rfl⟩ := mem
    · exact .tagged kind isTagged
    · exact s.emits_callOrigin bs kind plain
  case h_12 kind => exact s.emits_of_constructSteps bs kind (by simpa using mem)
  case h_13 kind | h_14 kind | h_15 kind | h_16 kind | h_17 kind =>
    obtain rfl : o = .op _ (s.span x) := by simpa using mem
    exact .op (by rw [Tree.operation?, kind])
  case h_18 kind =>
    rw [Plan.all_plain] at mem
    obtain ⟨p, child, mem⟩ := List.mem_flatMap.mp mem
    rw [record_mem_propertySteps] at mem
    obtain ⟨isPair, key, name, hasKey, isStatic, rfl⟩ | ⟨isShorthand, rfl⟩ := mem
    · exact .property kind child isPair hasKey isStatic
    · exact .shorthand kind child isShorthand
  case h_19 kind =>
    rw [Plan.all_plain, record_mem_arraySteps] at mem
    obtain ⟨i, y, ⟨mem, notSpread⟩, rfl⟩ := mem
    exact .element kind mem notSpread
  case h_20 =>
    obtain rfl : o = .unknown (s.span x) := by simpa using mem
    refine .unknown ?_
    unfold Kind.isTraced
    split <;> first | rfl | contradiction

theorem kind_of_environmentKey? {key : Text} (read : s.environmentKey? x = some key) :
    x.kind = .member := by
  by_cases isMember : x.kind = .member
  · exact isMember
  · unfold environmentKey? guard at read
    rw [if_neg isMember] at read
    cases read

/-- What an expression emits is recorded by its plan. -/
theorem mem_plan_of_emits (emits : s.Emits bs x o) : .record o ∈ (s.plan bs x).all := by
  cases emits with
  | literal isLiteral =>
    unfold Kind.literalValue? at isLiteral
    split at isLiteral <;> cases isLiteral <;> rename_i kind <;> simp [plan, kind]
  | ident isName => simp [s.plan_of_isName bs isName]
  | init isName bound value =>
    rw [s.plan_of_isName bs isName, all_namePlan]
    apply List.mem_cons_of_mem
    exact (s.record_mem_expansion bs).mpr ⟨_, bound, .inl ⟨_, value, rfl⟩⟩
  | imported isName bound origin =>
    rw [s.plan_of_isName bs isName, all_namePlan]
    apply List.mem_cons_of_mem
    exact (s.record_mem_expansion bs).mpr ⟨_, bound, .inr ⟨_, origin, rfl⟩⟩
  | env read =>
    have isAccess : x.kind.isAccess = true := by rw [s.kind_of_environmentKey? read]; rfl
    simp [s.plan_of_isAccess bs isAccess, read]
  | member isAccess noRead => simp [s.plan_of_isAccess bs isAccess, noRead]
  | callByName isCall plain callee isName =>
    simp [plan, isCall, plain, callOrigin, callee, isName]
  | @callOfMember c isCall plain callee isAccess =>
    have noName : c.kind ≠ .identifier := by
      intro isName
      rw [isName] at isAccess
      cases isAccess
    simp [plan, isCall, plain, callOrigin, callee, noName, isAccess]
  | callOfOther isCall plain other =>
    cases callee : x.unwrapped? .function with
    | none => simp [plan, isCall, plain, callOrigin, callee]
    | some c =>
      obtain ⟨noName, noAccess⟩ := other c callee
      simp [plan, isCall, plain, callOrigin, callee, noName, noAccess]
  | tagged isCall isTagged => simp [plan, isCall, isTagged]
  | ctorByName isConstruct callee isName => simp [plan, isConstruct, constructSteps, callee, isName]
  | ctorOfOther isConstruct other =>
    cases callee : x.unwrapped? .constructor with
    | none => simp [plan, isConstruct, constructSteps, callee]
    | some c => simp [plan, isConstruct, constructSteps, callee, other c callee]
  | op isOperation =>
    unfold Tree.operation? at isOperation
    split at isOperation <;> cases isOperation <;> rename_i kind <;> simp [plan, kind]
  | property isObject child isPair hasKey isStatic =>
    simp only [plan, isObject, Plan.all_plain]
    refine List.mem_flatMap.mpr ⟨_, child, ?_⟩
    exact (s.record_mem_propertySteps).mpr (.inl ⟨isPair, _, _, hasKey, isStatic, rfl⟩)
  | shorthand isObject child isShorthand =>
    simp only [plan, isObject, Plan.all_plain]
    refine List.mem_flatMap.mpr ⟨_, child, ?_⟩
    exact (s.record_mem_propertySteps).mpr (.inr ⟨isShorthand, rfl⟩)
  | element isArray mem notSpread =>
    simp only [plan, isArray, Plan.all_plain, record_mem_arraySteps]
    exact ⟨_, _, ⟨mem, notSpread⟩, rfl⟩
  | unknown isStrange =>
    unfold plan
    split
    case h_20 => simp
    all_goals
      rename_i kind
      rw [kind] at isStrange
      cases isStrange

/-- **A plan records exactly what the expression emits.** -/
theorem record_mem_plan : .record o ∈ (s.plan bs x).all ↔ s.Emits bs x o :=
  ⟨s.emits_of_mem_plan bs, s.mem_plan_of_emits bs⟩

end Source

end JsxOrigin
