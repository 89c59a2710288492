import JsxOrigin.ModuleGraph.Collect
import JsxOrigin.Proofs.Syntax.Walk
import JsxOrigin.Proofs.Table

/-!
# Bindings and graphs agree

The bindings of a module and the tables of its graph are collected in two passes, which enter
different nodes and look for declarations in different places. A declared variable is found at its
declarator by the one pass and at the declaration around it by the other; of two declarations of a
name the one pass keeps the last and the other both.

**The law** (`Source.bindings_agree`): whatever the tree, the graph lists no import and no variable
or function that has no binding. If the tree is conventional (`Tree.IsConventional`), the bindings
are exactly the names that the graph lists, and what a binding tells about an import is the last row
for its name.

Both passes come down to what single nodes declare. What a node contributes to the imports is what
it declares, read as rows (`Source.importRows_eq`), and in a conventional tree the nodes that only
one pass visits declare nothing (`Source.declarations_eq`).
-/

namespace JsxOrigin

/-! ## Conventional trees -/

/-- Whether a node declares names in the bindings of a module. -/
def Kind.declaresNames (k : Kind) : Bool :=
  k == .importStatement || k == .declarator || k.declaresFunction

/-- **A conventional tree**: declarations stand where a grammar puts them. -/
structure Tree.IsConventional (root : Tree) : Prop where
  /-- The tree is more than a declarator. -/
  notDeclarator : root.kind ≠ .declarator
  /-- Every declarator is a named child of a declaration of variables. -/
  declarators : ∀ n ∈ root.nodes, ∀ c ∈ n.children, c.kind = .declarator →
    c.named = true ∧ n.kind.declaresVariables = true
  /-- A re-export declares nothing. -/
  reexports : ∀ n ∈ root.nodes, n.kind = .exportStatement → (n.field? .source).isSome = true →
    ∀ m ∈ n.nodes, m.kind.declaresNames = false
  /-- A value that is exported by default is no function or class expression with a name. -/
  defaults : ∀ n ∈ root.nodes, n.kind = .exportStatement → n.isDefaultExport = true →
    ∀ v, n.exportForm = .value v → v.kind.isNameable = true → v.field? .name = none

/-- The row of an import that a binding tells about. -/
def Binding.importRow? {ι : Type} (b : Binding ι) : Option (ImportRow Text) :=
  b.importOrigin.map fun o => ⟨b.name, o.imported, o.module, b.definition⟩

namespace Source

open JsxOrigin.Tree

variable (s : Source) {root t : Tree}

/-! ## What the bindings are collected from -/

/-- What the nodes of a module declare, in document order. -/
def declarations (root : Tree) : List (Binding Tree) :=
  (walk (·.kind ≠ .importStatement) [root]).flatMap s.declared

theorem bindings_eq_ofList (root : Tree) :
    s.bindings root = Table.ofList ((s.declarations root).map fun b => (b.name, b)) := by
  rw [Table.ofList, List.foldl_map]
  rfl

/-- The binding of a name is its last declaration. -/
theorem lookup_bindings (root : Tree) (name : Text) :
    (s.bindings root).lookup name = ((s.declarations root).filter (·.name = name)).getLast? := by
  rw [bindings_eq_ofList, Bindings.lookup, Table.get?_ofList, List.filter_map, List.getLast?_map,
    Option.map_map]
  exact Option.map_id_apply

theorem mem_keys_bindings {name : Text} :
    name ∈ (s.bindings root).keys ↔ ∃ b ∈ s.declarations root, b.name = name := by
  have looked : (Table.get? name (s.bindings root)).isSome =
      ((s.declarations root).filter (·.name = name)).getLast?.isSome :=
    congrArg Option.isSome (s.lookup_bindings root name)
  rw [Table.mem_keys_iff, looked, List.getLast?_isSome, ← List.isEmpty_eq_false_iff]
  simp

/-! ## What single nodes contribute -/

/-- **What a node can declare**: a variable, a function, or imports. -/
theorem declared_cases {b : Binding Tree} (declares : b ∈ s.declared t) :
    (t.kind = .declarator ∧ ∃ name, t.field? .name = some name ∧ name.kind = .identifier ∧
      b = { name := s.text name, definition := s.span name, init := t.field? .value }) ∨
    (t.kind.declaresFunction = true ∧ ∃ name, t.field? .name = some name ∧
      b = { name := s.text name, definition := s.span name,
            body := (t.field? .body).map fun (body : Tree) => s.span body }) ∨
    (t.kind = .importStatement ∧ ∃ row ∈ s.importRows t, b.importRow? = some row) := by
  unfold declared at declares
  split at declares
  case h_1 isDeclarator =>
    split at declares
    · rename_i name named
      split at declares
      · rename_i isName
        exact .inl ⟨isDeclarator, name, named, isName, List.mem_singleton.mp declares⟩
      · cases declares
    · cases declares
  case h_2 isFunction | h_3 isFunction =>
    split at declares
    · rename_i name named
      exact .inr (.inl ⟨by rw [isFunction]; rfl, name, named, List.mem_singleton.mp declares⟩)
    · cases declares
  case h_4 isImport =>
    split at declares
    · rename_i source inField
      obtain ⟨⟨n, imported⟩, listed, rfl⟩ := List.mem_map.mp declares
      refine .inr (.inr ⟨isImport, _, ?_, rfl⟩)
      simp only [importRows, isImport, inField]
      exact List.mem_map.mpr ⟨(n, imported), listed, rfl⟩
    · cases declares
  case h_5 => cases declares

theorem declared_eq_nil (silent : t.kind.declaresNames = false) : s.declared t = [] := by
  apply List.eq_nil_iff_forall_not_mem.mpr
  intro b declares
  rcases s.declared_cases declares with ⟨kind, -⟩ | ⟨kind, -⟩ | ⟨kind, -⟩ <;>
    simp [Kind.declaresNames, kind] at silent

theorem declared_of_declarator {name : Tree} (kind : t.kind = .declarator)
    (named : t.field? .name = some name) (isName : name.kind = .identifier) :
    ∃ b ∈ s.declared t, b.name = s.text name := by
  simp only [declared, kind, named, isName, if_true]
  exact ⟨_, List.mem_singleton_self _, rfl⟩

theorem declared_of_function {name : Tree} (kind : t.kind.declaresFunction = true)
    (named : t.field? .name = some name) : ∃ b ∈ s.declared t, b.name = s.text name := by
  simp only [Kind.declaresFunction, Bool.or_eq_true, beq_iff_eq] at kind
  rcases kind with kind | kind <;> simp only [declared, kind, named] <;>
    exact ⟨_, List.mem_singleton_self _, rfl⟩

/-- **Imports.** The import rows of a node are what it declares, read as rows. -/
theorem importRows_eq (t : Tree) :
    s.importRows t = (s.declared t).filterMap Binding.importRow? := by
  by_cases isImport : t.kind = .importStatement
  · simp only [importRows, declared, isImport]
    cases t.field? .source with
    | none => rfl
    | some source => simp [List.filterMap_map, Function.comp_def, Binding.importRow?]
  · have noRows : s.importRows t = [] := by
      unfold importRows
      split
      · contradiction
      · rfl
    rw [noRows]
    apply Eq.symm
    apply List.filterMap_eq_nil_iff.mpr
    intro b declares
    rcases s.declared_cases declares with ⟨-, _, -, -, rfl⟩ | ⟨-, _, -, rfl⟩ | ⟨kind, -⟩
    · rfl
    · rfl
    · contradiction

theorem mem_declaredVariables {name d : Tree} : (name, d) ∈ t.declaredVariables ↔
    d ∈ t.namedChildren ∧ d.kind = .declarator ∧ d.field? .name = some name ∧
      name.kind = .identifier := by
  simp only [declaredVariables, List.mem_filterMap, List.mem_filter, Option.map_eq_some_iff,
    Option.filter_eq_some_iff, decide_eq_true_eq, Prod.mk.injEq]
  constructor
  · rintro ⟨d, ⟨child, kind⟩, name, ⟨named, isName⟩, rfl, rfl⟩
    exact ⟨child, kind, named, isName⟩
  · rintro ⟨child, kind, named, isName⟩
    exact ⟨d, ⟨child, kind⟩, name, ⟨named, isName⟩, rfl, rfl⟩

theorem declarationKeyword_ne_class (t : Tree) : t.declarationKeyword ≠ Text.ofString "class" := by
  unfold declarationKeyword
  split
  · split <;> decide
  · decide

theorem exportStatement_of_defaultDefinition {row : DefRow Text}
    (listed : row ∈ s.defaultDefinition t) : t.kind = .exportStatement := by
  unfold defaultDefinition at listed
  split at listed
  · rename_i isDefault _
    simp only [Bool.and_eq_true, isOwnExport, decide_eq_true_eq] at isDefault
    exact isDefault.1.1
  · cases listed

/-- **What a definition row can come from**: a declared variable, a declared function, a declared
class, or a value that is exported by default. -/
theorem defRows_cases {row : DefRow Text} (listed : row ∈ s.defRows t) :
    (t.kind.declaresVariables = true ∧ ∃ name d, (name, d) ∈ t.declaredVariables ∧
      row.localName = s.text name) ∨
    (t.kind.declaresFunction = true ∧ ∃ name, t.field? .name = some name ∧
      row.localName = s.text name) ∨
    (t.kind.declaresClass = true ∧ row.kind = Text.ofString "class") ∨
    (t.kind = .exportStatement ∧ row ∈ s.defaultDefinition t) := by
  unfold defRows at listed
  split at listed
  · rename_i kind
    obtain ⟨⟨name, d⟩, declares, rfl⟩ := List.mem_map.mp listed
    exact .inl ⟨kind, name, d, declares, rfl⟩
  · split at listed
    · rename_i kind
      obtain ⟨name, named, rfl⟩ := List.mem_map.mp listed
      exact .inr (.inl ⟨kind, name, Option.mem_toList.mp named, rfl⟩)
    · split at listed
      · rename_i kind
        obtain ⟨name, named, rfl⟩ := List.mem_map.mp listed
        exact .inr (.inr (.inl ⟨kind, rfl⟩))
      · exact .inr (.inr (.inr ⟨s.exportStatement_of_defaultDefinition listed, listed⟩))

theorem defRows_of_variable {name d : Tree} (kind : t.kind.declaresVariables = true)
    (declares : (name, d) ∈ t.declaredVariables) :
    ∃ row ∈ s.defRows t, row.kind ≠ Text.ofString "class" ∧ row.localName = s.text name := by
  rw [defRows, if_pos kind]
  exact ⟨_, List.mem_map.mpr ⟨(name, d), declares, rfl⟩, declarationKeyword_ne_class t, rfl⟩

theorem defRows_of_function {name : Tree} (kind : t.kind.declaresFunction = true)
    (named : t.field? .name = some name) :
    ∃ row ∈ s.defRows t, row.kind ≠ Text.ofString "class" ∧ row.localName = s.text name := by
  have noVariables : t.kind.declaresVariables ≠ true := by
    simp only [Kind.declaresFunction, Bool.or_eq_true, beq_iff_eq] at kind
    rcases kind with kind | kind <;> rw [kind] <;> decide
  have isFunction : Text.ofString "func" ≠ Text.ofString "class" := by decide
  rw [defRows, if_neg noVariables, if_pos kind]
  exact ⟨_, List.mem_map.mpr ⟨name, Option.mem_toList.mpr named, rfl⟩, isFunction, rfl⟩

/-- A conventional tree defines nothing by exporting a value. -/
theorem defaultDefinition_eq_nil (conventional : root.IsConventional) (mem : t ∈ root.nodes) :
    s.defaultDefinition t = [] := by
  unfold defaultDefinition
  split
  · rename_i v isDefault form
    simp only [Bool.and_eq_true, isOwnExport, decide_eq_true_eq] at isDefault
    obtain ⟨⟨kind, -⟩, isDefault⟩ := isDefault
    split
    · rename_i nameable
      rw [conventional.defaults t mem kind isDefault v form nameable]
      rfl
    · rfl
  · rfl

/-! ## Two passes -/

/-- The pass for the graph visits nothing that the pass for the bindings leaves out. -/
theorem entersForGraph_wide (t : Tree) (enters : t.entersForGraph = true) :
    decide (t.kind ≠ .importStatement) = true := by
  simp only [entersForGraph, Bool.not_eq_true', decide_eq_false_iff_not, not_or] at enters
  exact decide_eq_true enters.1

theorem mem_declarations {b : Binding Tree} (visited : t ∈ walk entersForGraph [root])
    (declares : b ∈ s.declared t) : b ∈ s.declarations root :=
  List.mem_flatMap.mpr ⟨t, walk_subset entersForGraph_wide [root] visited, declares⟩

theorem entersForGraph_of_declaresVariables (kind : t.kind.declaresVariables = true) :
    t.entersForGraph = true := by
  simp only [Kind.declaresVariables, Bool.or_eq_true, beq_iff_eq] at kind
  rcases kind with kind | kind <;> simp [entersForGraph, kind]

/-- The pass for the graph visits the variables of a declaration that it visits. -/
theorem visits_declarator {d name : Tree} (visited : t ∈ walk entersForGraph [root])
    (kind : t.kind.declaresVariables = true) (declares : (name, d) ∈ t.declaredVariables) :
    d ∈ walk entersForGraph [root] :=
  mem_walk_of_namedChild visited (entersForGraph_of_declaresVariables kind)
    (mem_declaredVariables.mp declares).1

/-- **In a conventional tree both passes meet the same declarations**, since a re-export is the only
kind of node that the pass for the bindings enters and the other one does not. -/
theorem declarations_eq (conventional : root.IsConventional) :
    s.declarations root = (walk entersForGraph [root]).flatMap s.declared := by
  refine flatMap_walk_eq s.declared entersForGraph_wide [root] ?_
  intro t visited passes enters n inside
  have mem := mem_nodes_of_mem_walk_root visited
  simp only [entersForGraph, Bool.not_eq_false', decide_eq_true_eq] at passes enters
  obtain ⟨isExport, hasSource⟩ := passes.resolve_left enters
  exact s.declared_eq_nil (conventional.reexports t mem isExport hasSource n inside)

/-- A declarator that is visited in a conventional tree is a variable of a declaration that is
visited. -/
theorem declaration_of_declarator (conventional : root.IsConventional) {d name : Tree}
    (visited : d ∈ walk entersForGraph [root]) (kind : d.kind = .declarator)
    (named : d.field? .name = some name) (isName : name.kind = .identifier) :
    ∃ t ∈ walk entersForGraph [root], t.kind.declaresVariables = true ∧
      (name, d) ∈ t.declaredVariables := by
  rcases mem_walk_cases visited with isRoot | ⟨t, visitedParent, -, child⟩
  · obtain rfl := List.mem_singleton.mp isRoot
    exact absurd kind conventional.notDeclarator
  · have mem := mem_nodes_of_mem_walk_root visitedParent
    have declares := (conventional.declarators t mem d (List.mem_filter.mp child).1 kind).2
    exact ⟨t, visitedParent, declares, mem_declaredVariables.mpr ⟨child, kind, named, isName⟩⟩

/-! ## The graph lists what is bound -/

theorem bound_of_importRow {row : ImportRow Text}
    (listed : row ∈ (s.moduleGraph root).imports) : row.localName ∈ (s.bindings root).keys := by
  obtain ⟨t, visited, listed⟩ := List.mem_flatMap.mp listed
  rw [importRows_eq] at listed
  obtain ⟨b, declares, isRow⟩ := List.mem_filterMap.mp listed
  obtain ⟨o, -, rfl⟩ := Option.map_eq_some_iff.mp isRow
  exact s.mem_keys_bindings.mpr ⟨b, s.mem_declarations visited declares, rfl⟩

theorem bound_of_defRow (visited : t ∈ walk entersForGraph [root])
    (kind : t.kind.declaresVariables = true ∨ t.kind.declaresFunction = true) {row : DefRow Text}
    (listed : row ∈ s.defRows t) : row.localName ∈ (s.bindings root).keys := by
  rw [mem_keys_bindings]
  simp only [Kind.declaresVariables, Kind.declaresFunction, Bool.or_eq_true, beq_iff_eq] at kind
  rcases s.defRows_cases listed with ⟨isVariables, name, d, declares, same⟩ |
    ⟨isFunction, name, named, same⟩ | ⟨isClass, -⟩ | ⟨isExport, -⟩
  · obtain ⟨-, isDeclarator, named, isName⟩ := mem_declaredVariables.mp declares
    obtain ⟨b, declared, named⟩ := s.declared_of_declarator isDeclarator named isName
    have visitedToo := visits_declarator visited isVariables declares
    exact ⟨b, s.mem_declarations visitedToo declared, named.trans same.symm⟩
  · obtain ⟨b, declares, isName⟩ := s.declared_of_function isFunction named
    exact ⟨b, s.mem_declarations visited declares, isName.trans same.symm⟩
  · simp only [Kind.declaresClass, Bool.or_eq_true, beq_iff_eq] at isClass
    rcases isClass with isClass | isClass <;> simp [isClass] at kind
  · simp [isExport] at kind

/-! ## What is bound is listed -/

/-- In a conventional tree, what is declared is in the graph. -/
theorem listed_of_declared (conventional : root.IsConventional) {b : Binding Tree}
    (declares : b ∈ s.declarations root) :
    (∃ row ∈ (s.moduleGraph root).imports, row.localName = b.name) ∨
      ∃ row ∈ (s.moduleGraph root).defs,
        row.kind ≠ Text.ofString "class" ∧ row.localName = b.name := by
  rw [s.declarations_eq conventional] at declares
  obtain ⟨t, visited, declares⟩ := List.mem_flatMap.mp declares
  rcases s.declared_cases declares with ⟨kind, name, named, isName, rfl⟩ |
    ⟨kind, name, named, rfl⟩ | ⟨kind, row, listed, isRow⟩
  · obtain ⟨p, visitedToo, isVariables, listedVariable⟩ :=
      declaration_of_declarator conventional visited kind named isName
    obtain ⟨row, listed, isRow⟩ := s.defRows_of_variable isVariables listedVariable
    exact .inr ⟨row, List.mem_flatMap.mpr ⟨p, visitedToo, listed⟩, isRow⟩
  · obtain ⟨row, listed, isRow⟩ := s.defRows_of_function kind named
    exact .inr ⟨row, List.mem_flatMap.mpr ⟨t, visited, listed⟩, isRow⟩
  · obtain ⟨o, -, rfl⟩ := Option.map_eq_some_iff.mp isRow
    exact .inl ⟨_, List.mem_flatMap.mpr ⟨t, visited, listed⟩, rfl⟩

/-- In a conventional tree, what the graph defines is bound, but for classes. -/
theorem bound_of_def (conventional : root.IsConventional) {row : DefRow Text}
    (listed : row ∈ (s.moduleGraph root).defs) (noClass : row.kind ≠ Text.ofString "class") :
    row.localName ∈ (s.bindings root).keys := by
  obtain ⟨t, visited, listed⟩ := List.mem_flatMap.mp listed
  rcases s.defRows_cases listed with ⟨isVariables, -⟩ | ⟨isFunction, -⟩ | ⟨-, isClass⟩ |
    ⟨-, isDefault⟩
  · exact s.bound_of_defRow visited (.inl isVariables) listed
  · exact s.bound_of_defRow visited (.inr isFunction) listed
  · exact absurd isClass noClass
  · rw [s.defaultDefinition_eq_nil conventional (mem_nodes_of_mem_walk_root visited)] at isDefault
    cases isDefault

/-! ## Imports -/

/-- In a conventional tree, the import rows are what is declared, read as rows. -/
theorem imports_eq (conventional : root.IsConventional) :
    (s.moduleGraph root).imports = (s.declarations root).filterMap Binding.importRow? := by
  rw [s.declarations_eq conventional, List.filterMap_flatMap]
  show (walk entersForGraph [root]).flatMap s.importRows = _
  exact congrArg (List.flatMap · _) (funext s.importRows_eq)

/-- The rows for a name are those of its declarations. -/
theorem filter_importRows (name : Text) (bs : List (Binding Tree)) :
    (bs.filterMap Binding.importRow?).filter (·.localName = name) =
      (bs.filter (·.name = name)).filterMap Binding.importRow? := by
  induction bs with
  | nil => rfl
  | cons b bs ih =>
    cases origin : b.importOrigin with
    | none =>
      have noRow : b.importRow? = none := by rw [Binding.importRow?, origin]; rfl
      by_cases same : b.name = name <;> simp [noRow, same, ih]
    | some o =>
      have isRow : b.importRow? = some ⟨b.name, o.imported, o.module, b.definition⟩ := by
        rw [Binding.importRow?, origin]
        rfl
      by_cases same : b.name = name <;> simp [isRow, same, ih]

theorem getLast?_filterMap {α β : Type} {f : α → Option β} {xs : List α} {a : α} {b : β}
    (last : xs.getLast? = some a) (isSome : f a = some b) : (xs.filterMap f).getLast? = some b := by
  obtain ⟨before, rfl⟩ := List.getLast?_eq_some_iff.mp last
  simp [isSome]

/-! ## The law -/

/-- **Bindings and graphs agree.** The names in the import rows of a module and in the definition
rows of its variables and functions are bound. If the tree is conventional, the bound names are
exactly those of the import rows and of the definition rows but for classes, and a binding that
tells about an import tells what the last import row for its name says. -/
theorem bindings_agree (s : Source) (root : Tree) :
    (∀ row ∈ (s.moduleGraph root).imports, row.localName ∈ (s.bindings root).keys) ∧
    (∀ t ∈ walk entersForGraph [root],
      t.kind.declaresVariables = true ∨ t.kind.declaresFunction = true →
        ∀ row ∈ s.defRows t, row.localName ∈ (s.bindings root).keys) ∧
    (root.IsConventional →
      (∀ name, name ∈ (s.bindings root).keys ↔
        (∃ row ∈ (s.moduleGraph root).imports, row.localName = name) ∨
          ∃ row ∈ (s.moduleGraph root).defs,
            row.kind ≠ Text.ofString "class" ∧ row.localName = name) ∧
      ∀ name b origin, (s.bindings root).lookup name = some b → b.importOrigin = some origin →
        ((s.moduleGraph root).imports.filter (·.localName = name)).getLast? =
          some ⟨name, origin.imported, origin.module, b.definition⟩) := by
  refine ⟨fun row => s.bound_of_importRow, fun t visited kind row => s.bound_of_defRow visited kind,
    fun conventional => ⟨fun name => ⟨?_, ?_⟩, ?_⟩⟩
  · intro bound
    obtain ⟨b, declares, rfl⟩ := s.mem_keys_bindings.mp bound
    exact s.listed_of_declared conventional declares
  · rintro (⟨row, listed, rfl⟩ | ⟨row, listed, noClass, rfl⟩)
    · exact s.bound_of_importRow listed
    · exact s.bound_of_def conventional listed noClass
  · intro name b origin bound isImport
    rw [lookup_bindings] at bound
    have isNamed : b.name = name := by
      simpa using (List.mem_filter.mp (List.mem_of_getLast? bound)).2
    have isRow : b.importRow? = some ⟨name, origin.imported, origin.module, b.definition⟩ := by
      rw [Binding.importRow?, isImport, isNamed]
      rfl
    rw [s.imports_eq conventional, filter_importRows]
    exact getLast?_filterMap bound isRow

/-- The law for a name that is imported, then declared as an exported variable, and then imported
from elsewhere: the last import is what counts. -/
theorem bindings_agree_importedAgain :
    let source : Source := { file := "m.js", bytes := [0x61, 0x27, 0x6D, 0x27, 0x27, 0x6E, 0x27] }
    let leaf (kind : Kind) (start stop : Nat) (fields : List Field) : Tree :=
      { kind, named := true, start, stop, fields, children := [] }
    let name := leaf .identifier 0 1 []
    let imports (module : Tree) : Tree :=
      { leaf .importStatement 0 0 [] with
        children := [{ leaf .importClause 0 1 [] with children := [name] }, module] }
    let declarator : Tree :=
      { leaf .declarator 0 0 [] with children := [leaf .identifier 0 1 [.name]] }
    let exports : Tree :=
      { leaf .exportStatement 0 0 [] with
        children :=
          [{ leaf .lexicalDeclaration 0 0 [.declaration] with children := [declarator] }] }
    let root : Tree :=
      { leaf .program 0 0 [] with
        children := [imports (leaf .string 1 4 [.source]), exports,
          imports (leaf .string 4 7 [.source])] }
    root.IsConventional ∧ (source.bindings root).keys = [Text.ofString "a"] ∧
      (source.moduleGraph root).imports.length = 2 ∧
      ((source.moduleGraph root).imports.filter (·.localName = Text.ofString "a")).getLast? =
        some ⟨"a", "default", "n", "m.js:1"⟩ := by
  intro source leaf name imports declarator exports root
  have conventional : root.IsConventional := by
    have noDefault : ∀ n ∈ root.nodes, n.isDefaultExport = false := by decide
    refine ⟨by decide, by decide, by decide, ?_⟩
    intro n mem _ isDefault
    rw [noDefault n mem] at isDefault
    cases isDefault
  refine ⟨conventional, by decide +kernel, by decide +kernel, ?_⟩
  have law := ((source.bindings_agree root).2.2 conventional).2
  exact law "a" { name := "a", definition := "m.js:1", importOrigin := some ⟨"n", "default"⟩ } _
    (by with_unfolding_all rfl) rfl

end Source

end JsxOrigin
