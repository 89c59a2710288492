import JsxOrigin.Project.Resolution
import JsxOrigin.Proofs.Table
import JsxOrigin.Proofs.Text.Order

/-!
# The order of registration

Modules are added to a registry one by one, possibly by several writers at once, and the registry
keeps them in the order in which their files first came up. No answer shows that order. **The law**
(`Registry.answers_agree`): after any two histories in which every file was last added with the same
graph since the last reset, the registries give the same answers; in particular after any two
interleavings of writers that add different files.

A registry is the table of what was added since the last reset (`Registration.after_eq_ofList`), so
it gives for a file what was added last (`Registration.get?_after`). Two registries that give the
same for every file hold the same entries in some order, and every answer goes through the entries
in the order of their files, of which there is only one (`Registry.SameAnswers.of_get?`).
-/

namespace JsxOrigin

/-! ## The answers of a registry -/

namespace Registry

/-- **Two registries give the same answers**, whatever they are asked. -/
structure SameAnswers (r r' : Registry) : Prop where
  files : r'.files = r.files
  length : r'.length = r.length
  has : ∀ file, Table.has file r' = Table.has file r
  get : ∀ file, r'.get? file = r.get? file
  entries : r'.entries = r.entries
  literals : ∀ wanted exact, r'.literals wanted exact = r.literals wanted exact
  mutations : ∀ root, r'.mutations root = r.mutations root
  exporters : ∀ name, r'.exporters name = r.exporters name
  toJson : r'.toJson = r.toJson
  /-- What depends on what, if sources are resolved by comparing texts. -/
  byText : r'.dependencies r'.resolveText = r.dependencies r.resolveText
  /-- What depends on what, if sources are resolved by the files of a project. -/
  byFiles : ∀ (resolver : Resolver) (fs : FileSystem),
    r'.dependencies (resolver.target fs r') = r.dependencies (resolver.target fs r)

variable {r r' : Registry}

theorem files_eq_map_entries (r : Registry) : r.files = r.entries.map Prod.fst := by
  apply Eq.symm
  apply List.map_mergeSort
  intro a _ b _
  rfl

theorem entries_of_perm (once : r.keys.Nodup) (perm : r'.Perm r) : r'.entries = r.entries :=
  (Text.mergeSort_eq_of_perm perm.symm fun _ mem _ mem' same =>
    Table.eq_of_key_eq once mem mem' same).symm

/-- Dependencies ask a registry for its entries alone, besides what the way of resolving asks. -/
theorem dependencies_of_entries {ε : Type} {resolve resolve' : Text → Json → Except ε (Option Text)}
    (entries : r'.entries = r.entries) (same : resolve' = resolve) :
    r'.dependencies resolve' = r.dependencies resolve := by
  have files : r'.files = r.files := by
    rw [files_eq_map_entries, files_eq_map_entries, entries]
  rw [dependencies, dependencies, entries, files, same]

section Resolving

variable (same : ∀ file, Table.has file r' = Table.has file r)
include same

theorem resolveText_of_has : r'.resolveText = r.resolveText := by
  funext file source
  cases source with
  | str t => simp only [resolveText, target?, same]
  | _ => rfl

theorem target_of_has (resolver : Resolver) (fs : FileSystem) :
    resolver.target fs r' = resolver.target fs r := by
  funext file source
  simp only [Resolver.target, same]

end Resolving

/-- **Registries that give the same graph for every file give the same answers.** -/
theorem SameAnswers.of_get? (once : r.keys.Nodup) (once' : r'.keys.Nodup)
    (same : ∀ file, r'.get? file = r.get? file) : SameAnswers r r' := by
  have perm : r'.Perm r := Table.perm_of_get? once once' same
  have entries := entries_of_perm once perm
  have has : ∀ file, Table.has file r' = Table.has file r := fun file =>
    congrArg Option.isSome (same file)
  exact {
    files := by rw [files_eq_map_entries, files_eq_map_entries, entries]
    length := perm.length_eq
    has
    get := same
    entries
    literals := fun wanted exact => by rw [Registry.literals, Registry.literals, entries]
    mutations := fun root => by rw [Registry.mutations, Registry.mutations, entries]
    exporters := fun name => by rw [Registry.exporters, Registry.exporters, entries]
    toJson := by rw [Registry.toJson, Registry.toJson, entries]
    byText := dependencies_of_entries entries (resolveText_of_has has)
    byFiles := fun resolver fs => dependencies_of_entries entries (target_of_has has resolver fs) }

end Registry

/-! ## Histories -/

/-- What can happen to a registry. -/
inductive Registration where
  /-- A module is added. -/
  | put (file : Text) (g : ModuleGraph Json)
  /-- All modules are dropped. -/
  | reset

namespace Registration

/-- What an event does to a registry. -/
def apply (r : Registry) : Registration → Registry
  | put file g => r.put file g
  | reset => r.reset

/-- The registry that a history leads to, from a new one on. -/
def after (history : List Registration) : Registry := history.foldl apply []

/-- Notes a module that is added, and forgets all that are dropped. -/
def note (added : List (Text × ModuleGraph Json)) :
    Registration → List (Text × ModuleGraph Json)
  | put file g => added ++ [(file, g)]
  | reset => []

/-- The modules that were added since the last reset, in order. -/
def added (history : List Registration) : List (Text × ModuleGraph Json) := history.foldl note []

/-- The graph with which a file was added last since the last reset. -/
def lastGraph? (file : Text) (history : List Registration) : Option (ModuleGraph Json) :=
  ((added history).filter (·.1 = file)).getLast?.map Prod.snd

/-- One event: a registry stays the table of what is noted. -/
theorem apply_ofList (noted : List (Text × ModuleGraph Json)) (e : Registration) :
    apply (Table.ofList noted) e = Table.ofList (note noted e) := by
  cases e with
  | put file g => rw [note, Table.ofList, Table.ofList, List.foldl_append]; rfl
  | reset => rfl

/-- **A registry is the table of what was added** since the last reset. -/
theorem after_eq_ofList (history : List Registration) :
    after history = Table.ofList (added history) := by
  have folded : ∀ noted, history.foldl apply (Table.ofList noted) =
      Table.ofList (history.foldl note noted) := by
    induction history with
    | nil => exact fun noted => rfl
    | cons e history ih =>
      intro noted
      rw [List.foldl_cons, List.foldl_cons, apply_ofList, ih]
  exact folded []

theorem get?_after (file : Text) (history : List Registration) :
    (after history).get? file = lastGraph? file history := by
  rw [after_eq_ofList, Registry.get?, Table.get?_ofList, lastGraph?]

theorem nodup_keys_after (history : List Registration) : (after history).keys.Nodup := by
  rw [after_eq_ofList]
  exact Table.nodup_keys_ofList _

/-- The modules that are added after a reset. -/
theorem added_reset (earlier : List Registration) (modules : List (Text × ModuleGraph Json)) :
    added (earlier ++ .reset :: modules.map fun m => .put m.1 m.2) = modules := by
  have noted : ∀ done, (modules.map fun m => put m.1 m.2).foldl note done = done ++ modules := by
    induction modules with
    | nil => exact fun done => (List.append_nil done).symm
    | cons m modules ih =>
      intro done
      rw [List.map_cons, List.foldl_cons, ih, note, List.append_assoc, List.singleton_append]
  rw [added, List.foldl_append, List.foldl_cons]
  exact noted []

/-- Registries with the same graphs since the last reset give the same answers. -/
theorem sameAnswers_after (history history' : List Registration)
    (same : ∀ file, lastGraph? file history' = lastGraph? file history) :
    Registry.SameAnswers (after history) (after history') := by
  refine .of_get? (nodup_keys_after history) (nodup_keys_after history') ?_
  intro file
  rw [get?_after, get?_after, same]

end Registration

/-! ## Writers -/

/-- **A log interleaves queues**: each time, the first item of some queue is taken. -/
inductive Interleaves {α : Type} : List (List α) → List α → Prop
  | done {queues : List (List α)} (empty : ∀ q ∈ queues, q = []) : Interleaves queues []
  | next {before behind : List (List α)} {rest log : List α} (a : α)
      (later : Interleaves (before ++ rest :: behind) log) :
      Interleaves (before ++ (a :: rest) :: behind) (a :: log)

/-- If items of one sort stand in one queue only, a log has them in the order of that queue. -/
theorem Interleaves.filter_eq {α : Type} {p : α → Bool} {queues : List (List α)} {log : List α}
    (interleaves : Interleaves queues log)
    (apart : queues.Pairwise fun q q' => ∀ a ∈ q, ∀ b ∈ q', p a = true → p b = false) :
    log.filter p = queues.flatMap (·.filter p) := by
  induction interleaves with
  | done empty =>
    apply Eq.symm
    apply List.flatMap_eq_nil_iff.mpr
    intro q mem
    rw [empty q mem]
    rfl
  | @next before behind rest log a later ih =>
    obtain ⟨apartBefore, apartHere, across⟩ := List.pairwise_append.mp apart
    obtain ⟨here, apartBehind⟩ := List.pairwise_cons.mp apartHere
    have rest_apart : (before ++ rest :: behind).Pairwise
        fun q q' => ∀ a ∈ q, ∀ b ∈ q', p a = true → p b = false := by
      refine List.pairwise_append.mpr ⟨apartBefore, List.pairwise_cons.mpr ⟨?_, apartBehind⟩, ?_⟩
      · exact fun q mem x inRest => here q mem x (List.mem_cons_of_mem _ inRest)
      · intro q mem q' mem' x inQ y inQ'
        rcases List.mem_cons.mp mem' with rfl | mem'
        · exact across q mem _ List.mem_cons_self x inQ y (List.mem_cons_of_mem _ inQ')
        · exact across q mem q' (List.mem_cons_of_mem _ mem') x inQ y inQ'
    have tail := ih rest_apart
    rw [List.flatMap_append, List.flatMap_cons] at tail ⊢
    cases taken : p a with
    | false =>
      have passed : ¬ p a = true := by rw [taken]; exact Bool.false_ne_true
      rw [List.filter_cons_of_neg passed, List.filter_cons_of_neg passed, tail]
    | true =>
      -- the queues before hold nothing of the sort, so `a` comes first on both sides
      have nothing : before.flatMap (·.filter p) = [] := by
        apply List.flatMap_eq_nil_iff.mpr
        intro q mem
        apply List.filter_eq_nil_iff.mpr
        intro x inQ isSort
        have other := across q mem _ List.mem_cons_self x inQ a List.mem_cons_self isSort
        rw [taken] at other
        cases other
      rw [List.filter_cons_of_pos taken, List.filter_cons_of_pos taken, tail, nothing]
      rfl

namespace Registry

open Registration

/-- **The order of registration does not matter.** A registry gives for each file the graph with
which it was added last since the last reset. After any two histories in which these graphs are the
same, two registries give the same answers. So they do if several writers, no two of which add the
same file, add their modules after a reset, whatever happened before and in whichever way the
writers are interleaved. -/
theorem answers_agree :
    (∀ file history, (after history).get? file = lastGraph? file history) ∧
    (∀ history history' : List Registration,
      (∀ file, lastGraph? file history' = lastGraph? file history) →
        SameAnswers (after history) (after history')) ∧
    ∀ writers : List (List (Text × ModuleGraph Json)),
      (writers.Pairwise fun w w' => ∀ m ∈ w, ∀ m' ∈ w', m.1 ≠ m'.1) →
      ∀ log log', Interleaves writers log → Interleaves writers log' →
        ∀ earlier earlier' : List Registration,
          SameAnswers (after (earlier ++ .reset :: log.map fun m => .put m.1 m.2))
            (after (earlier' ++ .reset :: log'.map fun m => .put m.1 m.2)) := by
  refine ⟨get?_after, sameAnswers_after, ?_⟩
  intro writers apart log log' interleaves interleaves' earlier earlier'
  apply sameAnswers_after
  intro file
  have ofFile : writers.Pairwise fun w w' =>
      ∀ m ∈ w, ∀ m' ∈ w', decide (m.1 = file) = true → decide (m'.1 = file) = false := by
    refine apart.imp fun differ m mem m' mem' isFile => ?_
    rw [decide_eq_true_eq] at isFile
    rw [decide_eq_false_iff_not, ← isFile]
    exact (differ m mem m' mem').symm
  rw [lastGraph?, lastGraph?, added_reset, added_reset, interleaves.filter_eq ofFile,
    interleaves'.filter_eq ofFile]

/-- The law for a writer that adds `a.js` twice and one that adds `b.js`, which imports from it: the
registries keep the files in two orders and give the same answers, also about dependencies. -/
theorem answers_agree_twoWriters :
    let first : ModuleGraph Json := { file := .str "a.js" }
    let second : ModuleGraph Json := { first with exports := [⟨.str "x", .str "x", .str "a.js:1"⟩] }
    let importing : ModuleGraph Json :=
      { file := .str "b.js", imports := [⟨.str "y", .str "x", .str "./a", .str "b.js:1"⟩] }
    let a : Text := "a.js"
    let b : Text := "b.js"
    let writers := [[(a, first), (a, second)], [(b, importing)]]
    let log := [(a, first), (b, importing), (a, second)]
    let log' := [(b, importing), (a, first), (a, second)]
    let r := after (.reset :: log.map fun m => .put m.1 m.2)
    let r' := after ([.put b first] ++ .reset :: log'.map fun m => .put m.1 m.2)
    (writers.Pairwise fun w w' => ∀ m ∈ w, ∀ m' ∈ w', m.1 ≠ m'.1) ∧
      Interleaves writers log ∧ Interleaves writers log' ∧ r.keys = [a, b] ∧ r'.keys = [b, a] ∧
      SameAnswers r r' ∧
      (∀ file, lastGraph? file [.put a first, .reset, .put a second] =
        lastGraph? file [.put a second]) ∧
      SameAnswers (after [.put a second]) (after [.put a first, .reset, .put a second]) := by
  intro first second importing a b writers log log' r r'
  have apart : writers.Pairwise fun w w' => ∀ m ∈ w, ∀ m' ∈ w', m.1 ≠ m'.1 := by decide
  have nothingLeft : Interleaves [([] : List (Text × ModuleGraph Json)), []] [] :=
    .done (by decide)
  have one : Interleaves writers log :=
    @Interleaves.next _ [] [[(b, importing)]] [(a, second)] _ (a, first)
      (@Interleaves.next _ [[(a, second)]] [] [] _ (b, importing)
        (@Interleaves.next _ [] [[]] [] _ (a, second) nothingLeft))
  have other : Interleaves writers log' :=
    @Interleaves.next _ [[(a, first), (a, second)]] [] [] _ (b, importing)
      (@Interleaves.next _ [] [[]] [(a, second)] _ (a, first)
        (@Interleaves.next _ [] [[]] [] _ (a, second) nothingLeft))
  obtain ⟨-, agree, interleaved⟩ := answers_agree
  exact ⟨apart, one, other, by decide, by decide,
    interleaved writers apart log log' one other [] [.put b first], fun _ => rfl,
    agree _ _ fun _ => rfl⟩

end Registry

end JsxOrigin
