import JsxOrigin.Proofs.Storage.KeptGraph
import Mathlib.Data.List.Induction

/-!
# Stores over whole histories

An open store is asked for graphs while graphs are kept and dropped, all are cleared, the store is
opened anew, and files come, go and change beside it. What it answers depends on the whole history.

**The law** (`StoreState.keptGraph_after`): of the events that affect a path, only the last one
counts. The store gives a graph for the path if and only if that event kept this graph, and the path
leads to something with the mark that it had then. Both tables of the store always list the same
paths.

The invariant is that the store remembers, for every path, the last event that affected it
(`GraphStore.Remembers`). One event keeps it (`StoreState.InStep.apply`), and so does a whole
history (`StoreState.inStep_after`).

The law is about paths that a file can have and that can be the key of a store, and about changes of
files other than the store. Beyond that it fails (`StoreState.keptGraph_outside`).
-/

namespace JsxOrigin

/-! ## Histories -/

/-- A disk with an open store. -/
structure StoreState where
  files : FileSystem
  held : OpenStore

/-- What can happen to an open store and the files beside it. -/
inductive StoreEvent where
  /-- The graph of a path is kept. -/
  | keep (path : Text) (g : PlainGraph)
  /-- The graph of a path is dropped. -/
  | drop (path : Text)
  /-- All graphs are dropped. -/
  | clear
  /-- The store is given up and opened again. -/
  | reopen
  /-- Files change, come and go in whatever way. -/
  | change (files : FileSystem)

namespace StoreState

open FileSystem

variable (root : Path) (directory : Text)

/-- The state after an event. What is refused changes nothing. -/
def apply (st : StoreState) : StoreEvent → StoreState
  | .keep path g =>
    { st with files := (st.files.keepGraph st.held (.ofText path) g.json).toOption.getD st.files }
  | .drop path =>
    { st with files := (st.files.dropGraph st.held (.ofText path)).toOption.getD st.files }
  | .clear => { st with files := (st.files.clearStore st.held).toOption.getD st.files }
  | .reopen =>
    match st.files.openStore root directory with
    | (files, .ok held) => { files, held }
    | (files, .error _) => { files, held := st.held.close }
  | .change files => { st with files }

/-- The state after a history. -/
def after (start : StoreState) (history : List StoreEvent) : StoreState :=
  history.foldl (apply root directory) start

/-- The events of a history, each with the state that it finds. -/
def steps (start : StoreState) : List StoreEvent → List (StoreState × StoreEvent)
  | [] => []
  | e :: rest => (start, e) :: steps (start.apply root directory e) rest

/-- Whether an event affects a path: it keeps its graph while something stands there, or drops it,
or drops all graphs. -/
def affects (p : Text) : StoreState × StoreEvent → Bool
  | (st, .keep path _) => Path.ofText path = Path.ofText p && st.files.exists? (.ofText p)
  | (_, .drop path) => Path.ofText path = Path.ofText p
  | (_, .clear) => true
  | (_, .reopen) => false
  | (_, .change _) => false

/-- The last event of a history that affects a path, with the state that it finds. -/
def lastFor (start : StoreState) (history : List StoreEvent) (p : Text) :
    Option (StoreState × StoreEvent) :=
  ((steps root directory start history).filter (affects p)).getLast?

/-- Whether an event leaves the store alone: it can be opened again, and changes of files are not
changes of its own file. -/
def LeavesStore : StoreState × StoreEvent → Prop
  | (st, .reopen) => (st.files.openStore root directory).2.isOk = true
  | (st, .change files) =>
    files.WellFormed ∧ ∀ s, st.files.Holds st.held s → files.Holds st.held s
  | _ => True

theorem steps_concat (start : StoreState) (history : List StoreEvent) (e : StoreEvent) :
    steps root directory start (history ++ [e]) =
      steps root directory start history ++ [(start.after root directory history, e)] := by
  induction history generalizing start with
  | nil => rfl
  | cons first rest ih =>
    rw [List.cons_append, steps, ih, steps]
    rfl

theorem after_concat (start : StoreState) (history : List StoreEvent) (e : StoreEvent) :
    start.after root directory (history ++ [e]) =
      (start.after root directory history).apply root directory e := by
  simp [after]

theorem lastFor_concat (start : StoreState) (history : List StoreEvent) (e : StoreEvent)
    (p : Text) :
    start.lastFor root directory (history ++ [e]) p =
      if affects p (start.after root directory history, e) then
        some (start.after root directory history, e)
      else start.lastFor root directory history p := by
  rw [lastFor, steps_concat, List.filter_append, lastFor]
  split
  · rename_i isAffected
    rw [List.filter_cons_of_pos isAffected, List.filter_nil, List.getLast?_concat]
  · rename_i notAffected
    rw [List.filter_cons_of_neg notAffected, List.filter_nil, List.append_nil]

/-! ## The invariant -/

/-- **What a store remembers** of the last event that affected a path: the graph that it kept, with
the mark that the path had then, or nothing. -/
def Remembers (s : GraphStore) (p : Text) : Option (StoreState × StoreEvent) → Prop
  | some (before, .keep _ g) => ∃ mark, before.files.mark (.ofText p) = .ok (some mark) ∧
      s.kept (Path.ofText p).text = (some mark, some g.json.toJson.render)
  | _ => s.kept (Path.ofText p).text = (none, none)

theorem Remembers.congr {s t : GraphStore} {p : Text} (same : t.kept (Path.ofText p).text =
    s.kept (Path.ofText p).text) {last : Option (StoreState × StoreEvent)}
    (remembers : Remembers s p last) : Remembers t p last := by
  unfold Remembers at remembers ⊢
  rw [same]
  exact remembers

/-- **A state in step with its history**: `last` tells the last event that affected a path. -/
structure InStep (st : StoreState) (s : GraphStore)
    (last : Text → Option (StoreState × StoreEvent)) : Prop where
  wellFormed : st.files.WellFormed
  place : st.held.place = storePlace root directory
  holds : st.files.Holds st.held s
  sameKeys : s.SameKeys
  remembers : ∀ p, IsKeyText p → Remembers s p (last p)

namespace InStep

variable {root directory} {st : StoreState} {s : GraphStore}
  {last : Text → Option (StoreState × StoreEvent)}

/-- What the last event for a path is after one more event. -/
def next (last : Text → Option (StoreState × StoreEvent)) (x : StoreState × StoreEvent) (p : Text) :
    Option (StoreState × StoreEvent) :=
  if affects p x then some x else last p

/-- What a store remembers after an event: nothing new of a path that is not affected. -/
theorem remembers_next (inStep : InStep root directory st s last) {e : StoreEvent} {t : GraphStore}
    (affected : ∀ p, IsKeyText p → affects p (st, e) = true → Remembers t p (some (st, e)))
    (others : ∀ p, affects p (st, e) = false →
      t.kept (Path.ofText p).text = s.kept (Path.ofText p).text) :
    ∀ p, IsKeyText p → Remembers t p (next last (st, e) p) := by
  intro p isKey
  rw [next]
  cases isAffected : affects p (st, e) with
  | true => exact affected p isKey isAffected
  | false => exact (inStep.remembers p isKey).congr (others p isAffected)

/-- An event that affects no path and leaves the store as it is. -/
theorem unaffected (inStep : InStep root directory st s last) {st' : StoreState} {e : StoreEvent}
    (wf : st'.files.WellFormed) (place : st'.held.place = storePlace root directory)
    (holds : st'.files.Holds st'.held s) (silent : ∀ p, IsKeyText p → affects p (st, e) = false) :
    InStep root directory st' s (next last (st, e)) := by
  refine ⟨wf, place, holds, inStep.sameKeys, inStep.remembers_next ?_ fun _ _ => rfl⟩
  intro p isKey isAffected
  rw [silent p isKey] at isAffected
  cases isAffected

/-- An event that writes the store. -/
theorem written (inStep : InStep root directory st s last) {e : StoreEvent} {t : GraphStore}
    {change : Except StoreError FileSystem} (writes : change = st.files.writeStore st.held t)
    (sameKeys : t.SameKeys)
    (remembers : ∀ p, IsKeyText p → Remembers t p (next last (st, e) p)) :
    InStep root directory { st with files := change.toOption.getD st.files } t
      (next last (st, e)) := by
  obtain ⟨fs', isWritten, wf, holds⟩ := inStep.holds.write inStep.wellFormed t
  rw [writes, isWritten]
  exact ⟨wf, inStep.place, holds, sameKeys, remembers⟩

theorem clear (inStep : InStep root directory st s last) :
    ∃ t, InStep root directory (st.apply root directory .clear) t (next last (st, .clear)) :=
  ⟨{}, inStep.written inStep.holds.clearStore rfl fun _ _ => rfl⟩

theorem drop (inStep : InStep root directory st s last) (path : Text) :
    ∃ t, InStep root directory (st.apply root directory (.drop path)) t
      (next last (st, .drop path)) := by
  cases isKey : storeKey (.ofText path) with
  | error e =>
    -- A path that is no key is none of the paths that the law is about.
    have refused : st.files.dropGraph st.held (.ofText path) = .error e := by
      simp only [FileSystem.dropGraph, inStep.holds.readStore, isKey]
      rfl
    rw [StoreState.apply, refused]
    refine ⟨s, inStep.unaffected inStep.wellFormed inStep.place inStep.holds fun p isText => ?_⟩
    refine decide_eq_false fun same => ?_
    rw [same, isText.storeKey] at isKey
    cases isKey
  | ok key =>
    cases text_of_storeKey isKey
    have dropped := inStep.holds.dropGraph isKey
    have remembers : ∀ t : GraphStore,
        (∀ other, t.kept other = (s.drop (Path.ofText path).text).kept other) →
        ∀ p, IsKeyText p → Remembers t p (next last (st, .drop path) p) := by
      intro t same
      apply inStep.remembers_next
      · intro p _ isAffected
        show t.kept _ = _
        rw [same, GraphStore.kept_drop, ← of_decide_eq_true isAffected, if_pos rfl]
      · intro p notAffected
        have differs : (Path.ofText p).text ≠ (Path.ofText path).text := fun sameText =>
          of_decide_eq_false notAffected (Path.ofText_eq_of_text_eq sameText).symm
        rw [same, GraphStore.kept_drop, if_neg differs]
    cases isKept : s.keeps (Path.ofText path).text with
    | true =>
      rw [isKept, if_pos rfl] at dropped
      exact ⟨_, inStep.written dropped (inStep.sameKeys.drop _) (remembers _ fun _ => rfl)⟩
    | false =>
      rw [isKept, if_neg Bool.false_ne_true] at dropped
      rw [StoreState.apply, dropped]
      refine ⟨s, inStep.wellFormed, inStep.place, inStep.holds, inStep.sameKeys, remembers s ?_⟩
      intro other
      rw [GraphStore.kept_drop]
      split
      · rename_i same
        rw [same, GraphStore.kept_of_not_keeps isKept]
      · rfl

/-- A graph that is refused affects no path that the law is about. -/
theorem keep_of_refused (inStep : InStep root directory st s last) {path : Text} {g : PlainGraph}
    (refused : (st.files.keepGraph st.held (.ofText path) g.json).toOption.getD st.files = st.files)
    (absent : ∀ p, IsKeyText p → Path.ofText path = Path.ofText p →
      st.files.exists? (.ofText p) = false) :
    InStep root directory (st.apply root directory (.keep path g)) s
      (next last (st, .keep path g)) := by
  rw [StoreState.apply, refused]
  refine inStep.unaffected inStep.wellFormed inStep.place inStep.holds fun p isText => ?_
  rw [affects, Bool.and_eq_false_iff, decide_eq_false_iff_not]
  by_cases samePath : Path.ofText path = Path.ofText p
  · exact .inr (absent p isText samePath)
  · exact .inl samePath

theorem keep_of_unmarked (inStep : InStep root directory st s last) {path : Text} (g : PlainGraph)
    (unmarked : ∀ mark, st.files.mark (.ofText path) ≠ .ok (some mark)) :
    InStep root directory (st.apply root directory (.keep path g)) s
      (next last (st, .keep path g)) := by
  apply inStep.keep_of_refused
  · cases marked : st.files.mark (.ofText path) with
    | error e =>
      simp only [FileSystem.keepGraph, markOf, marked]
      rfl
    | ok found =>
      cases found with
      | none =>
        simp only [FileSystem.keepGraph, markOf, marked]
        rfl
      | some mark => exact absurd marked (unmarked mark)
  · intro p isText same
    rw [same] at unmarked
    exact not_exists_of_mark isText.error? unmarked

theorem keep_of_marked (inStep : InStep root directory st s last) {path : Text} (g : PlainGraph)
    {mark : Mark} (marked : st.files.mark (.ofText path) = .ok (some mark)) :
    ∃ t, InStep root directory (st.apply root directory (.keep path g)) t
      (next last (st, .keep path g)) := by
  cases isKey : storeKey (.ofText path) with
  | error e =>
    refine ⟨s, inStep.keep_of_refused ?_ fun p isText same => ?_⟩
    · simp only [FileSystem.keepGraph, markOf, marked, inStep.holds.readStore, isKey]
      rfl
    · rw [same, isText.storeKey] at isKey
      cases isKey
  | ok key =>
    cases text_of_storeKey isKey
    have kept := inStep.holds.keepGraph marked isKey g.json
    have stands := exists?_of_mark marked
    refine ⟨_, inStep.written kept (inStep.sameKeys.keep _ _ _) (inStep.remembers_next ?_ ?_)⟩
    · intro p _ isAffected
      simp only [affects, Bool.and_eq_true, decide_eq_true_eq] at isAffected
      refine ⟨mark, ?_, ?_⟩
      · rw [← isAffected.1, marked]
      · rw [← isAffected.1, GraphStore.kept_keep_self]
    · intro p notAffected
      apply GraphStore.kept_keep_of_ne
      intro sameText
      rw [affects, Path.ofText_eq_of_text_eq sameText, stands] at notAffected
      simp at notAffected

theorem keep (inStep : InStep root directory st s last) (path : Text) (g : PlainGraph) :
    ∃ t, InStep root directory (st.apply root directory (.keep path g)) t
      (next last (st, .keep path g)) := by
  by_cases isMarked : ∃ mark, st.files.mark (.ofText path) = .ok (some mark)
  · obtain ⟨mark, marked⟩ := isMarked
    exact inStep.keep_of_marked g marked
  · exact ⟨s, inStep.keep_of_unmarked g (not_exists.mp isMarked)⟩

/-- **One event** keeps a state in step with its history. -/
theorem apply (inStep : InStep root directory st s last) {e : StoreEvent}
    (leaves : LeavesStore root directory (st, e)) :
    ∃ t, InStep root directory (st.apply root directory e) t (next last (st, e)) := by
  cases e with
  | keep path g => exact inStep.keep path g
  | drop path => exact inStep.drop path
  | clear => exact inStep.clear
  | change files =>
    exact ⟨s, inStep.unaffected leaves.1 inStep.place (leaves.2 s inStep.holds) fun _ _ => rfl⟩
  | reopen =>
    have opens : (st.files.openStore root directory).2.isOk = true := leaves
    rw [StoreState.apply]
    generalize opened : st.files.openStore root directory = result at opens ⊢
    obtain ⟨files, e | held⟩ := result
    · cases opens
    · have puts := openStore_puts inStep.wellFormed root directory
      rw [opened] at puts
      obtain ⟨place, holds⟩ := openStore_holds inStep.wellFormed opened
      rw [← inStep.place, inStep.holds.storeAt] at holds
      exact ⟨s, inStep.unaffected (puts.wellFormed inStep.wellFormed) place holds fun _ _ => rfl⟩

end InStep

/-- **A whole history** keeps a state in step. -/
theorem inStep_after {start : StoreState} {s : GraphStore}
    (first : InStep root directory start s fun _ => none) (history : List StoreEvent)
    (leaves : ∀ x ∈ steps root directory start history, LeavesStore root directory x) :
    ∃ t, InStep root directory (start.after root directory history) t
      (start.lastFor root directory history) := by
  induction history using List.reverseRecOn with
  | nil => exact ⟨s, first⟩
  | append_singleton history e ih =>
    rw [steps_concat] at leaves
    obtain ⟨t, inStep⟩ := ih fun x mem => leaves x (List.mem_append_left _ mem)
    have next := inStep.apply (leaves _ (List.mem_append_right _ List.mem_cons_self))
    rw [after_concat]
    obtain ⟨u, inStep'⟩ := next
    refine ⟨u, ?_⟩
    have same : InStep.next (start.lastFor root directory history)
        (start.after root directory history, e) =
        start.lastFor root directory (history ++ [e]) := by
      funext p
      rw [lastFor_concat]
      rfl
    rw [← same]
    exact inStep'

/-! ## The law -/

/-- **The graph that counts for a path**: the last event that affected the path kept it, and what
stands there has the mark that it had then. -/
def CountsFor (now : StoreState) (last : Option (StoreState × StoreEvent)) (p : Text)
    (g : ModuleGraph Json) : Prop :=
  ∃ before path kept mark, last = some (before, .keep path kept) ∧ g = kept.json ∧
    before.files.mark (.ofText p) = .ok (some mark) ∧ now.files.mark (.ofText p) = .ok (some mark)

theorem countsFor_keep_iff {now before : StoreState} {path p : Text} {g : PlainGraph}
    {old mark : Mark} (markedThen : before.files.mark (.ofText p) = .ok (some old))
    (markedNow : now.files.mark (.ofText p) = .ok (some mark)) (other : ModuleGraph Json) :
    CountsFor now (some (before, .keep path g)) p other ↔ other = g.json ∧ old = mark := by
  constructor
  · rintro ⟨_, _, _, _, isLast, rfl, isThen, isNow⟩
    cases isLast
    rw [markedThen] at isThen
    rw [markedNow] at isNow
    cases isThen
    cases isNow
    exact ⟨rfl, rfl⟩
  · rintro ⟨rfl, rfl⟩
    exact ⟨before, path, g, old, rfl, rfl, markedThen, markedNow⟩

/-- **What a store answers** is what counts for the path. -/
theorem InStep.answers {root : Path} {directory : Text} {st : StoreState} {s : GraphStore}
    {last : Text → Option (StoreState × StoreEvent)} (inStep : InStep root directory st s last)
    {p : Text} (isKey : IsKeyText p) :
    ∃ answer, st.files.keptGraph st.held (.ofText p) = .ok answer ∧
      st.files.isKept st.held (.ofText p) = .ok answer.isSome ∧
      ∀ g, answer = some g ↔ CountsFor st (last p) p g := by
  rcases st.files.mark_cases isKey.error? with ⟨mark, marked, -⟩ | ⟨missing, -⟩
  · have graph := inStep.holds.keptGraph marked isKey.storeKey
    have current := inStep.holds.isKept marked isKey.storeKey
    have remembers := inStep.remembers p isKey
    unfold Remembers at remembers
    split at remembers
    · rename_i before path g isLast
      obtain ⟨old, markedThen, kept⟩ := remembers
      rw [GraphStore.kept, Prod.mk.injEq] at kept
      simp only [isLast, countsFor_keep_iff markedThen marked]
      by_cases same : old = mark
      · have isCurrent : s.isCurrent (Path.ofText p).text mark = true := by
          simp [GraphStore.isCurrent, kept.1, same]
        rw [GraphStore.text?, isCurrent, if_pos rfl, kept.2] at graph
        rw [isCurrent] at current
        exact ⟨some g.json, graph.trans g.graphOfText_render, current, by simp [same, eq_comm]⟩
      · have isStale : s.isCurrent (Path.ofText p).text mark = false := by
          simp [GraphStore.isCurrent, kept.1, same]
        rw [GraphStore.text?, isStale, if_neg Bool.false_ne_true] at graph
        rw [isStale] at current
        exact ⟨none, graph, current, by simp [same]⟩
    · rename_i noKeep
      rw [GraphStore.kept, Prod.mk.injEq] at remembers
      have isAbsent : s.isCurrent (Path.ofText p).text mark = false := by
        simp [GraphStore.isCurrent, remembers.1]
      rw [GraphStore.text?, isAbsent, if_neg Bool.false_ne_true] at graph
      rw [isAbsent] at current
      refine ⟨none, graph, current, fun _ => iff_of_false (by simp) ?_⟩
      rintro ⟨before, path, kept, _, isLast, -, -, -⟩
      exact noKeep before path kept isLast
  · obtain ⟨graph, current⟩ := answers_of_missing st.held missing
    refine ⟨none, graph, current, fun _ => iff_of_false (by simp) ?_⟩
    rintro ⟨_, _, _, _, -, -, -, markedNow⟩
    rw [missing] at markedNow
    cases markedNow

/-- **The store over a whole history.** A store is opened that is empty or not there yet. Then
graphs are kept and dropped, all are cleared, the store is opened anew, and files change in whatever
way that leaves the store alone. At the end both tables of the store list the same paths. For every
path that a file can have and that can be a key, the store gives a graph if and only if it is the
one that counts after the last event that affected the path, and nothing otherwise; and it says that
a graph is kept if and only if it gives one. -/
theorem keptGraph_after {disk : FileSystem} {start : StoreState} (wellFormed : disk.WellFormed)
    (empty : ∀ s, disk.storeAt (storePlace root directory) = some s → s = {})
    (opened : disk.openStore root directory = (start.files, .ok start.held))
    (history : List StoreEvent)
    (leaves : ∀ x ∈ steps root directory start history, LeavesStore root directory x) :
    let now := start.after root directory history
    (∃ s, now.files.readStore now.held = .ok s ∧ s.marks.keys = s.graphs.keys ∧
      s.marks.length = s.graphs.length) ∧
    ∀ p, IsKeyText p → ∃ answer, now.files.keptGraph now.held (.ofText p) = .ok answer ∧
      now.files.isKept now.held (.ofText p) = .ok answer.isSome ∧
      ∀ g, answer = some g ↔
        CountsFor now ((steps root directory start history).filter (affects p)).getLast? p g := by
  have puts := openStore_puts wellFormed root directory
  obtain ⟨place, holds⟩ := openStore_holds wellFormed opened
  rw [opened] at puts
  have isEmpty : (disk.storeAt (storePlace root directory)).getD {} = {} := by
    cases found : disk.storeAt (storePlace root directory) with
    | none => rfl
    | some s => exact empty s found
  rw [isEmpty] at holds
  have first : InStep root directory start {} fun _ => none :=
    ⟨puts.wellFormed wellFormed, place, holds, rfl, fun _ _ => rfl⟩
  obtain ⟨t, inStep⟩ := inStep_after root directory first history leaves
  refine ⟨⟨t, inStep.holds.readStore, inStep.sameKeys, inStep.sameKeys.length⟩, ?_⟩
  intro p isKey
  exact inStep.answers isKey

/-- A new store on an empty disk. -/
def newStore : StoreState where
  files := (FileSystem.openStore {} ⟨.root, []⟩ "c").1
  held := { place := ["c", storeName], number := 3 }

/-- A graph without rows. -/
def bareGraph : PlainGraph where
  graph := { file := "a" }
  plain := by decide

/-- The law for a directory that is made after the store was opened, whose graph is kept, and for
which the store is asked when it is opened again. -/
theorem keptGraph_after_directory :
    let root : Path := ⟨.root, []⟩
    let history : List StoreEvent :=
      [.change (newStore.files.makeDirectories (.ofText "/a")).1, .keep "/a" bareGraph, .reopen]
    let now := newStore.after root "c" history
    (∀ x ∈ steps root "c" newStore history, LeavesStore root "c" x) ∧
      now.files.keptGraph now.held (.ofText "/a") = .ok (some bareGraph.json) ∧
      now.files.isKept now.held (.ofText "/a") = .ok true := by
  intro root history now
  have opened : FileSystem.openStore {} root "c" = (newStore.files, .ok newStore.held) := by
    with_unfolding_all rfl
  have wf : newStore.files.WellFormed :=
    (openStore_puts wellFormed_empty root "c").wellFormed wellFormed_empty
  have made := makeDirectories_puts wf (.ofText "/a")
  have leaves : ∀ x ∈ steps root "c" newStore history, LeavesStore root "c" x := by
    rintro x (_ | ⟨_, _ | ⟨_, _ | ⟨_, ⟨⟩⟩⟩⟩)
    · refine ⟨made.wellFormed wf, ?_⟩
      rintro s ⟨isOpen, node, found, rest⟩
      exact ⟨isOpen, node, made.file_of_directories found, rest⟩
    · trivial
    · with_unfolding_all rfl
  have law := keptGraph_after root "c" wellFormed_empty nofun opened history leaves
  obtain ⟨answer, graph, isKept, counts⟩ := law.2 "/a" ⟨by decide, by decide⟩
  have isAnswer : answer = some bareGraph.json := by
    refine (counts _).mpr
      ⟨newStore.after root "c" (history.take 1), "/a", bareGraph, ⟨.moment 5, 0⟩, ?_⟩
    refine ⟨?_, rfl, ?_, ?_⟩ <;> with_unfolding_all rfl
  subst isAnswer
  exact ⟨leaves, graph, isKept⟩

/-- The disk of a new store with a file beside it. -/
def besideStore : FileSystem :=
  (newStore.files.write (.ofText "/a") { bytes := [0x78] } (.seconds 1)).toOption.getD {}

/-- That disk once the graph of the file was kept and the store removed. -/
def storeRemoved : FileSystem :=
  let kept := newStore.after ⟨.root, []⟩ "c" [.change besideStore, .keep "/a" bareGraph]
  (kept.files.remove (.ofText "/c")).toOption.getD {}

/-- **Outside the law.** A path with a NUL is refused, not answered with nothing. And if the store
itself is removed, a graph that counts is not given when the store is opened again. -/
theorem keptGraph_outside :
    let root : Path := ⟨.root, []⟩
    let history : List StoreEvent :=
      [.change besideStore, .keep "/a" bareGraph, .change storeRemoved, .reopen]
    let now := newStore.after root "c" history
    newStore.files.keptGraph newStore.held (.ofText "a\x00b") = .error (.path .embeddedNul) ∧
      CountsFor now (newStore.lastFor root "c" history "/a") "/a" bareGraph.json ∧
      now.files.keptGraph now.held (.ofText "/a") = .ok none := by
  intro root history now
  have counts : CountsFor now (newStore.lastFor root "c" history "/a") "/a" bareGraph.json := by
    refine ⟨newStore.after root "c" (history.take 1), "/a", bareGraph, ⟨.seconds 1, 1⟩, ?_⟩
    refine ⟨?_, rfl, ?_, ?_⟩ <;> with_unfolding_all rfl
  have holds : now.files.Holds now.held {} := by
    refine ⟨?_, ⟨12, .moment 12, .store {}⟩, ?_, ?_, rfl⟩ <;> with_unfolding_all rfl
  refine ⟨by with_unfolding_all rfl, counts, ?_⟩
  have marked : now.files.mark (.ofText "/a") = .ok (some ⟨.seconds 1, 1⟩) := by
    with_unfolding_all rfl
  rw [holds.keptGraph marked rfl]
  rfl

end StoreState

end JsxOrigin
