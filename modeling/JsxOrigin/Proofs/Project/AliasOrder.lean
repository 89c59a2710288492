import JsxOrigin.Project.Resolution
import JsxOrigin.Proofs.Table

/-!
# The order of aliases

The aliases of a project are a table of patterns. The star is cut off each pattern, so what decides
about a source is the longest alias that covers it; two aliases of one length that cover the same
source are the same alias (`Resolver.eq_of_covers`), and the order of the table has no say in it.

**The law** (`Resolver.resolve_reordered`): a reordered table resolves a source to the same file, as
long as patterns that come down to the longest alias of the source have one target; and where that
alias leads nowhere, no other alias and no other place is tried.

A pattern with a star and the same pattern without it come down to one alias. The one recorded last
replaces the other, so there the order does decide (`Resolver.resolve_by_order`).
-/

namespace JsxOrigin

namespace Resolver

/-! ## Aliases -/

/-- A pattern without its stars. -/
def cut (pattern : Text) : Text := Text.replace star [] pattern

/-- The aliases of a table of patterns, in the order in which they are recorded. A pattern without
targets has none. -/
def records (aliases : Aliases) : List (Text × Text) :=
  aliases.filterMap fun e => e.2.head?.map fun target => (cut e.1, cut target)

theorem aliases_ofAliases (root : Path) (aliases : Aliases) :
    (ofAliases root aliases).aliases = Table.ofList (records aliases) := by
  show aliases.foldl _ [] = (records aliases).foldl _ []
  generalize ([] : Table Text Text) = table
  induction aliases generalizing table with
  | nil => rfl
  | cons e rest ih =>
    obtain ⟨pattern, _ | ⟨target, more⟩⟩ := e
    · exact ih table
    · exact ih _

theorem nodup_keys_ofAliases (root : Path) (aliases : Aliases) :
    (ofAliases root aliases).aliases.keys.Nodup := by
  rw [aliases_ofAliases]
  exact Table.nodup_keys_ofList _

/-- Whether an alias covers a source: it is the source or a directory of it. -/
def Covers (name source : Text) : Prop := source = name ∨ name ++ Text.ofString "/" <+: source

theorem covers_iff {name source : Text} :
    (source == name || Text.startsWith source (name ++ Text.ofString "/")) = true ↔
      Covers name source := by
  rw [Bool.or_eq_true, beq_iff_eq, Text.startsWith, List.isPrefixOf_iff_prefix, Covers]

theorem Covers.isPrefix {name source : Text} (covers : Covers name source) : name <+: source := by
  rcases covers with rfl | below
  · exact List.prefix_rfl
  · exact (List.prefix_append _ _).trans below

/-- **No draw.** Two aliases of one length that cover a source are the same. -/
theorem eq_of_covers {name other source : Text} (covers : Covers name source)
    (coversToo : Covers other source) (length : name.length = other.length) : name = other :=
  (List.prefix_of_prefix_length_le covers.isPrefix coversToo.isPrefix
    (Nat.le_of_eq length)).eq_of_length length

/-! ## The longest alias -/

/-- The longer one of two aliases; the first one if they are equally long. -/
def longer (best : Option (Text × Text)) (candidate : Text × Text) : Option (Text × Text) :=
  best.elim (some candidate) fun b =>
    if b.1.length < candidate.1.length then some candidate else some b

theorem alias?_eq_foldl (r : Resolver) (source : Text) :
    r.alias? source =
      (r.aliases.filter fun e =>
        source == e.1 || Text.startsWith source (e.1 ++ Text.ofString "/")).foldl longer none := by
  rw [alias?]
  congr 1
  funext best candidate
  cases best <;> rfl

/-- Keeping the longer one, again and again, finds a longest one. -/
theorem foldl_longer (b : Text × Text) (candidates : List (Text × Text)) :
    ∃ e ∈ b :: candidates, candidates.foldl longer (some b) = some e ∧
      ∀ c ∈ b :: candidates, c.1.length ≤ e.1.length := by
  induction candidates generalizing b with
  | nil => exact ⟨b, List.mem_cons_self, rfl, by simp⟩
  | cons c rest ih =>
    rw [List.foldl_cons]
    by_cases shorter : b.1.length < c.1.length
    · obtain ⟨e, mem, kept, longest⟩ := ih c
      have next : longer (some b) c = some c := if_pos shorter
      have first := longest c List.mem_cons_self
      rw [next]
      refine ⟨e, List.mem_cons_of_mem _ mem, kept, List.forall_mem_cons.mpr ⟨?_, longest⟩⟩
      omega
    · obtain ⟨e, mem, kept, longest⟩ := ih b
      have next : longer (some b) c = some b := if_neg shorter
      obtain ⟨first, later⟩ := List.forall_mem_cons.mp longest
      rw [next]
      refine ⟨e, ?_, kept,
        List.forall_mem_cons.mpr ⟨first, List.forall_mem_cons.mpr ⟨?_, later⟩⟩⟩
      · exact (List.mem_cons.mp mem).elim (· ▸ List.mem_cons_self) fun inRest =>
          List.mem_cons_of_mem _ (List.mem_cons_of_mem _ inRest)
      · omega

/-- **The longest alias decides.** -/
theorem alias?_eq_some_iff {r : Resolver} (once : r.aliases.keys.Nodup) {source : Text}
    {e : Text × Text} :
    r.alias? source = some e ↔
      e ∈ r.aliases ∧ Covers e.1 source ∧
        ∀ c ∈ r.aliases, Covers c.1 source → c.1.length ≤ e.1.length := by
  rw [alias?_eq_foldl]
  have listed (c : Text × Text) :
      c ∈ (r.aliases.filter fun e =>
        source == e.1 || Text.startsWith source (e.1 ++ Text.ofString "/")) ↔
      c ∈ r.aliases ∧ Covers c.1 source := by
    rw [List.mem_filter, covers_iff]
  revert listed
  generalize (r.aliases.filter fun e =>
    source == e.1 || Text.startsWith source (e.1 ++ Text.ofString "/")) = candidates
  intro listed
  cases candidates with
  | nil =>
    refine iff_of_false (by simp) ?_
    rintro ⟨mem, covers, -⟩
    exact List.not_mem_nil ((listed e).mpr ⟨mem, covers⟩)
  | cons b rest =>
    obtain ⟨found, mem, kept, longest⟩ := foldl_longer b rest
    have first : longer none b = some b := rfl
    rw [List.foldl_cons, first, kept, Option.some.injEq]
    constructor
    · rintro rfl
      obtain ⟨isAlias, covers⟩ := (listed found).mp mem
      exact ⟨isAlias, covers, fun c mem covers => longest c ((listed c).mpr ⟨mem, covers⟩)⟩
    · rintro ⟨isAlias, covers, isLongest⟩
      obtain ⟨foundAlias, foundCovers⟩ := (listed found).mp mem
      have length := Nat.le_antisymm (isLongest found foundAlias foundCovers)
        (longest e ((listed e).mpr ⟨isAlias, covers⟩))
      exact Table.eq_of_key_eq once foundAlias isAlias (eq_of_covers foundCovers covers length)

/-! ## Another order -/

/-- Whether a recorded alias is a longest one that covers a source. -/
structure Decisive (recorded : List (Text × Text)) (source : Text) (e : Text × Text) : Prop where
  mem : e ∈ recorded
  covers : Covers e.1 source
  longest : ∀ c ∈ recorded, Covers c.1 source → c.1.length ≤ e.1.length

theorem Decisive.eq_name {recorded : List (Text × Text)} {source : Text} {e e' : Text × Text}
    (decisive : Decisive recorded source e) (decisive' : Decisive recorded source e') :
    e.1 = e'.1 :=
  eq_of_covers decisive.covers decisive'.covers
    (Nat.le_antisymm (decisive'.longest e decisive.mem decisive.covers)
      (decisive.longest e' decisive'.mem decisive'.covers))

theorem Decisive.of_perm {recorded reordered : List (Text × Text)} (perm : reordered.Perm recorded)
    {source : Text} {e : Text × Text} (decisive : Decisive reordered source e) :
    Decisive recorded source e :=
  ⟨perm.mem_iff.mp decisive.mem, decisive.covers,
    fun c mem => decisive.longest c (perm.mem_iff.mpr mem)⟩

/-- A decisive alias decides about the source, if all that could decide have one target. -/
theorem alias?_eq_some_of_agree (root : Path) {source : Text} {aliases : Aliases}
    (agree : ∀ e e', Decisive (records aliases) source e → Decisive (records aliases) source e' →
      e.2 = e'.2) {e : Text × Text} :
    (ofAliases root aliases).alias? source = some e ↔ Decisive (records aliases) source e := by
  rw [alias?_eq_some_iff (nodup_keys_ofAliases ..), aliases_ofAliases]
  constructor
  · rintro ⟨mem, covers, longest⟩
    refine ⟨Table.mem_of_mem_ofList mem, covers, fun c isRecorded coversToo => ?_⟩
    obtain ⟨target, listed⟩ := Table.exists_mem_ofList isRecorded
    exact longest (c.1, target) listed coversToo
  · intro decisive
    obtain ⟨target, listed⟩ := Table.exists_mem_ofList decisive.mem
    have decisiveToo : Decisive (records aliases) source (e.1, target) :=
      ⟨Table.mem_of_mem_ofList listed, decisive.covers, decisive.longest⟩
    have sameTarget : e.2 = target := agree e _ decisive decisiveToo
    refine ⟨?_, decisive.covers, fun c mem => decisive.longest c (Table.mem_of_mem_ofList mem)⟩
    rwa [← sameTarget] at listed

theorem alias?_reordered (root : Path) {source : Text} {aliases reordered : Aliases}
    (perm : reordered.Perm aliases)
    (agree : ∀ e e', Decisive (records aliases) source e → Decisive (records aliases) source e' →
      e.2 = e'.2) :
    (ofAliases root reordered).alias? source = (ofAliases root aliases).alias? source := by
  have permRecords : (records reordered).Perm (records aliases) := perm.filterMap _
  have agree' (e e' : Text × Text) (decisive : Decisive (records reordered) source e)
      (decisive' : Decisive (records reordered) source e') :=
    agree e e' (decisive.of_perm permRecords) (decisive'.of_perm permRecords)
  ext e
  rw [alias?_eq_some_of_agree root agree, alias?_eq_some_of_agree root agree']
  exact ⟨fun decisive => decisive.of_perm permRecords,
    fun decisive => decisive.of_perm permRecords.symm⟩

/-- Aliases play no part for a relative source. -/
theorem resolve_congr {r r' : Resolver} {source : Text} (root : r'.root = r.root)
    (same : Text.startsWith source "." = false → r'.alias? source = r.alias? source)
    (fs : FileSystem) (file : Path) : r'.resolve fs file source = r.resolve fs file source := by
  cases relative : Text.startsWith source "." with
  | true => simp only [resolve, relative, root, if_true]
  | false =>
    have start : r'.start source = r.start source := by
      rw [Resolver.start, Resolver.start, same relative, root]
    rw [resolve, resolve, start, root]

theorem resolve_of_alias {r : Resolver} {source : Text} (filled : source.isEmpty = false)
    (unrelated : Text.startsWith source "." = false) {e : Text × Text}
    (decides : r.alias? source = some e) (fs : FileSystem) (file : Path) :
    r.resolve fs file source =
      (probe fs ((r.root.join (.ofText e.2)).join
        (.ofText ((source.drop e.1.length).dropWhile (· = .scalar '/'))))).map
        (·.map (·.resolve r.root)) := by
  have start : r.start source = (r.root.join (.ofText e.2)).join
      (.ofText ((source.drop e.1.length).dropWhile (· = .scalar '/'))) := by
    rw [Resolver.start, decides]
  rw [← start, resolve]
  simp only [filled, unrelated, Bool.false_eq_true, if_false]
  cases probe fs (r.start source) <;> rfl

/-! ## The law -/

/-- **The order of the aliases has no say** about a source, if it is relative or all patterns that
come down to the longest alias of it have one target. The longest alias that covers the source
decides: its target is where the file is looked for, and nowhere else. -/
theorem resolve_reordered (fs : FileSystem) (root file : Path) (source : Text)
    {aliases reordered : Aliases} (perm : reordered.Perm aliases)
    (agree : Text.startsWith source "." = false → ∀ e e', Decisive (records aliases) source e →
      Decisive (records aliases) source e' → e.2 = e'.2) :
    (ofAliases root reordered).resolve fs file source =
      (ofAliases root aliases).resolve fs file source ∧
    ∀ e, source.isEmpty = false → Text.startsWith source "." = false →
      Decisive (records aliases) source e →
      (ofAliases root reordered).resolve fs file source =
        (probe fs ((root.join (.ofText e.2)).join
          (.ofText ((source.drop e.1.length).dropWhile (· = .scalar '/'))))).map
          (·.map (·.resolve root)) := by
  have sameAlias (unrelated : Text.startsWith source "." = false) :
      (ofAliases root reordered).alias? source = (ofAliases root aliases).alias? source :=
    alias?_reordered root perm (agree unrelated)
  have same : (ofAliases root reordered).resolve fs file source =
      (ofAliases root aliases).resolve fs file source :=
    resolve_congr (by rfl) sameAlias fs file
  refine ⟨same, ?_⟩
  intro e filled unrelated decisive
  have decides : (ofAliases root aliases).alias? source = some e :=
    (alias?_eq_some_of_agree root (agree unrelated)).mpr decisive
  rw [same]
  exact resolve_of_alias filled unrelated decides fs file

/-! ## Two directories with a module of one name -/

/-- A project with a module of the same name in each of two directories. -/
def twofold : FileSystem where
  entries :=
    [(["p"], .directory 1 (.moment 0)), (["p", "one"], .directory 2 (.moment 0)),
      (["p", "one", "m.js"], .file ⟨3, .moment 0, .data ⟨[], none⟩⟩),
      (["p", "two"], .directory 4 (.moment 0)),
      (["p", "two", "m.js"], .file ⟨5, .moment 0, .data ⟨[], none⟩⟩)]

/-- The law for two aliases that cover a source, of which the longer one decides in either order. -/
theorem resolve_reordered_longer :
    let short : Text × List Text := ("@app/*", ["one/*"])
    let long : Text × List Text := ("@app/ui/*", ["two/*"])
    let recorded : List (Text × Text) := [("@app", "one"), ("@app/ui", "two")]
    let root : Path := ⟨.root, ["p"]⟩
    let file : Path := ⟨.relative, ["a.js"]⟩
    let source : Text := "@app/ui/m"
    let found : Path := ⟨.root, ["p", "two", "m.js"]⟩
    [long, short].Perm [short, long] ∧ records [short, long] = recorded ∧
    (∀ e ∈ recorded, Covers e.1 source) ∧ Decisive recorded source ("@app/ui", "two") ∧
    (ofAliases root [short, long]).resolve twofold file source = .ok (some found) ∧
    (ofAliases root [long, short]).resolve twofold file source = .ok (some found) := by
  intro short long recorded root file source found
  have perm : [long, short].Perm [short, long] := .swap ..
  have areRecorded : records [short, long] = recorded := by with_unfolding_all rfl
  have cover : ∀ e ∈ recorded, Covers e.1 source :=
    List.forall_mem_cons.mpr ⟨.inr (by decide),
      List.forall_mem_cons.mpr ⟨.inr (by decide), List.forall_mem_nil _⟩⟩
  have apart : ∀ e ∈ recorded, ∀ e' ∈ recorded, e.1 = e'.1 → e.2 = e'.2 := by decide
  have longest : ∀ c ∈ recorded, c.1.length ≤ (Text.ofString "@app/ui").length := by decide
  have decisive : Decisive recorded source ("@app/ui", "two") :=
    ⟨by decide, cover _ (by decide), fun c mem _ => longest c mem⟩
  obtain ⟨same, decides⟩ := resolve_reordered twofold root file source perm
    (areRecorded ▸ fun _ e e' isDecisive isDecisiveToo =>
      apart e isDecisive.mem e' isDecisiveToo.mem (isDecisive.eq_name isDecisiveToo))
  have reached := decides ("@app/ui", "two") rfl (by decide) (areRecorded ▸ decisive)
  have probed : (ofAliases root [long, short]).resolve twofold file source = .ok (some found) := by
    rw [reached]
    rfl
  exact ⟨perm, areRecorded, cover, decisive, same ▸ probed, probed⟩

/-- **Outside the law.** A pattern with a star and the same pattern without it: whichever is
recorded last takes the other one's place, for a source that only the pattern with the star is
meant for. -/
theorem resolve_by_order :
    let plain : Text × List Text := ("@app", ["one"])
    let starred : Text × List Text := ("@app/*", ["two/*"])
    let root : Path := ⟨.root, ["p"]⟩
    let file : Path := ⟨.relative, ["a.js"]⟩
    [starred, plain].Perm [plain, starred] ∧
    (ofAliases root [plain, starred]).resolve twofold file "@app/m" =
      .ok (some ⟨.root, ["p", "two", "m.js"]⟩) ∧
    (ofAliases root [starred, plain]).resolve twofold file "@app/m" =
      .ok (some ⟨.root, ["p", "one", "m.js"]⟩) := by
  intro plain starred root file
  exact ⟨.swap .., by with_unfolding_all rfl, by with_unfolding_all rfl⟩

end Resolver

end JsxOrigin
