import JsxOrigin.Storage.Mark
import JsxOrigin.Table
import JsxOrigin.Text.Basic

/-!
# Graph stores

A store keeps the graphs of modules between scans, each as a JSON text together with the mark that
its file had. A graph counts only as long as its file still has that mark.
-/

namespace JsxOrigin

/-- The marks of files and the texts of their graphs, both by path. -/
structure GraphStore where
  marks : Table Text Mark := []
  graphs : Table Text Text := []
deriving Inhabited

namespace GraphStore

/-- Keeps the graph of a file. -/
def keep (path : Text) (mark : Mark) (graph : Text) (s : GraphStore) : GraphStore :=
  { marks := Table.set path mark s.marks, graphs := Table.set path graph s.graphs }

/-- Whether a file still has the mark that is kept for it. -/
def isCurrent (path : Text) (mark : Mark) (s : GraphStore) : Bool :=
  Table.get? path s.marks == some mark

/-- The text of the graph of a file, if the file still has its mark. -/
def text? (path : Text) (mark : Mark) (s : GraphStore) : Option Text :=
  if s.isCurrent path mark then Table.get? path s.graphs else none

/-- Whether anything is kept for a file. -/
def keeps (path : Text) (s : GraphStore) : Bool :=
  Table.has path s.marks || Table.has path s.graphs

/-- Drops what is kept for a file. -/
def drop (path : Text) (s : GraphStore) : GraphStore :=
  { marks := Table.erase path s.marks, graphs := Table.erase path s.graphs }

/-- Replaces the text of a graph that is kept, or drops it. -/
def replaceText (path : Text) (text : Option Text) (s : GraphStore) : GraphStore :=
  match text with
  | some t => if Table.has path s.graphs then { s with graphs := Table.set path t s.graphs } else s
  | none => { s with graphs := Table.erase path s.graphs }

end GraphStore

end JsxOrigin
