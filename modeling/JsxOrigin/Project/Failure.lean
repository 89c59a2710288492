import JsxOrigin.ModuleGraph.Codec
import JsxOrigin.Project.Registry
import JsxOrigin.Project.Resolution
import JsxOrigin.Settings.Basic
import JsxOrigin.Settings.PathMapping
import JsxOrigin.Storage.OpenStore

/-!
# Failures

Why work on a project can fail, gathered from its parts.
-/

namespace JsxOrigin

/-- Why work on a project failed. -/
inductive Failure where
  | setting (e : NotBoolean)
  | file (e : FileError)
  | query (e : QueryError)
  | resolve (e : ResolveError)
  | configuration (e : Tsconfig.ConfigurationError)
  | store (e : StoreError)
  | environment (e : EnvironmentError)
  /-- A value that is to be printed is no text. -/
  | notPrintable
deriving DecidableEq

end JsxOrigin
