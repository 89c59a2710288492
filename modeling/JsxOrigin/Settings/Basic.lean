import JsxOrigin.Settings.Environment
import JsxOrigin.Text.LowerCase
import JsxOrigin.Text.Quoted

/-!
# Settings

The settings of the program come from the environment: where graphs are kept, which directories are
passed by, whether kept graphs are used, and where the path mappings stand.
-/

namespace JsxOrigin

/-- A setting that should be a truth value and is not. -/
structure NotBoolean where
  value : Text
deriving DecidableEq

/-- What is wrong with the setting. -/
def NotBoolean.message (e : NotBoolean) : Text :=
  "PROVTRACE_USE_CACHE must be a boolean value, got " ++ Text.quoted e.value

namespace Settings

/-- The value of a variable, or a default. -/
def setting (env : Environment) (name : String) (default : Text) : Text :=
  (Table.get? (Text.ofString name) env).getD default

/-- The directory in which graphs are kept. -/
def cacheDirectory (env : Environment) : Text :=
  setting env "PROVTRACE_CACHE_DIR" ".provtrace_cache"

/-- The directories that are always passed by. -/
def defaultExcluded : List Text :=
  ["node_modules", "bower_components", "jspm_packages", "dist", "build", "out", "coverage",
    ".next", ".nuxt", ".svelte-kit", ".turbo", ".cache", ".git", ".provtrace_cache"]

/-- The directories that are passed by: the default ones, the one in which graphs are kept, and
those that a setting lists. -/
def excluded (env : Environment) : List Text :=
  let extra := Text.splitOn (.scalar ',') (setting env "PROVTRACE_EXCLUDED_DIRS" [])
  defaultExcluded ++ [cacheDirectory env] ++ (extra.map Text.trim).filter (!·.isEmpty)

/-- The endings of the files that are looked at. -/
def fileEndings : List Text := [".js", ".jsx", ".mjs", ".cjs", ".ts", ".tsx", ".mts", ".cts"]

/-- The patterns of the files that are looked at. -/
def filePatterns : List Text := fileEndings.map fun ending => "**/*" ++ ending

/-- Where the path mappings stand. -/
def tsconfigPath (env : Environment) : Text := setting env "PROVTRACE_TSCONFIG" "tsconfig.json"

/-- The words for true. -/
def trueWords : List Text := ["1", "true", "yes", "on"]

/-- The words for false. -/
def falseWords : List Text := ["0", "false", "no", "off"]

/-- Whether kept graphs are used. -/
def useCache (env : Environment) : Except NotBoolean Bool :=
  let value := Text.lower (Text.trim (setting env "PROVTRACE_USE_CACHE" "true"))
  if trueWords.contains value then .ok true
  else if falseWords.contains value then .ok false
  else .error ⟨value⟩

end Settings

end JsxOrigin
