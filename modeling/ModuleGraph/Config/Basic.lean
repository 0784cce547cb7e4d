import ModuleGraph.Disk.Basic
import ModuleGraph.Toml.Basic

/-!
# Configuration

A configuration says where the module cache is, which registries are asked over plain HTTP, how
long a request may take, and what is logged. It is written as a TOML file of three sections, in
which every key may be left out and no other key may stand.

`ConfigError` tells why there is no configuration, or none that can be used.
-/

namespace ModuleGraph

/-- What can be configured. -/
structure Config where
  cacheDirectory : Option DiskPath
  plainHttp : List String
  timeoutSeconds : Nat
  logFilter : Option String
  deriving DecidableEq, Repr

/-- What is wrong with a file that was read. -/
inductive ConfigFault where
  /-- The file is not TOML. -/
  | malformed
  /-- A key is not known, or its value is of the wrong kind. -/
  | unexpected
  deriving DecidableEq, Repr

/-- Why there is no configuration that can be used. -/
inductive ConfigError where
  | unreadable (path : DiskPath) (cause : OsError)
  | invalid (path : DiskPath) (fault : ConfigFault)
  | noCacheDirectory
  deriving DecidableEq, Repr

/-- The text of the fault. -/
def ConfigFault.message : ConfigFault → String
  | malformed => "the file is not well-formed"
  | unexpected => "a key is not known or its value is of the wrong kind"

/-- The text of the error. -/
def ConfigError.message : ConfigError → String
  | unreadable path cause => "cannot read '" ++ path.render ++ "': " ++ cause.message
  | invalid path fault =>
    "invalid configuration in '" ++ path.render ++ "': " ++ fault.message
  | noCacheDirectory => "no module cache directory: set MODLINK_CACHE_DIR or HOME"

namespace Config

/-- What holds where nothing is configured. -/
def standard : Config := ⟨none, [], 30, none⟩

/-- The fields of a section. A section that is not there has none. -/
def section? (names : List String) : Option TomlValue → Option (List (Option TomlValue))
  | none => some (names.map fun _ => none)
  | some v => v.fields? names

/-- What a field holds, if it is there. -/
def field? {α : Type} (read? : TomlValue → Option α) : Option TomlValue → Option (Option α)
  | none => some none
  | some v => (read? v).map some

/-- The texts of an array of strings. -/
def strings? (v : TomlValue) : Option (List String) := do
  (← v.elements?).mapM TomlValue.string?

/-- The configuration that a file's table holds. -/
def ofToml? (v : TomlValue) : Option Config := do
  match ← v.fields? ["cache", "oci", "log"] with
  | [cache, oci, log] =>
    match ← section? ["dir"] cache, ← section? ["plain_http", "timeout_secs"] oci,
        ← section? ["filter"] log with
    | [dir], [plainHttp, timeout], [filter] =>
      return {
        cacheDirectory := (← field? TomlValue.string? dir).map DiskPath.ofString
        plainHttp := (← field? strings? plainHttp).getD standard.plainHttp
        timeoutSeconds := (← field? TomlValue.natural? timeout).getD standard.timeoutSeconds
        logFilter := ← field? TomlValue.string? filter }
    | _, _, _ => none
  | _ => none

end Config

end ModuleGraph
