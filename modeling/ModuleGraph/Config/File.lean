import ModuleGraph.Config.Basic
import ModuleGraph.Toml.Reader

/-!
# Configuration files

A configuration file is named explicitly, or it is the nearest one of the usual name in a
directory or the directories above it. A relative cache directory lies beside the file that names
it.
-/

namespace ModuleGraph.Config

/-- The usual name of a configuration file. -/
def fileName : String := "modlink.toml"

/-- The configuration with its cache directory beside the file at a path. -/
def beside (path : DiskPath) (c : Config) : Config :=
  { c with
    cacheDirectory := c.cacheDirectory.map fun dir =>
      match path.parent? with
      | some base => base.join dir
      | none => dir }

/-- The configuration of a file's text. -/
def ofText (text : String) : Except ConfigFault Config :=
  match Toml.parse? text with
  | none => .error .malformed
  | some v =>
    match ofToml? v with
    | none => .error .unexpected
    | some c => .ok c

/-- The configuration of the file at a path. -/
def load (d : Disk) (cwd : Place) (path : DiskPath) : Except ConfigError Config :=
  match d.readText cwd path with
  | .error cause => .error (.unreadable path cause)
  | .ok text =>
    match ofText text with
    | .error fault => .error (.invalid path fault)
    | .ok c => .ok (c.beside path)

/-- The places where a configuration file is looked for, the nearest first. -/
def candidates (start : DiskPath) : List DiskPath :=
  start.ancestors.map (·.join (.ofString fileName))

/-- The nearest configuration file from a directory upwards. -/
def find? (d : Disk) (cwd : Place) (start : DiskPath) : Option DiskPath :=
  (candidates start).find? (d.isFile cwd)

/-- The configuration of the nearest file, or the standard one when there is no file. -/
def discover (d : Disk) (cwd : Place) (start : DiskPath) : Except ConfigError Config :=
  match find? d cwd start with
  | some path => load d cwd path
  | none => .ok standard

end ModuleGraph.Config
