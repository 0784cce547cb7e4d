import ModuleGraph.Disk.Basic
import ModuleGraph.Source.Reading

/-!
# Source files on a disk

A `file` URL is read from the disk. Every other URL, and a `file` URL that names no path on this
machine, is refused.
-/

namespace ModuleGraph

/-- The text of the file that a URL names. -/
def Disk.readUrl (d : Disk) (cwd : Place) (uri : Url) : Except FileError String :=
  if uri.scheme == "file" then
    match uri.toFilePath? with
    | none => .error (.notLocal uri)
    | some path =>
      match d.readText cwd path with
      | .ok text => .ok text
      | .error .notFound => .error .notFound
      | .error e => .error (.io e.message)
  else .error (.notLocal uri)

end ModuleGraph
