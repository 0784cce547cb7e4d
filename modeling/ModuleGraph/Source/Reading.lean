import ModuleGraph.Source.FileMap

/-!
# Reading source files

A file that is open in an editor is read from the workspace, any other from where it is kept.
`FileError` tells why a kept file could not be read.
-/

namespace ModuleGraph

/-- Why a file could not be read. -/
inductive FileError where
  | notFound
  /-- The URL names no file on this machine. -/
  | notLocal (uri : Url)
  | io (message : String)
  deriving DecidableEq, Repr

namespace FileError

/-- The text of the error. -/
def message : FileError → String
  | notFound => "file not found"
  | notLocal uri => "'" ++ uri.text ++ "' is not a local file URI"
  | io message => message

end FileError

/-- The documents open in an editor, by URL. -/
abbrev Workspace := FileMap

end ModuleGraph
