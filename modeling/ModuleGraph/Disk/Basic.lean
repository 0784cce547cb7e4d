import ModuleGraph.Disk.Path
import Std.Data.ExtTreeMap

/-!
# Disks

A disk is a tree of directories and files without links, kept as the nodes under the root by
their places; a place is the list of names from the root on. The root is always a directory.

A path is looked up name by name from the root or from the working directory. `OsError` tells why
a look-up or a change fails, in the words of the operating system.
-/

namespace ModuleGraph

/-- Why an operation on a disk fails. -/
inductive OsError where
  | notFound
  | alreadyExists
  | notDirectory
  | isDirectory
  | nameTooLong
  /-- A path holds the byte that ends names. -/
  | nulInPath
  /-- The bytes read as a text are not UTF-8. -/
  | notUtf8
  deriving DecidableEq, Repr

/-- The text of the error. -/
def OsError.message : OsError → String
  | notFound => "No such file or directory (os error 2)"
  | alreadyExists => "File exists (os error 17)"
  | notDirectory => "Not a directory (os error 20)"
  | isDirectory => "Is a directory (os error 21)"
  | nameTooLong => "File name too long (os error 36)"
  | nulInPath => "file name contained an unexpected NUL byte"
  | notUtf8 => "stream did not contain valid UTF-8"

/-- What stands at a place. -/
inductive DiskNode where
  | file (bytes : List UInt8)
  | directory
  deriving DecidableEq, Repr

/-- The names from the root on. -/
abbrev Place := List (List UInt8)

/-- The nodes under the root, by place. -/
structure Disk where
  nodes : Std.ExtTreeMap Place DiskNode

namespace Disk

/-- Nothing but the root. -/
def empty : Disk := ⟨∅⟩

/-- What stands at a place. -/
def node? (d : Disk) (at_ : Place) : Option DiskNode :=
  if at_.isEmpty then some .directory else d.nodes[at_]?

/-- The disk with a node at a place. -/
def set (d : Disk) (at_ : Place) (n : DiskNode) : Disk :=
  ⟨d.nodes.insert at_ n⟩

/-- The disk without the node at a place. -/
def erase (d : Disk) (at_ : Place) : Disk :=
  ⟨d.nodes.erase at_⟩

/-- A directory stands at the place. -/
def isDirectory (d : Disk) (at_ : Place) : Bool :=
  d.node? at_ == some .directory

/-! ## Looking up paths -/

/-- The longest name. -/
def maxName : Nat := 255

/-- The number of bytes that no path reaches. -/
def maxPath : Nat := 4096

/-- Refuses a path for its text alone. -/
def checkPath (p : DiskPath) : Except OsError Unit :=
  if p.contains 0 then .error .nulInPath
  else if p.isEmpty then .error .notFound
  else if maxPath ≤ p.length then .error .nameTooLong
  else .ok ()

/-- The place that names lead to from another place. -/
def walk (d : Disk) : Place → List (List UInt8) → Except OsError Place
  | here, [] => .ok here
  | here, name :: rest =>
    if !d.isDirectory here then .error .notDirectory
    else if name = [DiskPath.dotByte] then walk d here rest
    else if name = [DiskPath.dotByte, DiskPath.dotByte] then walk d here.dropLast rest
    else if maxName < name.length then .error .nameTooLong
    else if (d.node? (here ++ [name])).isSome then walk d (here ++ [name]) rest
    else .error .notFound

/-- Where a path starts. -/
def origin (cwd : Place) (p : DiskPath) : Place :=
  if p.isAbsolute then [] else cwd

/-- The path ends with a slash, so that it means a directory. -/
def meansDirectory (p : DiskPath) : Bool :=
  p.getLast? == some slashByte

/-- The place of what a path names. -/
def find (d : Disk) (cwd : Place) (p : DiskPath) : Except OsError Place := do
  checkPath p
  let found ← d.walk (origin cwd p) p.names
  if meansDirectory p && !d.isDirectory found then throw .notDirectory
  return found

/-- The bytes of the file that a path names. -/
def readBytes (d : Disk) (cwd : Place) (p : DiskPath) : Except OsError (List UInt8) := do
  match d.node? (← d.find cwd p) with
  | some (.file bytes) => return bytes
  | _ => throw .isDirectory

/-- The text of the file that a path names. -/
def readText (d : Disk) (cwd : Place) (p : DiskPath) : Except OsError String := do
  match Utf8.string? (← d.readBytes cwd p) with
  | some text => return text
  | none => throw .notUtf8

/-- The path names a file. -/
def isFile (d : Disk) (cwd : Place) (p : DiskPath) : Bool :=
  (d.readBytes cwd p).toBool

/-- The path names a directory. -/
def namesDirectory (d : Disk) (cwd : Place) (p : DiskPath) : Bool :=
  match d.find cwd p with
  | .ok found => d.isDirectory found
  | .error _ => false

/-- The absolute path of a place. -/
def pathOf (place : Place) : DiskPath :=
  if place.isEmpty then [slashByte] else place.flatMap (slashByte :: ·)

/-- The absolute path, without dots, of what a path names. -/
def canonicalize (d : Disk) (cwd : Place) (p : DiskPath) : Except OsError DiskPath := do
  return pathOf (← d.find cwd p)

end Disk

end ModuleGraph
