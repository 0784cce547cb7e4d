import ModuleGraph.Disk.Basic

/-!
# Changing a disk

A `DiskChange` is one step of a program that writes: it makes a directory with the directories
above it, writes a file, or moves a file in place of another. Every step is done whole or, when
it fails, not at all; only making directories leaves those that were made before the failure.
`Disk.performAll` takes steps in order up to the first one that fails.
-/

namespace ModuleGraph

/-- One step of a program that writes. -/
inductive DiskChange where
  /-- Makes a directory and all directories above it. -/
  | makeDirectories (path : DiskPath)
  /-- Writes a file anew. -/
  | write (path : DiskPath) (bytes : List UInt8)
  /-- Moves a file, in place of any file that is there. -/
  | rename (source target : DiskPath)
  deriving Repr

namespace Disk

/-- The place where a path puts something: its last name in a directory that there is. -/
def placeFor (d : Disk) (cwd : Place) (p : DiskPath) : Except OsError Place := do
  checkPath p
  let dir ← d.walk (origin cwd p) p.names.dropLast
  if !d.isDirectory dir then throw .notDirectory
  match p.names.getLast? with
  | none => throw .alreadyExists
  | some name =>
    if name = [DiskPath.dotByte] || name = [DiskPath.dotByte, DiskPath.dotByte] then
      throw .alreadyExists
    if maxName < name.length then throw .nameTooLong
    return dir ++ [name]

/-- Makes one directory. -/
def makeDirectory (d : Disk) (cwd : Place) (p : DiskPath) : Except OsError Disk := do
  let place ← d.placeFor cwd p
  if (d.node? place).isSome then throw .alreadyExists
  return d.set place .directory

/-- Makes one directory, unless it is there. -/
def ensureDirectory (d : Disk) (cwd : Place) (p : DiskPath) : Disk × Except OsError Unit :=
  match d.makeDirectory cwd p with
  | .ok d => (d, .ok ())
  | .error e => (d, if d.namesDirectory cwd p then .ok () else .error e)

/-- Makes a directory that is the first of its ancestors, and those above it where one is
missing. -/
def makeDirectories (d : Disk) (cwd : Place) : List DiskPath → Disk × Except OsError Unit
  | [] => (d, .ok ())
  | p :: above =>
    if p.isEmpty then (d, .ok ())
    else
      match d.ensureDirectory cwd p with
      | (d, .error .notFound) =>
        match makeDirectories d cwd above with
        | (d, .ok ()) => d.ensureDirectory cwd p
        | (d, .error e) => (d, .error e)
      | done => done

/-- Writes a file. -/
def write (d : Disk) (cwd : Place) (p : DiskPath) (bytes : List UInt8) : Except OsError Disk := do
  let place ← d.placeFor cwd p
  if meansDirectory p || d.isDirectory place then throw .isDirectory
  return d.set place (.file bytes)

/-- Moves a file. -/
def rename (d : Disk) (cwd : Place) (source target : DiskPath) : Except OsError Disk := do
  let bytes ← d.readBytes cwd source
  let place ← d.placeFor cwd target
  if d.isDirectory place then throw .isDirectory
  return (d.erase (← d.find cwd source)).set place (.file bytes)

/-- Takes one step. -/
def perform (d : Disk) (cwd : Place) : DiskChange → Disk × Except OsError Unit
  | .makeDirectories p => d.makeDirectories cwd p.ancestors
  | .write p bytes =>
    match d.write cwd p bytes with
    | .ok d => (d, .ok ())
    | .error e => (d, .error e)
  | .rename source target =>
    match d.rename cwd source target with
    | .ok d => (d, .ok ())
    | .error e => (d, .error e)

/-- Takes steps in order up to the first one that fails. -/
def performAll (d : Disk) (cwd : Place) : List DiskChange → Disk × Except OsError Unit
  | [] => (d, .ok ())
  | c :: rest =>
    match d.perform cwd c with
    | (d, .ok ()) => performAll d cwd rest
    | (d, .error e) => (d, .error e)

end Disk

end ModuleGraph
