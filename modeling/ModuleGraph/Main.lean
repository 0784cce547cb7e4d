import ModuleGraph.Command.Footprint

/-!
# The program

A command runs on a copy of the part of the disk that it looks at. The copy starts with the working
directory; the command is run, what it looked at is added, and so on until nothing is lacking. Then
the report is written.

The program has no network: a module that is not in the cache cannot be fetched.
-/

namespace ModuleGraph.Program

/-- What stands at a path on the real disk. The operating system tells a directory from a file that
is not there by its error code 21. -/
def nodeAt (path : DiskPath) : IO (Option DiskNode) := do
  try
    let bytes ← IO.FS.readBinFile path.render
    return some (.file bytes.toList)
  catch e =>
    match e with
    | .inappropriateType _ 21 _ => return some .directory
    | _ => return none

/-- The disk with what stands at a path and above it. -/
def copy (cwd : Place) (d : Disk) (path : DiskPath) : IO Disk :=
  path.ancestors.reverse.foldlM (fun d p => do
    match d.placeFor cwd p, ← nodeAt p with
    | .ok place, some node => return d.set place node
    | _, _ => return d) d

/-- Adds what a command looks at until nothing is lacking. -/
partial def settle (m : Machine Unit) (i : Invocation) (copied : List DiskPath) :
    IO (Machine Unit) := do
  match (m.footprint i).filter (!copied.contains ·) with
  | [] => return m
  | lacking =>
    let disk ← lacking.foldlM (copy m.host.cwd) m.host.disk
    settle { m with host := { m.host with disk := disk } } i (lacking ++ copied)

/-- The working directory with all directories above it. -/
def startDisk (cwd : Place) : Disk :=
  (Disk.empty.performAll [] [.makeDirectories (Disk.pathOf cwd)]).1

/-- Writes a report and gives its exit code. -/
def write (r : Report) : IO UInt32 := do
  for line in r.output do
    IO.println line
  for line in r.findings.flatMap Finding.lines ++ r.messages do
    IO.eprintln line
  return UInt32.ofNat r.exitCode

/-- The number of files that a build may follow. -/
def budget : Nat := 1000000

/-- Runs what arguments ask for on the real disk. -/
def runArguments (arguments : List String) : IO UInt32 := do
  let cwd := (DiskPath.ofString (← IO.currentDir).toString).names
  let environment : Environment :=
    ⟨(← IO.getEnv "MODLINK_CACHE_DIR").map .ofString, (← IO.getEnv "HOME").map .ofString⟩
  let m : Machine Unit := ⟨⟨startDisk cwd, cwd, 0, 0, ()⟩, environment, .unreachable, budget⟩
  match Invocation.ofArguments arguments with
  | .error e => write (.ofNoCommand e)
  | .ok i => write ((← settle m i []).run i).1

end ModuleGraph.Program

/-- Runs the command line. -/
def main (arguments : List String) : IO UInt32 :=
  ModuleGraph.Program.runArguments arguments
