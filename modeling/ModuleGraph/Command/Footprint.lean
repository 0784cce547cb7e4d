import ModuleGraph.Command.Run

/-!
# What a command looks at

A command looks at its entry file, at configuration files, and at the source files and cached
modules that its build asks for. `Machine.footprint` lists their paths, so that a copy of a disk
need not hold anything else: when it holds what the footprint lists, the command runs on the copy
as it runs on the disk.
-/

namespace ModuleGraph

/-- The entry file of a command. -/
def Command.entry? : Command → Option String
  | graph entry _ => some entry
  | restore entry => some entry
  | cacheDir => none

/-- The paths that an inquiry looks at. -/
def Inquiry.paths (cache : Option DiskPath) : Inquiry → List DiskPath
  | read uri => uri.toFilePath?.toList
  | check _ (.oci r) => (cache.map (Cache.entryPath · r)).toList
  | locate _ (.oci r) => (cache.map (Cache.entryPath · r)).toList
  | _ => []

namespace Machine

variable {τ : Type}

/-- Where the configuration of a command is looked for. A command whose entry file is not there
looks for none. -/
def startOf? (m : Machine τ) (c : Command) : Option DiskPath :=
  match c.entry? with
  | none => some m.workingDirectory
  | some entry =>
    match m.openEntry entry with
    | .ok (path, _) => some (entryDirectory path)
    | .error _ => none

/-- The configuration files that a command looks at. -/
def configFiles (m : Machine τ) (i : Invocation) : List DiskPath :=
  match i.options.config, m.startOf? i.command with
  | some path, _ => [.ofString path]
  | none, some start => Config.candidates start
  | none, none => []

/-- The module cache of a command. -/
def cacheOf? (m : Machine τ) (i : Invocation) : Option DiskPath := do
  let config ← (m.configure i.options (← m.startOf? i.command)).toOption
  config.cache? m.environment

/-- The paths that a command looks at. -/
def footprint (m : Machine τ) (i : Invocation) : List DiskPath :=
  (i.command.entry?.map DiskPath.ofString).toList ++ m.configFiles i ++
    (m.run i).2.ledger.journal.flatMap (Inquiry.paths (m.cacheOf? i))

end Machine

end ModuleGraph
