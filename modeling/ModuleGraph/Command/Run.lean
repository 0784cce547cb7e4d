import ModuleGraph.Command.Arguments
import ModuleGraph.Command.Report
import ModuleGraph.Config.Routes
import ModuleGraph.Disk.Reading
import ModuleGraph.Linking.Build

/-!
# Running commands

A command that works on a graph first finds its entry file, then its configuration, which starts
from the entry file's directory, and then the module cache; only then it builds. The first of
these that fails ends the command.

`Report.ofGraph` shows a graph and counts its errors. `Report.ofRestore` counts the declarations of
modules that have to be fetched, and those among them whose modules are still not there.
-/

namespace ModuleGraph

/-- Where commands run: a machine, its environment, what carries requests, and the number of files
that a build may follow. -/
structure Machine (τ : Type) where
  host : Host τ
  environment : Environment
  transport : Http.Transport τ
  budget : Nat

/-- Why a command ends before there is a graph. -/
inductive CommandError where
  | cannotOpen (entry : String) (cause : OsError)
  | noFilePath (path : DiskPath)
  | config (e : ConfigError)
  | build (e : BuildError)
  /-- The budget does not suffice. -/
  | tooManyFiles
  deriving DecidableEq, Repr

/-- The text of the error. -/
def CommandError.message : CommandError → String
  | cannotOpen entry cause => "cannot open '" ++ entry ++ "': " ++ cause.message
  | noFilePath path => "'" ++ path.render ++ "' is not a valid file path"
  | config e => e.message
  | build e => e.message
  | tooManyFiles => "the module graph has too many files"

namespace Report

/-- The report on a graph. -/
def ofGraph (g : Graph) : Report :=
  let findings := g.findings fun _ => true
  let errors := (findings.filter (·.diagnostic.isError)).length
  if errors = 0 then ⟨g.lines, findings, [], 0⟩
  else ⟨g.lines, findings, ["error: " ++ toString errors ++ " module error(s)"], failureCode⟩

/-- The lines that tell how the command line is used. -/
def usage : List String :=
  ["Usage: modlink [OPTIONS] <COMMAND>", "",
    "Commands:",
    "  graph <ENTRY> [--no-restore]  Show the module graph of an entry file and its errors",
    "  restore <ENTRY>               Restore the remote modules that an entry file needs",
    "  cache-dir                     Show the module cache directory", "",
    "Options:",
    "  --config <PATH>  Configuration file, in place of the nearest modlink.toml",
    "  --log <FILTER>   Log filter",
    "  -h, --help       Show this help",
    "  -V, --version    Show the version"]

/-- The line that shows the version. -/
def version : String := "modlink 0.1.0"

/-- The report of a command line that asks for no command. -/
def ofNoCommand : NoCommand → Report
  | .help => .ofOutput usage
  | .version => .ofOutput [version]
  | .mistaken e => ⟨[], [], ("error: " ++ e.message) :: "" :: usage, usageCode⟩

/-- The codes of the failures of modules that are not there. -/
def restoreCodes : List String :=
  ["module-restore-required", "module-restore-failed", "module-restore-unexpected"]

/-- The declarations of a graph that refer to modules which have to be fetched. -/
def remoteDeclarations {σ : Type} (routes : Routes σ) (g : Graph) : List Declaration :=
  (g.files.values.flatMap (·.declarations)).filter fun d =>
    (routes.read d).toOption.any (·.scheme != .relative)

/-- The report on the restore of a graph's modules. -/
def ofRestore {σ : Type} (routes : Routes σ) (g : Graph) : Report :=
  let remote := remoteDeclarations routes g
  let failed := remote.countP fun d => (g.failure? d.id).any Failure.isRestore
  ⟨[], g.findings fun d => restoreCodes.contains d.code,
    ["restored " ++ toString (remote.length - failed) ++ " of " ++ toString remote.length ++
      " remote module(s)"],
    if failed = 0 then 0 else failureCode⟩

end Report

namespace Machine

variable {τ : Type}

/-- The machine before anything is remembered. -/
def site (m : Machine τ) : Site (Host τ) := ⟨m.host, .empty⟩

/-- The path and the URL of an entry file. -/
def openEntry (m : Machine τ) (entry : String) : Except CommandError (DiskPath × Url) :=
  match m.host.disk.canonicalize m.host.cwd (.ofString entry) with
  | .error cause => .error (.cannotOpen entry cause)
  | .ok path =>
    match Url.ofFilePath? path with
    | some uri => .ok (path, uri)
    | none => .error (.noFilePath path)

/-- The configuration: of the file that is named, or of the nearest one from a directory on. -/
def configure (m : Machine τ) (o : Options) (start : DiskPath) : Except ConfigError Config :=
  match o.config with
  | some path => Config.load m.host.disk m.host.cwd (.ofString path)
  | none => Config.discover m.host.disk m.host.cwd start

/-- Where the configuration of an entry file is looked for. -/
def entryDirectory (path : DiskPath) : DiskPath :=
  path.parent?.getD [DiskPath.dotByte]

/-- The configured routes, and the URL of an entry file. -/
def prepare (m : Machine τ) (o : Options) (entry : String) :
    Except CommandError (Routes (Host τ) × Url) := do
  let (path, uri) ← m.openEntry entry
  let config ← (m.configure o (entryDirectory path)).mapError .config
  let routes ← (config.routes m.environment m.transport).mapError .config
  return (routes, uri)

/-- What modules are linked with on a machine. -/
def setting (routes : Routes (Host τ)) : Setting (Host τ) :=
  ⟨routes, fun host uri => host.disk.readUrl host.cwd uri⟩

/-- The graph of an entry file, with its modules restored or as they are. -/
def graph (m : Machine τ) (routes : Routes (Host τ)) (uri : Url) (restores : Bool) :
    Option (Except BuildError Graph × Site (Host τ)) :=
  if restores then (setting routes).link m.budget m.site ∅ uri
  else (setting routes).build m.budget m.site ∅ uri

/-- Runs a command that works on a graph. -/
def runOnGraph (m : Machine τ) (o : Options) (entry : String) (restores : Bool)
    (report : Routes (Host τ) → Graph → Report) : Report × Site (Host τ) :=
  match m.prepare o entry with
  | .error e => (.ofError e.message, m.site)
  | .ok (routes, uri) =>
    match m.graph routes uri restores with
    | none => (.ofError CommandError.tooManyFiles.message, m.site)
    | some (.error e, site) => (.ofError (CommandError.build e).message, site)
    | some (.ok g, site) => (report routes g, site)

/-- The path of the working directory. -/
def workingDirectory (m : Machine τ) : DiskPath :=
  Disk.pathOf m.host.cwd

/-- The module cache as the working directory's configuration has it. -/
def cache (m : Machine τ) (o : Options) : Except ConfigError DiskPath := do
  match (← m.configure o m.workingDirectory).cache? m.environment with
  | some dir => return dir
  | none => throw .noCacheDirectory

/-- Runs a command. Gives its report and the machine with what is remembered. -/
def run (m : Machine τ) (i : Invocation) : Report × Site (Host τ) :=
  match i.command with
  | .graph entry restores => m.runOnGraph i.options entry restores fun _ => .ofGraph
  | .restore entry => m.runOnGraph i.options entry true .ofRestore
  | .cacheDir =>
    match m.cache i.options with
    | .ok dir => (.ofOutput [dir.render], m.site)
    | .error e => (.ofError e.message, m.site)

/-- Runs what arguments ask for. Gives the report and the machine afterwards. -/
def runArguments (m : Machine τ) (arguments : List String) : Report × Host τ :=
  match Invocation.ofArguments arguments with
  | .error e => (.ofNoCommand e, m.host)
  | .ok i =>
    let (report, site) := m.run i
    (report, site.world)

end Machine

end ModuleGraph
