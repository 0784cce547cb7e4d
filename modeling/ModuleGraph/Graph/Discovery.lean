import ModuleGraph.Graph.Basic
import ModuleGraph.Graph.Cycle
import ModuleGraph.Url.File

/-!
# Discovering a graph

A build starts at the entry file and follows every declaration whose module is available, until
no file is left whose declarations have not been looked at. Then the declarations that lead into a
cycle are made failures, so that what stays resolved has no cycle.

A file is taken from the workspace, else from the graph of an earlier build, else it is read. A
file is loaded once in a build; one that cannot be read is not tried again.

A rebuild after a restore knows which declarations the restore was for. If the module of such a
declaration still has no local copy, the declaration does not wait again but fails: with what the
restore reported, or with the remembered failure, or because the restore came to nothing.

Nothing bounds the number of files that a reader may know, so a build is given a budget, the number
of files it may follow. `discover` has no answer when the budget does not suffice.
-/

namespace ModuleGraph

/-- What modules are linked with: registries, and a reader for files that are not open. -/
structure Setting (σ : Type) where
  routes : Routes σ
  read : σ → Url → Except FileError String

/-- What a build takes over from an earlier one: its files, the declarations that a restore was
tried for, and the failures that it reported. -/
structure Prior where
  files : FileMap
  attempted : DeclarationId → Bool
  reported : FailureMap

/-- Nothing is taken over. -/
def Prior.none : Prior := ⟨∅, fun _ => false, ∅⟩

/-- What a rebuild takes over from a graph, after a restore with the given failures. -/
def Prior.ofGraph (g : Graph) (reported : FailureMap) : Prior :=
  ⟨g.files, fun id => g.isPending id || reported.contains id, reported⟩

/-- How far a build has come. -/
structure Discovery where
  files : FileMap
  unreadable : Std.ExtTreeMap Url Failure
  outcomes : Outcomes
  ledger : Ledger

/-- What stays the same during a build. -/
structure Discovery.Context (σ : Type) where
  setting : Setting σ
  world : σ
  workspace : Workspace
  prior : Prior

namespace Discovery

variable {σ : Type}

/-- The build before the first file. -/
def start (l : Ledger) : Discovery := ⟨∅, ∅, .empty, l⟩

/-- The declaration leads to this file. -/
def resolve (s : Discovery) (id : DeclarationId) (target : Url) : Discovery :=
  { s with outcomes := s.outcomes.resolve id target }

/-- The declaration has this failure. -/
def fail (s : Discovery) (id : DeclarationId) (f : Failure) : Discovery :=
  { s with outcomes := s.outcomes.fail id f }

/-- The module of the declaration waits to be restored. -/
def await (s : Discovery) (id : DeclarationId) (r : Reference) : Discovery :=
  { s with outcomes := s.outcomes.await id r }

/-- Reads a file that is neither open nor taken over. -/
def readFile (c : Context σ) (s : Discovery) (uri : Url) :
    Except Failure SourceFile × Discovery :=
  let s := { s with ledger := s.ledger.note (.read uri) }
  match c.setting.read c.world uri with
  | .ok text => (.ok (.parse uri text), s)
  | .error e =>
    let f := Failure.fileRead uri.displayPath e.message
    (.error f, { s with unreadable := s.unreadable.insert uri f })

/-- The file of a URL. -/
def load (c : Context σ) (s : Discovery) (uri : Url) : Except Failure SourceFile × Discovery :=
  match c.workspace[uri]?, c.prior.files[uri]?, s.unreadable[uri]? with
  | some file, _, _ => (.ok file, s)
  | none, some file, _ => (.ok file, s)
  | none, none, some f => (.error f, s)
  | none, none, none => readFile c s uri

/-- Makes the file of a URL part of the graph. Gives it when it is new there. -/
def visit (c : Context σ) (s : Discovery) (uri : Url) :
    Except Failure (Option SourceFile) × Discovery :=
  if s.files.contains uri then (.ok none, s)
  else
    match load c s uri with
    | (.ok file, s) => (.ok (some file), { s with files := s.files.put file })
    | (.error f, s) => (.error f, s)

/-- The failure of a declaration whose module has no local copy after a restore. -/
def restoreOutcome (c : Context σ) (l : Ledger) (id : DeclarationId) (r : Reference) : Failure :=
  match c.prior.reported[id]?, l.failure? r with
  | some f, _ => f
  | none, some f => f
  | none, none => .restoreOutcomeMissing r.qualified

/-- Follows a declaration whose module is available. -/
def follow (c : Context σ) (s : Discovery) (parent : Url) (d : Declaration) :
    Option SourceFile × Discovery :=
  let (target, l) := c.setting.routes.locate c.world s.ledger parent d
  let s := { s with ledger := l }
  match target with
  | .error f => (none, s.fail d.id f)
  | .ok target =>
    match visit c s target with
    | (.ok found, s) => (found, s.resolve d.id target)
    | (.error f, s) => (none, s.fail d.id f)

/-- Looks at one declaration. Gives the file it leads to, when that is new in the graph. -/
def evaluate (c : Context σ) (s : Discovery) (parent : Url) (d : Declaration) :
    Option SourceFile × Discovery :=
  let (status, l) := c.setting.routes.status c.world s.ledger d
  let s := { s with ledger := l }
  match status with
  | .failed f => (none, s.fail d.id f)
  | .needsRestore r =>
    (none, if c.prior.attempted d.id then s.fail d.id (restoreOutcome c l d.id r)
      else s.await d.id r)
  | .available => follow c s parent d

/-- Looks at the declarations of a file. Gives the files that are new in the graph, the last one
first. -/
def evaluateAll (c : Context σ) (parent : Url) :
    List Declaration → List SourceFile → Discovery → List SourceFile × Discovery
  | [], found, s => (found, s)
  | d :: ds, found, s =>
    let (new, s) := evaluate c s parent d
    evaluateAll c parent ds (new.toList ++ found) s

/-- Looks at the declarations of the given files and of all that they lead to. -/
def explore (c : Context σ) : (budget : Nat) → List SourceFile → Discovery → Option Discovery
  | _, [], s => some s
  | 0, _ :: _, _ => none
  | budget + 1, file :: rest, s =>
    let (found, s) := evaluateAll c file.uri file.declarations [] s
    explore c budget (found ++ rest) s

end Discovery

namespace Outcomes

/-- The edges between files that the resolutions make. -/
def edges (o : Outcomes) : List (Url × Url) :=
  o.resolutions.toList.map fun (id, target) => (id.uri, target)

/-- The failure of a declaration that leads into a cycle. -/
def cycleFailure (cycle : List Url) : Failure :=
  if cycle.length = 1 then .cyclicSelfReference else .cycle (cycle.map Url.displayPath)

/-- The declarations that lead into cycles, each with the failure that this is. -/
def cyclic (found : Std.ExtTreeMap Url (List Url)) (o : Outcomes) :
    List (DeclarationId × Failure) :=
  o.resolutions.toList.filterMap fun (id, target) =>
    found[target]?.map fun cycle => (id, cycleFailure cycle)

/-- The outcomes with some more failures. -/
def failAll (o : Outcomes) (failures : List (DeclarationId × Failure)) : Outcomes :=
  failures.foldl (fun o (id, f) => o.fail id f) o

/-- The outcomes with failures in place of what leads into a cycle. -/
def breakCycles (o : Outcomes) : Outcomes :=
  o.failAll (o.cyclic (cycles o.edges))

end Outcomes

namespace Discovery

/-- The graph of a build that has looked at everything. -/
def graph (s : Discovery) (entry : Url) : Graph :=
  { s.outcomes.breakCycles with entry, files := s.files }

/-- Loads the entry file and looks at all that it leads to. -/
def survey {σ : Type} (c : Context σ) (budget : Nat) (l : Ledger) (entry : Url) :
    Option (Except BuildError Discovery × Ledger) :=
  match load c (.start l) entry with
  | (.error f, s) => some (.error ⟨entry, f⟩, s.ledger)
  | (.ok file, s) => do
    let s ← explore c budget [file] { s with files := s.files.put file }
    return (.ok s, s.ledger)

end Discovery

/-- Builds the graph of an entry file. -/
def discover {σ : Type} (c : Discovery.Context σ) (budget : Nat) (l : Ledger) (entry : Url) :
    Option (Except BuildError Graph × Ledger) :=
  (Discovery.survey c budget l entry).map fun (result, l) => (result.map (·.graph entry), l)

end ModuleGraph
