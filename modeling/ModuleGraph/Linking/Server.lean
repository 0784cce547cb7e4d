import ModuleGraph.Linking.RestoreQueue
import ModuleGraph.Source.Position

/-!
# The language server

The server keeps the open documents and a graph for each of them. Whatever changes a document
builds the graphs that reach it again, and publishes the diagnostics of their files. What is
pending is queued for restore. When a batch is restored its documents are notified, and a notified
document is rebuilt: `openDocument`, `closeDocument`, `work` and `refresh` are the steps of the
server.

Compiling is two steps of its own, `prepare`, which builds and queues, and `store`, which puts the
graph in place of the previous one and publishes. A file that the graph no longer reaches is
published with an empty list, so that the editor shows nothing for it.
-/

namespace ModuleGraph

/-- Diagnostics to show for files, in order. -/
abbrev Publication := List (Url × List EditorDiagnostic)

/-- What a server works with. -/
structure Server.Config (σ : Type) where
  setting : Setting σ
  budget : Nat

/-- The state of a server. -/
structure Server (σ : Type) where
  site : Site σ
  workspace : Workspace
  graphs : Std.ExtTreeMap Url Graph
  queue : List RestoreRequest
  notices : List Url

namespace Server

variable {σ : Type}

/-- A server without documents. -/
def start (site : Site σ) : Server σ := ⟨site, ∅, ∅, [], []⟩

/-- The diagnostics of a graph's files as an editor shows them. -/
def publicationOf (g : Graph) : Publication :=
  g.diagnostics.map fun (uri, ds) =>
    let text := (g.files[uri]?.map SourceFile.text).getD ""
    (uri, ds.map (·.inEditor text))

/-- Empty lists for the files of a graph that fail a test. -/
def cleared (previous : Graph) (isReached : Url → Bool) : Publication :=
  (previous.files.keys.filter (!isReached ·)).map (·, [])

/-- The server with a request for what a graph waits for. -/
def enqueue (s : Server σ) (g : Graph) : Server σ :=
  { s with queue := s.queue ++ (RestoreRequest.ofGraph? g).toList }

/-- Queues what a finished build waits for. -/
def enqueueResult (s : Server σ) : Except BuildError Graph → Server σ
  | .ok g => s.enqueue g
  | .error _ => s

/-- Builds the graph of a document and queues what it waits for. -/
def prepare (c : Config σ) (s : Server σ) (entry : Url) :
    Option (Except BuildError Graph × Server σ) :=
  (c.setting.build c.budget s.site s.workspace entry).map fun (result, site) =>
    (result, enqueueResult { s with site := site } result)

/-- Puts the result of a build in place of the document's graph, and publishes it. -/
def store (s : Server σ) (entry : Url) : Except BuildError Graph → Publication × Server σ
  | .error e =>
    let text := (s.workspace[entry]?.map SourceFile.text).getD ""
    ([(entry, [e.diagnostic.inEditor text])], { s with graphs := s.graphs.erase entry })
  | .ok g =>
    let removed := (s.graphs[entry]?.map (cleared · g.files.contains)).getD []
    (publicationOf g ++ removed, { s with graphs := s.graphs.insert entry g })

/-- Builds and stores the graphs of documents, one after the other. -/
def compileAll (c : Config σ) : List Url → Server σ → Option (Publication × Server σ)
  | [], s => some ([], s)
  | entry :: rest, s => do
    let (result, s) ← prepare c s entry
    let (first, s) := s.store entry result
    let (later, s) ← compileAll c rest s
    return (first ++ later, s)

/-- The documents whose graphs a file is part of, and the file itself when it is open, in
order. -/
def affected (s : Server σ) (uri : Url) : List Url :=
  let reaching := s.graphs.filter fun entry g => entry != uri && g.files.contains uri
  let entries := reaching.map fun _ _ => ()
  (if s.workspace.contains uri then entries.insert uri () else entries).keys

/-- The text of a document is new, or the document is. -/
def openDocument (c : Config σ) (s : Server σ) (uri : Url) (text : String) :
    Option (Publication × Server σ) :=
  let s := { s with
    site := { s.site with ledger := s.site.ledger.forget uri }
    workspace := s.workspace.put (.parse uri text) }
  compileAll c (s.affected uri) s

/-- A document is closed. -/
def closeDocument (c : Config σ) (s : Server σ) (uri : Url) : Option (Publication × Server σ) := do
  let previous := s.graphs[uri]?
  let s := { s with
    workspace := s.workspace.erase uri
    site := { s.site with ledger := s.site.ledger.forget uri }
    graphs := s.graphs.erase uri }
  let (published, s) ← compileAll c (s.affected uri) s
  let isReached (file : Url) : Bool := s.graphs.values.any (·.files.contains file)
  return (published ++ (previous.map (cleared · isReached)).getD [], s)

/-- Restores everything that is queued and notes the documents to notify. -/
def work (c : Config σ) (s : Server σ) : Server σ :=
  if s.queue.isEmpty then s
  else
    let (documents, site) := c.setting.routes.restoreRequests s.queue s.site
    { s with site := site, queue := [], notices := s.notices ++ documents }

/-- Rebuilds the graph of a document after a restore and queues what it waits for now. -/
def update (c : Config σ) (s : Server σ) (current : Graph) :
    Option (Except BuildError Graph × Server σ) :=
  (c.setting.rebuild c.budget s.site s.workspace current ∅).map fun (result, site) =>
    (result, enqueueResult { s with site := site } result)

/-- Rebuilds and publishes a document that was notified. One that was closed has nothing to
publish. -/
def refresh (c : Config σ) (s : Server σ) (entry : Url) : Option (Publication × Server σ) :=
  match s.graphs[entry]? with
  | none => some ([], s)
  | some current => do
    let (result, s) ← update c s current
    return s.store entry result

/-- Refreshes the first document that was notified, if there is one. -/
def refreshNext (c : Config σ) (s : Server σ) :
    Option (Option (Url × Publication) × Server σ) :=
  match s.notices with
  | [] => some (none, s)
  | document :: rest => do
    let (published, s) ← refresh c { s with notices := rest } document
    return (some (document, published), s)

end Server

end ModuleGraph
