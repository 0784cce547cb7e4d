import ModuleGraph.Linking.Build

/-!
# Restoring in the background

Whoever must not wait for a restore puts a request into a queue: a document and the declarations
that it waits for. A worker takes everything that is queued as one batch, restores it with one
call, and then notifies every document of the batch once, in the order of their first requests.
-/

namespace ModuleGraph

/-- Declarations that a document waits for. -/
structure RestoreRequest where
  document : Url
  declarations : List Declaration
  deriving Repr

namespace RestoreRequest

/-- The request for what a graph waits for, if it waits. -/
def ofGraph? (g : Graph) : Option RestoreRequest :=
  let ds := g.pendingDeclarations
  if ds.isEmpty then none else some ⟨g.entry, ds⟩

end RestoreRequest

/-- One declaration for each id, the first. -/
def distinctDeclarations : List Declaration → List Declaration
  | [] => []
  | d :: ds => d :: (distinctDeclarations ds).filter (·.id != d.id)

/-- One of each document, the first. -/
def distinctDocuments : List Url → List Url
  | [] => []
  | u :: us => u :: (distinctDocuments us).filter (· != u)

/-- Restores a batch of requests. Gives the documents to notify. -/
def Routes.restoreRequests {σ : Type} (routes : Routes σ) (batch : List RestoreRequest)
    (site : Site σ) : List Url × Site σ :=
  let (_, site) := routes.restore site (distinctDeclarations (batch.flatMap (·.declarations)))
  (distinctDocuments (batch.map (·.document)), site)

end ModuleGraph
