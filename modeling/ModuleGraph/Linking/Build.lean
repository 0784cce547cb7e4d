import ModuleGraph.Graph.Discovery

/-!
# Building with restores

`Setting.build` makes the graph of an entry file as things are, and `Setting.rebuild` makes it
again after a restore. `Setting.link` does both in turn: it restores what is pending and rebuilds,
until nothing is. A restored module may declare modules of its own, so that there can be several
rounds; the budget bounds them as well as the files of each build.
-/

namespace ModuleGraph

namespace Setting

variable {σ : Type}

/-- Builds at a site. -/
def buildWith (setting : Setting σ) (budget : Nat) (site : Site σ) (workspace : Workspace)
    (prior : Prior) (entry : Url) : Option (Except BuildError Graph × Site σ) :=
  (discover ⟨setting, site.world, workspace, prior⟩ budget site.ledger entry).map
    fun (g, l) => (g, { site with ledger := l })

/-- The graph of an entry file. -/
def build (setting : Setting σ) (budget : Nat) (site : Site σ) (workspace : Workspace)
    (entry : Url) : Option (Except BuildError Graph × Site σ) :=
  setting.buildWith budget site workspace .none entry

/-- The graph of the same entry file after a restore with the given failures. -/
def rebuild (setting : Setting σ) (budget : Nat) (site : Site σ) (workspace : Workspace)
    (current : Graph) (reported : FailureMap) : Option (Except BuildError Graph × Site σ) :=
  setting.buildWith budget site workspace (.ofGraph current reported) current.entry

/-- Restores and rebuilds until nothing is pending. -/
def settle (setting : Setting σ) (budget : Nat) (workspace : Workspace) :
    (rounds : Nat) → Graph → Site σ → Option (Except BuildError Graph × Site σ)
  | 0, g, site => if g.pending.isEmpty then some (.ok g, site) else none
  | rounds + 1, g, site =>
    if g.pending.isEmpty then some (.ok g, site)
    else
      let (failures, site) := setting.routes.restore site g.pendingDeclarations
      match setting.rebuild budget site workspace g failures with
      | none => none
      | some (.error e, site) => some (.error e, site)
      | some (.ok g, site) => settle setting budget workspace rounds g site

/-- The graph of an entry file with every module restored that can be. -/
def link (setting : Setting σ) (budget : Nat) (site : Site σ) (workspace : Workspace)
    (entry : Url) : Option (Except BuildError Graph × Site σ) :=
  match setting.build budget site workspace entry with
  | none => none
  | some (.error e, site) => some (.error e, site)
  | some (.ok g, site) => setting.settle budget workspace budget g site

end Setting

end ModuleGraph
