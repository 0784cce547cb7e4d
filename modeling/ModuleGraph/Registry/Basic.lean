import ModuleGraph.Registry.RestoreError
import ModuleGraph.Url.Basic

/-!
# Registries

A registry answers for the references of one scheme: whether a module still has to be fetched,
where the entry file of a fetched module is, and it fetches modules. What it knows is part of a
world `σ` that only fetching changes.

`Registry.relative` answers for paths. Their files are always there to be read, so nothing is ever
fetched.
-/

namespace ModuleGraph

/-- What answers for the references of one scheme. -/
structure Registry (σ : Type) where
  scheme : Scheme
  /-- The module has no local copy. -/
  restoreRequired : σ → Reference → Bool
  /-- The entry file of a module that the file `parent` declares. -/
  entryPoint : σ → (parent : Url) → Reference → Except Failure Url
  /-- Fetches the modules that have no local copy. Gives the references that could not be
  fetched. -/
  restore : σ → List Reference → List (Reference × RestoreError) × σ

namespace Registry

/-- The file that a path means beside the declaring file. -/
def besideParent (parent : Url) : Reference → Except Failure Url
  | .relative path =>
    match parent.join path with
    | .ok target => .ok target
    | .error cause => .error (.entryPointUnresolvable path cause.message)
  | r => .error (.entryPointUnresolvable r.qualified "not a local module reference")

/-- The registry of paths relative to the declaring file. -/
def relative {σ : Type} : Registry σ where
  scheme := .relative
  restoreRequired _ _ := false
  entryPoint _ parent r := besideParent parent r
  restore world _ := ([], world)

end Registry

end ModuleGraph
