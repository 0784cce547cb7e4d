import ModuleGraph.Artifact.Http
import ModuleGraph.Config.File
import ModuleGraph.Registry.Cache
import ModuleGraph.Routing.Routes

/-!
# Configured registries

A configuration and the environment decide where the module cache is: the environment goes first,
then the configuration, then a directory in the user's home. With a cache there are two registries,
one for paths and one for OCI artifacts.
-/

namespace ModuleGraph

/-- What the environment of a process says. -/
structure Environment where
  /-- The module cache. -/
  cacheDirectory : Option DiskPath
  /-- The user's home. -/
  home : Option DiskPath
  deriving DecidableEq, Repr

/-- The module cache in the user's home. -/
def Environment.homeCache? (e : Environment) : Option DiskPath :=
  e.home.map fun home => (home.join (.ofString ".modlink")).join (.ofString "cache")

namespace Config

/-- The module cache. -/
def cache? (c : Config) (e : Environment) : Option DiskPath :=
  e.cacheDirectory <|> c.cacheDirectory <|> e.homeCache?

/-- Routes to the configured registries. -/
def routes {τ : Type} (c : Config) (e : Environment) (t : Http.Transport τ) :
    Except ConfigError (Routes (Host τ)) :=
  match c.cache? e with
  | none => .error .noCacheDirectory
  | some dir => .ok (.ofList [.relative, .cache dir (Http.Client.artifacts ⟨t, c.plainHttp⟩)])

end Config

end ModuleGraph
