import ModuleGraph.Failure
import ModuleGraph.Text.Blank
import ModuleGraph.Url.Parse

/-!
# References to OCI artifacts

An artifact is addressed as `<registry>/<repository>:<tag>`. The tag is what follows the last
colon. What stands before it is read as the authority and the path of a URL, so that the registry
is a host with perhaps a port, and the repository is percent-encoded. Addresses that such a
reading would change are refused: those with dots as a segment, with an empty segment, with
credentials or with a fragment.

Registries are the same whatever the case of their letters; repositories and tags are not.
-/

namespace ModuleGraph

/-- An artifact in an OCI registry. -/
structure OciReference where
  /-- The host, with a colon and the port if there is one. -/
  registry : String
  /-- The path with the slash it starts with, and the query if there is one. -/
  repository : String
  tag : String
  deriving DecidableEq, Repr, Hashable

namespace OciReference

/-- The address of the artifact. -/
def artifact (r : OciReference) : String :=
  r.registry ++ r.repository ++ ":" ++ r.tag

/-- The reference with its registry in lower case, which is the same for equal references. -/
def canonical (r : OciReference) : OciReference :=
  { r with registry := r.registry.map Char.toLower }

/-- The segments of a path without the slashes at its start. -/
def segmentsOf (path : List Char) : List (List Char) :=
  (path.dropWhile (· == '/')).splitOn '/'

/-- The segments of the repository, without its query. -/
def segments (r : OciReference) : List String :=
  (segmentsOf (cutAt (· == '?') r.repository.toList).1).map String.ofList

/-- A segment that would be read as a move and not as a name. -/
def isDots (segment : List Char) : Bool :=
  segment == ['.'] || segment == ['.', '.']

/-- The registry of an authority: a host, a port, and nothing else. -/
def registryOf? (a : Authority) : Option String :=
  if a.host.isEmpty || !a.username.isEmpty || a.password.isSome then none
  else some (a.host ++ a.port.elim "" (":" ++ toString ·))

/-- The repository of a path and a query. -/
def repositoryOf? (path : String) (query : Option String) : Option String :=
  let cs := path.toList
  if cs.head? == some '/' && (segmentsOf cs).all (fun s => !s.isEmpty && !isDots s) then
    some (path ++ query.elim "" ("?" ++ ·))
  else none

/-- The registry and the repository written before the tag. -/
def location? (text : List Char) : Option (String × String) :=
  if (text.splitOn '/').any isDots then none
  else
    match UrlParts.parse ("oci://" ++ String.ofList text) none with
    | .ok ⟨_, some a, path, query, none⟩ => do
      let registry ← registryOf? a
      let repository ← repositoryOf? path query
      return (registry, repository)
    | _ => none

/-- The reference of an address, which is the text after `oci:`. -/
def parse? (raw : String) : Option OciReference := do
  let (text, tag) ← cutAroundLast? ':' raw.toList
  if (Text.trim tag).isEmpty || tag.contains '/' then failure
  let (registry, repository) ← location? text
  return ⟨registry, repository, String.ofList tag⟩

/-- The reference of an address, or the failure that shows it. -/
def parse (raw : String) : Except Failure OciReference :=
  match parse? raw with
  | some r => .ok r
  | none => .error (.invalidOciReference ("oci:" ++ raw))

end OciReference

end ModuleGraph
