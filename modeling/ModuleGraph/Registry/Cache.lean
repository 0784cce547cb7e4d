import ModuleGraph.Artifact.Basic
import ModuleGraph.Disk.Change
import ModuleGraph.Json.Reader
import ModuleGraph.Registry.Basic
import ModuleGraph.Source.File

/-!
# The module cache

The registry of OCI artifacts keeps what it fetched in a directory on the disk. An artifact has
the directory

    <cache>/oci/<registry>/<segments of the repository>/<tag>$

with the registry in lower case and `$` in place of colons. The `$` after the tag keeps a tag apart
from a segment of a longer repository. In it stand the manifest, a record of what was fetched, and
the entry file. The entry file is written last, under another name, and then moved, so that it is
there only when everything is.
-/

namespace ModuleGraph

/-- A machine: a disk with a working directory, the number of the running process, the time in
seconds, and what is reached over the network. -/
structure Host (τ : Type) where
  disk : Disk
  cwd : Place
  processId : Nat
  time : Nat
  remote : τ

namespace Cache

/-- The name of a module's entry file. -/
def entryName : String := "main.json"

/-- The name of the manifest. -/
def manifestName : String := "manifest.json"

/-- The name of the record of what was fetched. -/
def metadataName : String := "metadata.json"

/-- What is recorded about an artifact that was fetched. -/
structure Metadata where
  reference : String
  layerDigest : String
  contentHash : String
  restoredAt : Nat
  deriving DecidableEq, Repr

namespace Metadata

/-- The keys of the record. -/
def keys : List String := ["reference", "layer_digest", "content_hash", "restored_at"]

/-- The record as JSON. -/
def render (m : Metadata) : String :=
  JsonValue.renderObject (keys.zip [JsonValue.quote m.reference, JsonValue.quote m.layerDigest,
    JsonValue.quote m.contentHash, toString m.restoredAt])

/-- The record that bytes hold. -/
def parse? (bytes : List UInt8) : Option Metadata := do
  match ← (← JsonValue.parse? bytes).fields? keys with
  | [some reference, some layerDigest, some contentHash, some restoredAt] =>
    return ⟨← reference.string?, ← layerDigest.string?, ← contentHash.string?,
      ← restoredAt.natBelow? UInt64.size⟩
  | _ => none

end Metadata

/-! ## The layout -/

/-- The directory of a registry's name. -/
def registryName (registry : String) : String :=
  registry.map fun c => if c == ':' then '$' else c.toLower

/-- The names below `<cache>/oci` that lead to an artifact's directory. -/
def directoryNames (r : OciReference) : List String :=
  registryName r.registry :: r.segments ++ [r.tag ++ "$"]

/-- The directory of an artifact. -/
def directory (cache : DiskPath) (r : OciReference) : DiskPath :=
  (directoryNames r).foldl (fun p name => p.join (.ofString name)) (cache.join (.ofString "oci"))

/-- The entry file of an artifact. -/
def entryPath (cache : DiskPath) (r : OciReference) : DiskPath :=
  (directory cache r).join (.ofString entryName)

/-! ## Storing artifacts -/

variable {τ : Type}

/-- The record of an artifact. -/
def metadataOf (r : OciReference) (a : Artifact) (time : Nat) : Metadata :=
  ⟨r.artifact, a.layerDigest, (ContentHash.ofBytes a.layer).hex, time⟩

/-- The name under which a process writes the entry file. -/
def temporaryName (processId : Nat) : String :=
  entryName ++ "." ++ toString processId ++ ".tmp"

/-- The steps that store an artifact. -/
def changes (cache : DiskPath) (processId time : Nat) (r : OciReference) (a : Artifact) :
    List DiskChange :=
  let dir := directory cache r
  let file (name : String) : DiskPath := dir.join (.ofString name)
  [.makeDirectories dir,
    .write (file manifestName) a.manifest,
    .write (file metadataName) (Utf8.bytesOf (metadataOf r a time).render),
    .write (file (temporaryName processId)) a.layer,
    .rename (file (temporaryName processId)) (file entryName)]

/-- The entry file of an artifact is there. -/
def isStored (cache : DiskPath) (host : Host τ) (r : OciReference) : Bool :=
  host.disk.isFile host.cwd (entryPath cache r)

/-- Fetches and stores an artifact that is not there. -/
def restoreOne (cache : DiskPath) (client : ArtifactClient τ) (host : Host τ) (r : OciReference) :
    Option RestoreError × Host τ :=
  if isStored cache host r then (none, host)
  else
    match client.pull host.remote r with
    | (.error e, remote) => (some e, { host with remote := remote })
    | (.ok a, remote) =>
      let (disk, result) :=
        host.disk.performAll host.cwd (changes cache host.processId host.time r a)
      let host := { host with disk := disk, remote := remote }
      match result with
      | .ok () => (none, host)
      | .error e => (some (.io e.message), host)

/-- Fetches the artifacts of references, one after the other. -/
def restore (cache : DiskPath) (client : ArtifactClient τ) (host : Host τ) :
    List Reference → List (Reference × RestoreError) × Host τ
  | [] => ([], host)
  | r :: rs =>
    let (e, host) :=
      match r with
      | .oci a => restoreOne cache client host a
      | other => (some (.unsupported .oci other.qualified), host)
    let (more, host) := restore cache client host rs
    ((e.map (r, ·)).toList ++ more, host)

/-- The entry file of a reference. -/
def entryPoint (cache : DiskPath) (host : Host τ) : Reference → Except Failure Url
  | .oci r =>
    let path := entryPath cache r
    let reference := Reference.qualified (.oci r)
    if !isStored cache host r then .error (.entryPointMissing reference path.render)
    else
      match Url.ofFilePath? path with
      | some uri => .ok uri
      | none =>
        .error (.entryPointUnresolvable reference
          ("cache path '" ++ path.render ++ "' is not absolute"))
  | r => .error (.entryPointUnresolvable r.qualified "not an OCI artifact reference")

/-- The record of an artifact that is stored. -/
def metadata? (cache : DiskPath) (host : Host τ) (r : OciReference) : Option Metadata :=
  let path := (directory cache r).join (.ofString metadataName)
  match host.disk.readBytes host.cwd path with
  | .ok bytes => Metadata.parse? bytes
  | .error _ => none

end Cache

/-- The registry of OCI artifacts over a cache directory. -/
def Registry.cache {τ : Type} (cache : DiskPath) (client : ArtifactClient τ) :
    Registry (Host τ) where
  scheme := .oci
  restoreRequired host
    | .oci r => !Cache.isStored cache host r
    | _ => false
  entryPoint host _ r := Cache.entryPoint cache host r
  restore host rs := Cache.restore cache client host rs

end ModuleGraph
