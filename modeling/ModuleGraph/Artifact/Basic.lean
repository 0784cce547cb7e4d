import ModuleGraph.Registry.RestoreError

/-!
# Artifacts

An artifact is what a registry serves for an OCI reference: a manifest, the digest of the one
layer that the manifest describes, and the layer's bytes, which are the module's entry file. An
`ArtifactClient` fetches artifacts from a remote world.
-/

namespace ModuleGraph

/-- What a registry serves for a reference. -/
structure Artifact where
  manifest : List UInt8
  layerDigest : String
  layer : List UInt8
  deriving DecidableEq, Repr

/-- What fetches artifacts. -/
structure ArtifactClient (τ : Type) where
  pull : τ → OciReference → Except RestoreError Artifact × τ

end ModuleGraph
