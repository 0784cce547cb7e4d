import ModuleGraph.Artifact.Basic
import ModuleGraph.Digest.Sha256
import ModuleGraph.Json.Reader

/-!
# Manifests

A manifest is a JSON record that describes the layers of an artifact. A module's artifact has
schema version 2 and exactly one layer; `Manifest.parse` refuses every other. `verify` checks a
layer's bytes against the digest that the manifest gives.
-/

namespace ModuleGraph

/-- A layer as a manifest describes it. -/
structure Layer where
  mediaType : String
  digest : String
  size : Nat
  deriving DecidableEq, Repr

/-- The manifest of an artifact. -/
structure Manifest where
  schemaVersion : Nat
  mediaType : Option String
  layers : List Layer
  deriving DecidableEq, Repr

/-- The layer that a JSON value describes. -/
def Layer.ofJson? (v : JsonValue) : Option Layer := do
  match ← v.fields? ["mediaType", "digest", "size"] with
  | [some mediaType, some digest, some size] =>
    return ⟨← mediaType.string?, ← digest.string?, ← size.natBelow? UInt64.size⟩
  | _ => none

namespace Manifest

/-- The media type of a manifest, which may be left out or null. -/
def mediaTypeOf? : Option JsonValue → Option (Option String)
  | none => some none
  | some .null => some none
  | some v => v.string?.map some

/-- The manifest that a JSON value is. -/
def ofJson? (v : JsonValue) : Option Manifest := do
  match ← v.fields? ["schemaVersion", "mediaType", "layers"] with
  | [some version, mediaType, some layers] =>
    return ⟨← version.natBelow? UInt32.size, ← mediaTypeOf? mediaType,
      ← (← layers.elements?).mapM Layer.ofJson?⟩
  | _ => none

/-- The one layer of a manifest's bytes. -/
def parse (bytes : List UInt8) : Except ManifestFault Layer :=
  match (JsonValue.parse? bytes).bind ofJson? with
  | none => .error (.malformed "the manifest cannot be read")
  | some m =>
    if m.schemaVersion ≠ 2 then .error (.schemaVersion m.schemaVersion)
    else
      match m.layers with
      | [layer] => .ok layer
      | layers => .error (.layerCount layers.length)

/-- What a digest starts with. -/
def digestAlgorithm : List Char := "sha256:".toList

/-- The SHA-256 digest of bytes in hexadecimal digits. -/
def sha256 (bytes : List UInt8) : String :=
  Hex.ofBytes (Digest.Sha256.hash bytes)

/-- Checks bytes against a digest. Letters may have either case. -/
def verify (digest : String) (bytes : List UInt8) : Except RestoreError Unit :=
  if digestAlgorithm.isPrefixOf digest.toList then
    let expected := String.ofList (digest.toList.drop digestAlgorithm.length)
    if expected.map Char.toLower = sha256 bytes then .ok ()
    else .error (.digestMismatch digest ("sha256:" ++ sha256 bytes))
  else .error (.manifest (.digestAlgorithm digest))

end Manifest

end ModuleGraph
