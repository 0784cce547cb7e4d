import ModuleGraph.Reference.Basic

/-!
# Why a module could not be restored

A registry says for each module it could not fetch why. The cause becomes part of the failure of
every declaration that refers to the module, as the text that `RestoreError.message` gives.
-/

namespace ModuleGraph

/-- What is wrong with the manifest of an artifact. -/
inductive ManifestFault where
  /-- The bytes are no manifest. -/
  | malformed (message : String)
  | schemaVersion (version : Nat)
  | layerCount (count : Nat)
  | digestAlgorithm (digest : String)
  deriving DecidableEq, Repr

/-- The text of the fault. -/
def ManifestFault.message : ManifestFault → String
  | malformed message => message
  | schemaVersion version => "unsupported schema version " ++ toString version
  | layerCount count => "expected a single layer, found " ++ toString count
  | digestAlgorithm digest => "unsupported digest algorithm in '" ++ digest ++ "'"

/-- Why a module could not be restored. -/
inductive RestoreError where
  /-- The request got no usable answer. -/
  | http (url message : String)
  | notFound (artifact : String)
  | unauthorized (artifact : String) (code : Nat)
  | status (url : String) (code : Nat)
  | manifest (fault : ManifestFault)
  | digestMismatch (expected actual : String)
  | tooLarge (url : String) (limit : Nat)
  /-- The cache could not be written. -/
  | io (message : String)
  /-- The registry does not answer for references of this kind. -/
  | unsupported (scheme : Scheme) (reference : String)
  deriving DecidableEq, Repr

namespace RestoreError

/-- The text of the error. -/
def message : RestoreError → String
  | http url message => "request to '" ++ url ++ "' failed: " ++ message
  | notFound artifact =>
    "the artifact " ++ Failure.quoted artifact ++ " was not found in the registry"
  | unauthorized artifact code =>
    "the registry denied access to " ++ Failure.quoted artifact ++ " (status " ++
      toString code ++ ")"
  | status url code => "the registry returned status " ++ toString code ++ " for '" ++ url ++ "'"
  | manifest fault => "invalid artifact manifest: " ++ fault.message
  | digestMismatch expected actual =>
    "layer digest mismatch: expected " ++ expected ++ ", got " ++ actual
  | tooLarge url limit => "response from '" ++ url ++ "' exceeds " ++ toString limit ++ " bytes"
  | io message => "cannot write to the module cache: " ++ message
  | unsupported scheme reference =>
    "the " ++ scheme.name ++ " registry cannot restore " ++ Failure.quoted reference

/-- The failure of a declaration whose module could not be restored. -/
def failureOf (e : RestoreError) (reference : Reference) : Failure :=
  .restoreFailed reference.qualified e.message

end RestoreError

end ModuleGraph
