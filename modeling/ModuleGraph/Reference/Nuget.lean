import ModuleGraph.Failure
import ModuleGraph.Url.Parts

/-!
# References to NuGet packages

A package is addressed as `<package-id>@<version>`, split at the first `@`. Package ids and
versions are the same whatever the case of their letters.
-/

namespace ModuleGraph

/-- A version of a NuGet package. -/
structure NugetReference where
  packageId : String
  version : String
  deriving DecidableEq, Repr, Hashable

namespace NugetReference

/-- The address of the package. -/
def package (r : NugetReference) : String :=
  r.packageId ++ "@" ++ r.version

/-- The reference in lower case, which is the same for equal references. -/
def canonical (r : NugetReference) : NugetReference :=
  ⟨r.packageId.map Char.toLower, r.version.map Char.toLower⟩

/-- The reference of an address, which is the text after `nuget:`. -/
def parse (raw : String) : Except Failure NugetReference :=
  match cutAround? '@' raw.toList with
  | some (name, version) =>
    if name.isEmpty || version.isEmpty then .error (.invalidNugetReference ("nuget:" ++ raw))
    else .ok ⟨String.ofList name, String.ofList version⟩
  | none => .error (.invalidNugetReference ("nuget:" ++ raw))

end NugetReference

end ModuleGraph
