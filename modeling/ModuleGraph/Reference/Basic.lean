import ModuleGraph.Reference.Nuget
import ModuleGraph.Reference.Oci

/-!
# Module references

The path of a module declaration is an address under one of three schemes: a path relative to the
declaring file, an OCI artifact, or a NuGet package. `Scheme.parse` reads an address into a
`Reference`, `Reference.qualified` writes it with its scheme in front.

Two spellings can mean the same module: `Reference.same` compares references by their canonical
form.
-/

namespace ModuleGraph

/-- The kinds of address. -/
inductive Scheme where
  | relative
  | oci
  | nuget
  deriving DecidableEq, Repr, Hashable

/-- What a module declaration refers to. -/
inductive Reference where
  | relative (path : String)
  | oci (artifact : OciReference)
  | nuget (package : NugetReference)
  deriving DecidableEq, Repr, Hashable

namespace Scheme

/-- The schemes in the order in which they are restored. -/
def all : List Scheme := [relative, oci, nuget]

theorem mem_all (s : Scheme) : s ∈ all := by
  cases s <;> decide

/-- What stands before the colon of an address. A relative path has nothing there. -/
def name : Scheme → String
  | relative => ""
  | oci => "oci"
  | nuget => "nuget"

/-- The scheme that a text before a colon names. -/
def ofName? (name : String) : Option Scheme :=
  if name = "oci" then some oci
  else if name = "nuget" then some nuget
  else none

/-- The reference of an address without its scheme. -/
def parse (s : Scheme) (raw : String) : Except Failure Reference :=
  match s with
  | relative => if raw.isEmpty then .error .pathNotSpecified else .ok (.relative raw)
  | oci => (OciReference.parse raw).map .oci
  | nuget => (NugetReference.parse raw).map .nuget

end Scheme

namespace Reference

/-- The scheme of the reference. -/
def scheme : Reference → Scheme
  | relative _ => .relative
  | oci _ => .oci
  | nuget _ => .nuget

/-- The address without its scheme. -/
def unqualified : Reference → String
  | relative path => path
  | oci r => r.artifact
  | nuget r => r.package

/-- The address with its scheme in front, where it has a name. -/
def qualified (r : Reference) : String :=
  match r.scheme with
  | .relative => r.unqualified
  | s => s.name ++ ":" ++ r.unqualified

/-- The one form that all spellings of a reference have in common. -/
def canonical : Reference → Reference
  | relative path => relative path
  | oci r => oci r.canonical
  | nuget r => nuget r.canonical

/-- The two references mean the same module. -/
def same (a b : Reference) : Bool :=
  a.canonical == b.canonical

theorem same_iff {a b : Reference} : a.same b = true ↔ a.canonical = b.canonical := by
  simp [same]

@[simp] theorem scheme_canonical (r : Reference) : r.canonical.scheme = r.scheme := by
  cases r <;> rfl

theorem scheme_eq_of_same {a b : Reference} (h : a.same b = true) : a.scheme = b.scheme := by
  rw [← a.scheme_canonical, same_iff.1 h, b.scheme_canonical]

theorem same_trans {a b c : Reference} (h : a.same b = true) (h' : b.same c = true) :
    a.same c = true :=
  same_iff.2 ((same_iff.1 h).trans (same_iff.1 h'))

end Reference

/-- A reference that a scheme reads has that scheme. -/
theorem Scheme.scheme_of_parse {s : Scheme} {raw : String} {r : Reference}
    (h : s.parse raw = .ok r) : r.scheme = s := by
  cases s with
  | relative =>
    simp only [Scheme.parse] at h
    split at h
    · simp at h
    · cases h
      rfl
  | oci =>
    simp only [Scheme.parse] at h
    cases hr : OciReference.parse raw with
    | error => rw [hr] at h; cases h
    | ok a => rw [hr] at h; cases h; rfl
  | nuget =>
    simp only [Scheme.parse] at h
    cases hr : NugetReference.parse raw with
    | error => rw [hr] at h; cases h
    | ok a => rw [hr] at h; cases h; rfl

end ModuleGraph
