import ModuleGraph.Routing.Site
import ModuleGraph.Source.Reading
import Std.Data.ExtTreeSet

/-!
# Module graphs

A module graph holds every file that can be reached from an entry file, and for every declaration
in them what came of it: the file it was resolved to, or the failure that stopped it. A declaration
whose module waits to be restored counts as failed, too, until the module is there; `pending` tells
which these are.
-/

namespace ModuleGraph

/-- What came of declarations. -/
structure Outcomes where
  resolutions : Std.ExtTreeMap DeclarationId Url
  failures : FailureMap
  /-- The declarations whose modules wait to be restored. -/
  pending : Std.ExtTreeSet DeclarationId

namespace Outcomes

/-- No declaration has been looked at. -/
def empty : Outcomes := ⟨∅, ∅, ∅⟩

/-- The declaration leads to this file. -/
def resolve (o : Outcomes) (id : DeclarationId) (target : Url) : Outcomes :=
  { o with resolutions := o.resolutions.insert id target, failures := o.failures.erase id }

/-- The declaration has this failure. -/
def fail (o : Outcomes) (id : DeclarationId) (f : Failure) : Outcomes :=
  { o with resolutions := o.resolutions.erase id, failures := o.failures.insert id f }

/-- The module of the declaration, with this reference, waits to be restored. -/
def await (o : Outcomes) (id : DeclarationId) (r : Reference) : Outcomes :=
  { o.fail id (.restoreRequired r.qualified) with pending := o.pending.insert id }

/-- The file that a declaration was resolved to. -/
def resolution? (o : Outcomes) (id : DeclarationId) : Option Url :=
  o.resolutions[id]?

/-- The failure of a declaration. -/
def failure? (o : Outcomes) (id : DeclarationId) : Option Failure :=
  o.failures[id]?

/-- The declaration's module waits to be restored. -/
def isPending (o : Outcomes) (id : DeclarationId) : Bool :=
  o.pending.contains id

/-- No declaration failed and none waits. -/
def isComplete (o : Outcomes) : Bool :=
  o.failures.isEmpty && o.pending.isEmpty

/-! ## Outcomes under the operations -/

variable {o p : Outcomes} {id k : DeclarationId} {target : Url} {f : Failure} {r : Reference}

theorem ext_getElem? (hr : ∀ k, o.resolution? k = p.resolution? k)
    (hf : ∀ k, o.failure? k = p.failure? k) (hp : ∀ k, o.isPending k = p.isPending k) :
    o = p := by
  cases o
  cases p
  congr
  · exact Std.ExtTreeMap.ext_getElem? hr
  · exact Std.ExtTreeMap.ext_getElem? hf
  · exact Std.ExtTreeSet.ext_contains hp

@[simp] theorem resolution?_empty : empty.resolution? k = none :=
  Std.ExtTreeMap.getElem?_empty

@[simp] theorem failure?_empty : empty.failure? k = none :=
  Std.ExtTreeMap.getElem?_empty

@[simp] theorem isPending_empty : empty.isPending k = false :=
  Std.ExtTreeSet.contains_empty

theorem resolution?_resolve :
    (o.resolve id target).resolution? k = if id = k then some target else o.resolution? k := by
  simp only [resolution?, resolve, Std.ExtTreeMap.getElem?_insert,
    Std.LawfulEqCmp.compare_eq_iff_eq]

theorem failure?_resolve :
    (o.resolve id target).failure? k = if id = k then none else o.failure? k := by
  simp only [failure?, resolve, Std.ExtTreeMap.getElem?_erase, Std.LawfulEqCmp.compare_eq_iff_eq]

@[simp] theorem isPending_resolve : (o.resolve id target).isPending k = o.isPending k := rfl

theorem resolution?_fail :
    (o.fail id f).resolution? k = if id = k then none else o.resolution? k := by
  simp only [resolution?, fail, Std.ExtTreeMap.getElem?_erase, Std.LawfulEqCmp.compare_eq_iff_eq]

theorem failure?_fail :
    (o.fail id f).failure? k = if id = k then some f else o.failure? k := by
  simp only [failure?, fail, Std.ExtTreeMap.getElem?_insert, Std.LawfulEqCmp.compare_eq_iff_eq]

@[simp] theorem isPending_fail : (o.fail id f).isPending k = o.isPending k := rfl

theorem resolution?_await :
    (o.await id r).resolution? k = if id = k then none else o.resolution? k :=
  resolution?_fail (f := .restoreRequired r.qualified)

theorem failure?_await :
    (o.await id r).failure? k =
      if id = k then some (.restoreRequired r.qualified) else o.failure? k :=
  failure?_fail

theorem isPending_await :
    (o.await id r).isPending k = (decide (id = k) || o.isPending k) := by
  rw [Bool.eq_iff_iff]
  simp only [isPending, await, fail, Std.ExtTreeSet.contains_insert, Bool.or_eq_true,
    Std.LawfulEqCmp.compare_beq_iff_eq, decide_eq_true_eq]

end Outcomes

/-- The files reached from an entry file and what came of their declarations. -/
structure Graph extends Outcomes where
  entry : Url
  files : FileMap

namespace Graph

/-- The declaration of an id, in the very file of the graph that it was found in. -/
def declaration? (g : Graph) (id : DeclarationId) : Option Declaration :=
  g.files[id.uri]?.bind (·.declaration? id)

/-- The declarations to be restored, in the order of their ids. -/
def pendingDeclarations (g : Graph) : List Declaration :=
  g.pending.toList.filterMap g.declaration?

/-- The files that a file's declarations were resolved to, each once, in order of declaration. -/
def dependencies (g : Graph) (uri : Url) : List Url :=
  match g.files[uri]? with
  | some file => (file.declarations.filterMap (g.resolution? ·.id)).eraseDups
  | none => []

/-- The diagnostics of one file, in order of declaration. -/
def diagnosticsFor (g : Graph) (uri : Url) : List Diagnostic :=
  match g.files[uri]? with
  | some file => file.declarations.filterMap fun d => (g.failure? d.id).map (·.placedAt d.span)
  | none => []

/-- The diagnostics of every file, in order of files. A file without problems has an empty
list. -/
def diagnostics (g : Graph) : List (Url × List Diagnostic) :=
  g.files.keys.map fun uri => (uri, g.diagnosticsFor uri)

end Graph

/-- Why there is no graph: the entry file itself could not be read. -/
structure BuildError where
  uri : Url
  failure : Failure
  deriving DecidableEq, Repr

namespace BuildError

/-- The text of the error. -/
def message (e : BuildError) : String :=
  "cannot load entry file '" ++ e.uri.text ++ "': " ++ e.failure.message

/-- The error as a diagnostic, which has no position. -/
def diagnostic (e : BuildError) : Diagnostic :=
  e.failure.placedAt .zero

end BuildError

end ModuleGraph
