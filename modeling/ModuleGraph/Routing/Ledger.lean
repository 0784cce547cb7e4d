import ModuleGraph.Routing.Routes
import ModuleGraph.Source.File
import Std.Data.ExtTreeMap

/-!
# The ledger

A ledger remembers two things while modules are linked: the reference of each declaration, so that
an address is read once, and the failure of each module that could not be restored, so that
fetching is not tried again at every build. Failures are kept by canonical reference: all
spellings of a reference share one.

It also keeps a journal of what was asked of the registries and of the file reader, last inquiry
first.
-/

namespace ModuleGraph

/-- Something asked of a registry or of the file reader. -/
inductive Inquiry where
  | read (uri : Url)
  | check (registry : Scheme) (reference : Reference)
  | locate (registry : Scheme) (reference : Reference)
  | restore (registry : Scheme) (references : List Reference)
  deriving DecidableEq, Repr

/-- What is remembered while modules are linked. -/
structure Ledger where
  references : Std.ExtTreeMap DeclarationId (Except Failure Reference)
  failures : List (Reference × Failure)
  journal : List Inquiry

namespace Ledger

/-- Nothing is remembered. -/
def empty : Ledger := ⟨∅, [], []⟩

/-- The ledger with one more inquiry in its journal. -/
def note (l : Ledger) (i : Inquiry) : Ledger :=
  { l with journal := i :: l.journal }

/-- The remembered failure of a module. -/
def failure? (l : Ledger) (r : Reference) : Option Failure :=
  (l.failures.find? (·.1 == r.canonical)).map (·.2)

/-- The ledger without a failure of the module. -/
def forgive (l : Ledger) (r : Reference) : Ledger :=
  { l with failures := l.failures.filter (·.1 != r.canonical) }

/-- The ledger with this failure of the module. -/
def remember (l : Ledger) (r : Reference) (f : Failure) : Ledger :=
  { l with failures := (r.canonical, f) :: l.failures.filter (·.1 != r.canonical) }

/-- The ledger without the references of a file's declarations. -/
def forget (l : Ledger) (uri : Url) : Ledger :=
  { l with references := l.references.filter fun id _ => id.uri != uri }

/-- The ledger without failures, so that every module may be fetched again. -/
def clearFailures (l : Ledger) : Ledger :=
  { l with failures := [] }

/-! ## Failures under the operations -/

theorem failure?_congr {l : Ledger} {r s : Reference} (h : r.canonical = s.canonical) :
    l.failure? r = l.failure? s := by
  rw [failure?, failure?, h]

@[simp] theorem failure?_note (l : Ledger) (i : Inquiry) (r : Reference) :
    (l.note i).failure? r = l.failure? r := rfl

@[simp] theorem failure?_forget (l : Ledger) (u : Url) (r : Reference) :
    (l.forget u).failure? r = l.failure? r := rfl

@[simp] theorem failure?_clearFailures (l : Ledger) (r : Reference) :
    l.clearFailures.failure? r = none := rfl

theorem getElem?_forget {l : Ledger} {uri : Url} {id : DeclarationId} :
    (l.forget uri).references[id]? = if id.uri = uri then none else l.references[id]? := by
  rw [forget, Std.ExtTreeMap.getElem?_filter']
  by_cases h : id.uri = uri <;> cases l.references[id]? <;> simp [h]

/-- To forget adds nothing. -/
theorem of_getElem?_forget {l : Ledger} {uri : Url} {id : DeclarationId}
    {x : Except Failure Reference} (h : (l.forget uri).references[id]? = some x) :
    l.references[id]? = some x := by
  rw [getElem?_forget] at h
  split at h
  · cases h
  · exact h

/-- What is left out by its key is found under no spelling of it. -/
theorem find?_filter_ne {r s : Reference} (fs : List (Reference × Failure)) :
    (fs.filter (·.1 != r.canonical)).find? (·.1 == s.canonical) =
      if r.same s then none else fs.find? (·.1 == s.canonical) := by
  rw [List.find?_filter]
  by_cases h : r.canonical = s.canonical
  · rw [if_pos (by simpa [Reference.same] using h), List.find?_eq_none]
    intro p _
    simp only [h, bne_iff_ne, beq_iff_eq, decide_eq_true_eq, Bool.decide_and, Bool.and_eq_true]
    exact fun hp => hp.1 hp.2
  · rw [if_neg (by simpa [Reference.same] using h)]
    congr 1
    funext p
    by_cases hp : p.1 = s.canonical
    · simp [hp, Ne.symm h]
    · simp [hp]

theorem failure?_forgive (l : Ledger) (r s : Reference) :
    (l.forgive r).failure? s = if r.same s then none else l.failure? s := by
  rw [failure?, forgive, find?_filter_ne]
  split <;> rfl

theorem failure?_remember (l : Ledger) (r s : Reference) (f : Failure) :
    (l.remember r f).failure? s = if r.same s then some f else l.failure? s := by
  simp only [failure?, remember, List.find?_cons]
  by_cases h : r.canonical = s.canonical
  · simp [Reference.same, h]
  · have hb : (r.canonical == s.canonical) = false := by simpa using h
    rw [hb, find?_filter_ne]
    simp [Reference.same, hb]

end Ledger

end ModuleGraph
