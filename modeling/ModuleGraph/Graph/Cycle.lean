import ModuleGraph.Url.Basic
import Std.Data.ExtTreeMap
import Std.Data.ExtTreeSet

/-!
# Cycles

Files that import each other in a circle are reported with the circle. `cycles` finds every file
that lies on a cycle of some edges, with a shortest cycle through it, listed from the file on. Of
several shortest cycles it is the one whose files come first in the order of URLs.

The search goes from a file outwards, one round of edges at a time. A round holds a path to every
file reached in it for the first time, in the order of the paths, so that the first path with an
edge back to the start is the one wanted.
-/

namespace ModuleGraph.Cycle

/-- The files that each file has an edge to. -/
abbrev Successors := Std.ExtTreeMap Url (Std.ExtTreeSet Url)

/-- The successors with one more edge. -/
def addEdge (m : Successors) (edge : Url × Url) : Successors :=
  m.insert edge.1 ((m.getD edge.1 ∅).insert edge.2)

/-- The successors that edges make. -/
def successors (edges : List (Url × Url)) : Successors :=
  edges.foldl addEdge ∅

/-- The files that a file has an edge to, in order. -/
def next (m : Successors) (u : Url) : List Url :=
  (m.getD u ∅).toList

/-- A path that a search has followed: the file it has reached, and the files before it, the
nearest first. -/
structure Path where
  last : Url
  earlier : List Url

namespace Path

/-- The files of the path from its start on. -/
def files (p : Path) : List Url :=
  (p.last :: p.earlier).reverse

/-- The path and one file more. -/
def extend (p : Path) (u : Url) : Path :=
  ⟨u, p.last :: p.earlier⟩

end Path

/-- The paths one edge longer, to files not seen before, and the files seen then. -/
def expand (m : Successors) (seen : Std.ExtTreeSet Url) :
    List Path → List Path × Std.ExtTreeSet Url
  | [] => ([], seen)
  | p :: ps =>
    let fresh := (next m p.last).filter (!seen.contains ·)
    let (more, seen) := expand m (fresh.foldl Std.ExtTreeSet.insert seen) ps
    (fresh.map p.extend ++ more, seen)

/-- The first path of the nearest round that has an edge to the start. -/
def search (m : Successors) (start : Url) :
    (rounds : Nat) → List Path → Std.ExtTreeSet Url → Option Path
  | 0, _, _ => none
  | rounds + 1, paths, seen =>
    match paths.find? fun p => (m.getD p.last ∅).contains start with
    | some p => some p
    | none =>
      let (paths, seen) := expand m seen paths
      if paths.isEmpty then none else search m start rounds paths seen

/-- A shortest cycle through a file. No cycle has more files than there are files with edges. -/
def through? (m : Successors) (start : Url) : Option (List Url) :=
  (search m start m.size [⟨start, []⟩] ((∅ : Std.ExtTreeSet Url).insert start)).map Path.files

end ModuleGraph.Cycle

namespace ModuleGraph

/-- The files that lie on a cycle of the edges, each with its cycle. -/
def cycles (edges : List (Url × Url)) : Std.ExtTreeMap Url (List Url) :=
  let m := Cycle.successors edges
  Std.ExtTreeMap.ofList (m.keys.filterMap fun u => (Cycle.through? m u).map (u, ·)) compare

end ModuleGraph
