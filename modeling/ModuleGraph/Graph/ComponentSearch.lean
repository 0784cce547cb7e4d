import ModuleGraph.Graph.Cycle

/-!
# Cycles by components

A cycle stays in one strongly connected component. Given the components of some edges,
`cyclesOf` takes those with a cycle in turn, and searches for the cycle of a file among the files
of its component alone.

The search keeps a queue of files and, for each file that was queued, the file it was reached
from. When it meets the start again, it goes back by these to list the cycle. No round is told from
the next: the queue has the files of one round before those of the next.
-/

namespace ModuleGraph.Cycle

/-- The file that each file was first reached from. -/
abbrev Parents := Std.ExtTreeMap Url Url

/-- The files that a file has an edge to among some, in order. -/
def nextWithin (m : Successors) (members : List Url) (u : Url) : List Url :=
  (next m u).filter members.contains

/-- The files from one back to the start, by what each was reached from. No way back takes more
steps than there are files with a parent. -/
def wayBack (start : Url) (parents : Parents) : (steps : Nat) → Url → List Url
  | 0, u => [u]
  | steps + 1, u =>
    if u = start then [u]
    else
      match parents[u]? with
      | some v => u :: wayBack start parents steps v
      | none => [u]

/-- Visits what follows a file in turn. What was not queued before is queued behind the others,
unless the start is met, which ends the visit. -/
def visit (start current : Url) :
    List Url → Parents → List Url → Except Parents (Parents × List Url)
  | [], parents, queue => .ok (parents, queue)
  | u :: us, parents, queue =>
    if u = start then .error parents
    else if parents.contains u then visit start current us parents queue
    else visit start current us (parents.insert u current) (queue ++ [u])

/-- Takes the files of the queue in turn until one leads back to the start. A file is queued once,
so that there are no more visits than files. A search that ends without a way back answers with the
start alone. -/
def crawl (m : Successors) (members : List Url) (start : Url) :
    (visits : Nat) → List Url → Parents → List Url
  | 0, _, _ => [start]
  | _ + 1, [], _ => [start]
  | visits + 1, current :: queue, parents =>
    match visit start current (nextWithin m members current) parents queue with
    | .error parents => (wayBack start parents parents.size current).reverse
    | .ok (parents, queue) => crawl m members start visits queue parents

/-- The cycle of a file, searched for in its component. -/
def shortestWithin (m : Successors) (members : List Url) (start : Url) : List Url :=
  crawl m members start members.length [start] ∅

/-- There is a cycle in the component: it has more than one file, or a file with an edge to
itself. -/
def hasCycle (m : Successors) (component : List Url) : Bool :=
  component.length > 1 || component.head?.any fun u => (m.getD u ∅).contains u

/-- The files of the components with a cycle, each with its cycle. -/
def listed (m : Successors) (components : List (List Url)) : List (Url × List Url) :=
  (components.filter (hasCycle m)).flatMap fun component =>
    component.map fun u => (u, shortestWithin m component u)

end ModuleGraph.Cycle

namespace ModuleGraph

/-- The files that lie on a cycle of the edges, each with its cycle, when these are the strongly
connected components of the edges. -/
def cyclesOf (components : List (List Url)) (edges : List (Url × Url)) :
    Std.ExtTreeMap Url (List Url) :=
  Std.ExtTreeMap.ofList (Cycle.listed (Cycle.successors edges) components) compare

end ModuleGraph
