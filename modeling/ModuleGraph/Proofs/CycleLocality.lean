import Mathlib.Data.List.Find
import ModuleGraph.Proofs.CycleSearch

/-!
# A cycle depends on what can be reached

The cycle that is found for a file is a shortest one, and the first of these. Both
are settled by the edges that can be reached from the file: other edges make the
graph larger, and with it the number of rounds that a search may take, but they
are never followed.

So two graphs find the same cycle for a file as soon as they have the same edges
on a set that has the file and that no edge leaves (`cycles_congr`). A search
takes the same rounds in both. The number of rounds allowed plays no part, for a
search that finds a cycle finds it on any larger number, and a graph that has a
cycle allows for enough of them.
-/

namespace ModuleGraph.Cycle

variable {m m' : Successors} {u v start : Url} {p : Path} {paths : List Path}
  {seen : Std.ExtTreeSet Url} {n k : Nat} {files : Set Url}

theorem search_mono (h : search m start n paths seen = some p) (hle : n ≤ k) :
    search m start k paths seen = some p := by
  induction n generalizing k paths seen with
  | zero => cases h
  | succ n ih =>
    obtain ⟨k, rfl⟩ : ∃ j, k = j + 1 := ⟨k - 1, by omega⟩
    rw [search_succ, Option.or_eq_some_iff] at h ⊢
    refine h.imp_right fun ⟨hnone, h⟩ => ⟨hnone, ?_⟩
    split at h
    · cases h
    · next hne =>
      rw [if_neg hne]
      exact ih h (by omega)

/-- A cycle that is found on some number of rounds is the one that is given. -/
theorem through?_of_search
    (h : search m start n [⟨start, []⟩] ((∅ : Std.ExtTreeSet Url).insert start) = some p) :
    through? m start = some p.files := by
  obtain ⟨hfollows, hclose⟩ := search_sound (fun q hq => by
    rw [List.mem_singleton.1 hq]
    exact follows_start) h
  obtain ⟨cycle, hcycle⟩ := exists_through? (hfollows.isCycle hclose).transGen
  obtain ⟨q, hq, -⟩ := Option.map_eq_some_iff.1 hcycle
  have hmax := search_mono hq (Nat.le_max_left m.size n)
  rw [search_mono h (Nat.le_max_right m.size n)] at hmax
  rw [through?, hq, Option.map_some, Option.some.inj hmax]

/-! ## The same edges on some files -/

/-- The graphs have the same edges on these files, and no edge leaves them. -/
structure Agree (m m' : Successors) (files : Set Url) : Prop where
  same : ∀ u ∈ files, m'.getD u ∅ = m.getD u ∅
  closed : ∀ u ∈ files, ∀ v, Edge m u v → v ∈ files

theorem Agree.symm (h : Agree m m' files) : Agree m' m files where
  same u hu := (h.same u hu).symm
  closed u hu v hv := by
    rw [Edge, next, h.same u hu] at hv
    exact h.closed u hu v hv

theorem Agree.expand_eq (h : Agree m m' files) (hp : ∀ p ∈ paths, p.last ∈ files) :
    expand m' seen paths = expand m seen paths := by
  induction paths generalizing seen with
  | nil => rfl
  | cons p ps ih =>
    have hnext : next m' p.last = next m p.last := by
      rw [next, h.same p.last (hp p (List.mem_cons_self ..)), next]
    rw [expand, expand, hnext]
    dsimp only
    rw [ih fun q hq => hp q (List.mem_cons_of_mem p hq)]

theorem Agree.search_eq (h : Agree m m' files) (hp : ∀ p ∈ paths, p.last ∈ files) :
    search m' start n paths seen = search m start n paths seen := by
  induction n generalizing paths seen with
  | zero => rfl
  | succ n ih =>
    have hfind : (paths.find? fun p => (m'.getD p.last ∅).contains start) =
        paths.find? fun p => (m.getD p.last ∅).contains start :=
      List.find?_congr fun p hmem => by rw [h.same p.last (hp p hmem)]
    have hlonger : ∀ q ∈ (expand m seen paths).1, q.last ∈ files := by
      intro q hq
      obtain ⟨p, hmem, hedge, -⟩ := expand_expanded.longer q hq
      exact h.closed p.last (hp p hmem) q.last hedge
    rw [search_succ, search_succ, hfind, h.expand_eq hp, ih hlonger]

theorem Agree.through?_of_some (h : Agree m m' files) (hu : u ∈ files) {cycle : List Url}
    (hc : through? m u = some cycle) : through? m' u = some cycle := by
  obtain ⟨p, hp, rfl⟩ := Option.map_eq_some_iff.1 hc
  refine through?_of_search (n := m.size) ?_
  rw [h.search_eq fun q hq => by rw [List.mem_singleton.1 hq]; exact hu]
  exact hp

theorem Agree.through?_eq (h : Agree m m' files) (hu : u ∈ files) :
    through? m' u = through? m u :=
  Option.ext fun _ => ⟨h.symm.through?_of_some hu, h.through?_of_some hu⟩

end ModuleGraph.Cycle

namespace ModuleGraph

variable {edges edges' : List (Url × Url)} {u : Url} {files : Set Url}

theorem agree_successors
    (hsame : ∀ u ∈ files, ∀ v, Joined edges' u v ↔ Joined edges u v)
    (hclosed : ∀ u ∈ files, ∀ v, Joined edges u v → v ∈ files) :
    Cycle.Agree (Cycle.successors edges) (Cycle.successors edges') files where
  same u hu := by
    refine Std.ExtTreeSet.ext_contains fun v => ?_
    rw [Bool.eq_iff_iff, Cycle.contains_getD_iff, Cycle.contains_getD_iff, edge_successors_eq,
      edge_successors_eq]
    exact hsame u hu v
  closed u hu v hv := hclosed u hu v (edge_successors_eq ▸ hv)

/-- The cycle of a file is the same in two graphs that have the same edges wherever the file
leads to. -/
theorem cycles_congr
    (hsame : ∀ u ∈ files, ∀ v, Joined edges' u v ↔ Joined edges u v)
    (hclosed : ∀ u ∈ files, ∀ v, Joined edges u v → v ∈ files) (hu : u ∈ files) :
    (cycles edges')[u]? = (cycles edges)[u]? := by
  rw [getElem?_cycles, getElem?_cycles]
  exact (agree_successors hsame hclosed).through?_eq hu

end ModuleGraph
