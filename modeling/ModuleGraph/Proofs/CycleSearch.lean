import Mathlib.Data.List.Chain
import Mathlib.Logic.Relation
import ModuleGraph.Graph.Cycle

/-!
# The search for cycles

`cycles` is to find a file exactly when the file can be reached from itself, and
to give a cycle for it. That what is given is a cycle follows from what a round
keeps up: its paths start at the start and follow edges.

That nothing is missed needs an invariant on what has been seen. A file that has
been seen is at the end of a path of the present round, or else all its edges
lead to files that have been seen, and none leads to the start. When a search
ends for want of paths, the second case holds of everything that can be reached.
When it ends for want of rounds it does so, too: a round that finds new paths
has used up a file with edges, and there are as many rounds as such files.
-/

namespace ModuleGraph.Cycle

open Relation

variable {m : Successors} {edges : List (Url × Url)} {u v start : Url} {p : Path}
  {paths : List Path} {seen : Std.ExtTreeSet Url}

/-! ## Edges -/

/-- There is an edge between the files. -/
def Edge (m : Successors) (u v : Url) : Prop :=
  v ∈ next m u

theorem contains_getD_iff : (m.getD u ∅).contains v = true ↔ Edge m u v := by
  rw [Edge, next, Std.ExtTreeSet.mem_toList, Std.ExtTreeSet.contains_iff_mem]

theorem edge_empty : ¬ Edge ∅ u v := by
  rw [← contains_getD_iff, Std.ExtTreeMap.getD_empty, Std.ExtTreeSet.contains_empty]
  exact Bool.false_ne_true

theorem edge_addEdge {e : Url × Url} : Edge (addEdge m e) u v ↔ (u, v) = e ∨ Edge m u v := by
  obtain ⟨a, b⟩ := e
  rw [← contains_getD_iff, ← contains_getD_iff, addEdge, Std.ExtTreeMap.getD_insert,
    Prod.mk.injEq]
  dsimp only
  by_cases ha : a = u
  · rw [if_pos (by rw [ha]; exact Std.ReflCmp.compare_self), ha,
      Std.ExtTreeSet.contains_insert, Bool.or_eq_true, Std.LawfulEqCmp.compare_beq_iff_eq]
    exact or_congr_left ⟨fun h => ⟨rfl, h.symm⟩, fun h => h.2.symm⟩
  · rw [if_neg fun h => ha (Std.LawfulEqCmp.eq_of_compare h)]
    exact ⟨.inr, fun h => h.resolve_left fun h => ha h.1.symm⟩

theorem edge_successors : Edge (successors edges) u v ↔ (u, v) ∈ edges := by
  have hfold : ∀ (es : List (Url × Url)) (m : Successors),
      Edge (es.foldl addEdge m) u v ↔ (u, v) ∈ es ∨ Edge m u v := by
    intro es
    induction es with
    | nil => intro m; simp
    | cons e es ih =>
      intro m
      rw [List.foldl_cons, ih, edge_addEdge, List.mem_cons, or_left_comm, or_assoc]
  rw [successors, hfold, or_iff_left edge_empty]

theorem mem_keys_of_edge (h : Edge m u v) : u ∈ m.keys := by
  by_contra hu
  rw [Std.ExtTreeMap.mem_keys] at hu
  rw [← contains_getD_iff, Std.ExtTreeMap.getD_eq_fallback hu, Std.ExtTreeSet.contains_empty] at h
  cases h

/-! ## Paths -/

theorem files_extend : (p.extend u).files = p.files ++ [u] := by
  simp [Path.files, Path.extend]

theorem getLast?_files : p.files.getLast? = some p.last := by
  simp [Path.files]

/-- The path goes along edges from the start. -/
structure Path.Follows (p : Path) (m : Successors) (start : Url) : Prop where
  head? : p.files.head? = some start
  chain : p.files.IsChain (Edge m)

theorem follows_start : Path.Follows ⟨start, []⟩ m start :=
  ⟨rfl, List.isChain_singleton start⟩

theorem Path.Follows.extend (h : p.Follows m start) (hu : Edge m p.last u) :
    (p.extend u).Follows m start := by
  constructor
  · rw [files_extend, List.head?_append, h.head?]
    rfl
  · rw [files_extend]
    refine h.chain.append (List.isChain_singleton u) fun x hx y hy => ?_
    rw [getLast?_files] at hx
    cases hx
    cases hy
    exact hu

/-- A list of files is a cycle from a file on: it starts there, goes along the
relation, and the relation leads from its last file back to the start. -/
structure IsCycle (r : Url → Url → Prop) (start : Url) (cycle : List Url) : Prop where
  head? : cycle.head? = some start
  chain : cycle.IsChain r
  closes : ∀ u, cycle.getLast? = some u → r u start

/-- A path with an edge back to its start is a cycle. -/
theorem Path.Follows.isCycle (h : p.Follows m start) (hp : Edge m p.last start) :
    IsCycle (Edge m) start p.files where
  head? := h.head?
  chain := h.chain
  closes u hu := by
    rw [getLast?_files] at hu
    cases hu
    exact hp

/-! ## One round -/

theorem contains_foldl_insert {us : List Url} :
    (us.foldl Std.ExtTreeSet.insert seen).contains u = true ↔
      u ∈ us ∨ seen.contains u = true := by
  induction us generalizing seen with
  | nil => simp
  | cons v us ih =>
    rw [List.foldl_cons, ih, Std.ExtTreeSet.contains_insert, Bool.or_eq_true,
      Std.LawfulEqCmp.compare_beq_iff_eq, List.mem_cons, or_left_comm, or_assoc, eq_comm]

/-- What a round makes of its paths. -/
structure Expanded (m : Successors) (seen : Std.ExtTreeSet Url) (paths : List Path)
    (r : List Path × Std.ExtTreeSet Url) : Prop where
  keeps : ∀ u, seen.contains u = true → r.2.contains u = true
  longer : ∀ q ∈ r.1, ∃ p ∈ paths, Edge m p.last q.last ∧ q = p.extend q.last
  fresh : ∀ q ∈ r.1, seen.contains q.last = false ∧ r.2.contains q.last = true
  ends : ∀ u, r.2.contains u = true → seen.contains u = true ∨ ∃ q ∈ r.1, q.last = u
  covers : ∀ p ∈ paths, ∀ u, Edge m p.last u → r.2.contains u = true

theorem expand_expanded : Expanded m seen paths (expand m seen paths) := by
  induction paths generalizing seen with
  | nil => exact ⟨fun _ => id, by simp [expand], by simp [expand], fun _ => .inl, by simp⟩
  | cons p ps ih =>
    rw [expand]
    have hfresh : ∀ u, u ∈ (next m p.last).filter (!seen.contains ·) ↔
        Edge m p.last u ∧ seen.contains u = false := by
      intro u
      rw [List.mem_filter, Bool.not_eq_true', Edge]
    generalize (next m p.last).filter (!seen.contains ·) = fresh at hfresh ⊢
    have hseen : ∀ u, (fresh.foldl Std.ExtTreeSet.insert seen).contains u = true ↔
        u ∈ fresh ∨ seen.contains u = true := fun u => contains_foldl_insert
    generalize fresh.foldl Std.ExtTreeSet.insert seen = seen₁ at hseen ⊢
    have ih : Expanded m seen₁ ps (expand m seen₁ ps) := ih
    generalize expand m seen₁ ps = r at ih ⊢
    obtain ⟨more, seen₂⟩ := r
    dsimp only at ih ⊢
    constructor
    case keeps => exact fun u hu => ih.keeps u ((hseen u).2 (.inr hu))
    case longer =>
      intro q hq
      rcases List.mem_append.1 hq with hq | hq
      · obtain ⟨u, hu, rfl⟩ := List.mem_map.1 hq
        exact ⟨p, List.mem_cons_self .., ((hfresh u).1 hu).1, rfl⟩
      · obtain ⟨p', hp', hq⟩ := ih.longer q hq
        exact ⟨p', List.mem_cons_of_mem p hp', hq⟩
    case fresh =>
      intro q hq
      rcases List.mem_append.1 hq with hq | hq
      · obtain ⟨u, hu, rfl⟩ := List.mem_map.1 hq
        exact ⟨((hfresh u).1 hu).2, ih.keeps u ((hseen u).2 (.inl hu))⟩
      · -- what is new to the other paths was not seen before this one either
        obtain ⟨hold, hnew⟩ := ih.fresh q hq
        refine ⟨?_, hnew⟩
        by_contra h
        rw [Bool.not_eq_false] at h
        rw [(hseen q.last).2 (.inr h)] at hold
        cases hold
    case ends =>
      intro u hu
      rcases ih.ends u hu with hu | ⟨q, hq, rfl⟩
      · rcases (hseen u).1 hu with hu | hu
        · exact .inr ⟨p.extend u, List.mem_append_left _ (List.mem_map_of_mem hu), rfl⟩
        · exact .inl hu
      · exact .inr ⟨q, List.mem_append_right _ hq, rfl⟩
    case covers =>
      intro q hq u hu
      rcases List.mem_cons.1 hq with rfl | hq
      · refine ih.keeps u ((hseen u).2 ?_)
        by_cases hu' : seen.contains u = true
        · exact .inr hu'
        · exact .inl ((hfresh u).2 ⟨hu, Bool.eq_false_iff.2 hu'⟩)
      · exact ih.covers q hq u hu

/-- Longer paths go along edges from the start, too. -/
theorem Expanded.follows {r : List Path × Std.ExtTreeSet Url} (h : Expanded m seen paths r)
    (hp : ∀ p ∈ paths, p.Follows m start) : ∀ q ∈ r.1, q.Follows m start := by
  intro q hq
  obtain ⟨p, hmem, hedge, heq⟩ := h.longer q hq
  rw [heq]
  exact (hp p hmem).extend hedge

/-! ## What is found -/

theorem search_succ {rounds : Nat} :
    search m start (rounds + 1) paths seen =
      (paths.find? fun p => (m.getD p.last ∅).contains start).or
        (if (expand m seen paths).1.isEmpty then none
        else search m start rounds (expand m seen paths).1 (expand m seen paths).2) := by
  rw [search]
  split
  · next h => rw [h]; rfl
  · next h => rw [h]; rfl

/-- A path that a search gives goes along edges, from the start and back to it. -/
theorem search_sound {rounds : Nat} (hp : ∀ p ∈ paths, p.Follows m start)
    (h : search m start rounds paths seen = some p) :
    p.Follows m start ∧ Edge m p.last start := by
  induction rounds generalizing paths seen with
  | zero => cases h
  | succ rounds ih =>
    rw [search_succ, Option.or_eq_some_iff] at h
    rcases h with hfind | ⟨-, h⟩
    · have hclose := List.find?_some hfind
      exact ⟨hp p (List.mem_of_find?_eq_some hfind), contains_getD_iff.1 hclose⟩
    · split at h
      · cases h
      · exact ih (expand_expanded.follows hp) h

/-! ## What is not missed -/

/-- What holds before a round. The list has the files whose edges are still to
be followed. -/
structure Searching (m : Successors) (start : Url) (left : List Url) (paths : List Path)
    (seen : Std.ExtTreeSet Url) : Prop where
  startSeen : seen.contains start = true
  lastSeen : ∀ p ∈ paths, seen.contains p.last = true
  closed : ∀ u, seen.contains u = true → (∃ p ∈ paths, p.last = u) ∨
    ¬ Edge m u start ∧ ∀ v, Edge m u v → seen.contains v = true
  ends : ∀ p ∈ paths, ∀ v, Edge m p.last v → p.last ∈ left
  unseen : ∀ u v, seen.contains u = false → Edge m u v → u ∈ left

/-- When everything seen is closed, nothing leads back to the start. -/
theorem not_transGen_of_closed (hstart : seen.contains start = true)
    (hclosed : ∀ u, seen.contains u = true →
      ¬ Edge m u start ∧ ∀ v, Edge m u v → seen.contains v = true) :
    ¬ TransGen (Edge m) start start := by
  have hseen : ∀ u, ReflTransGen (Edge m) start u → seen.contains u = true := by
    intro u hu
    induction hu with
    | refl => exact hstart
    | @tail v w _ hvw ih => exact (hclosed v ih).2 w hvw
  intro h
  obtain ⟨u, hu, hlast⟩ := TransGen.tail'_iff.1 h
  exact (hclosed u (hseen u hu)).1 hlast

namespace Searching

variable {left : List Url}

theorem first : Searching m start m.keys [⟨start, []⟩]
    ((∅ : Std.ExtTreeSet Url).insert start) where
  startSeen := Std.ExtTreeSet.contains_insert_self
  lastSeen p hp := by
    rw [List.mem_singleton.1 hp]
    exact Std.ExtTreeSet.contains_insert_self
  closed u hu := by
    rw [Std.ExtTreeSet.contains_insert, Std.ExtTreeSet.contains_empty, Bool.or_false,
      Std.LawfulEqCmp.compare_beq_iff_eq] at hu
    exact .inl ⟨_, List.mem_singleton_self _, hu⟩
  ends p hp v hv := mem_keys_of_edge hv
  unseen u v _ hv := mem_keys_of_edge hv

/-- After a round whose paths do not lead back to the start, what was seen before
is closed. -/
theorem closed_seen (h : Searching m start left paths seen)
    (hnone : ∀ p ∈ paths, ¬ Edge m p.last start) {r : List Path × Std.ExtTreeSet Url}
    (hr : Expanded m seen paths r) (hu : seen.contains u = true) :
    ¬ Edge m u start ∧ ∀ v, Edge m u v → r.2.contains v = true := by
  rcases h.closed u hu with ⟨p, hp, rfl⟩ | ⟨hstart, hclosed⟩
  · exact ⟨hnone p hp, hr.covers p hp⟩
  · exact ⟨hstart, fun v hv => hr.keeps v (hclosed v hv)⟩

/-- What is seen then is closed, but for the ends of the new paths. -/
theorem closed_expand (h : Searching m start left paths seen)
    (hnone : ∀ p ∈ paths, ¬ Edge m p.last start) {r : List Path × Std.ExtTreeSet Url}
    (hr : Expanded m seen paths r) (hu : r.2.contains u = true) :
    (∃ q ∈ r.1, q.last = u) ∨ ¬ Edge m u start ∧ ∀ v, Edge m u v → r.2.contains v = true :=
  (hr.ends u hu).elim (fun hu => .inr (h.closed_seen hnone hr hu)) .inl

/-- A round that finds new paths has followed the edges of some file. -/
theorem next (h : Searching m start left paths seen)
    (hnone : ∀ p ∈ paths, ¬ Edge m p.last start) {r : List Path × Std.ExtTreeSet Url}
    (hr : Expanded m seen paths r) (hne : r.1 ≠ []) :
    ∃ left', Searching m start left' r.1 r.2 ∧ left'.length < left.length := by
  obtain ⟨q, hq⟩ := List.exists_mem_of_ne_nil _ hne
  obtain ⟨p, hp, hedge, -⟩ := hr.longer q hq
  have hleft : p.last ∈ left := h.ends p hp _ hedge
  -- a file that had not been seen is not the one whose edges were followed
  have herase : ∀ u v, seen.contains u = false → Edge m u v → u ∈ left.erase p.last := by
    intro u v hu hv
    refine (List.mem_erase_of_ne ?_).2 (h.unseen u v hu hv)
    rintro rfl
    rw [h.lastSeen p hp] at hu
    cases hu
  refine ⟨left.erase p.last, ⟨hr.keeps _ h.startSeen, fun q hq => (hr.fresh q hq).2,
    fun u hu => h.closed_expand hnone hr hu, fun q hq v hv => herase _ v (hr.fresh q hq).1 hv,
    fun u v hu hv => herase u v ?_ hv⟩, ?_⟩
  · by_contra hs
    rw [Bool.not_eq_false] at hs
    rw [hr.keeps u hs] at hu
    cases hu
  · rw [List.length_erase_of_mem hleft]
    have := List.length_pos_of_mem hleft
    omega

/-- A search that finds nothing, on enough rounds, had nothing to find. -/
theorem complete {rounds : Nat} (h : Searching m start left paths seen)
    (hn : left.length ≤ rounds) (hs : search m start rounds paths seen = none) :
    ¬ TransGen (Edge m) start start := by
  induction rounds generalizing left paths seen with
  | zero =>
    have hleft : left = [] := List.length_eq_zero_iff.1 (by omega)
    refine not_transGen_of_closed h.startSeen fun u hu => ?_
    rcases h.closed u hu with ⟨p, hp, rfl⟩ | hclosed
    · have hno : ∀ v, ¬ Edge m p.last v := fun v hv => by
        have := h.ends p hp v hv
        rw [hleft] at this
        cases this
      exact ⟨hno start, fun v hv => absurd hv (hno v)⟩
    · exact hclosed
  | succ rounds ih =>
    rw [search_succ, Option.or_eq_none_iff] at hs
    obtain ⟨hfind, hs⟩ := hs
    have hnone : ∀ p ∈ paths, ¬ Edge m p.last start := fun p hp hedge =>
      List.find?_eq_none.1 hfind p hp (contains_getD_iff.2 hedge)
    have hr : Expanded m seen paths (expand m seen paths) := expand_expanded
    generalize expand m seen paths = r at hr hs
    split at hs
    · next hempty =>
      have hnil := List.isEmpty_iff.1 hempty
      refine not_transGen_of_closed (hr.keeps _ h.startSeen) fun u hu => ?_
      refine (h.closed_expand hnone hr hu).resolve_left ?_
      rintro ⟨q, hq, -⟩
      rw [hnil] at hq
      cases hq
    · next hempty =>
      obtain ⟨left', h', hlt⟩ := h.next hnone hr fun hnil => hempty (List.isEmpty_iff.2 hnil)
      exact ih h' (by omega) hs

end Searching

/-! ## The cycle through a file -/

theorem through?_eq_some {cycle : List Url} (h : through? m u = some cycle) :
    IsCycle (Edge m) u cycle := by
  obtain ⟨p, hp, rfl⟩ := Option.map_eq_some_iff.1 h
  obtain ⟨hfollows, hclose⟩ := search_sound (fun q hq => by
    rw [List.mem_singleton.1 hq]
    exact follows_start) hp
  exact hfollows.isCycle hclose

theorem exists_through? (h : TransGen (Edge m) u u) : ∃ cycle, through? m u = some cycle := by
  rw [← Option.ne_none_iff_exists']
  intro hnone
  rw [through?, Option.map_eq_none_iff] at hnone
  exact Searching.first.complete (Nat.le_of_eq Std.ExtTreeMap.length_keys) hnone h

theorem through?_of_self (h : Edge m u u) : through? m u = some [u] := by
  obtain ⟨n, hn⟩ : ∃ n, m.size = n + 1 := by
    have := List.length_pos_of_mem (mem_keys_of_edge h)
    rw [Std.ExtTreeMap.length_keys] at this
    exact ⟨m.size - 1, by omega⟩
  have hfind : [(⟨u, []⟩ : Path)].find? (fun p => (m.getD p.last ∅).contains u) =
      some ⟨u, []⟩ := List.find?_cons_of_pos (contains_getD_iff.2 h)
  rw [through?, hn, search_succ, hfind]
  rfl

theorem IsCycle.transGen {r : Url → Url → Prop} {cycle : List Url} (h : IsCycle r u cycle) :
    TransGen r u u := by
  obtain ⟨x, rest, rfl⟩ : ∃ x rest, cycle = x :: rest := by
    cases cycle with
    | nil => cases h.head?
    | cons x rest => exact ⟨x, rest, rfl⟩
  cases h.head?
  have hlast := h.closes _ (List.getLast?_eq_some_getLast (List.cons_ne_nil u rest))
  exact .tail' (List.relationReflTransGen_of_exists_isChain_cons rest h.chain rfl) hlast

end ModuleGraph.Cycle

namespace ModuleGraph

open Relation

variable {edges : List (Url × Url)} {u : Url} {cycle : List Url}

/-- There is an edge between the files. -/
def Joined (edges : List (Url × Url)) (u v : Url) : Prop :=
  (u, v) ∈ edges

theorem edge_successors_eq : Cycle.Edge (Cycle.successors edges) = Joined edges := by
  funext u v
  exact propext Cycle.edge_successors

theorem getElem?_cycles : (cycles edges)[u]? = Cycle.through? (Cycle.successors edges) u := by
  rw [cycles]
  cases h : Cycle.through? (Cycle.successors edges) u with
  | none =>
    refine Std.ExtTreeMap.getElem?_ofList_of_contains_eq_false ?_
    rw [← Bool.not_eq_true, List.contains_iff_mem, List.mem_map]
    rintro ⟨⟨v, cycle⟩, hmem, rfl⟩
    obtain ⟨w, -, hw⟩ := List.mem_filterMap.1 hmem
    obtain ⟨cycle', hc, heq⟩ := Option.map_eq_some_iff.1 hw
    cases heq
    rw [h] at hc
    cases hc
  | some cycle =>
    refine Std.ExtTreeMap.getElem?_ofList_of_mem Std.ReflCmp.compare_self ?_ ?_
    · refine Std.ExtTreeMap.distinct_keys.filterMap _ fun a b hab x hx y hy => ?_
      obtain ⟨cycle', -, rfl⟩ := Option.map_eq_some_iff.1 hx
      obtain ⟨cycle'', -, rfl⟩ := Option.map_eq_some_iff.1 hy
      exact hab
    · obtain ⟨v, hv, -⟩ := TransGen.head'_iff.1 (Cycle.through?_eq_some h).transGen
      exact List.mem_filterMap.2 ⟨u, Cycle.mem_keys_of_edge hv, by rw [h]; rfl⟩

/-- What is found for a file is a cycle of the edges. -/
theorem isCycle_of_cycles (h : (cycles edges)[u]? = some cycle) :
    Cycle.IsCycle (Joined edges) u cycle := by
  rw [getElem?_cycles] at h
  rw [← edge_successors_eq]
  exact Cycle.through?_eq_some h

/-- The files that are found are those that can be reached from themselves. -/
theorem exists_cycles_iff :
    (∃ cycle, (cycles edges)[u]? = some cycle) ↔ TransGen (Joined edges) u u := by
  constructor
  · rintro ⟨cycle, h⟩
    exact (isCycle_of_cycles h).transGen
  · intro h
    rw [← edge_successors_eq] at h
    rw [getElem?_cycles]
    exact Cycle.exists_through? h

/-- A cycle of one file is an edge from the file to itself. -/
theorem length_cycles_eq_one_iff (h : (cycles edges)[u]? = some cycle) :
    cycle.length = 1 ↔ Joined edges u u := by
  constructor
  · intro hlen
    obtain ⟨x, rfl⟩ := List.length_eq_one_iff.1 hlen
    have hc := isCycle_of_cycles h
    cases hc.head?
    exact hc.closes u rfl
  · intro hself
    rw [getElem?_cycles, Cycle.through?_of_self (Cycle.edge_successors.2 hself)] at h
    cases h
    rfl

end ModuleGraph
