import Mathlib.Data.List.Flatten
import ModuleGraph.Graph.ComponentSearch
import ModuleGraph.Proofs.LeastCycles

/-!
# Searching by components

`cyclesOf` finds what `cycles` finds. Two things tell them apart, and neither
plays a part.

It keeps to a component. But a cycle through a file has only files that can be
reached from it and lead back to it, and those are the files of its component:
the cycles through the file are the same, and so is the least of the shortest.

It keeps a queue and the file that each was reached from, where a search by
rounds keeps paths. `Matches` says which paths these stand for. Taking a round's
files off the queue in turn makes of them what `expand` makes of the paths
(`crawl_round`), and as each file is queued once, the visits last until the
start is met.
-/

namespace ModuleGraph.Cycle

open Relation

variable {m : Successors} {members : List Url} {u v start current : Url} {p : Path}
  {paths ps qs : List Path} {seen : Std.ExtTreeSet Url} {queue us : List Url}
  {parents parents' : Parents} {n : Nat}

/-! ## Keeping to some files -/

theorem contains_insert_of_ne (h : u ≠ v) : (seen.insert u).contains v = seen.contains v := by
  have hne : (compare u v == .eq) = false := by
    rw [← Bool.not_eq_true, Std.LawfulEqCmp.compare_beq_iff_eq]
    exact h
  rw [Std.ExtTreeSet.contains_insert, hne, Bool.false_or]

theorem nodup_next : (next m u).Nodup :=
  pairwise_next.imp fun hlt heq => by
    rw [heq, Std.ReflOrd.compare_self] at hlt
    cases hlt

/-- The edges that lead to some files. -/
def restrict (m : Successors) (members : List Url) : Successors :=
  m.map fun _ us => us.filter members.contains

theorem next_restrict : next (restrict m members) u = nextWithin m members u := by
  rw [nextWithin, next, next, restrict, Std.ExtTreeMap.getD_map,
    Std.ExtTreeMap.getD_eq_getD_getElem?]
  cases m[u]? with
  | none => rfl
  | some us => exact Std.ExtTreeSet.toList_filter

theorem edge_restrict : Edge (restrict m members) u v ↔ Edge m u v ∧ v ∈ members := by
  rw [Edge, next_restrict, nextWithin, List.mem_filter, List.contains_iff_mem, Edge]

/-! ## The way back -/

/-- The files before a file, the nearest first, are those that each was reached
from, down to the start. -/
def Recorded (start : Url) (parents : Parents) : Url → List Url → Prop
  | u, [] => u = start
  | u, v :: earlier => u ≠ start ∧ parents[u]? = some v ∧ Recorded start parents v earlier

theorem Recorded.wayBack {earlier : List Url} (h : Recorded start parents u earlier)
    (hle : earlier.length ≤ n) : wayBack start parents n u = u :: earlier := by
  induction earlier generalizing u n with
  | nil =>
    cases n with
    | zero => rfl
    | succ n => exact if_pos h
  | cons v earlier ih =>
    obtain ⟨hne, hv, h⟩ := h
    cases n with
    | zero => cases hle
    | succ n =>
      rw [Cycle.wayBack, if_neg hne, hv, ← ih h (Nat.le_of_succ_le_succ hle)]

/-- A file keeps the file that it was reached from. -/
structure Grown (parents parents' : Parents) : Prop where
  keeps : ∀ u v : Url, parents[u]? = some v → parents'[u]? = some v
  size : parents.size ≤ parents'.size

theorem Grown.trans {parents'' : Parents} (h : Grown parents parents')
    (h' : Grown parents' parents'') : Grown parents parents'' :=
  ⟨fun u v hu => h'.keeps u v (h.keeps u v hu), h.size.trans h'.size⟩

theorem Grown.insert (h : ¬ parents.contains u = true) :
    Grown parents (parents.insert u v) where
  keeps x y hx := by
    rw [Std.ExtTreeMap.getElem?_insert, if_neg]
    · exact hx
    · intro heq
      rw [Std.LawfulEqOrd.eq_of_compare heq, Std.ExtTreeMap.contains_iff_mem,
        Std.ExtTreeMap.mem_iff_isSome_getElem?, hx] at h
      exact h rfl
  size := Std.ExtTreeMap.size_le_size_insert

theorem Recorded.mono {earlier : List Url} (h : Recorded start parents u earlier)
    (hg : Grown parents parents') : Recorded start parents' u earlier := by
  induction earlier generalizing u with
  | nil => exact h
  | cons v earlier ih => exact ⟨h.1, hg.keeps u v h.2.1, ih h.2.2⟩

/-- The path can be told from the file it ends with. -/
structure Queued (start : Url) (parents : Parents) (p : Path) : Prop where
  recorded : Recorded start parents p.last p.earlier
  length : p.earlier.length ≤ parents.size

theorem Queued.mono (h : Queued start parents p) (hg : Grown parents parents') :
    Queued start parents' p :=
  ⟨h.recorded.mono hg, h.length.trans hg.size⟩

theorem Queued.wayBack (h : Queued start parents p) :
    (wayBack start parents parents.size p.last).reverse = p.files := by
  rw [h.recorded.wayBack h.length]
  rfl

theorem Queued.extend (h : Queued start parents p) (hs : u ≠ start)
    (hu : ¬ parents.contains u = true) : Queued start (parents.insert u p.last) (p.extend u) where
  recorded := ⟨hs, Std.ExtTreeMap.getElem?_insert_self, h.recorded.mono (.insert hu)⟩
  length := by
    rw [Std.ExtTreeMap.size_insert, if_neg hu]
    exact Nat.succ_le_succ h.length

/-! ## The queue -/

/-- The queue stands for paths, the next one first, and the files with a parent
for those seen, besides the start. -/
structure Matches (start : Url) (paths : List Path) (seen : Std.ExtTreeSet Url)
    (queue : List Url) (parents : Parents) : Prop where
  queue : queue = paths.map Path.last
  seen : ∀ u, seen.contains u = true ↔ u = start ∨ parents.contains u = true
  queued : ∀ p ∈ paths, Queued start parents p

namespace Matches

theorem first : Matches start [⟨start, []⟩] ((∅ : Std.ExtTreeSet Url).insert start) [start] ∅ where
  queue := rfl
  seen u := by
    rw [Std.ExtTreeSet.contains_insert, Bool.or_eq_true, Std.LawfulEqCmp.compare_beq_iff_eq,
      Std.ExtTreeSet.contains_empty, Std.ExtTreeMap.contains_empty, eq_comm]
  queued p hp := by
    rw [List.mem_singleton.1 hp]
    exact ⟨rfl, Nat.zero_le _⟩

theorem push (h : Matches start paths seen queue parents) (hp : Queued start parents p)
    (hs : u ≠ start) (hu : ¬ parents.contains u = true) :
    Matches start (paths ++ [p.extend u]) (seen.insert u) (queue ++ [u])
      (parents.insert u p.last) where
  queue := by
    rw [h.queue, List.map_append]
    rfl
  seen v := by
    rw [Std.ExtTreeSet.contains_insert, Std.ExtTreeMap.contains_insert, Bool.or_eq_true,
      Bool.or_eq_true, h.seen, or_left_comm]
  queued q hq := by
    rcases List.mem_append.1 hq with hq | hq
    · exact (h.queued q hq).mono (.insert hu)
    · rw [List.mem_singleton.1 hq]
      exact hp.extend hs hu

/-- A visit that does not meet the start queues what has not been seen. -/
theorem visit (h : Matches start paths seen queue parents) (hp : Queued start parents p)
    (hs : start ∉ us) (hnodup : us.Nodup) :
    ∃ parents' queue', visit start p.last us parents queue = .ok (parents', queue') ∧
      Matches start (paths ++ (us.filter (!seen.contains ·)).map p.extend)
        ((us.filter (!seen.contains ·)).foldl Std.ExtTreeSet.insert seen) queue' parents' := by
  induction us generalizing paths seen queue parents with
  | nil =>
    refine ⟨parents, queue, rfl, ?_⟩
    rw [List.filter_nil, List.map_nil, List.append_nil]
    exact h
  | cons u us ih =>
    obtain ⟨hu, hnodup⟩ := List.nodup_cons.1 hnodup
    have hne : u ≠ start := fun heq => hs (heq ▸ List.mem_cons_self ..)
    have hs : start ∉ us := fun hmem => hs (.tail _ hmem)
    rw [Cycle.visit, if_neg hne]
    by_cases hold : parents.contains u = true
    · rw [if_pos hold, List.filter_cons_of_neg]
      · exact ih h hp hs hnodup
      · rw [(h.seen u).2 (.inr hold)]
        exact Bool.false_ne_true
    · have hnew : (!seen.contains u) = true := by
        rw [Bool.not_eq_true', ← Bool.not_eq_true, h.seen]
        exact fun hor => hor.elim hne hold
      -- seeing this file leaves the ones after it as they were
      have hfilter : us.filter (!seen.contains ·) = us.filter (!(seen.insert u).contains ·) := by
        refine List.filter_congr fun v hv => ?_
        rw [contains_insert_of_ne (ne_of_mem_of_not_mem hv hu).symm]
      obtain ⟨parents', queue', hvisit, hmatches⟩ :=
        ih (h.push hp hne hold) (hp.mono (.insert hold)) hs hnodup
      refine ⟨parents', queue', ?_, ?_⟩
      · rw [if_neg hold]
        exact hvisit
      · rw [List.filter_cons, if_pos hnew, List.map_cons, List.foldl_cons, hfilter,
          List.append_cons]
        exact hmatches

end Matches

/-- A visit that meets the start forgets nothing. -/
theorem visit_of_mem (hs : start ∈ us) :
    ∃ parents', visit start current us parents queue = .error parents' ∧
      Grown parents parents' := by
  induction us generalizing queue parents with
  | nil => cases hs
  | cons u us ih =>
    rw [visit]
    by_cases hu : u = start
    · exact ⟨parents, if_pos hu, fun _ _ => id, Nat.le_refl _⟩
    · have hs : start ∈ us := (List.mem_cons.1 hs).resolve_left (Ne.symm hu)
      rw [if_neg hu]
      by_cases hold : parents.contains u = true
      · rw [if_pos hold]
        exact ih hs
      · obtain ⟨parents', hvisit, hg⟩ := @ih (queue ++ [u]) (parents.insert u current) hs
        rw [if_neg hold]
        exact ⟨parents', hvisit, (Grown.insert hold).trans hg⟩

/-! ## Visits -/

/-- A path that leads back to the start is given when its turn comes. -/
theorem crawl_of_edge (h : Matches start (p :: ps) seen queue parents)
    (hclose : Edge (restrict m members) p.last start) :
    crawl m members start (n + 1) queue parents = p.files := by
  rw [Edge, next_restrict] at hclose
  obtain ⟨parents', hvisit, hg⟩ := visit_of_mem hclose
  rw [h.queue, List.map_cons, crawl, hvisit]
  exact ((h.queued p (.head _)).mono hg).wayBack

/-- A path that does not is replaced by those that go on from it, behind the others. -/
theorem crawl_of_not_edge (h : Matches start (p :: ps) seen queue parents)
    (hopen : ¬ Edge (restrict m members) p.last start) :
    ∃ queue' parents', crawl m members start (n + 1) queue parents =
        crawl m members start n queue' parents' ∧
      Matches start
        (ps ++ ((next (restrict m members) p.last).filter (!seen.contains ·)).map p.extend)
        (((next (restrict m members) p.last).filter (!seen.contains ·)).foldl
          Std.ExtTreeSet.insert seen) queue' parents' := by
  have hps : Matches start ps seen (ps.map Path.last) parents :=
    ⟨rfl, h.seen, fun q hq => h.queued q (.tail _ hq)⟩
  obtain ⟨parents', queue', hvisit, hmatches⟩ := hps.visit (h.queued p (.head _)) hopen nodup_next
  refine ⟨queue', parents', ?_, hmatches⟩
  rw [h.queue, List.map_cons, crawl, ← next_restrict, hvisit]

/-- Taking the files of a round in turn is a round. -/
theorem crawl_round (h : Matches start (ps ++ qs) seen queue parents)
    (hopen : ∀ p ∈ ps, ¬ Edge (restrict m members) p.last start) :
    ∃ queue' parents', crawl m members start (ps.length + n) queue parents =
        crawl m members start n queue' parents' ∧
      Matches start (qs ++ (expand (restrict m members) seen ps).1)
        (expand (restrict m members) seen ps).2 queue' parents' := by
  induction ps generalizing qs seen queue parents with
  | nil =>
    refine ⟨queue, parents, ?_, ?_⟩
    · rw [List.length_nil, Nat.zero_add]
    · rw [expand, List.append_nil]
      exact h
  | cons p ps ih =>
    obtain ⟨queue₁, parents₁, hcrawl, h₁⟩ :=
      crawl_of_not_edge (n := ps.length + n) h (hopen p (.head _))
    obtain ⟨queue₂, parents₂, hcrawl', h₂⟩ :=
      ih (List.append_assoc ps qs _ ▸ h₁) fun q hq => hopen q (.tail _ hq)
    refine ⟨queue₂, parents₂, ?_, ?_⟩
    · rw [List.length_cons, Nat.succ_add, hcrawl, hcrawl']
    · rw [List.append_assoc] at h₂
      exact h₂

/-! ## As many visits as files -/

/-- The files that have not been seen. -/
def unseen (members : List Url) (seen : Std.ExtTreeSet Url) : List Url :=
  members.filter (!seen.contains ·)

theorem length_unseen_insert (hu : u ∈ members) (hnew : seen.contains u = false) :
    1 + (unseen members (seen.insert u)).length ≤ (unseen members seen).length := by
  have hfilter : unseen members (seen.insert u) = (unseen members seen).filter (· != u) := by
    rw [unseen, unseen, List.filter_filter]
    refine List.filter_congr fun v _ => ?_
    by_cases hv : u = v
    · rw [← hv, Std.ExtTreeSet.contains_insert_self, bne_self_eq_false]
      rfl
    · rw [contains_insert_of_ne hv, bne_iff_ne.2 (Ne.symm hv), Bool.true_and]
  rw [hfilter, Nat.add_comm, Nat.succ_le_iff, List.length_filter_lt_length_iff_exists]
  refine ⟨u, List.mem_filter.2 ⟨hu, by rw [hnew]; rfl⟩, ?_⟩
  rw [bne_self_eq_false]
  exact Bool.false_ne_true

theorem length_unseen_foldl (hus : ∀ u ∈ us, u ∈ members ∧ seen.contains u = false)
    (hnodup : us.Nodup) :
    us.length + (unseen members (us.foldl Std.ExtTreeSet.insert seen)).length ≤
      (unseen members seen).length := by
  induction us generalizing seen with
  | nil => exact Nat.le_of_eq (Nat.zero_add _)
  | cons u us ih =>
    obtain ⟨hu, hnodup⟩ := List.nodup_cons.1 hnodup
    obtain ⟨hmem, hnew⟩ := hus u (.head _)
    have hone := length_unseen_insert hmem hnew
    have hrest : us.length +
        (unseen members (us.foldl Std.ExtTreeSet.insert (seen.insert u))).length ≤
          (unseen members (seen.insert u)).length := by
      refine ih (fun v hv => ⟨(hus v (.tail _ hv)).1, ?_⟩) hnodup
      rw [contains_insert_of_ne (ne_of_mem_of_not_mem hv hu).symm]
      exact (hus v (.tail _ hv)).2
    rw [List.length_cons, List.foldl_cons]
    omega

/-- A file that a round leads to is no longer unseen. -/
theorem length_unseen_expand (hm : ∀ u v, Edge m u v → v ∈ members) :
    (expand m seen ps).1.length + (unseen members (expand m seen ps).2).length ≤
      (unseen members seen).length := by
  induction ps generalizing seen with
  | nil => exact Nat.le_of_eq (Nat.zero_add _)
  | cons p ps ih =>
    have hfresh : ((next m p.last).filter (!seen.contains ·)).length +
        (unseen members (((next m p.last).filter (!seen.contains ·)).foldl
          Std.ExtTreeSet.insert seen)).length ≤ (unseen members seen).length := by
      refine length_unseen_foldl (fun u hu => ?_) (nodup_next.filter _)
      obtain ⟨hedge, hnew⟩ := List.mem_filter.1 hu
      rw [Bool.not_eq_true'] at hnew
      exact ⟨hm p.last u hedge, hnew⟩
    have hrest := @ih (((next m p.last).filter (!seen.contains ·)).foldl
      Std.ExtTreeSet.insert seen)
    rw [expand]
    dsimp only
    rw [List.length_append, List.length_map]
    omega

theorem crawl_of_search {rounds : Nat}
    (hs : search (restrict m members) start rounds paths seen = some p)
    (h : Matches start paths seen queue parents)
    (hn : paths.length + (unseen members seen).length ≤ n) :
    crawl m members start n queue parents = p.files := by
  induction rounds generalizing paths seen queue parents n with
  | zero => cases hs
  | succ rounds ih =>
    rw [search_succ, Option.or_eq_some_iff] at hs
    rcases hs with hfind | ⟨hfind, hs⟩
    · -- what comes before the path does not lead back to the start
      obtain ⟨hclose, before, after, rfl, hbefore⟩ := List.find?_eq_some_iff_append.1 hfind
      obtain ⟨k, rfl⟩ : ∃ k, n = before.length + (k + 1) := by
        rw [List.length_append, List.length_cons] at hn
        exact ⟨n - before.length - 1, by omega⟩
      obtain ⟨queue', parents', hcrawl, hmatches⟩ := crawl_round (n := k + 1) h fun q hq hedge => by
        have hopen := hbefore q hq
        rw [contains_getD_iff.2 hedge] at hopen
        cases hopen
      rw [hcrawl, crawl_of_edge hmatches (contains_getD_iff.1 hclose)]
    · have hopen : ∀ q ∈ paths, ¬ Edge (restrict m members) q.last start := fun q hq hedge =>
        List.find?_eq_none.1 hfind q hq (contains_getD_iff.2 hedge)
      obtain ⟨k, rfl⟩ : ∃ k, n = paths.length + k := ⟨n - paths.length, by omega⟩
      obtain ⟨queue', parents', hcrawl, hmatches⟩ :=
        crawl_round (n := k) ((List.append_nil paths).symm ▸ h) hopen
      have hlen : (expand (restrict m members) seen paths).1.length +
          (unseen members (expand (restrict m members) seen paths).2).length ≤
            (unseen members seen).length :=
        length_unseen_expand fun u v huv => (edge_restrict.1 huv).2
      split at hs
      · cases hs
      · rw [hcrawl]
        exact ih hs hmatches (by omega)

/-- The search by a queue gives the cycle that a search by rounds gives. -/
theorem shortestWithin_of_through? {cycle : List Url} (hs : start ∈ members)
    (h : through? (restrict m members) start = some cycle) :
    shortestWithin m members start = cycle := by
  obtain ⟨p, hp, rfl⟩ := Option.map_eq_some_iff.1 h
  refine crawl_of_search hp .first ?_
  exact (length_unseen_insert hs Std.ExtTreeSet.contains_empty).trans (List.length_filter_le _ _)

/-! ## Least cycles in other graphs -/

theorem LeastCycle.congr {r r' : Url → Url → Prop} {cycle : List Url}
    (hr : ∀ other, IsCycle r start other ↔ IsCycle r' start other)
    (h : LeastCycle r start cycle) : LeastCycle r' start cycle where
  toIsCycle := (hr cycle).1 h.toIsCycle
  nodup := h.nodup
  shortest other ho := h.shortest other ((hr other).2 ho)
  least other ho := h.least other ((hr other).2 ho)

end ModuleGraph.Cycle

namespace ModuleGraph

open ModuleGraph.Cycle Relation

variable {edges : List (Url × Url)} {components : List (List Url)} {component cycle : List Url}
  {u v : Url}

/-! ## Components -/

/-- These are the strongly connected components of the edges: each file with an
edge is in one of them, once, and with it those that it leads to and that lead
to it. -/
structure Components (edges : List (Url × Url)) (components : List (List Url)) : Prop where
  nodup : components.flatten.Nodup
  files : ∀ u, u ∈ components.flatten ↔ ∃ v, Joined edges u v ∨ Joined edges v u
  connected : ∀ component ∈ components, ∀ u ∈ component, ∀ v, v ∈ component ↔
    ReflTransGen (Joined edges) u v ∧ ReflTransGen (Joined edges) v u

namespace Components

variable (h : Components edges components)
include h

/-- A cycle of a file stays in the component of the file. -/
theorem isCycle_restrict_iff (hc : component ∈ components) (hu : u ∈ component) :
    IsCycle (Edge (restrict (successors edges) component)) u cycle ↔
      IsCycle (Joined edges) u cycle := by
  have hedge : ∀ x y, Edge (restrict (successors edges) component) x y ↔
      Joined edges x y ∧ y ∈ component := fun x y => by
    rw [edge_restrict, edge_successors_eq]
  constructor
  · intro hcycle
    exact ⟨hcycle.head?, hcycle.chain.imp fun x y hxy => ((hedge x y).1 hxy).1,
      fun x hx => ((hedge x u).1 (hcycle.closes x hx)).1⟩
  · intro hcycle
    have hmem : ∀ x ∈ cycle, x ∈ component := fun x hx => by
      obtain ⟨hfrom, hto⟩ := hcycle.reach hx
      exact (h.connected component hc u hu x).2 ⟨hfrom, hto.to_reflTransGen⟩
    exact ⟨hcycle.head?, hcycle.chain.imp_of_mem_imp fun x y _ hy hxy =>
      (hedge x y).2 ⟨hxy, hmem y hy⟩, fun x hx => (hedge x u).2 ⟨hcycle.closes x hx, hu⟩⟩

/-- A component has a cycle when its files can be reached from themselves. -/
theorem hasCycle_iff (hc : component ∈ components) (hu : u ∈ component) :
    hasCycle (successors edges) component = true ↔ TransGen (Joined edges) u u := by
  have hconnected := h.connected component hc u hu
  have hnodup := (List.nodup_flatten.1 h.nodup).1 component hc
  obtain ⟨x, others, rfl⟩ := List.exists_cons_of_ne_nil (List.ne_nil_of_mem hu)
  rw [hasCycle, Bool.or_eq_true, decide_eq_true_eq, List.head?_cons, Option.any_some,
    contains_getD_iff, edge_successors_eq]
  constructor
  · rintro (hlen | hself)
    · obtain ⟨v, hv, hne⟩ : ∃ v ∈ x :: others, v ≠ u := by
        by_contra hall
        push Not at hall
        have hle : (x :: others).length ≤ [u].length :=
          hnodup.length_le_of_subset fun v hv => List.mem_singleton.2 (hall v hv)
        exact absurd hlen (Nat.not_lt.2 hle)
      obtain ⟨huv, hvu⟩ := (hconnected v).1 hv
      exact .trans_left ((reflTransGen_iff_eq_or_transGen.1 huv).resolve_left hne) hvu
    · obtain ⟨hux, hxu⟩ := (hconnected x).1 (List.mem_cons_self ..)
      exact .trans_right hux (.head' hself hxu)
  · intro hcycle
    obtain ⟨v, huv, hvu⟩ := TransGen.head'_iff.1 hcycle
    have hv : v ∈ x :: others := (hconnected v).2 ⟨.single huv, hvu⟩
    cases others with
    | nil =>
      cases List.mem_singleton.1 hu
      cases List.mem_singleton.1 hv
      exact .inr huv
    | cons y others => exact .inl (Nat.succ_lt_succ (Nat.succ_pos _))

/-- The search in the component of a file gives its cycle. -/
theorem shortestWithin_eq (hc : component ∈ components) (hu : u ∈ component)
    (hcycle : (cycles edges)[u]? = some cycle) :
    shortestWithin (successors edges) component u = cycle := by
  refine shortestWithin_of_through? hu (through?_eq_some_iff.2 ?_)
  exact (getElem?_cycles_eq_some_iff.1 hcycle).congr fun other =>
    (h.isCycle_restrict_iff hc hu).symm

theorem distinct_listed (m : Successors) :
    (listed m components).Pairwise fun a b => ¬ compare a.1 b.1 = .eq := by
  have hkeys : ((listed m components).map Prod.fst).Nodup := by
    rw [listed, List.map_flatMap]
    simp only [List.map_map, Function.comp_def, List.map_id', List.flatMap_id']
    exact h.nodup.sublist List.filter_sublist.flatten
  exact (List.pairwise_map.1 hkeys).imp fun hne heq => hne (Std.LawfulEqOrd.eq_of_compare heq)

/-- What is found by components is what is found. -/
theorem cyclesOf_eq : cyclesOf components edges = cycles edges := by
  refine Std.ExtTreeMap.ext_getElem? fun u => ?_
  rw [cyclesOf]
  cases hcycle : (cycles edges)[u]? with
  | none =>
    refine Std.ExtTreeMap.getElem?_ofList_of_contains_eq_false ?_
    rw [← Bool.not_eq_true, List.contains_iff_mem, List.mem_map]
    rintro ⟨⟨v, cycle⟩, hmem, rfl⟩
    obtain ⟨component, hc, hmem⟩ := List.mem_flatMap.1 hmem
    obtain ⟨hc, hhas⟩ := List.mem_filter.1 hc
    obtain ⟨w, hw, heq⟩ := List.mem_map.1 hmem
    cases heq
    obtain ⟨cycle, hfound⟩ := exists_cycles_iff.2 ((h.hasCycle_iff hc hw).1 hhas)
    rw [hcycle] at hfound
    cases hfound
  | some cycle =>
    refine Std.ExtTreeMap.getElem?_ofList_of_mem Std.ReflCmp.compare_self (h.distinct_listed _) ?_
    have hself : TransGen (Joined edges) u u := exists_cycles_iff.1 ⟨cycle, hcycle⟩
    obtain ⟨v, hv, -⟩ := TransGen.head'_iff.1 hself
    obtain ⟨component, hc, hu⟩ := List.mem_flatten.1 ((h.files u).2 ⟨v, .inl hv⟩)
    refine List.mem_flatMap.2 ⟨component, List.mem_filter.2 ⟨hc, ?_⟩, List.mem_map.2 ⟨u, hu, ?_⟩⟩
    · exact (h.hasCycle_iff hc hu).2 hself
    · rw [h.shortestWithin_eq hc hu hcycle]

end Components

/-! ## What is found -/

/-- A map has the files on a cycle of the edges, each with its cycle. -/
structure Canonical (edges : List (Url × Url)) (found : Std.ExtTreeMap Url (List Url)) :
    Prop where
  keys : ∀ u, u ∈ found ↔ ∃ start cycle, IsCycle (Joined edges) start cycle ∧ u ∈ cycle
  values : ∀ u cycle, found[u]? = some cycle ↔ LeastCycle (Joined edges) u cycle
  loops : ∀ u cycle, found[u]? = some cycle → (cycle.length = 1 ↔ Joined edges u u)

theorem canonical_cycles : Canonical edges (cycles edges) where
  keys u := by
    rw [← transGen_self_iff, ← exists_cycles_iff, Std.ExtTreeMap.mem_iff_isSome_getElem?,
      Option.isSome_iff_exists]
  values u cycle := getElem?_cycles_eq_some_iff
  loops u cycle h := length_cycles_eq_one_iff h

/-- By components or not, and whatever the order of the edges and of the
components, and however often an edge is given, a search finds the files on a
cycle, each with the least of the shortest cycles through it. -/
theorem canonical_cyclesOf (h : Components edges components) :
    Canonical edges (cyclesOf components edges) ∧
      cyclesOf components edges = cycles edges ∧
      ∀ edges' components', (∀ e, e ∈ edges' ↔ e ∈ edges) → Components edges' components' →
        cyclesOf components' edges' = cyclesOf components edges := by
  have heq := h.cyclesOf_eq
  refine ⟨heq ▸ canonical_cycles, heq, fun edges' components' hsame h' => ?_⟩
  rw [h'.cyclesOf_eq, cycles_eq_of_edges hsame, heq]

namespace Sample

def corner (name : String) : Url := ⟨"file:///" ++ name⟩

/-- Two ways from a to d, one way back, and a way out to e. -/
def fork : List (Url × Url) :=
  [("d", "a"), ("a", "c"), ("c", "d"), ("a", "b"), ("b", "d"), ("d", "e")].map
    fun edge => (corner edge.1, corner edge.2)

def loop : List Url := ["d", "c", "b", "a"].map corner

theorem reach_loop (hu : u ∈ loop) :
    ReflTransGen (Joined fork) u (corner "d") ∧ ReflTransGen (Joined fork) (corner "d") u := by
  have hda : Joined fork (corner "d") (corner "a") := by unfold Joined; decide
  have hac : Joined fork (corner "a") (corner "c") := by unfold Joined; decide
  have hcd : Joined fork (corner "c") (corner "d") := by unfold Joined; decide
  have hab : Joined fork (corner "a") (corner "b") := by unfold Joined; decide
  have hbd : Joined fork (corner "b") (corner "d") := by unfold Joined; decide
  simp only [loop, List.map_cons, List.map_nil, List.mem_cons, List.not_mem_nil, or_false] at hu
  rcases hu with rfl | rfl | rfl | rfl
  · exact ⟨.refl, .refl⟩
  · exact ⟨.single hcd, .head hda (.single hac)⟩
  · exact ⟨.single hbd, .head hda (.single hab)⟩
  · exact ⟨.head hac (.single hcd), .single hda⟩

theorem components_fork : Components fork [[corner "e"], loop] where
  nodup := by decide
  files u := by
    constructor
    · have hall : ∀ u ∈ [[corner "e"], loop].flatten, ∃ e ∈ fork, u = e.1 ∨ u = e.2 := by decide
      intro hu
      obtain ⟨⟨x, y⟩, he, rfl | rfl⟩ := hall u hu
      · exact ⟨y, .inl he⟩
      · exact ⟨x, .inr he⟩
    · have hall : ∀ e ∈ fork, e.1 ∈ [[corner "e"], loop].flatten ∧
          e.2 ∈ [[corner "e"], loop].flatten := by decide
      rintro ⟨v, h | h⟩
      · exact (hall _ h).1
      · exact (hall _ h).2
  connected component hc u hu v := by
    have hleaves : ∀ e ∈ fork, e.1 ∈ loop := by decide
    simp only [List.mem_cons, List.not_mem_nil, or_false] at hc
    rcases hc with rfl | rfl
    · obtain rfl := List.mem_singleton.1 hu
      rw [List.mem_singleton]
      refine ⟨fun hv => hv ▸ ⟨.refl, .refl⟩, fun ⟨huv, _⟩ => ?_⟩
      rcases huv.cases_head with heq | ⟨w, hw, -⟩
      · exact heq.symm
      · -- no edge leaves the file
        exact absurd (hleaves _ hw) (by decide : corner "e" ∉ loop)
    · constructor
      · intro hv
        exact ⟨(reach_loop hu).1.trans (reach_loop hv).2, (reach_loop hv).1.trans (reach_loop hu).2⟩
      · rintro ⟨-, hvu⟩
        rcases hvu.cases_head with rfl | ⟨w, hw, -⟩
        · exact hu
        · exact hleaves _ hw

/-- Of the two ways around from a, the one by b comes first. -/
theorem canonical_cyclesOf_fork : Components fork [[corner "e"], loop] ∧
    Canonical fork (cyclesOf [[corner "e"], loop] fork) ∧
    (cycles fork)[corner "a"]? = some [corner "a", corner "b", corner "d"] :=
  ⟨components_fork, (canonical_cyclesOf components_fork).1, by decide +kernel⟩

end Sample

end ModuleGraph
