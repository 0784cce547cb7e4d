import Mathlib.Data.List.Nodup
import ModuleGraph.Proofs.CycleSearch

/-!
# The cycle of a file is the least of the shortest

The cycle that is found for a file is no longer than any other through it, and
of those as long it comes first in the order of URLs. As there can be only one
such cycle, it is settled by what the edges are, and neither their order nor how
often each is given plays a part.

A round holds the paths of one length, and `Foremost` says which: to every file
that such a path leads to for the first time, the path whose files come first,
the paths themselves in order. A round keeps this up as the files that follow
one file are visited in order, and as two paths of one length compare by where
they first differ, whatever is put behind them. The first path of a round that
leads back to the start is then before all others that do, and no earlier round
had any.
-/

namespace ModuleGraph.Cycle

open Relation

variable {m : Successors} {u v start : Url} {p w : Path} {paths : List Path}
  {seen : Std.ExtTreeSet Url} {k : Nat}

/-! ## Comparing paths -/

/-- Lists that start with as many elements compare by these first. -/
theorem compare_append {α : Type} [Ord α] {a b c d : List α} (h : a.length = b.length) :
    compare (a ++ c) (b ++ d) = (compare a b).then (compare c d) := by
  induction a generalizing b with
  | nil =>
    obtain rfl := List.length_eq_zero_iff.1 h.symm
    rfl
  | cons x a ih =>
    cases b with
    | nil => cases h
    | cons y b =>
      rw [List.cons_append, List.cons_append, List.compare_cons_cons, List.compare_cons_cons,
        ih (Nat.succ.inj h), Ordering.then_assoc]

theorem length_files_extend : (p.extend u).files.length = p.files.length + 1 := by
  rw [files_extend, List.length_append]
  rfl

theorem compare_extend_of_lt (hlen : p.files.length = w.files.length)
    (h : compare p.files w.files = .lt) :
    compare (p.extend u).files (w.extend v).files = .lt := by
  rw [files_extend, files_extend, compare_append hlen, h]
  rfl

theorem compare_extend_same :
    compare (p.extend u).files (p.extend v).files = compare u v := by
  rw [files_extend, files_extend, compare_append rfl, Std.ReflOrd.compare_self,
    List.compare_cons_cons]
  exact Ordering.then_eq

theorem isLE_extend (hlen : p.files.length = w.files.length)
    (h : (compare p.files w.files).isLE = true) :
    (compare (p.extend u).files (w.extend u).files).isLE = true := by
  rw [files_extend, files_extend, compare_append hlen, Std.ReflOrd.compare_self]
  exact Ordering.isLE_then_iff_and.2 ⟨h, .inr rfl⟩

/-! ## Taking the last edge off -/

theorem Path.follows_extend_iff :
    (p.extend u).Follows m start ↔ p.Follows m start ∧ Edge m p.last u := by
  refine ⟨fun h => ?_, fun h => h.1.extend h.2⟩
  obtain ⟨hhead, hchain⟩ := h
  rw [files_extend] at hhead hchain
  obtain ⟨hchain, -, hlast⟩ := List.isChain_append.1 hchain
  refine ⟨⟨?_, hchain⟩, hlast _ getLast?_files u rfl⟩
  rwa [List.head?_append_of_ne_nil _ fun hnil => by
    have := getLast?_files (p := p)
    rw [hnil] at this
    cases this] at hhead

/-- A path of more than one file is a path and one file more. -/
theorem Path.exists_extend (h : w.files.length = k + 2) :
    ∃ (p : Path) (u : Url), w = p.extend u ∧ p.files.length = k + 1 := by
  obtain ⟨u, earlier⟩ := w
  cases earlier with
  | nil => cases h
  | cons v earlier =>
    refine ⟨⟨v, earlier⟩, u, rfl, ?_⟩
    rw [← Nat.add_right_cancel_iff (n := 1), ← length_files_extend (u := u)]
    exact h

/-- A cycle is a path that leads back to its start. -/
theorem isCycle_iff {cycle : List Url} : IsCycle (Edge m) start cycle ↔
    ∃ p : Path, p.files = cycle ∧ p.Follows m start ∧ Edge m p.last start := by
  constructor
  · rintro ⟨hhead, hchain, hcloses⟩
    cases hrev : cycle.reverse with
    | nil =>
      rw [List.reverse_eq_nil_iff.1 hrev] at hhead
      cases hhead
    | cons u earlier =>
      have hfiles : Path.files ⟨u, earlier⟩ = cycle := by
        rw [Path.files, ← hrev, List.reverse_reverse]
      refine ⟨⟨u, earlier⟩, hfiles, ⟨hfiles ▸ hhead, hfiles ▸ hchain⟩, hcloses u ?_⟩
      rw [← hfiles]
      exact getLast?_files
  · rintro ⟨p, rfl, hfollows, hclose⟩
    exact hfollows.isCycle hclose

/-! ## The paths of a round -/

/-- What holds before the round whose paths have this many edges. -/
structure Foremost (m : Successors) (start : Url) (k : Nat) (paths : List Path)
    (seen : Std.ExtTreeSet Url) : Prop where
  length : ∀ p ∈ paths, p.files.length = k + 1
  nodup : ∀ p ∈ paths, p.files.Nodup
  filesSeen : ∀ p ∈ paths, ∀ u ∈ p.files, seen.contains u = true
  sorted : paths.Pairwise fun p q => compare p.files q.files = .lt
  shorter : ∀ w : Path, w.Follows m start → w.files.length ≤ k → ¬ Edge m w.last start
  least : ∀ w : Path, w.Follows m start → w.files.length = k + 1 →
    (∃ p ∈ paths, p.last = w.last ∧ (compare p.files w.files).isLE = true) ∨
      ¬ Edge m w.last start ∧ ∀ v, Edge m w.last v → seen.contains v = true

theorem pairwise_next : (next m u).Pairwise fun a b => compare a b = .lt :=
  Std.ExtTreeSet.ordered_toList

/-- The new paths are in order when the old ones are. -/
theorem pairwise_expand (hlen : ∀ p ∈ paths, p.files.length = k)
    (h : paths.Pairwise fun p q => compare p.files q.files = .lt) :
    (expand m seen paths).1.Pairwise fun p q => compare p.files q.files = .lt := by
  induction paths generalizing seen with
  | nil => exact List.Pairwise.nil
  | cons p ps ih =>
    obtain ⟨hp, hps⟩ := List.pairwise_cons.1 h
    rw [expand]
    refine List.pairwise_append.2 ⟨?_, ih (fun q hq => hlen q (.tail _ hq)) hps, ?_⟩
    · -- the paths that go on from one path compare by their last files
      refine List.pairwise_map.2 ((pairwise_next.filter _).imp fun hab => ?_)
      rw [compare_extend_same]
      exact hab
    · intro q hq q' hq'
      obtain ⟨u, -, rfl⟩ := List.mem_map.1 hq
      obtain ⟨p', hp', -, heq⟩ := expand_expanded.longer q' hq'
      rw [heq]
      refine compare_extend_of_lt ?_ (hp p' hp')
      rw [hlen p (.head _), hlen p' (.tail _ hp')]

/-- A file that is new after a path is reached on a path that is no later. -/
theorem exists_expand_isLE (hlen : ∀ p ∈ paths, p.files.length = k)
    (h : paths.Pairwise fun p q => compare p.files q.files = .lt) (hp : p ∈ paths)
    (hu : Edge m p.last u) (hnew : seen.contains u = false) :
    ∃ q ∈ (expand m seen paths).1, q.last = u ∧
      (compare q.files (p.extend u).files).isLE = true := by
  induction paths generalizing seen with
  | nil => cases hp
  | cons p₀ ps ih =>
    obtain ⟨hfirst, hps⟩ := List.pairwise_cons.1 h
    rw [expand]
    by_cases hu₀ : Edge m p₀.last u
    · refine ⟨p₀.extend u, List.mem_append_left _ (List.mem_map_of_mem ?_), rfl, ?_⟩
      · exact List.mem_filter.2 ⟨hu₀, by rw [hnew]; rfl⟩
      · refine isLE_extend ?_ ?_
        · rw [hlen p₀ (.head _), hlen p hp]
        · rcases List.mem_cons.1 hp with rfl | hp
          · rw [Std.ReflOrd.compare_self]
            rfl
          · rw [hfirst p hp]
            rfl
    · -- the first path does not lead to the file, and leaves it new
      have hp : p ∈ ps := (List.mem_cons.1 hp).resolve_left fun heq => hu₀ (heq ▸ hu)
      have hnew : (((next m p₀.last).filter (!seen.contains ·)).foldl
          Std.ExtTreeSet.insert seen).contains u = false := by
        rw [← Bool.not_eq_true, contains_foldl_insert, List.mem_filter, not_or]
        exact ⟨fun h => hu₀ h.1, Bool.eq_false_iff.1 hnew⟩
      obtain ⟨q, hq, hlast, hle⟩ := ih (fun q hq => hlen q (.tail _ hq)) hps hp hnew
      exact ⟨q, List.mem_append_right _ hq, hlast, hle⟩

namespace Foremost

theorem first : Foremost m start 0 [⟨start, []⟩] ((∅ : Std.ExtTreeSet Url).insert start) where
  length p hp := by
    rw [List.mem_singleton.1 hp]
    rfl
  nodup p hp := by
    rw [List.mem_singleton.1 hp]
    exact List.nodup_singleton start
  filesSeen p hp u hu := by
    rw [List.mem_singleton.1 hp] at hu
    rw [List.mem_singleton.1 hu]
    exact Std.ExtTreeSet.contains_insert_self
  sorted := List.pairwise_singleton _ _
  shorter w _ hlen := by
    rw [Path.files, List.length_reverse] at hlen
    cases hlen
  least w hw hlen := by
    obtain ⟨x, hx⟩ := List.length_eq_one_iff.1 hlen
    have hhead := hw.head?
    have hlast := getLast?_files (p := w)
    rw [hx] at hhead hlast
    cases hhead
    cases hlast
    refine .inl ⟨_, List.mem_singleton_self _, rfl, ?_⟩
    rw [hx]
    exact Std.ReflOrd.isLE_rfl

variable (h : Foremost m start k paths seen)
include h

/-- When no path of a round leads back to the start, no path as long does. -/
theorem not_edge (hnone : ∀ p ∈ paths, ¬ Edge m p.last start) (hw : w.Follows m start)
    (hlen : w.files.length ≤ k + 1) : ¬ Edge m w.last start := by
  rcases Nat.lt_or_ge w.files.length (k + 1) with hlt | hge
  · exact h.shorter w hw (by omega)
  · rcases h.least w hw (by omega) with ⟨p, hp, hlast, -⟩ | hclosed
    · rw [← hlast]
      exact hnone p hp
    · exact hclosed.1

/-- The first path that leads back to the start is no longer than any other that
does, and the first of those as long. -/
theorem least_of_find? (hfind : paths.find? (fun p => (m.getD p.last ∅).contains start) = some p)
    (hw : w.Follows m start) (hclose : Edge m w.last start) :
    p.files.length ≤ w.files.length ∧ (w.files.length = p.files.length →
      (compare p.files w.files).isLE = true) := by
  obtain ⟨-, before, after, rfl, hbefore⟩ := List.find?_eq_some_iff_append.1 hfind
  have hp := h.length p (List.mem_append_right _ (.head _))
  rw [hp]
  refine ⟨?_, fun hlen => ?_⟩
  · by_contra hlt
    exact h.shorter w hw (by omega) hclose
  · obtain ⟨q, hq, hlast, hle⟩ | hclosed := h.least w hw hlen
    · -- what comes before the first does not lead back to the start
      have hq : q ∈ p :: after := by
        refine (List.mem_append.1 hq).resolve_left fun hq => ?_
        have hopen := hbefore q hq
        rw [hlast, contains_getD_iff.2 hclose] at hopen
        cases hopen
      rcases List.mem_cons.1 hq with rfl | hq
      · exact hle
      · have hlt := List.rel_of_pairwise_cons (List.pairwise_append.1 h.sorted).2.1 hq
        exact Std.TransCmp.isLE_trans (hlt ▸ rfl) hle
    · exact absurd hclose hclosed.1

theorem next {left : List Url} (hs : Searching m start left paths seen)
    (hnone : ∀ p ∈ paths, ¬ Edge m p.last start) :
    Foremost m start (k + 1) (expand m seen paths).1 (expand m seen paths).2 := by
  have hr : Expanded m seen paths (expand m seen paths) := expand_expanded
  constructor
  case length =>
    intro q hq
    obtain ⟨p, hp, -, heq⟩ := hr.longer q hq
    rw [heq, length_files_extend, h.length p hp]
  case nodup =>
    intro q hq
    obtain ⟨p, hp, -, heq⟩ := hr.longer q hq
    have hnew : q.last ∉ p.files := fun hmem => by
      have := h.filesSeen p hp _ hmem
      rw [(hr.fresh q hq).1] at this
      cases this
    rw [heq, files_extend, ← List.concat_eq_append, List.nodup_concat]
    exact ⟨hnew, h.nodup p hp⟩
  case filesSeen =>
    intro q hq u hu
    obtain ⟨p, hp, -, heq⟩ := hr.longer q hq
    rw [heq, files_extend, List.mem_append, List.mem_singleton] at hu
    rcases hu with hu | rfl
    · exact hr.keeps u (h.filesSeen p hp u hu)
    · exact (hr.fresh q hq).2
  case sorted => exact pairwise_expand h.length h.sorted
  case shorter => exact fun w hw hlen => h.not_edge hnone hw hlen
  case least =>
    intro w' hw' hlen'
    obtain ⟨w, u, rfl, hlen⟩ := Path.exists_extend hlen'
    obtain ⟨hw, hu⟩ := Path.follows_extend_iff.1 hw'
    by_cases hold : seen.contains u = true
    · exact .inr (hs.closed_seen hnone hr hold)
    · rw [Bool.not_eq_true] at hold
      rcases h.least w hw hlen with ⟨p, hp, hlast, hle⟩ | hclosed
      · obtain ⟨q, hq, hqlast, hqle⟩ :=
          exists_expand_isLE h.length h.sorted hp (hlast ▸ hu) hold
        refine .inl ⟨q, hq, hqlast, Std.TransCmp.isLE_trans hqle (isLE_extend ?_ hle)⟩
        rw [h.length p hp, hlen]
      · rw [hclosed.2 u hu] at hold
        cases hold

end Foremost

/-! ## What is found -/

/-- A file on a cycle can be reached from its start, which can be reached from it. -/
theorem IsCycle.reach {r : Url → Url → Prop} {cycle : List Url} (h : IsCycle r start cycle)
    (hu : u ∈ cycle) : ReflTransGen r start u ∧ TransGen r u start := by
  constructor
  · refine h.chain.induction (ReflTransGen r start) cycle (fun _ _ hxy hx => .tail hx hxy) ?_ u hu
    intro hne
    rw [(List.head_eq_iff_head?_eq_some hne).2 h.head?]
  · refine h.chain.backwards_induction (TransGen r · start) cycle
      (fun _ _ hxy hy => .head hxy hy) ?_ u hu
    intro hne
    exact .single (h.closes _ (List.getLast?_eq_some_getLast hne))

/-- A list of files is the cycle of a file: each file is in it once, no cycle
from the file on is shorter, and it comes first of those as long. -/
structure LeastCycle (r : Url → Url → Prop) (start : Url) (cycle : List Url) : Prop
    extends IsCycle r start cycle where
  nodup : cycle.Nodup
  shortest : ∀ other, IsCycle r start other → cycle.length ≤ other.length
  least : ∀ other, IsCycle r start other → other.length = cycle.length →
    (compare cycle other).isLE = true

/-- There is no other cycle of a file. -/
theorem LeastCycle.eq {r : Url → Url → Prop} {cycle cycle' : List Url}
    (h : LeastCycle r start cycle) (h' : LeastCycle r start cycle') : cycle = cycle' := by
  have hlen : cycle.length = cycle'.length :=
    Nat.le_antisymm (h.shortest _ h'.toIsCycle) (h'.shortest _ h.toIsCycle)
  exact Std.LawfulEqOrd.eq_of_compare (Std.OrientedCmp.isLE_antisymm
    (h.least _ h'.toIsCycle hlen.symm) (h'.least _ h.toIsCycle hlen))

theorem Foremost.of_search {rounds : Nat} {left : List Url} (h : Foremost m start k paths seen)
    (hs : Searching m start left paths seen)
    (hp : search m start rounds paths seen = some p) :
    p.files.Nodup ∧ ∀ w : Path, w.Follows m start → Edge m w.last start →
      p.files.length ≤ w.files.length ∧ (w.files.length = p.files.length →
        (compare p.files w.files).isLE = true) := by
  induction rounds generalizing k left paths seen with
  | zero => cases hp
  | succ rounds ih =>
    rw [search_succ, Option.or_eq_some_iff] at hp
    rcases hp with hfind | ⟨hfind, hp⟩
    · exact ⟨h.nodup p (List.mem_of_find?_eq_some hfind), fun w => h.least_of_find? hfind⟩
    · have hnone : ∀ p ∈ paths, ¬ Edge m p.last start := fun p hp hedge =>
        List.find?_eq_none.1 hfind p hp (contains_getD_iff.2 hedge)
      split at hp
      · cases hp
      · next hne =>
        obtain ⟨left', hs', -⟩ := hs.next hnone expand_expanded fun hnil =>
          hne (List.isEmpty_iff.2 hnil)
        exact ih (h.next hs hnone) hs' hp

theorem leastCycle_of_through? {cycle : List Url} (h : through? m u = some cycle) :
    LeastCycle (Edge m) u cycle := by
  have hcycle := through?_eq_some h
  obtain ⟨p, hp, rfl⟩ := Option.map_eq_some_iff.1 h
  obtain ⟨hnodup, hleast⟩ := Foremost.first.of_search Searching.first hp
  refine ⟨hcycle, hnodup, fun other ho => ?_, fun other ho => ?_⟩
  all_goals
    obtain ⟨w, rfl, hw, hclose⟩ := isCycle_iff.1 ho
  · exact (hleast w hw hclose).1
  · exact (hleast w hw hclose).2

/-- A search gives the cycle of the file, and it gives it whenever there is one. -/
theorem through?_eq_some_iff {cycle : List Url} :
    through? m u = some cycle ↔ LeastCycle (Edge m) u cycle := by
  refine ⟨leastCycle_of_through?, fun h => ?_⟩
  obtain ⟨cycle', hc⟩ := exists_through? h.transGen
  rw [hc, (leastCycle_of_through? hc).eq h]

end ModuleGraph.Cycle

namespace ModuleGraph

open Relation

variable {edges edges' : List (Url × Url)} {u : Url} {cycle : List Url}

theorem getElem?_cycles_eq_some_iff :
    (cycles edges)[u]? = some cycle ↔ Cycle.LeastCycle (Joined edges) u cycle := by
  rw [getElem?_cycles, Cycle.through?_eq_some_iff, edge_successors_eq]

/-- A file can be reached from itself if it is anywhere on a cycle. -/
theorem transGen_self_iff : TransGen (Joined edges) u u ↔
    ∃ start cycle, Cycle.IsCycle (Joined edges) start cycle ∧ u ∈ cycle := by
  constructor
  · intro h
    obtain ⟨cycle, hc⟩ := exists_cycles_iff.2 h
    have hcycle := isCycle_of_cycles hc
    exact ⟨u, cycle, hcycle, List.mem_of_mem_head? hcycle.head?⟩
  · rintro ⟨start, cycle, hcycle, hu⟩
    obtain ⟨hfrom, hto⟩ := hcycle.reach hu
    exact .trans_left hto hfrom

/-- Cycles are settled by what the edges are. -/
theorem cycles_eq_of_edges (h : ∀ e, e ∈ edges' ↔ e ∈ edges) : cycles edges' = cycles edges := by
  have hjoined : Joined edges' = Joined edges := by
    funext u v
    exact propext (h (u, v))
  refine Std.ExtTreeMap.ext_getElem? fun u => ?_
  refine Option.ext fun cycle => ?_
  rw [getElem?_cycles_eq_some_iff, getElem?_cycles_eq_some_iff, hjoined]

end ModuleGraph
