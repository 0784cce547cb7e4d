import ModuleGraph.Proofs.Building
import ModuleGraph.Proofs.CycleSearch
import ModuleGraph.Proofs.NotCyclic

/-!
# Cycles are reported exactly

What is resolved when a build has looked at everything makes edges between
files. `BreaksCycles` says what becomes of them: a declaration that leads to a
file on a cycle fails, with a cycle through that file, and any other declaration
keeps what it has. No cycle is left, for the first edge of a cycle that was left
would lead to a file that already lay on one before.

That a declaration fails in this way only because of a cycle needs one thing
more: nobody outside may report such failures. For a rebuild hands on a failure
that it is handed, whatever it says.
-/

namespace ModuleGraph

open Relation

namespace Outcomes

variable {o p : Outcomes} {id : DeclarationId} {u t : Url}

/-- A declaration of the first file is resolved to the second one. -/
def Leads (o : Outcomes) (u t : Url) : Prop :=
  ∃ id, o.resolution? id = some t ∧ id.uri = u

theorem joined_edges_iff : Joined o.edges u t ↔ o.Leads u t := by
  simp only [Joined, edges, List.mem_map, Prod.mk.injEq, Prod.exists,
    Std.ExtTreeMap.mem_toList_iff_getElem?_eq_some, Leads, resolution?]
  constructor
  · rintro ⟨id, _, h, rfl, rfl⟩
    exact ⟨id, h, rfl⟩
  · rintro ⟨id, h, rfl⟩
    exact ⟨id, t, h, rfl, rfl⟩

theorem joined_edges : Joined o.edges = o.Leads := by
  funext u t
  exact propext joined_edges_iff

theorem exists_cycles_edges_iff :
    (∃ cycle, (cycles o.edges)[t]? = some cycle) ↔ TransGen o.Leads t t := by
  rw [exists_cycles_iff, joined_edges]

/-- A declaration fails because of a cycle. -/
def FailsByCycle (o : Outcomes) (id : DeclarationId) : Prop :=
  ∃ f, o.failure? id = some f ∧ f.isCycle = true

/-- What fails because of a cycle in the second outcomes is what led to one in the
first ones. -/
def FailsExactly (o p : Outcomes) : Prop :=
  ∀ id, p.FailsByCycle id ↔ ∃ t, o.resolution? id = some t ∧ TransGen o.Leads t t

/-- The second outcomes are the first ones with the cycles broken. -/
structure BreaksCycles (o p : Outcomes) : Prop where
  /-- No file leads to itself any more. -/
  acyclic : ∀ u, ¬ TransGen p.Leads u u
  /-- What leads to a file with an edge to itself fails with just that. -/
  selfReference : ∀ id t, o.resolution? id = some t → o.Leads t t →
    p.resolution? id = none ∧ p.failure? id = some .cyclicSelfReference
  /-- What leads to another file on a cycle fails with a cycle from that file on. -/
  cycle : ∀ id t, o.resolution? id = some t → TransGen o.Leads t t → ¬ o.Leads t t →
    p.resolution? id = none ∧ ∃ cycle, Cycle.IsCycle o.Leads t cycle ∧
      p.failure? id = some (.cycle (cycle.map Url.displayPath))
  /-- What leads to a file on no cycle stays as it is. -/
  kept : ∀ id t, o.resolution? id = some t → ¬ TransGen o.Leads t t →
    p.resolution? id = some t ∧ p.failure? id = o.failure? id
  /-- So does what leads nowhere. -/
  unresolved : ∀ id, o.resolution? id = none →
    p.resolution? id = none ∧ p.failure? id = o.failure? id
  /-- A declaration fails because of a cycle when it led to one, or had failed so before. -/
  failsByCycle : ∀ id, p.FailsByCycle id ↔
    (∃ t, o.resolution? id = some t ∧ TransGen o.Leads t t) ∨ o.FailsByCycle id

theorem leads_of_leads_breakCycles (h : o.breakCycles.Leads u t) : o.Leads u t :=
  h.imp fun _ h => ⟨(resolution?_breakCycles_eq_some_iff.1 h.1).1, h.2⟩

theorem acyclic_breakCycles : ¬ TransGen o.breakCycles.Leads u u := by
  intro h
  obtain ⟨t, ⟨id, hid, huri⟩, hback⟩ := TransGen.head'_iff.1 h
  obtain ⟨ht, hnone⟩ := resolution?_breakCycles_eq_some_iff.1 hid
  -- the target of the first edge comes back to itself by way of that edge
  have hback : ReflTransGen o.Leads t u :=
    hback.lift (fun v => v) fun _ _ => leads_of_leads_breakCycles
  have hcycle : TransGen o.Leads t t := .tail' hback ⟨id, ht, huri⟩
  obtain ⟨cycle, hc⟩ := exists_cycles_edges_iff.2 hcycle
  rw [hnone] at hc
  cases hc

theorem cycleFailure_of_self {cycle : List Url} (hself : o.Leads t t)
    (hc : (cycles o.edges)[t]? = some cycle) : cycleFailure cycle = .cyclicSelfReference := by
  rw [cycleFailure, if_pos ((length_cycles_eq_one_iff hc).2 (joined_edges_iff.2 hself))]

theorem cycleFailure_of_not_self {cycle : List Url} (hself : ¬ o.Leads t t)
    (hc : (cycles o.edges)[t]? = some cycle) :
    cycleFailure cycle = .cycle (cycle.map Url.displayPath) := by
  rw [cycleFailure, if_neg]
  intro hlen
  exact hself (joined_edges_iff.1 ((length_cycles_eq_one_iff hc).1 hlen))

theorem isCycle_cycleFailure (cycle : List Url) : (cycleFailure cycle).isCycle = true := by
  rw [cycleFailure]
  split <;> rfl

/-- A declaration whose target is on no cycle, or that has none, keeps what it has. -/
theorem breakCycles_of_not_transGen
    (h : ∀ t, o.resolution? id = some t → ¬ TransGen o.Leads t t) :
    o.breakCycles.resolution? id = o.resolution? id ∧
      o.breakCycles.failure? id = o.failure? id := by
  refine breakCycles_of_no_cycle fun t ht => ?_
  rw [Option.eq_none_iff_forall_ne_some]
  intro cycle hc
  exact h t ht (exists_cycles_edges_iff.1 ⟨cycle, hc⟩)

theorem failsByCycle_breakCycles_iff : o.breakCycles.FailsByCycle id ↔
    (∃ t, o.resolution? id = some t ∧ TransGen o.Leads t t) ∨ o.FailsByCycle id := by
  by_cases h : ∃ t, o.resolution? id = some t ∧ TransGen o.Leads t t
  · refine iff_of_true ?_ (.inl h)
    obtain ⟨t, ht, hcycle⟩ := h
    obtain ⟨cycle, hc⟩ := exists_cycles_edges_iff.2 hcycle
    exact ⟨_, (breakCycles_of_cycle ht hc).2, isCycle_cycleFailure cycle⟩
  · rw [or_iff_right h, FailsByCycle, FailsByCycle,
      (breakCycles_of_not_transGen fun t ht hcycle => h ⟨t, ht, hcycle⟩).2]

theorem breaksCycles_breakCycles : o.BreaksCycles o.breakCycles where
  acyclic _ := acyclic_breakCycles
  selfReference id t ht hself := by
    obtain ⟨cycle, hc⟩ := exists_cycles_edges_iff.2 (TransGen.single hself)
    obtain ⟨hr, hf⟩ := breakCycles_of_cycle ht hc
    exact ⟨hr, by rw [hf, cycleFailure_of_self hself hc]⟩
  cycle id t ht hcycle hself := by
    obtain ⟨cycle, hc⟩ := exists_cycles_edges_iff.2 hcycle
    obtain ⟨hr, hf⟩ := breakCycles_of_cycle ht hc
    refine ⟨hr, cycle, ?_, by rw [hf, cycleFailure_of_not_self hself hc]⟩
    rw [← joined_edges]
    exact isCycle_of_cycles hc
  kept id t ht hcycle := by
    rw [← ht]
    refine breakCycles_of_not_transGen fun t' ht' => ?_
    rw [ht] at ht'
    cases ht'
    exact hcycle
  unresolved id hid := by
    rw [← hid]
    exact breakCycles_of_not_transGen (by simp [hid])
  failsByCycle _ := failsByCycle_breakCycles_iff

end Outcomes

namespace Discovery

variable {σ : Type} {c : Context σ} {s : Discovery} {l : Ledger} {entry : Url}

theorem Surveyed.not_failsByCycle (h : Surveyed c l entry s) (hc : c.Plain l)
    (id : DeclarationId) : ¬ s.outcomes.FailsByCycle id := by
  rintro ⟨f, hf, hcycle⟩
  rcases h.declares_or_blank id with ⟨d, hd, rfl⟩ | hblank
  · have hshows := h.shows d hd
    obtain ⟨file, -, hmem⟩ := hd
    rw [hshows.failure?] at hf
    rw [isCycle_of_verdict hc (SourceFile.notCyclic_path hmem) hf] at hcycle
    cases hcycle
  · rw [hblank.failure?] at hf
    cases hf

/-- When nothing from outside says so, what fails because of a cycle is what led to one. -/
theorem Surveyed.failsExactly_graph (h : Surveyed c l entry s) (hc : c.Plain l) :
    s.outcomes.FailsExactly (s.graph entry).toOutcomes :=
  fun id => Outcomes.failsByCycle_breakCycles_iff.trans (or_iff_left (h.not_failsByCycle hc id))

/-- A failure that is not because of a cycle is the verdict on a declaration. -/
theorem Surveyed.verdict_of_failure? (h : Surveyed c l entry s)
    {id : DeclarationId} {f : Failure}
    (hf : (s.graph entry).failure? id = some f) (hcycle : f.isCycle = false) :
    ∃ d, Declares s d ∧ d.id = id ∧ (c.verdict l d).failure? = some f := by
  rw [failure?_graph] at hf
  have hkept : s.outcomes.failure? id = some f := by
    rcases s.outcomes.cycle_or_no_cycle id with ⟨t, cycle, ht, hc⟩ | hnone
    · rw [(Outcomes.breakCycles_of_cycle ht hc).2] at hf
      rw [← Option.some.inj hf, Outcomes.isCycle_cycleFailure] at hcycle
      cases hcycle
    · rw [← (Outcomes.breakCycles_of_no_cycle hnone).2]
      exact hf
  rcases h.declares_or_blank id with ⟨d, hd, rfl⟩ | hblank
  · rw [(h.shows d hd).failure?] at hkept
    exact ⟨d, hd, rfl, hkept⟩
  · rw [hblank.failure?] at hkept
    cases hkept

/-- What a verdict fails is failed in the graph, too. -/
theorem Surveyed.failure?_of_verdict (h : Surveyed c l entry s) {d : Declaration} {f : Failure}
    (hd : Declares s d) (hf : (c.verdict l d).failure? = some f) :
    (s.graph entry).failure? d.id = some f := by
  have hshows := h.shows d hd
  rw [failure?_graph_of_unresolved]
  · rw [hshows.failure?]
    exact hf
  · rw [hshows.resolution?]
    cases hv : c.verdict l d with
    | resolved t => rw [hv] at hf; cases hf
    | failed f => rfl
    | pending r => rfl

end Discovery

end ModuleGraph
