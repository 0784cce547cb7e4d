import ModuleGraph.Graph.Discovery

/-!
# What breaking cycles changes

`breakCycles` writes failures one after the other into the outcomes. Seen from a
single declaration this is one case distinction: a declaration whose target has
a cycle among those found gets the failure of that cycle in place of its target,
and every other declaration keeps what it has. The order of writing plays no
part, since a declaration has one target and a target one cycle.
-/

namespace ModuleGraph.Outcomes

variable {o : Outcomes} {id : DeclarationId} {t : Url} {f : Failure}
  {fs : List (DeclarationId × Failure)} {found : Std.ExtTreeMap Url (List Url)}

/-! ## Writing failures -/

theorem failAll_cons {p : DeclarationId × Failure} :
    o.failAll (p :: fs) = (o.fail p.1 p.2).failAll fs := rfl

@[simp] theorem isPending_failAll : (o.failAll fs).isPending id = o.isPending id := by
  induction fs generalizing o with
  | nil => rfl
  | cons p fs ih => rw [failAll_cons, ih, isPending_fail]

theorem failAll_of_not_mem (h : ∀ f, (id, f) ∉ fs) :
    (o.failAll fs).resolution? id = o.resolution? id ∧
      (o.failAll fs).failure? id = o.failure? id := by
  induction fs generalizing o with
  | nil => exact ⟨rfl, rfl⟩
  | cons p fs ih =>
    have hp : p.1 ≠ id := fun hp => h p.2 (hp ▸ List.mem_cons_self ..)
    have ih := ih (o := o.fail p.1 p.2) fun f hf => h f (List.mem_cons_of_mem p hf)
    rw [resolution?_fail, failure?_fail, if_neg hp, if_neg hp] at ih
    exact ih

/-- A declaration with one failure among those written has that failure. -/
theorem failAll_of_mem (h : (id, f) ∈ fs) (hone : ∀ g, (id, g) ∈ fs → g = f) :
    (o.failAll fs).resolution? id = none ∧ (o.failAll fs).failure? id = some f := by
  induction fs generalizing o with
  | nil => cases h
  | cons p fs ih =>
    rw [failAll_cons]
    by_cases hin : ∃ g, (id, g) ∈ fs
    · obtain ⟨g, hg⟩ := hin
      have hgf := hone g (List.mem_cons_of_mem p hg)
      exact ih (hgf ▸ hg) fun g hg => hone g (List.mem_cons_of_mem p hg)
    · have hrest := failAll_of_not_mem (o := o.fail p.1 p.2) (not_exists.1 hin)
      obtain rfl : (id, f) = p :=
        (List.mem_cons.1 h).resolve_right fun h => hin ⟨f, h⟩
      rw [hrest.1, hrest.2, resolution?_fail, failure?_fail, if_pos rfl, if_pos rfl]
      exact ⟨rfl, rfl⟩

/-! ## Breaking cycles -/

theorem mem_cyclic_iff :
    (id, f) ∈ o.cyclic found ↔
      ∃ t cycle, o.resolution? id = some t ∧ found[t]? = some cycle ∧
        cycleFailure cycle = f := by
  simp only [cyclic, List.mem_filterMap, Option.map_eq_some_iff, Prod.mk.injEq, Prod.exists,
    Std.ExtTreeMap.mem_toList_iff_getElem?_eq_some, resolution?]
  constructor
  · rintro ⟨_, t, ht, cycle, hc, rfl, rfl⟩
    exact ⟨t, cycle, ht, hc, rfl⟩
  · rintro ⟨t, cycle, ht, hc, rfl⟩
    exact ⟨id, t, ht, cycle, hc, rfl, rfl⟩

@[simp] theorem isPending_breakCycles : o.breakCycles.isPending id = o.isPending id :=
  isPending_failAll

/-- A declaration that leads to a file on a cycle fails with the cycle. -/
theorem breakCycles_of_cycle {cycle : List Url} (ht : o.resolution? id = some t)
    (hc : (cycles o.edges)[t]? = some cycle) :
    o.breakCycles.resolution? id = none ∧
      o.breakCycles.failure? id = some (cycleFailure cycle) := by
  refine failAll_of_mem (mem_cyclic_iff.2 ⟨t, cycle, ht, hc, rfl⟩) fun g hg => ?_
  obtain ⟨t', cycle', ht', hc', rfl⟩ := mem_cyclic_iff.1 hg
  rw [ht] at ht'
  cases ht'
  rw [hc] at hc'
  cases hc'
  rfl

/-- Any other declaration keeps its outcome. -/
theorem breakCycles_of_no_cycle
    (h : ∀ t, o.resolution? id = some t → (cycles o.edges)[t]? = none) :
    o.breakCycles.resolution? id = o.resolution? id ∧
      o.breakCycles.failure? id = o.failure? id := by
  refine failAll_of_not_mem fun f hf => ?_
  obtain ⟨t, cycle, ht, hc, -⟩ := mem_cyclic_iff.1 hf
  rw [h t ht] at hc
  cases hc

theorem cycle_or_no_cycle (o : Outcomes) (id : DeclarationId) :
    (∃ t cycle, o.resolution? id = some t ∧ (cycles o.edges)[t]? = some cycle) ∨
      ∀ t, o.resolution? id = some t → (cycles o.edges)[t]? = none := by
  by_cases h : ∃ t cycle, o.resolution? id = some t ∧ (cycles o.edges)[t]? = some cycle
  · exact .inl h
  · refine .inr fun t ht => ?_
    rw [Option.eq_none_iff_forall_ne_some]
    exact fun cycle hc => h ⟨t, cycle, ht, hc⟩

/-- What becomes of a declaration is settled by what it has, and by the cycle of its target. -/
theorem breakCycles_congr {o' : Outcomes} (hr : o'.resolution? id = o.resolution? id)
    (hf : o'.failure? id = o.failure? id)
    (hc : ∀ t, o.resolution? id = some t → (cycles o'.edges)[t]? = (cycles o.edges)[t]?) :
    o'.breakCycles.resolution? id = o.breakCycles.resolution? id ∧
      o'.breakCycles.failure? id = o.breakCycles.failure? id := by
  rcases cycle_or_no_cycle o id with ⟨t, cycle, ht, hcycle⟩ | hnone
  · obtain ⟨hr₀, hf₀⟩ := breakCycles_of_cycle ht hcycle
    obtain ⟨hr₁, hf₁⟩ := breakCycles_of_cycle (hr.trans ht) ((hc t ht).trans hcycle)
    exact ⟨hr₁.trans hr₀.symm, hf₁.trans hf₀.symm⟩
  · obtain ⟨hr₀, hf₀⟩ := breakCycles_of_no_cycle hnone
    have hnone' : ∀ t, o'.resolution? id = some t → (cycles o'.edges)[t]? = none := fun t ht =>
      (hc t (hr ▸ ht)).trans (hnone t (hr ▸ ht))
    obtain ⟨hr₁, hf₁⟩ := breakCycles_of_no_cycle hnone'
    rw [hr₀, hf₀, hr₁, hf₁]
    exact ⟨hr, hf⟩

/-- What is still resolved was resolved before, to a file on no cycle. -/
theorem resolution?_breakCycles_eq_some_iff :
    o.breakCycles.resolution? id = some t ↔
      o.resolution? id = some t ∧ (cycles o.edges)[t]? = none := by
  cases ht : o.resolution? id with
  | none =>
    rw [(breakCycles_of_no_cycle (by simp [ht])).1, ht]
    simp
  | some u =>
    cases hc : (cycles o.edges)[u]? with
    | none =>
      have hnone : ∀ v, o.resolution? id = some v → (cycles o.edges)[v]? = none := by
        intro v hv
        rw [ht] at hv
        cases hv
        exact hc
      rw [(breakCycles_of_no_cycle hnone).1, ht, Option.some.injEq]
      exact ⟨fun h => ⟨h, h ▸ hc⟩, And.left⟩
    | some cycle =>
      rw [(breakCycles_of_cycle ht hc).1, Option.some.injEq]
      refine ⟨nofun, fun h => ?_⟩
      rw [← h.1, hc] at h
      cases h.2

end ModuleGraph.Outcomes
