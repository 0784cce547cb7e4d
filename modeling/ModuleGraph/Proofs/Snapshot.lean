import ModuleGraph.Proofs.Building

/-!
# What every graph has

A graph is a snapshot: nothing in its type says that the declarations it speaks
of are those of its files. It is so for graphs that come from builds. While a
build goes on, the declarations that are done have an outcome and the others
have none, and the breaking of cycles turns one outcome into another, so that in
the end every declaration has exactly one.
-/

namespace ModuleGraph

/-- What a graph says fits together. -/
structure Graph.Consistent (g : Graph) : Prop where
  /-- A declaration of a file has a target or a failure, and not both. -/
  partitioned : ∀ (u : Url) f, g.files[u]? = some f → ∀ d ∈ f.declarations,
    (g.resolution? d.id).isSome = !(g.failure? d.id).isSome
  /-- Nothing is said of an id that no file of the graph has. -/
  declared : ∀ id, (g.resolution? id).isSome ∨ (g.failure? id).isSome →
    ∃ d, g.declaration? id = some d ∧ d.id = id
  /-- Targets are files of the graph. -/
  closed : ∀ id t, g.resolution? id = some t → g.files.contains t = true
  /-- What is pending waits to be restored. -/
  waiting : ∀ id, g.isPending id = true →
    ∃ r : Reference, g.failure? id = some (.restoreRequired r.qualified)
  /-- What is pending is handed to a restore, all of it and in order. -/
  handed : g.pendingDeclarations.map (·.id) = g.pending.toList

/-- As many declarations are restored as are pending. -/
theorem Graph.Consistent.length_pendingDeclarations {g : Graph} (h : g.Consistent) :
    g.pendingDeclarations.length = g.pending.size := by
  rw [← Std.ExtTreeSet.length_toList, ← h.handed, List.length_map]

theorem Graph.Consistent.isEmpty_pendingDeclarations {g : Graph} (h : g.Consistent) :
    g.pendingDeclarations.isEmpty = g.pending.isEmpty := by
  rw [← Std.ExtTreeSet.isEmpty_toList, ← h.handed, List.isEmpty_map]

theorem Graph.Consistent.nodup_pendingDeclarations {g : Graph} (h : g.Consistent) :
    (g.pendingDeclarations.map (·.id)).Nodup := by
  rw [h.handed]
  exact Std.ExtTreeSet.distinct_toList.imp fun hne heq =>
    hne (Std.LawfulEqCmp.compare_eq_iff_eq.2 heq)

namespace Discovery

variable {σ : Type} {c : Context σ} {s : Discovery} {l : Ledger} {entry : Url}
  {id : DeclarationId} {d : Declaration}

/-- Before cycles are broken, a declaration has a target or a failure. -/
theorem Surveyed.partitioned (h : Surveyed c l entry s) (hd : Declares s d) :
    (s.outcomes.resolution? d.id).isSome = !(s.outcomes.failure? d.id).isSome := by
  have hs := h.shows d hd
  rw [hs.resolution?, hs.failure?]
  cases c.verdict l d <;> rfl

/-- What is pending has no target, so that no cycle goes through it. -/
theorem Surveyed.waiting (h : Surveyed c l entry s) (hp : s.outcomes.isPending id = true) :
    (∃ d, Declares s d ∧ d.id = id) ∧ s.outcomes.resolution? id = none ∧
      ∃ r : Reference, s.outcomes.failure? id = some (.restoreRequired r.qualified) := by
  rcases h.declares_or_blank id with ⟨d, hd, rfl⟩ | hblank
  · have hs := h.shows d hd
    rw [hs.isPending] at hp
    rw [hs.resolution?, hs.failure?]
    cases hv : c.verdict l d with
    | resolved t => rw [hv] at hp; cases hp
    | failed f => rw [hv] at hp; cases hp
    | pending r => exact ⟨⟨d, hd, rfl⟩, rfl, r, rfl⟩
  · rw [hblank.isPending] at hp
    cases hp

/-- A list of declarations looked up by ids has these ids, when none is missing. -/
theorem map_id_filterMap {look : DeclarationId → Option Declaration} {ids : List DeclarationId}
    (h : ∀ id ∈ ids, ∃ d, look id = some d ∧ d.id = id) :
    (ids.filterMap look).map (·.id) = ids := by
  induction ids with
  | nil => rfl
  | cons id ids ih =>
    obtain ⟨d, hd, hid⟩ := h id (List.mem_cons_self ..)
    rw [List.filterMap_cons, hd, List.map_cons, hid,
      ih fun id hid => h id (List.mem_cons_of_mem _ hid)]

end Discovery

namespace Outcomes

variable {o : Outcomes} {id : DeclarationId}

/-- Breaking cycles gives a declaration no second outcome, and takes none away. -/
theorem partitioned_breakCycles
    (h : (o.resolution? id).isSome = !(o.failure? id).isSome) :
    (o.breakCycles.resolution? id).isSome = !(o.breakCycles.failure? id).isSome := by
  rcases cycle_or_no_cycle o id with ⟨t, cycle, ht, hc⟩ | hnone
  · obtain ⟨hr, hf⟩ := breakCycles_of_cycle ht hc
    rw [hr, hf]
    rfl
  · obtain ⟨hr, hf⟩ := breakCycles_of_no_cycle hnone
    rw [hr, hf, h]

theorem blank_breakCycles (hr : o.resolution? id = none) (hf : o.failure? id = none) :
    o.breakCycles.resolution? id = none ∧ o.breakCycles.failure? id = none := by
  have hnone : ∀ t, o.resolution? id = some t → (cycles o.edges)[t]? = none := by simp [hr]
  obtain ⟨hr', hf'⟩ := breakCycles_of_no_cycle hnone
  exact ⟨hr'.trans hr, hf'.trans hf⟩

end Outcomes

namespace Discovery

variable {σ : Type} {c : Context σ} {s : Discovery} {l : Ledger} {entry : Url}

theorem Surveyed.pending_declared (h : Surveyed c l entry s) {id : DeclarationId}
    (hp : (s.graph entry).isPending id = true) :
    ∃ d, (s.graph entry).declaration? id = some d ∧ d.id = id := by
  rw [isPending_graph] at hp
  obtain ⟨d, hd, hid⟩ := (h.waiting hp).1
  exact ⟨d, declaration?_graph.2 ⟨hd, hid⟩, hid⟩

theorem Surveyed.consistent (h : Surveyed c l entry s) : (s.graph entry).Consistent where
  partitioned u f hf d hd := by
    refine Outcomes.partitioned_breakCycles (h.partitioned ⟨f, ?_, hd⟩)
    rw [SourceFile.id_uri_of_mem hd, FileMap.uri_of_getElem? hf]
    exact hf
  declared id hid := by
    rcases h.declares_or_blank id with ⟨d, hd, rfl⟩ | hblank
    · exact ⟨d, declaration?_graph.2 ⟨hd, rfl⟩, rfl⟩
    · obtain ⟨hr, hf⟩ := Outcomes.blank_breakCycles hblank.resolution? hblank.failure?
      rw [resolution?_graph, failure?_graph, hr, hf] at hid
      rcases hid with hid | hid <;> cases hid
  closed id t ht := by
    obtain ⟨ht, -⟩ := Outcomes.resolution?_breakCycles_eq_some_iff.1 ht
    rcases h.declares_or_blank id with ⟨d, hd, rfl⟩ | hblank
    · rw [(h.shows d hd).resolution?] at ht
      exact h.contains_target hd (Verdict.target?_eq_some_iff.1 ht)
    · rw [hblank.resolution?] at ht
      cases ht
  waiting id hp := by
    rw [isPending_graph] at hp
    obtain ⟨-, hr, r, hf⟩ := h.waiting hp
    exact ⟨r, (failure?_graph_of_unresolved hr).trans hf⟩
  handed := map_id_filterMap fun _ hid =>
    h.pending_declared (Std.ExtTreeSet.contains_iff_mem.2 (Std.ExtTreeSet.mem_toList.1 hid))

end Discovery

/-- The graphs that builds give: each is from a build, or from a rebuild of any
graph with any failures. Neither the workspace nor the site need be those of an
earlier build. -/
inductive Setting.Snapshot {σ : Type} (setting : Setting σ) : Graph → Prop where
  | build {n : Nat} {site site' : Site σ} {ws : Workspace} {entry : Url} {g : Graph}
      (h : setting.build n site ws entry = some (.ok g, site')) : Snapshot setting g
  | rebuild {n : Nat} {site site' : Site σ} {ws : Workspace} {current g : Graph}
      {reported : FailureMap}
      (h : setting.rebuild n site ws current reported = some (.ok g, site')) :
      Snapshot setting g

theorem Setting.Snapshot.consistent {σ : Type} {setting : Setting σ} {g : Graph}
    (h : setting.Snapshot g) : g.Consistent := by
  cases h with
  | build h =>
    obtain ⟨s, hs, rfl, -⟩ := buildWith_ok h
    exact hs.consistent
  | rebuild h =>
    obtain ⟨s, hs, rfl, -⟩ := buildWith_ok h
    exact hs.consistent

/-- Whatever is built or rebuilt, in whatever order, is consistent, and as many
declarations are handed to a restore as are pending. -/
theorem Setting.consistent_of_snapshot {σ : Type} {setting : Setting σ} {g : Graph}
    (h : setting.Snapshot g) :
    g.Consistent ∧ g.pendingDeclarations.length = g.pending.size :=
  ⟨h.consistent, h.consistent.length_pendingDeclarations⟩

/-- In the small setting, both declarations of the entry file are pending. -/
theorem Sample.consistent_main :
    ∃ g, Sample.setting.Snapshot g ∧
      (g.Consistent ∧ g.pendingDeclarations.length = g.pending.size) ∧ g.pending.size = 2 := by
  obtain ⟨g, site', h, hsize, -⟩ := exists_build
  exact ⟨g, .build h, Setting.consistent_of_snapshot (.build h), hsize⟩

end ModuleGraph
