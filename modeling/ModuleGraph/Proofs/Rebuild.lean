import ModuleGraph.Proofs.Building

/-!
# A rebuild agrees with a fresh build

A rebuild takes files over instead of reading them, and does not let a
declaration wait twice. The first makes no difference as long as the files are
still what would be read. The second changes verdicts, but none that leads to a
file: a declaration that would wait has no target, and neither has one that
fails. So both builds follow the same declarations to the same files, and find
the same cycles. `Alike` is this relation between two builds, and everything
that depends on targets alone is carried over by it.
-/

namespace ModuleGraph

namespace Discovery

variable {σ : Type} {c c' : Context σ} {s s' : Discovery} {l : Ledger} {entry u : Url}
  {id : DeclarationId} {n : Nat}

/-! ## Builds that lead to the same files -/

/-- The two builds follow the same declarations to the same files. -/
structure Alike (c c' : Context σ) (l : Ledger) : Prop where
  fetch : ∀ u, c'.fetch u = c.fetch u
  resolved : ∀ d t, c'.verdict l d = .resolved t ↔ c.verdict l d = .resolved t

theorem Alike.symm (h : Alike c c' l) : Alike c' c l :=
  ⟨fun u => (h.fetch u).symm, fun d t => (h.resolved d t).symm⟩

theorem Alike.reached (h : Alike c c' l) (hu : Reached c l entry u) :
    Reached c' l entry u := by
  induction hu with
  | entry hf => exact .entry ((h.fetch entry).trans hf)
  | step _ hf hd ht ih => exact .step ih ((h.fetch _).trans hf) hd ((h.resolved _ _).2 ht)

theorem Alike.reached_iff (h : Alike c c' l) : Reached c' l entry u ↔ Reached c l entry u :=
  ⟨h.symm.reached, h.reached⟩

theorem Alike.target?_eq (h : Alike c c' l) (d : Declaration) :
    (c'.verdict l d).target? = (c.verdict l d).target? := by
  refine Option.ext fun t => ?_
  rw [Verdict.target?_eq_some_iff, Verdict.target?_eq_some_iff, h.resolved]

/-- When one of the two builds ends on a budget, the other one does. -/
theorem Alike.exists_survey (h : Alike c c' l) {r : Except BuildError Discovery × Ledger}
    (hr : survey c n l entry = some r) : ∃ r', survey c' n l entry = some r' := by
  cases survey_ends hr with
  | unreadable hf =>
    obtain ⟨l', hl'⟩ := survey_of_error ((h.fetch entry).trans hf) (n := n)
    exact ⟨_, hl'⟩
  | @surveyed f s hf hs hn =>
    refine Discovery.exists_survey s.files.keys (fun u hu => ?_) ?_
    · have hu := h.reached_iff.1 hu
      obtain ⟨g, hg⟩ := hu.fetch
      exact FileMap.mem_keys_iff.2 ⟨g, (hs.files u g).2 ⟨hu, hg⟩⟩
    · rw [FileMap.length_keys]
      exact hn

section Surveyed

variable (h : Alike c c' l) (hs : Surveyed c l entry s) (hs' : Surveyed c' l entry s')

include h hs hs'

theorem Alike.files_eq : s'.files = s.files := by
  refine FileMap.ext fun u => Option.ext fun f => ?_
  rw [hs'.files, hs.files, h.reached_iff, h.fetch]

theorem Alike.declaration?_eq :
    (s'.graph entry).declaration? id = (s.graph entry).declaration? id := by
  rw [Graph.declaration?, Graph.declaration?, files_graph, files_graph, h.files_eq hs hs']

theorem Alike.resolutions_eq : s'.outcomes.resolutions = s.outcomes.resolutions := by
  refine Std.ExtTreeMap.ext_getElem? fun id => ?_
  have hres := (hs.shows_declaration? id).resolution?
  have hres' := (hs'.shows_declaration? id).resolution?
  rw [h.declaration?_eq hs hs'] at hres'
  rw [Outcomes.resolution?] at hres hres'
  rw [hres, hres', Option.bind_map, Option.bind_map]
  congr 1
  funext d
  exact h.target?_eq d

end Surveyed

end Discovery

/-! ## The same cycles -/

namespace Outcomes

variable {o o' : Outcomes} {id : DeclarationId}

theorem resolution?_congr (h : o'.resolutions = o.resolutions) :
    o'.resolution? id = o.resolution? id := by
  rw [resolution?, resolution?, h]

theorem cycles_edges_congr (h : o'.resolutions = o.resolutions) :
    cycles o'.edges = cycles o.edges := by
  rw [edges, edges, h]

theorem resolutions_breakCycles_congr (h : o'.resolutions = o.resolutions) :
    o'.breakCycles.resolutions = o.breakCycles.resolutions := by
  refine Std.ExtTreeMap.ext_getElem? fun id => Option.ext fun t => ?_
  have hiff' : o'.breakCycles.resolution? id = some t ↔
      o'.resolution? id = some t ∧ (cycles o'.edges)[t]? = none :=
    resolution?_breakCycles_eq_some_iff
  rw [resolution?_congr h, cycles_edges_congr h] at hiff'
  exact hiff'.trans resolution?_breakCycles_eq_some_iff.symm

/-- A declaration with the same failure in both keeps the same one, or leads to
the same cycle. -/
theorem failure?_breakCycles_congr (h : o'.resolutions = o.resolutions)
    (hf : o'.failure? id = o.failure? id) :
    o'.breakCycles.failure? id = o.breakCycles.failure? id :=
  (breakCycles_congr (resolution?_congr h) hf fun t _ => by rw [cycles_edges_congr h]).2

end Outcomes

/-! ## A first build and a rebuild -/

namespace Discovery

variable {σ : Type} {setting : Setting σ} {world : σ} {ws : Workspace} {current : Graph}
  {reported : FailureMap} {l : Ledger} {d : Declaration} {r : Reference} {u : Url}

/-- The files that a graph would hand over are those that would be read. -/
def UpToDate (setting : Setting σ) (world : σ) (ws : Workspace) (current : Graph) : Prop :=
  ∀ (u : Url) f, current.files[u]? = some f → ws[u]? = none →
    setting.read world u = .ok f.text

theorem upToDate_iff : UpToDate setting world ws current ↔ ∀ f ∈ current.files.values,
    ws.contains f.uri = false → setting.read world f.uri = .ok f.text := by
  simp only [FileMap.contains_eq_isSome, Option.isSome_eq_false_iff, Option.isNone_iff_eq_none]
  constructor
  · exact fun h f hf => h f.uri f (FileMap.mem_values_iff.1 hf)
  · intro h u f hf
    obtain rfl := FileMap.uri_of_getElem? hf
    exact h f (FileMap.mem_values_iff.2 hf)

instance : Decidable (UpToDate setting world ws current) :=
  decidable_of_iff _ upToDate_iff.symm

theorem fetch_ofGraph (h : UpToDate setting world ws current) :
    Context.fetch ⟨setting, world, ws, .ofGraph current reported⟩ u =
      Context.fetch ⟨setting, world, ws, .none⟩ u := by
  have hempty : Prior.none.files[u]? = none := FileMap.getElem?_empty
  rw [Context.fetch, Context.fetch]
  dsimp only [Prior.ofGraph]
  rw [hempty]
  cases hw : ws[u]? with
  | some f => rfl
  | none =>
    cases hf : current.files[u]? with
    | none => rfl
    | some f =>
      dsimp only
      rw [h u f hf hw, ← FileMap.uri_of_getElem? hf]
      exact congrArg Except.ok f.eq_parse

/-- A first build lets a declaration wait that needs a restore. -/
theorem verdict_of_needsRestore (hs : setting.routes.statusIn world l d = .needsRestore r) :
    Context.verdict ⟨setting, world, ws, .none⟩ l d = .pending r := by
  rw [Context.verdict, hs]
  rfl

/-- A rebuild does not, when the restore has been tried. -/
theorem verdict_of_attempted (hs : setting.routes.statusIn world l d = .needsRestore r)
    (ha : (Prior.ofGraph current reported).attempted d.id = true) :
    Context.verdict ⟨setting, world, ws, .ofGraph current reported⟩ l d =
      .failed (reported[d.id]?.getD (.restoreOutcomeMissing r.qualified)) := by
  rw [Context.verdict, hs]
  dsimp only
  rw [if_pos ha, restoreOutcome, (Routes.of_needsRestore hs).2.1]
  dsimp only [Prior.ofGraph]
  cases reported[d.id]? <;> rfl

/-- On any other declaration the two agree. -/
theorem verdict_ofGraph (h : UpToDate setting world ws current)
    (hs : (Prior.ofGraph current reported).attempted d.id = true →
      ∀ r, setting.routes.statusIn world l d ≠ .needsRestore r) :
    Context.verdict ⟨setting, world, ws, .ofGraph current reported⟩ l d =
      Context.verdict ⟨setting, world, ws, .none⟩ l d := by
  rw [Context.verdict, Context.verdict]
  cases hst : setting.routes.statusIn world l d with
  | failed f => rfl
  | available => simp only [fetch_ofGraph h]
  | needsRestore r =>
    dsimp only
    rw [if_neg fun ha => hs ha r hst]
    rfl

theorem alike_ofGraph (h : UpToDate setting world ws current) (reported : FailureMap)
    (l : Ledger) :
    Alike ⟨setting, world, ws, .none⟩ ⟨setting, world, ws, .ofGraph current reported⟩ l := by
  refine ⟨fun u => fetch_ofGraph h, fun d t => ?_⟩
  by_cases ha : (Prior.ofGraph current reported).attempted d.id = true ∧
      ∃ r, setting.routes.statusIn world l d = .needsRestore r
  · obtain ⟨ha, r, hs⟩ := ha
    rw [verdict_of_attempted hs ha, verdict_of_needsRestore hs]
    exact ⟨nofun, nofun⟩
  · rw [verdict_ofGraph h fun hat r hs => ha ⟨hat, r, hs⟩]

end Discovery

namespace Setting

open Discovery

variable {σ : Type} {setting : Setting σ} {site : Site σ} {ws : Workspace} {current : Graph}
  {reported : FailureMap} {n : Nat}

/-- The restore of a declaration's module has been tried, and it is still missing. -/
def StillMissing (setting : Setting σ) (site : Site σ) (current : Graph)
    (reported : FailureMap) (d : Declaration) (r : Reference) : Prop :=
  (Prior.ofGraph current reported).attempted d.id = true ∧
    (setting.routes.status site.world site.ledger d).1 = .needsRestore r

/-- The second graph is what a rebuild makes where a first build makes the first one. -/
structure Renews (setting : Setting σ) (site : Site σ) (current : Graph)
    (reported : FailureMap) (g g' : Graph) : Prop where
  entry : g'.entry = g.entry
  files : g'.files = g.files
  resolutions : g'.resolutions = g.resolutions
  /-- What is still missing waits in a first build and fails in a rebuild. -/
  missing : ∀ d r, g.declaration? d.id = some d →
    setting.StillMissing site current reported d r →
      g.failure? d.id = some (.restoreRequired r.qualified) ∧ g.isPending d.id = true ∧
        g'.failure? d.id =
          some (reported[d.id]?.getD (.restoreOutcomeMissing r.qualified)) ∧
        g'.isPending d.id = false
  /-- Everything else is the same. -/
  others : ∀ id, (∀ d r, g.declaration? id = some d →
      ¬ setting.StillMissing site current reported d r) →
    g'.failure? id = g.failure? id ∧ g'.isPending id = g.isPending id
  pending : ∀ id, g'.isPending id =
    (g.isPending id && !(current.isPending id || reported.contains id))

/-- How a first build and a rebuild end. -/
inductive Agree (setting : Setting σ) (site : Site σ) (current : Graph)
    (reported : FailureMap) :
    Option (Except BuildError Graph × Site σ) → Option (Except BuildError Graph × Site σ) →
      Prop where
  /-- The budget does not suffice for either. -/
  | unfinished : Agree setting site current reported none none
  | failed {e : BuildError} {site₁ site₂ : Site σ} :
      Agree setting site current reported (some (.error e, site₁)) (some (.error e, site₂))
  | built {g g' : Graph} {site₁ site₂ : Site σ}
      (h : setting.Renews site current reported g g') :
      Agree setting site current reported (some (.ok g, site₁)) (some (.ok g', site₂))

section Surveyed

variable {entry : Url} {s s' : Discovery} {d : Declaration} {r : Reference}
  {id : DeclarationId} (h : UpToDate setting site.world ws current)
  (hs : Surveyed ⟨setting, site.world, ws, .none⟩ site.ledger entry s)
  (hs' : Surveyed ⟨setting, site.world, ws, .ofGraph current reported⟩ site.ledger entry s')

include h hs hs'

/-- Every id shows the verdicts on one and the same declaration. -/
theorem shows_ofGraph (id : DeclarationId) :
    s'.outcomes.Shows id (((s.graph entry).declaration? id).map
      (Context.verdict ⟨setting, site.world, ws, .ofGraph current reported⟩ site.ledger)) := by
  rw [← (alike_ofGraph h reported site.ledger).declaration?_eq hs hs']
  exact hs'.shows_declaration? id

theorem shows_missing (hd : (s.graph entry).declaration? d.id = some d)
    (hm : setting.StillMissing site current reported d r) :
    s.outcomes.Shows d.id (some (.pending r)) ∧ s'.outcomes.Shows d.id
      (some (.failed (reported[d.id]?.getD (.restoreOutcomeMissing r.qualified)))) := by
  obtain ⟨ha, hst⟩ := hm
  rw [Routes.status_fst] at hst
  have hv := hs.shows_declaration? d.id
  have hv' := shows_ofGraph h hs hs' d.id
  rw [hd, Option.map_some] at hv hv'
  rw [verdict_of_needsRestore hst] at hv
  rw [verdict_of_attempted hst ha] at hv'
  exact ⟨hv, hv'⟩

theorem same_others (hid : ∀ d r, (s.graph entry).declaration? id = some d →
      ¬ setting.StillMissing site current reported d r) :
    s'.outcomes.failure? id = s.outcomes.failure? id ∧
      s'.outcomes.isPending id = s.outcomes.isPending id := by
  have hv := hs.shows_declaration? id
  have hv' := shows_ofGraph h hs hs' id
  cases hd : (s.graph entry).declaration? id with
  | none =>
    rw [hd] at hv hv'
    exact ⟨hv'.failure?.trans hv.failure?.symm, hv'.isPending.trans hv.isPending.symm⟩
  | some d =>
    have hmiss : (Prior.ofGraph current reported).attempted d.id = true →
        ∀ r, setting.routes.statusIn site.world site.ledger d ≠ .needsRestore r := by
      intro ha r hst
      exact hid d r hd ⟨ha, by rw [Routes.status_fst, hst]⟩
    rw [hd, Option.map_some] at hv hv'
    rw [verdict_ofGraph h hmiss] at hv'
    exact ⟨hv'.failure?.trans hv.failure?.symm, hv'.isPending.trans hv.isPending.symm⟩

/-- What waits in a first build needs a restore, so that a rebuild decides it by
whether the restore has been tried. -/
theorem pending_ofGraph (id : DeclarationId) : s'.outcomes.isPending id =
    (s.outcomes.isPending id && !(current.isPending id || reported.contains id)) := by
  by_cases hm : ∃ d r, (s.graph entry).declaration? id = some d ∧
      setting.StillMissing site current reported d r
  · obtain ⟨d, r, hd, hm⟩ := hm
    obtain rfl := (declaration?_graph.1 hd).2
    have ha : (current.isPending d.id || reported.contains d.id) = true := hm.1
    rw [(shows_missing h hs hs' hd hm).2.isPending, ha, Bool.not_true, Bool.and_false]
    rfl
  · have hid : ∀ d r, (s.graph entry).declaration? id = some d →
        ¬ setting.StillMissing site current reported d r :=
      fun d r hd hmd => hm ⟨d, r, hd, hmd⟩
    rw [(same_others h hs hs' hid).2]
    cases hp : s.outcomes.isPending id with
    | false => rfl
    | true =>
      cases hd : (s.graph entry).declaration? id with
      | none =>
        rw [(hs.shows_declaration? id).isPending, hd] at hp
        cases hp
      | some d =>
        rw [(hs.shows_declaration? id).isPending, hd, Option.map_some, Option.any_some] at hp
        obtain ⟨r, hv⟩ := Verdict.isPending_iff.1 hp
        have hst := (needsRestore_of_verdict hv).1
        have ha : (current.isPending id || reported.contains id) = false := by
          rw [← Bool.not_eq_true, ← (declaration?_graph.1 hd).2]
          exact fun ha => hid d r hd ⟨ha, by rw [Routes.status_fst, hst]⟩
        rw [ha]
        rfl

theorem renews_graph : setting.Renews site current reported (s.graph entry) (s'.graph entry) := by
  have halike := alike_ofGraph h reported site.ledger
  have hres := halike.resolutions_eq hs hs'
  refine ⟨rfl, halike.files_eq hs hs', Outcomes.resolutions_breakCycles_congr hres,
    fun d r hd hm => ?_, fun id hid => ?_, fun id => ?_⟩
  · obtain ⟨hv, hv'⟩ := shows_missing h hs hs' hd hm
    rw [failure?_graph_of_unresolved hv.resolution?, isPending_graph,
      failure?_graph_of_unresolved hv'.resolution?, isPending_graph]
    exact ⟨hv.failure?, hv.isPending, hv'.failure?, hv'.isPending⟩
  · obtain ⟨hf, hp⟩ := same_others h hs hs' hid
    rw [isPending_graph, isPending_graph]
    exact ⟨Outcomes.failure?_breakCycles_congr hres hf, hp⟩
  · rw [isPending_graph, isPending_graph]
    exact pending_ofGraph h hs hs' id

end Surveyed

/-- When the files of a graph that are not open are those that would be read, a
rebuild of the graph agrees with a first build of its entry. -/
theorem rebuild_agrees_with_build (h : UpToDate setting site.world ws current) :
    setting.Agree site current reported (setting.build n site ws current.entry)
      (setting.rebuild n site ws current reported) := by
  have halike := alike_ofGraph h reported site.ledger
  rw [build, rebuild, buildWith_eq, buildWith_eq]
  cases hb : survey ⟨setting, site.world, ws, .none⟩ n site.ledger current.entry with
  | none =>
    cases hr : survey ⟨setting, site.world, ws, .ofGraph current reported⟩ n site.ledger
        current.entry with
    | none => exact .unfinished
    | some r =>
      obtain ⟨r', hr'⟩ := halike.symm.exists_survey hr
      rw [hb] at hr'
      cases hr'
  | some b =>
    obtain ⟨r, hr⟩ := halike.exists_survey hb
    rw [hr]
    cases survey_ends hb with
    | unreadable hf =>
      cases survey_ends hr with
      | unreadable hf' =>
        rw [halike.fetch, hf] at hf'
        cases hf'
        exact .failed
      | surveyed hf' =>
        rw [halike.fetch, hf] at hf'
        cases hf'
    | surveyed hf hs =>
      cases survey_ends hr with
      | unreadable hf' =>
        rw [halike.fetch, hf] at hf'
        cases hf'
      | surveyed hf' hs' => exact .built (renews_graph h hs hs')

/-- The graph of a first build is up to date, as long as the same files are open
and the others are read as they were. -/
theorem upToDate_of_build {site' : Site σ} {entry : Url} {g : Graph}
    (h : setting.build n site ws entry = some (.ok g, site')) :
    UpToDate setting site.world ws g := by
  obtain ⟨s, hs, rfl, -⟩ := buildWith_ok h
  intro u f hf hw
  have hfetch := ((hs.files u f).1 hf).2
  have hempty : Prior.none.files[u]? = none := FileMap.getElem?_empty
  rw [Context.fetch] at hfetch
  dsimp only at hfetch
  rw [hw, hempty] at hfetch
  dsimp only at hfetch
  cases hr : setting.read site.world u with
  | ok text => rw [hr] at hfetch; cases hfetch; rfl
  | error e => rw [hr] at hfetch; cases hfetch

end Setting

namespace Sample

/-- In the small setting the first build waits for both modules, and a rebuild of
its graph agrees with it. -/
theorem rebuild_agrees_main :
    ∃ g : Graph, Discovery.UpToDate setting site.world ∅ g ∧ g.pending.size = 2 ∧
      setting.Agree site g ∅ (setting.build 2 site ∅ g.entry) (setting.rebuild 2 site ∅ g ∅) := by
  obtain ⟨g, site', h, hsize, -⟩ := exists_build
  have hfresh := Setting.upToDate_of_build h
  exact ⟨g, hfresh, hsize, Setting.rebuild_agrees_with_build hfresh⟩

end Sample

end ModuleGraph
